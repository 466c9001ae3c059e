import Mqtt.ProtocolError

/-!
# What a client reports

Events tell the application what happened on the connection; errors tell it why a call failed.

Models `ClientEvent` and `ClientError` with its texts.
-/

namespace Mqtt.Client

/-- Something that happened on the connection. -/
inductive Event where
  | connected (sessionPresent : Bool)
  | disconnected (reason : Option String)
  | message (topic : String) (payload : ByteArray) (qos : QoS) (retain : Bool)
  | subscribed (id : UInt16) (codes : List UInt8)
  | unsubscribed (id : UInt16)
  /-- A message sent "at least once" was acknowledged. -/
  | acknowledged (id : UInt16)
  /-- A message sent "exactly once" has arrived. -/
  | completed (id : UInt16)
  deriving DecidableEq, Inhabited

/-- The name of the kind of event. -/
def Event.name : Event → String
  | connected _ => "Connected"
  | disconnected _ => "Disconnected"
  | message _ _ _ _ => "Message"
  | subscribed _ _ => "SubAck"
  | unsubscribed _ => "UnsubAck"
  | acknowledged _ => "PubAck"
  | completed _ => "PubComp"

/-- Why a call makes no sense at the moment. -/
inductive Misuse where
  | alreadyConnected
  | noFreeIdentifier
  deriving DecidableEq

def Misuse.message : Misuse → String
  | alreadyConnected => "Already connected or connecting"
  | noFreeIdentifier => "No free packet identifier"

/-- Why a call failed. -/
inductive Error where
  /-- The stream or a file could not be used. -/
  | io
  | protocol (error : ProtocolError)
  | connectionRefused (code : ConnackCode)
  | connectionClosed
  | keepAliveTimeout
  | notConnected
  | invalidState (misuse : Misuse)
  deriving DecidableEq

/-- The name of the kind of error. -/
def Error.name : Error → String
  | io => "Io"
  | protocol e => "Protocol/" ++ e.name
  | connectionRefused _ => "ConnectionRefused"
  | connectionClosed => "ConnectionClosed"
  | keepAliveTimeout => "KeepAliveTimeout"
  | notConnected => "NotConnected"
  | invalidState _ => "InvalidState"

/-- The text of an error; that of a failed operation of the system is not the client's. -/
def Error.message : Error → String
  | io => "I/O error"
  | protocol e => "Protocol error: " ++ e.message
  | connectionRefused code => "Connection refused: " ++ code.name
  | connectionClosed => "Connection closed"
  | keepAliveTimeout => "Keep-alive timeout"
  | notConnected => "Not connected"
  | invalidState misuse => "Invalid state: " ++ misuse.message

end Mqtt.Client
