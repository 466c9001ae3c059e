import Mqtt.QoS

/-!
# Control packets

The fourteen control packets of MQTT 3.1.1 as values. A packet identifier is a 16-bit number,
payloads and passwords are bytes, and every other text is a string.

Models `PacketType`, `ConnackCode`, `Packet` and the records it is made of; a `TopicRequest` is a
`Topic`.
-/

namespace Mqtt

/-- The kind of a control packet. -/
inductive PacketType where
  | connect | connack | publish | puback | pubrec | pubrel | pubcomp
  | subscribe | suback | unsubscribe | unsuback | pingreq | pingresp | disconnect
  deriving DecidableEq, Repr, Inhabited

namespace PacketType

/-- The number in the upper half of a packet's first byte. -/
def code : PacketType → Nat
  | connect => 1 | connack => 2 | publish => 3 | puback => 4 | pubrec => 5 | pubrel => 6
  | pubcomp => 7 | subscribe => 8 | suback => 9 | unsubscribe => 10 | unsuback => 11
  | pingreq => 12 | pingresp => 13 | disconnect => 14

/-- The kind with a given number; 0 and 15 are reserved. -/
def ofCode? : Nat → Option PacketType
  | 1 => some connect | 2 => some connack | 3 => some publish | 4 => some puback
  | 5 => some pubrec | 6 => some pubrel | 7 => some pubcomp | 8 => some subscribe
  | 9 => some suback | 10 => some unsubscribe | 11 => some unsuback | 12 => some pingreq
  | 13 => some pingresp | 14 => some disconnect | _ => none

/-- The name used in error messages. -/
def name : PacketType → String
  | connect => "Connect" | connack => "Connack" | publish => "Publish" | puback => "Puback"
  | pubrec => "Pubrec" | pubrel => "Pubrel" | pubcomp => "Pubcomp" | subscribe => "Subscribe"
  | suback => "Suback" | unsubscribe => "Unsubscribe" | unsuback => "Unsuback"
  | pingreq => "Pingreq" | pingresp => "Pingresp" | disconnect => "Disconnect"

/-- The flags the fixed header must carry. PUBLISH alone uses them for data; PUBREL, SUBSCRIBE
and UNSUBSCRIBE set bit 1, all others leave them clear. -/
def requiredFlags : PacketType → Option UInt8
  | publish => none
  | pubrel | subscribe | unsubscribe => some 2
  | _ => some 0

/-- The body length of the kinds that have only one. -/
def fixedLength : PacketType → Option Nat
  | connack | puback | pubrec | pubrel | pubcomp | unsuback => some 2
  | pingreq | pingresp | disconnect => some 0
  | _ => none

@[simp] theorem ofCode?_code (t : PacketType) : ofCode? t.code = some t := by cases t <;> rfl

end PacketType

/-- The server's answer to CONNECT. -/
inductive ConnackCode where
  | accepted | unacceptableProtocolVersion | identifierRejected | serverUnavailable
  | badUsernamePassword | notAuthorized
  deriving DecidableEq, Repr, Inhabited

namespace ConnackCode

def toNat : ConnackCode → Nat
  | accepted => 0 | unacceptableProtocolVersion => 1 | identifierRejected => 2
  | serverUnavailable => 3 | badUsernamePassword => 4 | notAuthorized => 5

def ofNat? : Nat → Option ConnackCode
  | 0 => some accepted | 1 => some unacceptableProtocolVersion | 2 => some identifierRejected
  | 3 => some serverUnavailable | 4 => some badUsernamePassword | 5 => some notAuthorized
  | _ => none

/-- The name used when a refusal is reported. -/
def name : ConnackCode → String
  | accepted => "Accepted" | unacceptableProtocolVersion => "UnacceptableProtocolVersion"
  | identifierRejected => "IdentifierRejected" | serverUnavailable => "ServerUnavailable"
  | badUsernamePassword => "BadUsernamePassword" | notAuthorized => "NotAuthorized"

@[simp] theorem ofNat?_toNat (c : ConnackCode) : ofNat? c.toNat = some c := by cases c <;> rfl

end ConnackCode

/-- Payloads are compared byte by byte, in the same way wherever they are compared. -/
instance (priority := 2000) decidableEqBytes : DecidableEq ByteArray := ByteArray.instDecidableEq

/-- The message a client leaves to be published when its connection breaks. -/
structure Will where
  topic : String
  payload : ByteArray
  qos : QoS
  retain : Bool
  deriving DecidableEq, Inhabited

/-- The protocol name CONNECT must carry. -/
def protocolName : String := "MQTT"

/-- The protocol level of MQTT 3.1.1. -/
def protocolLevel : UInt8 := 4

structure Connect where
  protocolName : String
  protocolLevel : UInt8
  cleanSession : Bool
  /-- Seconds; 0 turns the keep-alive off. -/
  keepAlive : UInt16
  clientId : String
  will : Option Will
  username : Option String
  password : Option ByteArray
  deriving DecidableEq, Inhabited

structure Publish where
  dup : Bool
  qos : QoS
  retain : Bool
  topic : String
  /-- Present exactly when the quality of service asks for an acknowledgement. -/
  packetId : Option UInt16
  payload : ByteArray
  deriving DecidableEq, Inhabited

/-- One line of a SUBSCRIBE: a topic filter and the quality of service asked for. -/
structure TopicRequest where
  filter : String
  qos : QoS
  deriving DecidableEq, Inhabited

/-- A control packet. -/
inductive Packet where
  | connect (connect : Connect)
  | connack (sessionPresent : Bool) (code : ConnackCode)
  | publish (publish : Publish)
  | puback (id : UInt16)
  | pubrec (id : UInt16)
  | pubrel (id : UInt16)
  | pubcomp (id : UInt16)
  | subscribe (id : UInt16) (topics : List TopicRequest)
  | suback (id : UInt16) (codes : List UInt8)
  | unsubscribe (id : UInt16) (filters : List String)
  | unsuback (id : UInt16)
  | pingreq
  | pingresp
  | disconnect
  deriving DecidableEq, Inhabited

/-- The SUBACK code of a filter that was not accepted. -/
def subackFailure : UInt8 := 0x80

/-- The kind of a packet. -/
def Packet.type : Packet → PacketType
  | .connect _ => .connect
  | .connack _ _ => .connack
  | .publish _ => .publish
  | .puback _ => .puback
  | .pubrec _ => .pubrec
  | .pubrel _ => .pubrel
  | .pubcomp _ => .pubcomp
  | .subscribe _ _ => .subscribe
  | .suback _ _ => .suback
  | .unsubscribe _ _ => .unsubscribe
  | .unsuback _ => .unsuback
  | .pingreq => .pingreq
  | .pingresp => .pingresp
  | .disconnect => .disconnect

end Mqtt
