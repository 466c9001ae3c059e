import Mqtt.Packet

/-!
# Protocol errors

What can be wrong with the bytes of a peer, or with a packet at the moment it arrives. Errors are
causes; `ProtocolError.message` words them.

Models `ProtocolError` with its texts and `is_framing`.
-/

namespace Mqtt

/-- A packet whose frame is sound but whose contents are not. -/
inductive Malformation where
  /-- A string with U+0000 in it. -/
  | nullCharacter
  /-- A kind of packet with one possible length came with another. -/
  | wrongLength (type : PacketType) (expected actual : Nat)
  /-- The fields end before the announced length does. -/
  | trailingBytes (type : PacketType) (count : Nat)
  /-- The announced length ends before the fields do. -/
  | fieldsExceed (type : PacketType) (remainingLength : Nat)
  | connackFlags (flags : UInt8)
  | connackCode (code : UInt8)
  | subscribeOptions (options : UInt8)
  | subackCode (code : UInt8)
  /-- A received SUBSCRIBE without a single filter. -/
  | subscribeNothing
  /-- A received UNSUBSCRIBE without a single filter. -/
  | unsubscribeNothing
  /-- A request to send a SUBSCRIBE without a filter. -/
  | emptySubscribe
  /-- A request to send an UNSUBSCRIBE without a filter. -/
  | emptyUnsubscribe
  | noSession (clientId : String)
  deriving DecidableEq

/-- A violation of the protocol. -/
inductive ProtocolError where
  | invalidPacketType (code : Nat)
  | invalidRemainingLength
  | packetTooLarge (size max : Nat)
  | invalidFlags (type : PacketType) (flags : UInt8)
  | invalidUtf8
  | invalidQoS (qos : Nat)
  | malformedPacket (what : Malformation)
  | invalidProtocolName (name : String)
  | unsupportedProtocolVersion (level : UInt8)
  | invalidConnectFlags (flags : UInt8)
  | missingPacketId (type : PacketType)
  | invalidTopicName (topic : String)
  | unexpectedPacket (type : PacketType)
  | firstPacketNotConnect
  | identifierRejected (clientId : String)
  deriving DecidableEq

/-- A byte as `0x` and two lower-case hexadecimal digits. -/
def hexByte (b : UInt8) : String :=
  String.ofList ['0', 'x', Nat.digitChar (b.toNat / 16), Nat.digitChar (b.toNat % 16)]

def Malformation.message : Malformation → String
  | nullCharacter => "UTF-8 string must not contain null character"
  | wrongLength type expected actual =>
    type.name ++ " remaining length must be " ++ toString expected ++ ", got " ++ toString actual
  | trailingBytes type count => type.name ++ " has " ++ toString count ++ " trailing bytes"
  | fieldsExceed type length =>
    type.name ++ " fields exceed remaining length " ++ toString length
  | connackFlags flags => "Invalid CONNACK flags: " ++ hexByte flags
  | connackCode code => "Invalid CONNACK return code: " ++ toString code.toNat
  | subscribeOptions options => "Invalid SUBSCRIBE options byte: " ++ hexByte options
  | subackCode code => "Invalid SUBACK return code: " ++ hexByte code
  | subscribeNothing => "SUBSCRIBE with no topics"
  | unsubscribeNothing => "UNSUBSCRIBE with no topics"
  | emptySubscribe => "SUBSCRIBE without topics"
  | emptyUnsubscribe => "UNSUBSCRIBE without topics"
  | noSession clientId => "no session for " ++ clientId

namespace ProtocolError

/-- The name of the kind of error. -/
def name : ProtocolError → String
  | invalidPacketType _ => "InvalidPacketType"
  | invalidRemainingLength => "InvalidRemainingLength"
  | packetTooLarge _ _ => "PacketTooLarge"
  | invalidFlags _ _ => "InvalidFlags"
  | invalidUtf8 => "InvalidUtf8"
  | invalidQoS _ => "InvalidQoS"
  | malformedPacket _ => "MalformedPacket"
  | invalidProtocolName _ => "InvalidProtocolName"
  | unsupportedProtocolVersion _ => "UnsupportedProtocolVersion"
  | invalidConnectFlags _ => "InvalidConnectFlags"
  | missingPacketId _ => "MissingPacketId"
  | invalidTopicName _ => "InvalidTopicName"
  | unexpectedPacket _ => "UnexpectedPacket"
  | firstPacketNotConnect => "FirstPacketNotConnect"
  | identifierRejected _ => "IdentifierRejected"

/-- The text of an error. -/
def message : ProtocolError → String
  | invalidPacketType code => "Invalid packet type: " ++ toString code
  | invalidRemainingLength => "Invalid remaining length encoding"
  | packetTooLarge size max =>
    "Packet too large: " ++ toString size ++ " bytes (max " ++ toString max ++ ")"
  | invalidFlags type flags => "Invalid fixed header flags for " ++ type.name ++ ": " ++ hexByte flags
  | invalidUtf8 => "Invalid UTF-8 string"
  | invalidQoS qos => "Invalid QoS: " ++ toString qos
  | malformedPacket what => "Malformed packet: " ++ what.message
  | invalidProtocolName name => "Invalid protocol name: expected 'MQTT', got '" ++ name ++ "'"
  | unsupportedProtocolVersion level => "Unsupported protocol version: " ++ toString level.toNat
  | invalidConnectFlags flags => "Invalid connect flags: " ++ hexByte flags
  | missingPacketId type => "Missing packet identifier in " ++ type.name
  | invalidTopicName topic => "Invalid topic name: '" ++ topic ++ "'"
  | unexpectedPacket type => "Unexpected " ++ type.name ++ " packet"
  | firstPacketNotConnect => "First packet must be CONNECT"
  | identifierRejected clientId => "Client identifier rejected: '" ++ clientId ++ "'"

/-- Errors after which the stream cannot be cut into packets any more. -/
def isFraming : ProtocolError → Bool
  | invalidPacketType _ | invalidRemainingLength | packetTooLarge _ _ => true
  | _ => false

end ProtocolError

end Mqtt
