import Mqtt.FixedHeader

/-!
# Reading packet bodies

For every kind of packet, the fields of its body in order. Only the structure is checked here:
flags, lengths, text and reserved bits. What a packet means to the receiver is checked when it is
handled.

Models `BodyDecoder` with the decoder of each kind (`ConnectDecoder`, `PublishDecoder` and so on),
as programs of field readers.
-/

namespace Mqtt.Body

open Reader

/-- A quality of service written as a number. -/
def qos (n : Nat) : Reader QoS :=
  match QoS.ofNat? n with
  | some q => .done q
  | none => .fail (.invalidQoS n)

/-- Read a field if it is announced. -/
def optional {α : Type} (present : Bool) (field : Reader α) : Reader (Option α) :=
  if present then some <$> field else pure none

/-- What the flags of CONNECT announce. -/
structure ConnectFlags where
  username : Bool
  password : Bool
  willRetain : Bool
  willQoS : QoS
  will : Bool
  cleanSession : Bool

/-- Read the flags of CONNECT. The reserved bit must be clear, there is no will quality or will
retention without a will, and no password without a user name. -/
def connectFlags (flags : UInt8) : Except ProtocolError ConnectFlags :=
  if flags &&& 0x01 ≠ 0 then .error (.invalidConnectFlags flags)
  else match QoS.ofNat? (flags.toNat / 8 % 4) with
    | none => .error (.invalidQoS (flags.toNat / 8 % 4))
    | some willQoS =>
      let f : ConnectFlags :=
        { username := flags &&& 0x80 ≠ 0, password := flags &&& 0x40 ≠ 0,
          willRetain := flags &&& 0x20 ≠ 0, willQoS, will := flags &&& 0x04 ≠ 0,
          cleanSession := flags &&& 0x02 ≠ 0 }
      if !f.will && (f.willQoS ≠ .atMostOnce || f.willRetain) then
        .error (.invalidConnectFlags flags)
      else if !f.username && f.password then .error (.invalidConnectFlags flags)
      else .ok f

/-- The will of a CONNECT with the given flags. -/
def will (f : ConnectFlags) : Reader Will := do
  let topic ← text
  let payload ← binary
  return { topic, payload, qos := f.willQoS, retain := f.willRetain }

def connect : Reader Packet := do
  let protocolName ← text
  let protocolLevel ← byte
  let flags ← byte
  let f ← ofExcept (connectFlags flags)
  let keepAlive ← word
  let clientId ← text
  let will ← optional f.will (will f)
  let username ← optional f.username text
  let password ← optional f.password binary
  return .connect
    { protocolName, protocolLevel, cleanSession := f.cleanSession, keepAlive, clientId, will,
      username, password }

def connack : Reader Packet := do
  let flags ← byte
  if flags &&& 0xFE ≠ 0 then .fail (.malformedPacket (.connackFlags flags))
  else
    let code ← byte
    match ConnackCode.ofNat? code.toNat with
    | some c => return .connack (flags &&& 0x01 ≠ 0) c
    | none => .fail (.malformedPacket (.connackCode code))

/-- The payload is whatever the announced length leaves after topic and identifier. -/
def publish (flags : UInt8) (q : QoS) (length : Nat) : Reader Packet := do
  let topic ← text
  let packetId ← optional q.isAcknowledged word
  let used := 2 + topic.utf8ByteSize + (if q.isAcknowledged then 2 else 0)
  let payload ← bytes (length - used)
  return .publish
    { dup := flags &&& 0x08 ≠ 0, qos := q, retain := flags &&& 0x01 ≠ 0, topic, packetId, payload }

/-- The lines of a SUBSCRIBE that fill `left` bytes. -/
def topicRequests (left : Nat) : Reader (List TopicRequest) :=
  if h : left = 0 then pure []
  else do
    let filter ← text
    let options ← byte
    if options &&& 0xFC ≠ 0 then .fail (.malformedPacket (.subscribeOptions options))
    else
      let q ← qos options.toNat
      let rest ← topicRequests (left - (2 + filter.utf8ByteSize + 1))
      return ⟨filter, q⟩ :: rest
termination_by left
decreasing_by omega

def subscribe (length : Nat) : Reader Packet := do
  let id ← word
  let topics ← topicRequests (length - 2)
  if topics = [] then .fail (.malformedPacket .subscribeNothing)
  else return .subscribe id topics

/-- `n` return codes: a granted quality of service or a failure each. -/
def subackCodes : Nat → Reader (List UInt8)
  | 0 => pure []
  | n + 1 => do
    let code ← byte
    if code > 2 && code ≠ subackFailure then .fail (.malformedPacket (.subackCode code))
    else
      let rest ← subackCodes n
      return code :: rest

def suback (length : Nat) : Reader Packet := do
  let id ← word
  let codes ← subackCodes (length - 2)
  return .suback id codes

/-- The filters of an UNSUBSCRIBE that fill `left` bytes. -/
def filters (left : Nat) : Reader (List String) :=
  if h : left = 0 then pure []
  else do
    let filter ← text
    let rest ← filters (left - (2 + filter.utf8ByteSize))
    return filter :: rest
termination_by left
decreasing_by omega

def unsubscribe (length : Nat) : Reader Packet := do
  let id ← word
  let names ← filters (length - 2)
  if names = [] then .fail (.malformedPacket .unsubscribeNothing)
  else return .unsubscribe id names

/-- The fields of a kind of packet. The flags of a PUBLISH say how it is read. -/
def fields (h : FixedHeader) : Except ProtocolError (Reader Packet) :=
  match h.type with
  | .connect => return connect
  | .connack => return connack
  | .publish =>
    match QoS.ofNat? (h.flags.toNat / 2 % 4) with
    | some q => return publish h.flags q h.remainingLength
    | none => throw (.invalidQoS (h.flags.toNat / 2 % 4))
  | .puback => return .puback <$> word
  | .pubrec => return .pubrec <$> word
  | .pubrel => return .pubrel <$> word
  | .pubcomp => return .pubcomp <$> word
  | .unsuback => return .unsuback <$> word
  | .subscribe => return subscribe h.remainingLength
  | .suback => return suback h.remainingLength
  | .unsubscribe => return unsubscribe h.remainingLength
  | .pingreq => return pure .pingreq
  | .pingresp => return pure .pingresp
  | .disconnect => return pure .disconnect

/-- The body announced by a fixed header. Flags and length are checked before anything is read. -/
def reader (h : FixedHeader) : Except ProtocolError (Reader Packet) := do
  if h.type.requiredFlags.any (· ≠ h.flags) then throw (.invalidFlags h.type h.flags)
  match h.type.fixedLength with
  | some n =>
    if h.remainingLength ≠ n then
      throw (.malformedPacket (.wrongLength h.type n h.remainingLength))
  | none => pure ()
  fields h

end Mqtt.Body
