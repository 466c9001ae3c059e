import Mqtt.Message
import Mqtt.ProtocolError
import Std.Data.ExtTreeMap
import Std.Data.ExtTreeSet

/-!
# Delivery handshakes

The state of the acknowledged deliveries of one session. It serves client and broker alike, since
the handshakes are the same in both directions.

* A PUBLISH sent with an acknowledgement due is kept until PUBACK or PUBREC names it.
* After PUBREC the identifier is kept until PUBCOMP.
* A PUBLISH received for exactly-once delivery leaves its identifier until PUBREL, so that a
  repeated one is answered again and not delivered again.

Models `InflightState` and `Inbound` (`Arrival`): `publishes` is its `publish_map`, `releases` its
`pubrel_packetidentifier_set`, `received` its `publish_packetidentifier_set`.
-/

namespace Mqtt

structure Inflight where
  /-- Messages sent and not yet acknowledged, by identifier. -/
  publishes : Std.ExtTreeMap UInt16 Message
  /-- Identifiers sent that wait for PUBCOMP. -/
  releases : Std.ExtTreeSet UInt16
  /-- Identifiers received that wait for PUBREL. -/
  received : Std.ExtTreeSet UInt16

namespace Inflight

/-- No handshake is open. -/
def empty : Inflight := ⟨∅, ∅, ∅⟩

instance : Inhabited Inflight := ⟨empty⟩

def isEmpty (s : Inflight) : Bool := s.publishes.isEmpty && s.releases.isEmpty && s.received.isEmpty

/-- An open handshake of this side holds the identifier. -/
def isInUse (s : Inflight) (id : UInt16) : Bool := s.publishes.contains id || s.releases.contains id

/-- Keep a message until it is acknowledged. -/
def track (s : Inflight) (id : UInt16) (m : Message) : Inflight :=
  { s with publishes := s.publishes.insert id m }

/-! ### Packets that arrive -/

/-- A step of a handshake. What it has changed when it fails stays changed. -/
abbrev Handshaking := EStateM ProtocolError Inflight

/-- Identifier 0 is none. -/
def requireId (type : PacketType) (id : UInt16) : Handshaking UInt16 := do
  if id = 0 then throw (.missingPacketId type)
  return id

/-- What to do with a PUBLISH that arrived. -/
structure Arrival where
  /-- The message is new and goes to its receiver. -/
  deliver : Bool
  reply : Option Packet

/-- A PUBLISH arrives. -/
def onPublish (p : Publish) : Handshaking Arrival := do
  if p.qos = .atMostOnce then return ⟨true, none⟩
  let id ← requireId .publish (p.packetId.getD 0)
  if p.qos = .atLeastOnce then return ⟨true, some (.puback id)⟩
  let isNew ← modifyGet fun s =>
    (!s.received.contains id, { s with received := s.received.insert id })
  return ⟨isNew, some (.pubrec id)⟩

/-- PUBACK arrives; the message it acknowledges comes back if there is one. -/
def onPuback (id : UInt16) : Handshaking (Option Message) := do
  let id ← requireId .puback id
  modifyGet fun s => (s.publishes[id]?, { s with publishes := s.publishes.erase id })

/-- PUBREC arrives; the answer is always PUBREL. -/
def onPubrec (id : UInt16) : Handshaking Packet := do
  let id ← requireId .pubrec id
  modify fun s => { s with publishes := s.publishes.erase id }
  modify fun s => { s with releases := s.releases.insert id }
  return .pubrel id

/-- PUBREL arrives; the answer is always PUBCOMP. -/
def onPubrel (id : UInt16) : Handshaking Packet := do
  let id ← requireId .pubrel id
  modify fun s => { s with received := s.received.erase id }
  return .pubcomp id

/-- PUBCOMP arrives; whether its identifier waited for it comes back. -/
def onPubcomp (id : UInt16) : Handshaking Bool := do
  let id ← requireId .pubcomp id
  modify fun s => { s with publishes := s.publishes.erase id }
  modifyGet fun s => (s.releases.contains id, { s with releases := s.releases.erase id })

/-! ### A new connection -/

/-- What is sent again on a new connection: the messages without acknowledgement, marked as
duplicates, then PUBREL for every identifier that waits for PUBCOMP, each in ascending order. -/
def resend (s : Inflight) : List Packet :=
  s.publishes.toList.map (fun (id, m) => .publish (m.toPublish id true))
    ++ s.releases.toList.map .pubrel

end Inflight

end Mqtt
