import Mqtt.Message
import Mqtt.Json

/-!
# Stored messages

A message is an object of its topic, payload, quality of service and retain flag. A payload that is
UTF-8 is a text, any other a list of its bytes, so the reader can tell the two apart.

Models the serialized `Message`, `QoS` and payload (`Repr`).
-/

namespace Mqtt

namespace Payload

/-- A payload as text if it is one, else as its bytes. -/
def toJson (payload : ByteArray) : Json :=
  match String.fromUTF8? payload with
  | some s => .text s
  | none => .arr (payload.data.toList.map fun b => .ofNat b.toNat)

/-- Read a payload, which may nest `depth` lists. -/
def ofJson? : (depth : Nat) → Json → Option ByteArray
  | _, .text s => some s.toUTF8
  | _ + 1, .arr items => do
    let bytes ← items.mapM fun item => (item.natUpTo? 255).map UInt8.ofNat
    return bytes.toByteArray
  | _, _ => none

end Payload

namespace QoS

def toJson (q : QoS) : Json := .ofNat q.toNat

def ofJson? (j : Json) : Option QoS := (j.natUpTo? 255).bind QoS.ofNat?

end QoS

/-- Read a field, or take the value of an absent one. -/
def fieldOr {α : Type} (absent : Option α) (read : Json → Option α) : Option Json → Option α
  | some j => read j
  | none => absent

namespace Message

def toJson (m : Message) : Json :=
  .obj [("topic", .text m.topic), ("message", Payload.toJson m.payload), ("qos", m.qos.toJson),
    ("retain", .bool m.retain)]

/-- Read a message, which may nest `depth` objects and lists. Quality of service and retain flag
may be absent. -/
def ofJson? : (depth : Nat) → Json → Option Message
  | 0, _ => none
  | depth + 1, j => do
    let [topic, payload, qos, retain] ← j.fields? ["topic", "message", "qos", "retain"] | none
    return {
      topic := ← fieldOr none Json.text? topic
      payload := ← fieldOr none (Payload.ofJson? depth) payload
      qos := ← fieldOr (some .atMostOnce) QoS.ofJson? qos
      retain := ← fieldOr (some false) Json.bool? retain }

end Message

end Mqtt
