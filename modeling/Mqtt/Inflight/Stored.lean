import Mqtt.Inflight
import Mqtt.Json.Document
import Mqtt.Message.Stored

/-!
# Stored handshakes

The three parts of the state of open handshakes. A part that is empty is left out. The messages sent
are a list of entries, each with its identifier beside the fields of the message; when an identifier
is repeated the last entry counts.

Models the serialized `InflightState` with the entries of its `publish_map`, and `store::load`
(`ofFile?`).
-/

namespace Mqtt

/-- A packet identifier. -/
def idToJson (id : UInt16) : Json := .ofNat id.toNat

def idOfJson? (j : Json) : Option UInt16 := (j.natUpTo? 65535).map UInt16.ofNat

namespace Inflight

def entryToJson (id : UInt16) (m : Message) : Json :=
  .obj [("packet_identifier", idToJson id), ("topic", .text m.topic),
    ("message", Payload.toJson m.payload), ("qos", m.qos.toJson), ("retain", .bool m.retain)]

/-- Read an entry, which may nest `depth` objects and lists. Only the retain flag may be absent. -/
def entryOfJson? : (depth : Nat) → Json → Option (UInt16 × Message)
  | 0, _ => none
  | depth + 1, j => do
    let [id, topic, payload, qos, retain] ←
      j.fields? ["packet_identifier", "topic", "message", "qos", "retain"] | none
    return (← fieldOr none idOfJson? id, {
      topic := ← fieldOr none Json.text? topic
      payload := ← fieldOr none (Payload.ofJson? depth) payload
      qos := ← fieldOr none QoS.ofJson? qos
      retain := ← fieldOr (some false) Json.bool? retain })

/-- The names of the three parts. -/
def partNames : List String :=
  ["publish_map", "pubrel_packetidentifier_set", "publish_packetidentifier_set"]

/-- A set of identifiers, if it has any. -/
def idsToJson? (ids : Std.ExtTreeSet UInt16) : Option Json :=
  if ids.isEmpty then none else some (.arr (ids.toList.map idToJson))

/-- The parts that are not empty. -/
def parts (s : Inflight) : List (String × Option Json) :=
  [("publish_map",
      if s.publishes.isEmpty then none
      else some (.arr (s.publishes.toList.map fun (id, m) => entryToJson id m))),
    ("pubrel_packetidentifier_set", idsToJson? s.releases),
    ("publish_packetidentifier_set", idsToJson? s.received)]

def toJson (s : Inflight) : Json := .ofMembers s.parts

/-- Read a list whose items may nest one level less than the list itself. -/
def listOfJson? {α : Type} (item : Nat → Json → Option α) : (depth : Nat) → Json → Option (List α)
  | depth + 1, .arr items => items.mapM (item depth)
  | _, _ => none

/-- Read a set of identifiers. -/
def idsOfJson? (depth : Nat) (j : Json) : Option (Std.ExtTreeSet UInt16) :=
  (listOfJson? (fun _ => idOfJson?) depth j).map (·.foldl .insert ∅)

/-- Read the messages sent. -/
def publishesOfJson? (depth : Nat) (j : Json) : Option (Std.ExtTreeMap UInt16 Message) :=
  (listOfJson? entryOfJson? depth j).map (·.foldl (fun m e => m.insert e.1 e.2) ∅)

/-- Put the state together from its parts, which may nest `depth` objects and lists. An absent part
is empty. -/
def ofParts? (depth : Nat) : List (Option Json) → Option Inflight
  | [publishes, releases, received] => do
    return {
      publishes := ← fieldOr (some ∅) (publishesOfJson? depth) publishes
      releases := ← fieldOr (some ∅) (idsOfJson? depth) releases
      received := ← fieldOr (some ∅) (idsOfJson? depth) received }
  | _ => none

/-- Read the state, which may nest `depth` objects and lists. -/
def ofJson? : (depth : Nat) → Json → Option Inflight
  | 0, _ => none
  | depth + 1, j => (j.fields? partNames).bind (ofParts? depth)

/-- Read the text of the state. -/
def parse? (s : String) : Option Inflight := (Json.parse? s).bind (ofJson? Json.maxNesting)

/-- The state in the content of a file, if the content is text at all. Without a file, or with one
that holds no state, nothing is in flight. -/
def ofFile? : Option ByteArray → Option Inflight
  | none => some .empty
  | some bytes => (String.fromUTF8? bytes).map fun s => (parse? s).getD .empty

end Inflight

end Mqtt
