import Mqtt.Message
import Mqtt.Topic
import Mqtt.Trie

/-!
# Retained messages

At most one message for each topic, at the node of the topic's levels. A new subscription is walked
over the stored topics to find those it matches.

Models `RetainTree`: `retain` with `RetainNode::insert` and `release`, `matching` and `messages`.
-/

namespace Mqtt

instance : Blank (Option Message) where
  blank := none
  isBlank := Option.isNone
  isBlank_iff _ := Option.isNone_iff_eq_none

/-- The retained messages of all topics. -/
structure RetainTree where
  root : Trie (Option Message)

namespace RetainTree

def empty : RetainTree := ⟨.empty⟩

instance : Inhabited RetainTree := ⟨empty⟩

def isEmpty (t : RetainTree) : Bool := t.root.isEmpty

/-- Make a message the one retained for its topic. A message without payload only takes the present
one away; nobody asks whether there was one. -/
def retain (t : RetainTree) (m : Message) : RetainTree :=
  if m.payload.isEmpty then
    ⟨(t.root.updatePruned (fun present => (present.isSome, none)) false (Topic.levels m.topic)).2⟩
  else ⟨(t.root.update (fun _ => ((), some m)) (Topic.levels m.topic)).2⟩

/-- The messages of the topics below a node that match the levels of a filter. In the first level
wildcards pass over reserved topics. -/
def matchingBelow (first : Bool) (t : Trie (Option Message)) : List String → List Message
  | [] => t.entry.toList
  | level :: rest =>
    let visible := if first then t.children.filterLevels (!Topic.isReserved ·) else t.children
    if level = Topic.multiWildcard then t.entry.toList ++ visible.values.filterMap id
    else if level = Topic.singleWildcard then
      visible.tries.flatMap fun child => matchingBelow false child rest
    else match t.children.find? level with
      | some child => matchingBelow false child rest
      | none => []

/-- The retained messages whose topic matches a filter. -/
def matching (t : RetainTree) (filter : String) : List Message :=
  matchingBelow true t.root (Topic.levels filter)

/-- Messages are listed by topic. -/
def topicLE (a b : Message) : Bool := a.topic ≤ b.topic

/-- All retained messages by topic. -/
def messages (t : RetainTree) : List Message :=
  (t.root.entry.toList ++ t.root.children.values.filterMap id).mergeSort topicLE

end RetainTree

end Mqtt
