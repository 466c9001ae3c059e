import Mqtt.Message.Stored
import Mqtt.RetainTree
import Mqtt.Trie.Stored

/-!
# Stored retained messages

A node is an object of its message and its children by level; either is left out if there is none.

Models the serialized `RetainNode`.
-/

namespace Mqtt.RetainTree

def nodeToJson (message : Option Message) (children : List (String × Json)) : Json :=
  .ofMembers [("message", message.map Message.toJson),
    ("topic_level", if children.isEmpty then none else some (.obj children))]

def toJson (t : RetainTree) : Json :=
  nodeToJson t.root.entry (t.root.children.toMembers nodeToJson)

/-- The message of a node may also be written as null if there is none. -/
def messageOfJson? (depth : Nat) : Json → Option (Option Message)
  | .null => some none
  | j => (Message.ofJson? depth j).map some

def splitNode (depth : Nat) (j : Json) : Option (Option Message × Option Json) := do
  let [message, children] ← j.fields? ["message", "topic_level"] | none
  return (← fieldOr (some none) (messageOfJson? depth) message, children)

/-- Read retained messages, which may nest `depth` objects and lists. -/
def ofJson? (depth : Nat) (j : Json) : Option RetainTree :=
  (Trie.ofJson? splitNode depth j).map .mk

end Mqtt.RetainTree
