import Mqtt.Message.Stored
import Mqtt.SubscriptionTree
import Mqtt.Trie.Stored

/-!
# Stored subscriptions

A node is an object of its children by level and its grants by client; either is left out if empty.

Models the serialized `TrieNode`.
-/

namespace Mqtt.SubscriptionTree

/-- An object, unless it would be empty. -/
def objectUnlessEmpty (members : List (String × Json)) : Option Json :=
  if members.isEmpty then none else some (.obj members)

def nodeToJson (grants : Grants) (children : List (String × Json)) : Json :=
  .ofMembers [("topic_filter", objectUnlessEmpty children),
    ("qos_map", objectUnlessEmpty (grants.toList.map fun (client, q) => (client, q.toJson)))]

def toJson (t : SubscriptionTree) : Json :=
  nodeToJson t.root.entry (t.root.children.toMembers nodeToJson)

/-- Read the grants of a node; a client that is named twice has the last of its grants. -/
def grantsOfJson? : (depth : Nat) → Json → Option Grants
  | 0, _ => none
  | _ + 1, j => do
    let members ← j.members?
    let grants ← members.mapM fun (client, q) => do return (client, ← QoS.ofJson? q)
    return grants.foldl (fun g (client, q) => g.insert client q) ∅

def splitNode (depth : Nat) (j : Json) : Option (Grants × Option Json) := do
  let [children, grants] ← j.fields? ["topic_filter", "qos_map"] | none
  return (← fieldOr (some ∅) (grantsOfJson? depth) grants, children)

/-- Read subscriptions, which may nest `depth` objects and lists. -/
def ofJson? (depth : Nat) (j : Json) : Option SubscriptionTree :=
  (Trie.ofJson? splitNode depth j).map .mk

end Mqtt.SubscriptionTree
