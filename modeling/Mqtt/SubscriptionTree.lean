import Mqtt.QoS
import Mqtt.Topic
import Mqtt.Trie
import Std.Data.ExtTreeMap

/-!
# Subscriptions

Every subscription stands at the node of its filter: wildcards are levels like any other, and only
matching treats them differently. A node holds the quality of service granted to each client that
uses its filter.

Models `SubscriptionTree`: `subscribe` with `TrieNode::insert`, `unsubscribe` with
`TrieNode::remove`, `unsubscribe_all`, `retain_clients` (`filterClients`), `matches` (`subscribers`)
and `subscriptions` with `filters_of`.
-/

namespace Mqtt

/-- Quality of service by client. -/
abbrev Grants := Std.ExtTreeMap String QoS

instance : Blank Grants where
  blank := ∅
  isBlank := Std.ExtTreeMap.isEmpty
  isBlank_iff _ := Std.ExtTreeMap.isEmpty_iff

/-- The subscriptions of all clients. -/
structure SubscriptionTree where
  root : Trie Grants

namespace SubscriptionTree

def empty : SubscriptionTree := ⟨.empty⟩

instance : Inhabited SubscriptionTree := ⟨empty⟩

def isEmpty (t : SubscriptionTree) : Bool := t.root.isEmpty

/-- Put a grant among those of a node, and tell whether there was none. -/
def grant (client : String) (q : QoS) (g : Grants) : Bool × Grants := (g[client]?.isNone, g.insert client q)

/-- Take a grant away from those of a node, and tell whether there was one. -/
def revoke (client : String) (g : Grants) : Bool × Grants := (g[client]?.isSome, g.erase client)

/-- Add or replace a subscription. Whether it is new comes back. -/
def subscribe (t : SubscriptionTree) (filter client : String) (q : QoS) : Bool × SubscriptionTree :=
  let (isNew, root) := t.root.update (grant client q) (Topic.levels filter)
  (isNew, ⟨root⟩)

/-- Take a subscription away. Whether there was one comes back. -/
def unsubscribe (t : SubscriptionTree) (filter client : String) : Bool × SubscriptionTree :=
  let (removed, root) := t.root.updatePruned (revoke client) false (Topic.levels filter)
  (removed, ⟨root⟩)

/-- Leave only the subscriptions of the clients that pass a test. -/
def filterClients (t : SubscriptionTree) (keep : String → Bool) : SubscriptionTree :=
  ⟨t.root.mapPruned fun g => g.filter fun client _ => keep client⟩

/-- Take all subscriptions of a client away. -/
def unsubscribeAll (t : SubscriptionTree) (client : String) : SubscriptionTree :=
  t.filterClients (· ≠ client)

/-- The grants of a wildcard for all further levels below a node. -/
def multiGrants (t : Trie Grants) : List Grants :=
  (t.children.find? Topic.multiWildcard).toList.map (·.entry)

/-- The grants of every filter below a node that matches the levels of a topic. In the first level
wildcards pass over reserved topics. -/
def matchingGrants (first : Bool) (t : Trie Grants) : List String → List Grants
  | [] => t.entry :: multiGrants t
  | level :: rest =>
    let wildcards :=
      if first && Topic.isReserved level then []
      else multiGrants t ++
        match t.children.find? Topic.singleWildcard with
        | some child => matchingGrants false child rest
        | none => []
    let literal := match t.children.find? level with
      | some child => matchingGrants false child rest
      | none => []
    wildcards ++ literal

/-- Add a grant; of two to one client the greater counts. -/
def raise (best : Grants) (client : String) (q : QoS) : Grants :=
  best.insert client (max (best.getD client q) q)

/-- The clients with a filter that matches a topic, each once, at the greatest quality of service
granted for such a filter. -/
def subscribers (t : SubscriptionTree) (topic : String) : Grants :=
  ((matchingGrants true t.root (Topic.levels topic)).flatMap (·.toList)).foldl
    (fun best (client, q) => raise best client q) ∅

/-- The order of subscriptions: by filter, then by quality of service. -/
def lineLE (a b : String × QoS) : Bool := a.1 < b.1 || (a.1 = b.1 && a.2 ≤ b.2)

/-- The filters of a client in ascending order, each with the quality of service granted. -/
def subscriptions (t : SubscriptionTree) (client : String) : List (String × QoS) :=
  let lines := (t.root.children.entries []).filterMap fun (path, grants) =>
    grants[client]?.map fun q => ("/".intercalate path.reverse, q)
  lines.mergeSort lineLE

end SubscriptionTree

end Mqtt
