import Mqtt.Json.Document
import Mqtt.RetainTree.Stored
import Mqtt.Session.Stored
import Mqtt.SubscriptionTree.Stored

/-!
# The session store

What a broker keeps from one run to the next: sessions by client, retained messages and
subscriptions. A section that is empty is left out of the document.

Models `SessionStore`, serialized, and what `persistence::load` makes of a file (`ofFile?`).
-/

namespace Mqtt

structure SessionStore where
  sessions : Std.ExtTreeMap String Session
  retained : RetainTree
  subscriptions : SubscriptionTree

namespace SessionStore

def empty : SessionStore := ⟨∅, .empty, .empty⟩

instance : Inhabited SessionStore := ⟨empty⟩

def toJson (s : SessionStore) : Json :=
  .ofMembers [
    ("session_store",
      if s.sessions.isEmpty then none
      else some (.obj (s.sessions.toList.map fun (client, session) => (client, session.toJson)))),
    ("retain_tree", if s.retained.isEmpty then none else some s.retained.toJson),
    ("subscription_tree", if s.subscriptions.isEmpty then none else some s.subscriptions.toJson)]

/-- Read sessions by client; a client that is named twice has the last session. -/
def sessionsOfJson? : (depth : Nat) → Json → Option (Std.ExtTreeMap String Session)
  | 0, _ => none
  | depth + 1, j => do
    let members ← j.members?
    let sessions ← members.mapM fun (client, session) => do
      return (client, ← Session.ofJson? depth session)
    return sessions.foldl (fun m (client, session) => m.insert client session) ∅

/-- Read a store, which may nest `depth` objects and lists. -/
def ofJson? : (depth : Nat) → Json → Option SessionStore
  | 0, _ => none
  | depth + 1, j => do
    let [sessions, retained, subscriptions] ←
      j.fields? ["session_store", "retain_tree", "subscription_tree"] | none
    return {
      sessions := ← fieldOr (some ∅) (sessionsOfJson? depth) sessions
      retained := ← fieldOr (some .empty) (RetainTree.ofJson? depth) retained
      subscriptions := ← fieldOr (some .empty) (SubscriptionTree.ofJson? depth) subscriptions }

/-- Read the text of a store. -/
def parse? (s : String) : Option SessionStore := (Json.parse? s).bind (ofJson? Json.maxNesting)

/-- The store in the content of a file, if the content is text at all. Without a file, or with one
that is not a store, nothing is kept. -/
def ofFile? : Option ByteArray → Option SessionStore
  | none => some empty
  | some bytes => (String.fromUTF8? bytes).map fun s => (parse? s).getD empty

end SessionStore

end Mqtt
