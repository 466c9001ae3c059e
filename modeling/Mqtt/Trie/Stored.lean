import Mqtt.Trie
import Mqtt.Json

/-!
# Stored tries

How a node is written depends on its entries; that children are an object from level to node does
not.
-/

namespace Mqtt

variable {α : Type}

/-- The nodes of a forest by level; `node` writes one from its entry and its written children. -/
def Forest.toMembers (node : α → List (String × Json) → Json) : Forest α → List (String × Json)
  | nil => []
  | cons level entry children rest =>
    (level, node entry (children.toMembers node)) :: rest.toMembers node

/-- Put nodes together; of two with one level the later counts. -/
def Forest.ofList (nodes : List (String × Trie α)) : Forest α :=
  nodes.foldl (fun f (level, t) => f.insert level t) .nil

/-- Read a node, which may nest `depth` objects and lists. `split` reads its entry and finds its
written children, if it has any. -/
def Trie.ofJson? (split : Nat → Json → Option (α × Option Json)) : (depth : Nat) → Json → Option (Trie α)
  | 0, _ => none
  | depth + 1, j =>
    match split depth j with
    | none => none
    | some (entry, none) => some ⟨entry, .nil⟩
    | some (entry, some children) =>
      match depth with
      | 0 => none
      | inner + 1 => do
        let members ← children.members?
        let nodes ← members.mapM fun (level, node) => do
          return (level, ← Trie.ofJson? split inner node)
        return ⟨entry, .ofList nodes⟩

end Mqtt
