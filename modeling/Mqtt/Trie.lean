/-!
# Tries over levels

A trie holds an entry for every path of levels. Most entries are blank; a node is kept only while
its entry or one of its children is not. The children of a node are a `Forest`: nodes with different
levels in ascending order, written as a binary tree of first children and next siblings, so that
recursion over it is recursion over one inductive type.

Models what `TrieNode` and `RetainNode` have in common: `update` makes the nodes of a path as
`insert` does, `updatePruned` goes down the nodes that are there and drops those that are empty on
its way back, as `remove` and `release` do.
-/

namespace Mqtt

/-- A kind of entry with one value that stands for nothing stored. -/
class Blank (α : Type) where
  blank : α
  isBlank : α → Bool
  isBlank_iff : ∀ a, isBlank a = true ↔ a = blank

/-- Nodes beside each other. `cons level entry children rest` is a node and its later siblings. -/
inductive Forest (α : Type) where
  | nil
  | cons (level : String) (entry : α) (children : Forest α) (rest : Forest α)
  deriving DecidableEq

/-- A node with everything below it. -/
structure Trie (α : Type) where
  entry : α
  children : Forest α
  deriving DecidableEq

namespace Forest

variable {α : Type}

instance : Inhabited (Forest α) := ⟨nil⟩

def isEmpty : Forest α → Bool
  | nil => true
  | cons _ _ _ _ => false

/-- The node of a level. -/
def find? (level : String) : Forest α → Option (Trie α)
  | nil => none
  | cons l entry children rest => if l = level then some ⟨entry, children⟩ else rest.find? level

/-- Put a node in its place, instead of the one that has its level. -/
def insert (level : String) (t : Trie α) : Forest α → Forest α
  | nil => cons level t.entry t.children nil
  | cons l entry children rest =>
    if l = level then cons level t.entry t.children rest
    else if level < l then cons level t.entry t.children (cons l entry children rest)
    else cons l entry children (rest.insert level t)

/-- Take the node of a level away. -/
def erase (level : String) : Forest α → Forest α
  | nil => nil
  | cons l entry children rest =>
    if l = level then rest else cons l entry children (rest.erase level)

/-- The nodes side by side, without their levels. -/
def tries : Forest α → List (Trie α)
  | nil => []
  | cons _ entry children rest => ⟨entry, children⟩ :: rest.tries

/-- The nodes whose level passes a test, with all that is below them. -/
def filterLevels (keep : String → Bool) : Forest α → Forest α
  | nil => nil
  | cons l entry children rest =>
    if keep l then cons l entry children (rest.filterLevels keep) else rest.filterLevels keep

/-- All entries below the path `above`, each with its path; paths are given from their last level
up. A node comes before its children and these before its siblings. -/
def entries (above : List String) : Forest α → List (List String × α)
  | nil => []
  | cons l entry children rest =>
    (l :: above, entry) :: (children.entries (l :: above) ++ rest.entries above)

/-- All entries in the order of `entries`. -/
def values : Forest α → List α
  | nil => []
  | cons _ entry children rest => entry :: (children.values ++ rest.values)

/-- Change every entry and drop the nodes that have become blank. -/
def mapPruned [Blank α] (f : α → α) : Forest α → Forest α
  | nil => nil
  | cons l entry children rest =>
    let entry := f entry
    let children := children.mapPruned f
    let rest := rest.mapPruned f
    if Blank.isBlank entry && children.isEmpty then rest else cons l entry children rest

end Forest

namespace Trie

variable {α : Type} [Blank α]

/-- Nothing stored. -/
def empty : Trie α := ⟨Blank.blank, .nil⟩

instance : Inhabited (Trie α) := ⟨empty⟩

def isEmpty (t : Trie α) : Bool := Blank.isBlank t.entry && t.children.isEmpty

/-- Change the entry at a path, making the nodes on the way. What the change tells of the entry comes back. -/
def update {β : Type} (f : α → β × α) (t : Trie α) : List String → β × Trie α
  | [] =>
    let (told, entry) := f t.entry
    (told, { t with entry })
  | level :: path =>
    let (told, child) := ((t.children.find? level).getD empty).update f path
    (told, { t with children := t.children.insert level child })

/-- Change the entry at a path if there is a node, and drop the nodes of the path that have become
blank. What the change tells of the entry comes back, and `absent` if there is no node. -/
def updatePruned {β : Type} (f : α → β × α) (absent : β) (t : Trie α) : List String → β × Trie α
  | [] =>
    let (told, entry) := f t.entry
    (told, { t with entry })
  | level :: path =>
    match t.children.find? level with
    | none => (absent, t)
    | some child =>
      let (told, child) := child.updatePruned f absent path
      (told, { t with
        children :=
          if child.isEmpty then t.children.erase level else t.children.insert level child })

/-- Change every entry and drop the nodes that have become blank. The root stays. -/
def mapPruned (f : α → α) (t : Trie α) : Trie α := ⟨f t.entry, t.children.mapPruned f⟩

end Trie

end Mqtt
