import Mathlib.Data.List.Basic
import Mqtt.Proofs.Lookup

/-!
# A forest as a list of nodes

The nodes of a forest side by side are a list of tries, each with its level, and everything that is done to
all of them is done to that list. `Forest.filterMap_listing` takes the entries of a forest apart into those
of its nodes, so that a walk over a trie is compared with a walk over the list of its entries level by level.
-/

namespace Mqtt

variable {α β : Type}

namespace Forest

/-- The nodes side by side, each with its level. -/
def nodes : Forest α → List (String × Trie α)
  | nil => []
  | cons l entry children rest => (l, ⟨entry, children⟩) :: rest.nodes

/-- All entries, each with its path from the top. -/
def listing (f : Forest α) : List (List String × α) := (f.entries []).map fun (path, a) => (path.reverse, a)

theorem tries_eq_nodes (f : Forest α) : f.tries = f.nodes.map (·.2) := by
  induction f with
  | nil => rfl
  | cons l entry children rest _ ih => rw [tries, nodes, List.map_cons, ih]

theorem nodes_filterLevels (keep : String → Bool) (f : Forest α) :
    (f.filterLevels keep).nodes = f.nodes.filter fun n => keep n.1 := by
  induction f with
  | nil => rfl
  | cons l entry children rest _ ih =>
    rw [filterLevels, nodes]
    by_cases hl : keep l = true
    · rw [if_pos hl, nodes, ih]
      simp [hl]
    · rw [if_neg hl, ih]
      simp [hl]

theorem Sorted.of_mem_nodes {f : Forest α} (hf : f.Sorted) {n : String × Trie α} (hn : n ∈ f.nodes) :
    n.2.children.Sorted := by
  induction f with
  | nil => cases hn
  | cons l entry children rest _ ih =>
    rcases List.mem_cons.1 hn with rfl | hn
    · exact hf.2.1
    · exact ih hf.2.2 hn

/-- Of the nodes side by side only one has a given level. -/
theorem Sorted.flatMap_nodes {f : Forest α} (hf : f.Sorted) (level : String) (g : Trie α → List β) :
    (f.nodes.flatMap fun n => if n.1 = level then g n.2 else []) = (f.find? level).elim [] g := by
  induction f with
  | nil => rfl
  | cons l entry children rest _ ih =>
    obtain ⟨hl, -, hrest⟩ := hf
    rw [nodes, List.flatMap_cons, ih hrest, Forest.find?]
    by_cases h : l = level
    · have hgone : rest.find? level = none :=
        find?_eq_none_iff.2 fun hmem => String.lt_irrefl l (by simpa [h] using hl level hmem)
      simp [h, hgone]
    · simp [h]

/-! ### The entries of the nodes -/

theorem entries_append (f : Forest α) (above below : List String) :
    f.entries (above ++ below) = (f.entries above).map fun (path, a) => (path ++ below, a) := by
  induction f generalizing above with
  | nil => rfl
  | cons l entry children rest ihc ihr =>
    have hbelow := ihc (l :: above)
    rw [List.cons_append] at hbelow
    rw [entries, entries, hbelow, ihr]
    simp

theorem values_eq_entries (f : Forest α) (above : List String) : f.values = (f.entries above).map (·.2) := by
  induction f generalizing above with
  | nil => rfl
  | cons l entry children rest ihc ihr =>
    rw [values, entries, ihc (l :: above), ihr above]
    simp

theorem values_eq_listing (f : Forest α) : f.values = f.listing.map (·.2) := by
  rw [values_eq_entries f [], listing, List.map_map]
  rfl

end Forest

/-- All entries of a trie, each with its path. -/
def Trie.listing (t : Trie α) : List (List String × α) := ([], t.entry) :: t.children.listing

/-- What is listed at a path is what lookup finds there, apart from blank entries. -/
theorem Trie.mem_listing [Blank α] {t : Trie α} (ht : t.children.Sorted) {a : α} (ha : a ≠ Blank.blank)
    {path : List String} : (path, a) ∈ t.listing ↔ t.get path = a := by
  rw [listing, List.mem_cons, Forest.listing, List.mem_map]
  constructor
  · rintro (heq | ⟨⟨above, _⟩, hmem, heq⟩)
    · cases heq
      rfl
    · cases heq
      obtain ⟨l, p, rfl, hget⟩ := (Forest.mem_entries ht ha).1 hmem
      rw [← get_cons] at hget
      simpa using hget
  · intro hget
    cases path with
    | nil => exact .inl (congrArg (Prod.mk []) hget.symm)
    | cons l p =>
      rw [get_cons] at hget
      exact .inr ⟨((l :: p).reverse, a), (Forest.mem_entries ht ha).2 ⟨l, p, (List.append_nil _).symm, hget⟩, by simp⟩

namespace Forest

/-- The entries of a forest are those of its nodes, below the levels of the nodes. -/
theorem listing_eq (f : Forest α) :
    f.listing = f.nodes.flatMap fun n => n.2.listing.map fun (path, a) => (n.1 :: path, a) := by
  induction f with
  | nil => rfl
  | cons l entry children rest _ ih =>
    have hbelow : children.entries [l] = (children.entries []).map fun (path, a) => (path ++ [l], a) :=
      entries_append children [] [l]
    rw [nodes, List.flatMap_cons, ← ih, listing, entries, hbelow, Trie.listing, listing, listing]
    simp

theorem filterMap_listing (f : Forest α) (g : List String × α → Option β) :
    f.listing.filterMap g =
      f.nodes.flatMap fun n => n.2.listing.filterMap fun (path, a) => g (n.1 :: path, a) := by
  rw [listing_eq, List.filterMap_flatMap]
  simp only [List.filterMap_map]
  rfl

end Forest

end Mqtt
