import Mqtt.Proofs.Values

/-!
# How deep a value nests

`Json.fits` asks two things of a value at once: that all of it can be read, and that it does not nest too
deep. `Json.nesting` is the number behind the second, so that a value that can be read at all is known to fit
a reader by comparing two numbers (`Json.fits_iff`).
-/

namespace Mqtt.Json

mutual

/-- How many lists and objects stand inside each other in a value. -/
def nesting : Json → Nat
  | .arr items => nestingItems items + 1
  | .obj members => nestingMembers members + 1
  | .null | .bool _ | .int _ | .real | .text _ | .unreadable => 0

/-- The deepest nesting among the items of a list. -/
def nestingItems : List Json → Nat
  | [] => 0
  | item :: items => max item.nesting (nestingItems items)

/-- The deepest nesting among the members of an object. -/
def nestingMembers : List (String × Json) → Nat
  | [] => 0
  | (_, value) :: members => max value.nesting (nestingMembers members)

end

theorem nestingItems_le {items : List Json} {n : Nat} : nestingItems items ≤ n ↔ ∀ j ∈ items, j.nesting ≤ n := by
  induction items with
  | nil => simp [nestingItems]
  | cons item items ih => rw [nestingItems, Nat.max_le, ih, List.forall_mem_cons]

theorem nestingMembers_le {members : List (String × Json)} {n : Nat} :
    nestingMembers members ≤ n ↔ ∀ m ∈ members, m.2.nesting ≤ n := by
  induction members with
  | nil => simp [nestingMembers]
  | cons m members ih => rw [nestingMembers, Nat.max_le, ih, List.forall_mem_cons]

theorem nesting_arr_le {items : List Json} {n : Nat} :
    (arr items).nesting ≤ n + 1 ↔ ∀ j ∈ items, j.nesting ≤ n := by
  rw [nesting, Nat.add_le_add_iff_right, nestingItems_le]

theorem nesting_obj_le {members : List (String × Json)} {n : Nat} :
    (obj members).nesting ≤ n + 1 ↔ ∀ m ∈ members, m.2.nesting ≤ n := by
  rw [nesting, Nat.add_le_add_iff_right, nestingMembers_le]

theorem nesting_ofMembers_le {members : List (String × Option Json)} {n : Nat} :
    (ofMembers members).nesting ≤ n + 1 ↔ ∀ name j, (name, some j) ∈ members → j.nesting ≤ n := by
  rw [ofMembers_eq, nesting_obj_le]
  simp only [Prod.forall, mem_present]

theorem nesting_le_of_fits {depth : Nat} {j : Json} (h : j.fits depth = true) : j.nesting ≤ depth := by
  induction depth generalizing j with
  | zero =>
    cases j with
    | arr | obj => cases h
    | null | bool | int | real | text | unreadable => exact Nat.le_refl 0
  | succ depth ih =>
    cases j with
    | arr items =>
      obtain ⟨inner, heq, hitems⟩ := fits_arr.1 h
      cases heq
      exact nesting_arr_le.2 fun item hitem => ih (hitems item hitem)
    | obj members =>
      obtain ⟨inner, heq, hmembers⟩ := fits_obj.1 h
      cases heq
      exact nesting_obj_le.2 fun m hm => ih (hmembers m hm)
    | null | bool | int | real | text | unreadable => exact Nat.zero_le _

/-- A reader that goes deep enough for the value may go less deep, down to what the value nests. -/
theorem fits_of_nesting_le {enough depth : Nat} {j : Json} (h : j.fits enough = true) (hle : j.nesting ≤ depth) :
    j.fits depth = true := by
  induction enough generalizing j depth with
  | zero =>
    cases j with
    | arr | obj | unreadable => cases h
    | null | bool | int | real | text => exact fits_mono h (Nat.zero_le depth)
  | succ enough ih =>
    cases j with
    | arr items =>
      obtain ⟨inner, heq, hitems⟩ := fits_arr.1 h
      cases heq
      obtain _ | depth := depth
      · cases hle
      · exact fits_arr.2 ⟨depth, rfl, fun item hitem => ih (hitems item hitem) (nesting_arr_le.1 hle item hitem)⟩
    | obj members =>
      obtain ⟨inner, heq, hmembers⟩ := fits_obj.1 h
      cases heq
      obtain _ | depth := depth
      · cases hle
      · exact fits_obj.2 ⟨depth, rfl, fun m hm => ih (hmembers m hm) (nesting_obj_le.1 hle m hm)⟩
    | unreadable => cases h
    | null | bool | int | real | text => obtain _ | depth := depth <;> exact h

/-- **A value fits a reader if it can be read at all and does not nest deeper than the reader goes.** -/
theorem fits_iff {depth : Nat} {j : Json} : j.fits depth = true ↔ j.Legible ∧ j.nesting ≤ depth :=
  ⟨fun h => ⟨⟨depth, h⟩, nesting_le_of_fits h⟩, fun ⟨⟨_, h⟩, hle⟩ => fits_of_nesting_le h hle⟩

/-- A value that can be read at all fits a reader that goes as deep as it nests. -/
theorem Legible.fits_nesting {j : Json} (h : j.Legible) : j.fits j.nesting = true :=
  fits_iff.2 ⟨h, Nat.le_refl _⟩

end Mqtt.Json
