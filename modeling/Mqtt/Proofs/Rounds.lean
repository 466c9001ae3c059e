import Mathlib.Data.List.Iterate
import Mathlib.Data.List.Nodup
import Mqtt.Proofs.Outcomes

/-!
# The search for a free identifier: `PacketIdAllocator::allocate`

The identifiers have their turns in a circle: from the counter on up to 65535, and then from 1 on. `PacketIds.round`
writes the circle down as a list. An allocation goes round it once, no more and no less. So it gives out the first
identifier of the round that is free, and fails only when none is, wherever the counter stands
(`PacketIds.run_allocate`). Where it fails, the counter has come back to where it was.

Between two turns of an identifier all the others have theirs. `PacketIds.Trails` keeps the turns since an identifier
was given out; it is given out again only when they are whole rounds (`PacketIds.Trails.eq_iff`).
-/

namespace Mqtt.PacketIds

/-- All identifiers from one on: up to 65535, and then from 1 up to it. -/
def round (first : UInt16) : List UInt16 :=
  (List.range' first.toNat (65536 - first.toNat) ++ List.range' 1 (first.toNat - 1)).map UInt16.ofNat

section

variable {first id : UInt16} {inUse : UInt16 → Bool} {ids ids' : PacketIds}

/-! ### Rounds -/

theorem length_round (h : first ≠ 0) : (round first).length = 65535 := by
  have hpos := toNat_ne_zero h
  have hlt := first.toNat_lt
  simp only [round, List.length_map, List.length_append, List.length_range']
  omega

/-- A round is what one identifier after the other makes of it. -/
theorem round_eq_iterate (h : first ≠ 0) : round first = List.iterate successor first 65535 := by
  have hpos := toNat_ne_zero h
  have hlt := first.toNat_lt
  apply List.ext_getElem
  · rw [length_round h, List.length_iterate]
  intro k hk _
  rw [length_round h] at hk
  apply UInt16.toNat_inj.1
  rw [List.getElem_iterate, toNat_iterate_successor h]
  simp only [round, List.getElem_map, List.getElem_append, List.length_range', List.getElem_range']
  split
  · simp only [UInt16.toNat_ofNat']
    omega
  · simp only [UInt16.toNat_ofNat']
    omega

/-- After a round it is the turn of the first again. -/
theorem iterate_successor_round (h : first ≠ 0) : successor^[65535] first = first := by
  have hpos := toNat_ne_zero h
  have hlt := first.toNat_lt
  apply UInt16.toNat_inj.1
  rw [toNat_iterate_successor h]
  omega

/-- Every identifier has its turn. -/
theorem mem_round_iff (h : first ≠ 0) : id ∈ round first ↔ id ≠ 0 := by
  have hpos := toNat_ne_zero h
  have hlt := first.toNat_lt
  have hid := id.toNat_lt
  rw [← not_iff_not, not_not, ← UInt16.toNat_inj]
  simp only [round, List.mem_map, List.mem_append, List.mem_range'_1]
  constructor
  · intro hnone
    by_contra hne
    refine hnone ⟨id.toNat, ?_, UInt16.ofNat_toNat⟩
    simp only [UInt16.reduceToNat] at hne
    omega
  · rintro hzero ⟨n, hn, rfl⟩
    simp only [UInt16.toNat_ofNat', UInt16.reduceToNat] at hzero
    omega

/-- No identifier has its turn twice. -/
theorem nodup_round (h : first ≠ 0) : (round first).Nodup := by
  have hpos := toNat_ne_zero h
  have hlt := first.toNat_lt
  rw [round_eq_iterate h, ← List.range_map_iterate]
  apply List.nodup_range.map_on
  intro j hj k hk hsame
  rw [List.mem_range] at hj hk
  have hsame := congrArg UInt16.toNat hsame
  rw [toNat_iterate_successor h, toNat_iterate_successor h] at hsame
  omega

/-! ### The search -/

/-- A search gives out the first identifier it comes to that is free. -/
theorem search_fst (inUse : UInt16 → Bool) (tries : Nat) (ids : PacketIds) :
    (search inUse tries ids).1 = (List.iterate successor ids.next tries).find? fun id => !inUse id := by
  induction tries generalizing ids with
  | zero => rfl
  | succ tries ih =>
    rw [search, List.iterate, List.find?_cons]
    dsimp only [take]
    cases inUse ids.next with
    | true => exact ih _
    | false => rfl

/-- Where a search finds an identifier it leaves the counter behind it. -/
theorem next_of_search {tries : Nat} (h : search inUse tries ids = (some id, ids')) : ids'.next = successor id := by
  induction tries generalizing ids with
  | zero => cases h
  | succ tries ih =>
    rw [search] at h
    dsimp only [take] at h
    split at h
    · exact ih h
    · cases h
      rfl

/-- Where it finds none it leaves the counter behind all that it tried. -/
theorem next_of_search_none {tries : Nat} (h : search inUse tries ids = (none, ids')) :
    ids'.next = successor^[tries] ids.next := by
  induction tries generalizing ids with
  | zero =>
    cases h
    rfl
  | succ tries ih =>
    rw [search] at h
    dsimp only [take] at h
    split at h
    · exact ih h
    · cases h

theorem eq_of_next (h : ids.next = ids'.next) : ids = ids' := by
  cases ids
  cases ids'
  cases h
  rfl

theorem allocate_fst (ids : PacketIds) (inUse : UInt16 → Bool) :
    (ids.allocate inUse).1 = (round ids.next).find? fun id => !inUse id := by
  rw [allocate, search_fst, round_eq_iterate ids.next_ne_zero]

/-- An allocation that fails has gone round once. -/
theorem eq_of_allocate_none (h : ids.allocate inUse = (none, ids')) : ids' = ids :=
  eq_of_next ((next_of_search_none h).trans (iterate_successor_round ids.next_ne_zero))

/-- There is no identifier left exactly if all are in use. -/
theorem allocate_fst_eq_none_iff : (ids.allocate inUse).1 = none ↔ ∀ id, id ≠ 0 → inUse id = true := by
  rw [allocate_fst, List.find?_eq_none]
  simp only [mem_round_iff ids.next_ne_zero, Bool.not_eq_true', Bool.not_eq_false]

/-! ### Turns -/

/-- The identifiers whose turn comes until one is given out: those that are passed over, and the one itself. -/
def turns (ids : PacketIds) (inUse : UInt16 → Bool) (id : UInt16) : List UInt16 :=
  (round ids.next).takeWhile inUse ++ [id]

/-- Who has a turn is in use, or is given out. -/
theorem mem_turns {other : UInt16} (h : other ∈ ids.turns inUse id) : inUse other = true ∨ other = id := by
  rcases List.mem_append.1 h with h | h
  · exact .inl (List.all_eq_true.1 List.all_takeWhile other h)
  · exact .inr (List.mem_singleton.1 h)

/-- The turns follow each other, and the counter follows them. -/
theorem turns_of_allocate (h : ids.allocate inUse = (some id, ids')) :
    ids.turns inUse id = List.iterate successor ids.next (ids.turns inUse id).length ∧
      ids'.next = successor^[(ids.turns inUse id).length] ids.next := by
  have hfind : (round ids.next).find? (fun id => !inUse id) = some id := by rw [← allocate_fst, h]
  obtain ⟨hfree, passed, rest, hround, hpassed⟩ := List.find?_eq_some_iff_append.1 hfind
  have hprefix : (round ids.next).takeWhile inUse = passed := by
    rw [hround, List.takeWhile_append_of_pos fun other hother => by simpa using hpassed other hother,
      List.takeWhile_cons_of_neg (by simpa using hfree), List.append_nil]
  have hturns : ids.turns inUse id = passed ++ [id] := by rw [turns, hprefix]
  have hlength : passed.length + 1 ≤ 65535 := by
    rw [← length_round ids.next_ne_zero, hround, List.length_append, List.length_cons]
    omega
  have htake : (round ids.next).take (passed.length + 1) = passed ++ [id] := by
    rw [hround, List.append_cons, List.take_left' (by simp)]
  rw [round_eq_iterate ids.next_ne_zero, List.take_iterate, Nat.min_eq_left hlength] at htake
  have hlast : id = successor^[passed.length] ids.next := by
    have hget := congrArg (·[passed.length]?) htake
    rw [List.getElem?_iterate _ _ _ _ (Nat.lt_succ_self _), List.getElem?_concat_length] at hget
    exact (Option.some.inj hget).symm
  rw [hturns, List.length_append, List.length_singleton]
  refine ⟨htake.symm, ?_⟩
  rw [next_of_search h, Function.iterate_succ_apply', ← hlast]

/-- The turns that came after an identifier was given out, one after the other, up to where the counter stands. -/
structure Trails (id : UInt16) (since : List UInt16) (ids : PacketIds) : Prop where
  since_eq : since = List.iterate successor (successor id) since.length
  next_eq : ids.next = successor^[since.length] (successor id)

variable {since : List UInt16}

theorem trails_nil (h : ids.next = successor id) : Trails id [] ids := ⟨rfl, h⟩

theorem Trails.allocate {given : UInt16} (h : Trails id since ids) (halloc : ids.allocate inUse = (some given, ids')) :
    Trails id (since ++ ids.turns inUse given) ids' := by
  obtain ⟨hturns, hnext⟩ := turns_of_allocate halloc
  rw [h.next_eq] at hturns hnext
  constructor
  · rw [List.length_append, List.iterate_add, ← h.since_eq, ← hturns]
  · rw [hnext, List.length_append, Nat.add_comm, Function.iterate_add_apply]

/-- An identifier is given out again exactly when whole rounds have passed. -/
theorem Trails.eq_iff {given : UInt16} (h : Trails id since ids) (hid : id ≠ 0) (hgiven : given ≠ 0)
    (hnext : ids.next = successor given) : id = given ↔ 65535 ∣ since.length := by
  have hpos := toNat_ne_zero hid
  have hpos' := toNat_ne_zero hgiven
  have hlt := id.toNat_lt
  have hlt' := given.toNat_lt
  have hsame := congrArg UInt16.toNat (h.next_eq.symm.trans hnext)
  rw [toNat_iterate_successor (successor_ne_zero id), toNat_successor hid, toNat_successor hgiven] at hsame
  rw [← UInt16.toNat_inj]
  omega

/-- In a whole round every identifier has its turn. -/
theorem Trails.mem {other : UInt16} (h : Trails id since ids) (hlength : 65535 ≤ since.length) (hother : other ≠ 0) :
    other ∈ since := by
  have hround : other ∈ round (successor id) := (mem_round_iff (successor_ne_zero id)).2 hother
  rw [round_eq_iterate (successor_ne_zero id), List.mem_iterate] at hround
  obtain ⟨k, hk, heq⟩ := hround
  rw [h.since_eq, List.mem_iterate]
  exact ⟨k, Nat.lt_of_lt_of_le hk hlength, heq⟩

end

/-! ### Any use -/

/-- What a counter can be used for. -/
inductive Use where
  | take
  | allocate (inUse : UInt16 → Bool)
  | restart

/-- The identifier that is given out, if one is. -/
def use (ids : PacketIds) : Use → Option UInt16 × PacketIds
  | .take => (some ids.take.1, ids.take.2)
  | .allocate inUse => ids.allocate inUse
  | .restart => (none, start)

/-- The identifiers that are given out one after the other. -/
def run (ids : PacketIds) : List Use → List UInt16 × PacketIds
  | [] => ([], ids)
  | u :: us => ((ids.use u).1.toList ++ ((ids.use u).2.run us).1, ((ids.use u).2.run us).2)

theorem use_ne_zero {ids : PacketIds} {u : Use} {id : UInt16} (h : (ids.use u).1 = some id) : id ≠ 0 := by
  cases u with
  | take =>
    cases h
    exact ids.next_ne_zero
  | allocate inUse =>
    have halloc : ids.allocate inUse = (some id, (ids.allocate inUse).2) := Prod.ext h rfl
    exact (search_free halloc).1
  | restart => cases h

theorem run_ne_zero (ids : PacketIds) (us : List Use) : 0 ∉ (ids.run us).1 := by
  induction us generalizing ids with
  | nil => exact List.not_mem_nil
  | cons u us ih =>
    rw [run, List.mem_append, not_or, Option.mem_toList]
    exact ⟨fun h => use_ne_zero h rfl, ih _⟩

/-- **An allocation is a complete search of the circle.** However a new counter was used, with whatever identifiers
in use at each time, it never gave out 0. An allocation then gives out the first identifier that is free among all
identifiers from the counter on, in the order of the circle, and leaves the counter behind it. It gives out none
exactly if all of 1 to 65535 are in use, and then leaves the counter where it was. -/
theorem run_allocate (us : List Use) (inUse : UInt16 → Bool) :
    let ids := (start.run us).2
    0 ∉ (start.run us).1 ∧
      (∀ id, id ∈ round ids.next ↔ id ≠ 0) ∧ (round ids.next).Nodup ∧
      (ids.allocate inUse).1 = (round ids.next).find? (fun id => !inUse id) ∧
      ((ids.allocate inUse).1 = none ↔ ∀ id, id ≠ 0 → inUse id = true) ∧
      ((ids.allocate inUse).1 = none → (ids.allocate inUse).2 = ids) ∧
      ∀ id, (ids.allocate inUse).1 = some id →
        id ≠ 0 ∧ inUse id = false ∧
          (ids.allocate inUse).2.next.toNat = if id.toNat = 65535 then 1 else id.toNat + 1 := by
  intro ids
  refine ⟨run_ne_zero start us, fun id => mem_round_iff ids.next_ne_zero, nodup_round ids.next_ne_zero,
    allocate_fst ids inUse, allocate_fst_eq_none_iff, fun hnone => ?_, fun id hsome => ?_⟩
  · have halloc : ids.allocate inUse = (none, (ids.allocate inUse).2) := Prod.ext hnone rfl
    exact eq_of_allocate_none halloc
  · have halloc : ids.allocate inUse = (some id, (ids.allocate inUse).2) := Prod.ext hsome rfl
    obtain ⟨hid, hfree⟩ := search_free halloc
    refine ⟨hid, hfree, ?_⟩
    have hpos := toNat_ne_zero hid
    have hlt := id.toNat_lt
    rw [next_of_search halloc, toNat_successor hid]
    split <;> omega

/-- The counter stands at 3. With 3 and 4 in use the search passes over both, and with all in use over everything. -/
theorem run_allocate_passing :
    let ids := (start.run [.allocate (· == 1), .restart, .take, .take]).2
    (ids.allocate fun id => id == 3 || id == 4).1 = some 5 ∧
      (ids.allocate fun id => id == 3 || id == 4).2.next.toNat = 6 ∧
      (ids.allocate fun _ => true).1 = none ∧ (ids.allocate fun _ => true).2 = ids := by
  intro ids
  obtain ⟨-, -, -, -, -, -, hgiven⟩ :=
    run_allocate [.allocate (· == 1), .restart, .take, .take] fun id => id == 3 || id == 4
  obtain ⟨-, -, -, -, hnone, hback, -⟩ :=
    run_allocate [.allocate (· == 1), .restart, .take, .take] fun _ => true
  have hfive : (ids.allocate fun id => id == 3 || id == 4).1 = some 5 := by decide +kernel
  have hall : (ids.allocate fun _ => true).1 = none := hnone.2 fun _ _ => rfl
  exact ⟨hfive, (hgiven 5 hfive).2.2, hall, hback hall⟩

end Mqtt.PacketIds
