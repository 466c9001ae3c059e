import Mqtt.Json
import Std.Data.ExtTreeMap
import Std.Data.ExtTreeSet

/-!
# Values that are written and read

A record is written with the members that are there and read by the names of all of them:
`Json.fields?_ofMembers` is where the two meet. A reader is told how deep it may go; `Json.Legible` says
that a value is not too deep for a reader that may go deep enough.
-/

namespace Mqtt

/-! ### Lists and maps -/

theorem mapM_map_eq_some {α β γ : Type} {write : α → β} {read : β → Option γ} {f : α → γ} {xs : List α}
    (h : ∀ x ∈ xs, read (write x) = some (f x)) : (xs.map write).mapM read = some (xs.map f) := by
  induction xs with
  | nil => rfl
  | cons x xs ih =>
    have hxs := ih fun y hy => h y (.tail _ hy)
    rw [List.map_cons, List.mapM_cons, h x (.head _), hxs]
    rfl

/-- What is written item by item is read item by item. -/
theorem mapM_map_self {α β : Type} {write : α → β} {read : β → Option α} {xs : List α}
    (h : ∀ x ∈ xs, read (write x) = some x) : (xs.map write).mapM read = some xs := by
  rw [mapM_map_eq_some (f := id) h, List.map_id]

/-- A list that is read was read item by item. -/
theorem exists_of_mem_mapM {α β : Type} {read : α → Option β} {xs : List α} {ys : List β}
    (h : xs.mapM read = some ys) {x : α} (hx : x ∈ xs) : ∃ y, read x = some y := by
  induction xs generalizing ys with
  | nil => cases hx
  | cons x' xs ih =>
    simp only [List.mapM_cons, Option.bind_eq_bind, Option.bind_eq_some_iff] at h
    obtain ⟨y, hy, ys, hys, -⟩ := h
    rcases List.mem_cons.1 hx with rfl | hx
    · exact ⟨y, hy⟩
    · exact ih hys hx

section Maps

variable {κ β : Type} [DecidableEq κ] {cmp : κ → κ → Ordering} [Std.TransCmp cmp] [Std.LawfulEqCmp cmp]

/-- A map is put together again from its entries. -/
theorem foldl_insert_toList (m : Std.ExtTreeMap κ β cmp) :
    m.toList.foldl (fun m e => m.insert e.1 e.2) ∅ = m := by
  rw [← Std.ExtTreeMap.ofList_eq_foldl]
  refine Std.ExtTreeMap.ext_getElem? fun k => ?_
  by_cases hk : k ∈ m
  · have hentry : m[k]? = some m[k] := Std.ExtTreeMap.getElem?_eq_some_getElem hk
    rw [hentry]
    exact Std.ExtTreeMap.getElem?_ofList_of_mem Std.ReflCmp.compare_self Std.ExtTreeMap.distinct_keys_toList
      (Std.ExtTreeMap.mem_toList_iff_getElem?_eq_some.2 hentry)
  · rw [Std.ExtTreeMap.getElem?_eq_none hk]
    refine Std.ExtTreeMap.getElem?_ofList_of_contains_eq_false ?_
    rw [Std.ExtTreeMap.map_fst_toList_eq_keys, List.contains_eq_mem, decide_eq_false_iff_not,
      Std.ExtTreeMap.mem_keys]
    exact hk

/-- A set is put together again from its elements. -/
theorem foldl_insert_elements (s : Std.ExtTreeSet κ cmp) : s.toList.foldl .insert ∅ = s := by
  have hofList : s.toList.foldl .insert ∅ = Std.ExtTreeSet.ofList s.toList cmp :=
    Std.ExtTreeSet.ofList_eq_foldl.symm
  rw [hofList]
  refine Std.ExtTreeSet.ext_mem fun k => ?_
  rw [Std.ExtTreeSet.mem_ofList, List.contains_iff_mem, Std.ExtTreeSet.mem_toList]

end Maps

/-! ### Members of an object -/

namespace Json

/-- The members that are there. -/
def present (members : List (String × Option Json)) : List (String × Json) :=
  members.filterMap fun (name, value) => value.map (name, ·)

theorem ofMembers_eq (members : List (String × Option Json)) : ofMembers members = .obj (present members) := rfl

theorem mem_present {members : List (String × Option Json)} {name : String} {value : Json} :
    (name, value) ∈ present members ↔ (name, some value) ∈ members := by
  rw [present, List.mem_filterMap]
  constructor
  · rintro ⟨⟨name', value?⟩, hmem, h⟩
    obtain ⟨_, rfl, h⟩ := Option.map_eq_some_iff.1 h
    cases h
    exact hmem
  · intro hmem
    exact ⟨_, hmem, rfl⟩

theorem filter_present_of_notMem {members : List (String × Option Json)} {name : String}
    (h : name ∉ members.map (·.1)) : (present members).filter (·.1 = name) = [] := by
  rw [List.filter_eq_nil_iff]
  rintro ⟨name', value⟩ hmem heq
  obtain rfl : name' = name := of_decide_eq_true heq
  exact h (List.mem_map.2 ⟨_, mem_present.1 hmem, rfl⟩)

/-- Members with different names are found by their names. -/
theorem uniqueMember_present {members : List (String × Option Json)} (hnames : (members.map (·.1)).Nodup)
    {name : String} {value : Option Json} (h : (name, value) ∈ members) :
    uniqueMember name (present members) = some value := by
  have hfilter : (present members).filter (·.1 = name) = value.toList.map (name, ·) := by
    induction members with
    | nil => cases h
    | cons m members ih =>
      obtain ⟨hfirst, hrest⟩ := List.nodup_cons.1 hnames
      have hcons : present (m :: members) = m.2.toList.map (m.1, ·) ++ present members := by
        obtain ⟨_, _ | _⟩ := m <;> rfl
      rw [hcons, List.filter_append]
      rcases List.mem_cons.1 h with rfl | h
      · rw [filter_present_of_notMem hfirst, List.append_nil]
        cases value <;> simp
      · have hne : m.1 ≠ name := by
          rintro rfl
          exact hfirst (List.mem_map.2 ⟨_, h, rfl⟩)
        rw [ih hrest h, List.filter_eq_nil_iff.2, List.nil_append]
        rintro ⟨name', value'⟩ hmem heq
        obtain ⟨_, -, hname⟩ := List.mem_map.1 hmem
        cases hname
        exact hne (of_decide_eq_true heq)
  rw [uniqueMember, hfilter]
  cases value <;> rfl

/-- A record is read by the names of its members. -/
theorem fields?_ofMembers (members : List (String × Option Json)) (hnames : (members.map (·.1)).Nodup) :
    (ofMembers members).fields? (members.map (·.1)) = some (members.map (·.2)) :=
  mapM_map_eq_some fun _ hmember => uniqueMember_present hnames hmember

/-! ### How deep a value goes -/

theorem fits_arr {items : List Json} {depth : Nat} :
    (arr items).fits depth = true ↔ ∃ inner, depth = inner + 1 ∧ ∀ j ∈ items, j.fits inner = true := by
  cases depth with
  | zero => simp [fits]
  | succ inner => simp [fits]

theorem fits_obj {members : List (String × Json)} {depth : Nat} :
    (obj members).fits depth = true ↔ ∃ inner, depth = inner + 1 ∧ ∀ m ∈ members, m.2.fits inner = true := by
  cases depth with
  | zero => simp [fits]
  | succ inner => simp [fits]

theorem fits_ofMembers {members : List (String × Option Json)} {depth : Nat} :
    (ofMembers members).fits depth = true ↔
      ∃ inner, depth = inner + 1 ∧ ∀ name j, (name, some j) ∈ members → j.fits inner = true := by
  rw [ofMembers_eq, fits_obj]
  simp only [Prod.forall, mem_present]

theorem fits_succ {depth : Nat} {j : Json} (h : j.fits depth = true) : j.fits (depth + 1) = true := by
  induction depth generalizing j with
  | zero =>
    cases j with
    | arr | obj | unreadable => cases h
    | null | bool | int | real | text => exact h
  | succ depth ih =>
    cases j with
    | arr items =>
      obtain ⟨_, heq, hitems⟩ := fits_arr.1 h
      cases heq
      exact fits_arr.2 ⟨_, rfl, fun j hj => ih (hitems j hj)⟩
    | obj members =>
      obtain ⟨_, heq, hmembers⟩ := fits_obj.1 h
      cases heq
      exact fits_obj.2 ⟨_, rfl, fun m hm => ih (hmembers m hm)⟩
    | unreadable => cases h
    | null | bool | int | real | text => exact h

theorem fits_mono {depth depth' : Nat} {j : Json} (h : j.fits depth = true) (hle : depth ≤ depth') :
    j.fits depth' = true := by
  induction hle with
  | refl => exact h
  | step _ ih => exact fits_succ ih

/-- The value can be read once nesting is limited no more. -/
def Legible (j : Json) : Prop := ∃ depth, j.fits depth = true

theorem exists_fits {js : List Json} (h : ∀ j ∈ js, j.Legible) : ∃ depth, ∀ j ∈ js, j.fits depth = true := by
  induction js with
  | nil => exact ⟨0, fun j hj => by cases hj⟩
  | cons j js ih =>
    obtain ⟨depth, hj⟩ := h j (.head _)
    obtain ⟨depth', hjs⟩ := ih fun j hj => h j (.tail _ hj)
    refine ⟨max depth depth', fun j' hj' => ?_⟩
    rcases List.mem_cons.1 hj' with rfl | hj'
    · exact fits_mono hj (Nat.le_max_left _ _)
    · exact fits_mono (hjs j' hj') (Nat.le_max_right _ _)

theorem legible_arr {items : List Json} (h : ∀ j ∈ items, j.Legible) : (arr items).Legible := by
  obtain ⟨depth, hdepth⟩ := exists_fits h
  exact ⟨depth + 1, fits_arr.2 ⟨depth, rfl, hdepth⟩⟩

theorem legible_obj {members : List (String × Json)} (h : ∀ m ∈ members, m.2.Legible) :
    (obj members).Legible := by
  obtain ⟨depth, hdepth⟩ := exists_fits (List.forall_mem_map.2 h)
  exact ⟨depth + 1, fits_obj.2 ⟨depth, rfl, List.forall_mem_map.1 hdepth⟩⟩

theorem legible_ofMembers {members : List (String × Option Json)}
    (h : ∀ name j, (name, some j) ∈ members → j.Legible) : (ofMembers members).Legible :=
  legible_obj fun m hm => h m.1 m.2 (mem_present.1 hm)

/-- A part that may be left out can be read where it is not. -/
theorem legible_unless {empty : Bool} {written j : Json} (hwritten : written.Legible)
    (hj : some j = if empty then none else some written) : j.Legible := by
  cases empty with
  | true => cases hj
  | false =>
    cases hj
    exact hwritten

theorem legible_text (s : String) : (text s).Legible := ⟨0, rfl⟩

theorem legible_bool (b : Bool) : (bool b).Legible := ⟨0, rfl⟩

theorem legible_ofNat {n : Nat} (h : n < 65536) : (ofNat n).Legible := by
  have hlimit : 65536 < numberLimit := by decide
  exact ⟨0, decide_eq_true (Nat.lt_trans h hlimit)⟩

end Json

end Mqtt
