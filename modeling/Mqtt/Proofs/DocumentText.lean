import Mqtt.Json.Document
import Mqtt.Proofs.TokenText

/-!
# Documents are read back: `from_str`, `to_string`

A value is written as a row of tokens, and the machine that takes the row token by token ends with the value
(`Reading.run_tokens`). Together with what is known of the text of tokens that is a round trip without
exceptions: what is written without blanks or on indented lines is read as what it was, whatever the value and
however deep it nests (`parse?_render`, `parse?_renderIndented`). Values are taken apart by `Json.induction`.
-/

namespace Mqtt.Json

/-! ### Values by their parts -/

/-- The value has no parts. -/
def isLeaf : Json → Bool
  | .arr _ | .obj _ => false
  | _ => true

theorem induction {P : Json → Prop} (leaf : ∀ j : Json, j.isLeaf = true → P j)
    (arr : ∀ items, (∀ j ∈ items, P j) → P (.arr items))
    (obj : ∀ members : List (String × Json), (∀ m ∈ members, P m.2) → P (.obj members)) : ∀ j, P j
  | .arr items => arr items fun j _ => induction leaf arr obj j
  | .obj members => obj members fun m _ => induction leaf arr obj m.2
  | .null | .bool _ | .int _ | .real | .text _ | .unreadable => leaf _ rfl
termination_by j => sizeOf j
decreasing_by
  · have hsize := List.sizeOf_lt_of_mem ‹j ∈ items›
    rw [Json.arr.sizeOf_spec]
    omega
  · have hsize := List.sizeOf_lt_of_mem ‹m ∈ members›
    have hpart : sizeOf m.2 < sizeOf m := by
      obtain ⟨name, value⟩ := m
      simp only [Prod.mk.sizeOf_spec]
      omega
    rw [Json.obj.sizeOf_spec]
    omega

/-! ### Rows of tokens -/

/-- What is written of a value stands behind what was written before, whatever that is. -/
def Appends (j : Json) : Prop := ∀ written, emit j written = emit j [] ++ written

theorem emitItems_eq {items : List Json} (h : ∀ j ∈ items, j.Appends) (first : Bool) (written : List Token) :
    emitItems items first written = emitItems items first [] ++ written := by
  induction items generalizing first written with
  | nil => rfl
  | cons item items ih =>
    have hitem := h item (.head _)
    have hitems := ih fun j hj => h j (.tail _ hj)
    rw [emitItems, emitItems, hitems, hitems false (emit item _), hitem, hitem (if first then [] else _),
      List.append_assoc, List.append_assoc]
    cases first <;> rfl

theorem emitMembers_eq {members : List (String × Json)} (h : ∀ m ∈ members, m.2.Appends) (first : Bool)
    (written : List Token) : emitMembers members first written = emitMembers members first [] ++ written := by
  induction members generalizing first written with
  | nil => rfl
  | cons m members ih =>
    obtain ⟨name, value⟩ := m
    have hvalue : value.Appends := h (name, value) (.head _)
    have hmembers := ih fun m hm => h m (.tail _ hm)
    rw [emitMembers, emitMembers, hmembers, hmembers false (emit value _), hvalue,
      hvalue (_ :: _ :: if first then [] else _), List.append_assoc, List.append_assoc]
    cases first <;> rfl

theorem appends (j : Json) : j.Appends := by
  induction j using Json.induction with
  | leaf j hj =>
    cases j with
    | arr | obj => cases hj
    | null | bool | int | real | text | unreadable => exact fun _ => rfl
  | arr items ih =>
    intro written
    rw [emit, emit, emitItems_eq ih, emitItems_eq ih true [Token.openList], List.cons_append, List.append_assoc]
    rfl
  | obj members ih =>
    intro written
    rw [emit, emit, emitMembers_eq ih, emitMembers_eq ih true [Token.openObject], List.cons_append,
      List.append_assoc]
    rfl

/-- The tokens of the items of a list, with the commas between them. -/
def itemTokens (items : List Json) (first : Bool) : List Token := (emitItems items first []).reverse

/-- The tokens of the members of an object, with the commas between them. -/
def memberTokens (members : List (String × Json)) (first : Bool) : List Token :=
  (emitMembers members first []).reverse

/-- What stands before an item or a member. -/
def separator (first : Bool) : List Token := if first then [] else [.comma]

theorem tokens_arr (items : List Json) : tokens (arr items) = .openList :: (itemTokens items true ++ [.closeList]) := by
  rw [tokens, emit, emitItems_eq fun j _ => j.appends, List.reverse_cons, List.reverse_append]
  rfl

theorem tokens_obj (members : List (String × Json)) :
    tokens (obj members) = .openObject :: (memberTokens members true ++ [.closeObject]) := by
  rw [tokens, emit, emitMembers_eq fun m _ => m.2.appends, List.reverse_cons, List.reverse_append]
  rfl

theorem itemTokens_cons (item : Json) (items : List Json) (first : Bool) :
    itemTokens (item :: items) first = separator first ++ (item.tokens ++ itemTokens items false) := by
  rw [itemTokens, emitItems, emitItems_eq fun j _ => j.appends, appends item, List.reverse_append,
    List.reverse_append, List.append_assoc]
  cases first <;> rfl

theorem memberTokens_cons (name : String) (value : Json) (members : List (String × Json)) (first : Bool) :
    memberTokens ((name, value) :: members) first =
      separator first ++ (.text name :: .colon :: (value.tokens ++ memberTokens members false)) := by
  rw [memberTokens, emitMembers, emitMembers_eq fun m _ => m.2.appends, appends value, List.reverse_append,
    List.reverse_append, List.append_assoc]
  cases first <;> simp [separator, tokens, memberTokens]

/-! ### Numbers in a document -/

/-- These tokens may stand behind a value. -/
def Closes (rest : List Token) : Prop := Token.Spaced rest ∧ ∀ t ∈ rest.head?, t.endsNumber = true

theorem closes_cons {t : Token} (ht : t.endsNumber = true) {rest : List Token} (hrest : Token.Spaced rest) :
    Closes (t :: rest) := by
  have hnumber : t.isNumber = false := by
    cases t with
    | comma | closeList | closeObject => rfl
    | openObject | openList | colon | null | bool | int | real | text | unpaired | unbounded => cases ht
  refine ⟨hrest.cons hnumber, fun u hu => ?_⟩
  cases hu
  exact ht

/-- A value is well spaced where it stands. -/
def SpacedBefore (j : Json) : Prop := ∀ rest, Closes rest → Token.Spaced (j.tokens ++ rest)

theorem spaced_itemTokens {items : List Json} (h : ∀ j ∈ items, j.SpacedBefore) {rest : List Token}
    (hrest : Token.Spaced rest) :
    Token.Spaced (itemTokens items true ++ .closeList :: rest) ∧
      Closes (itemTokens items false ++ .closeList :: rest) := by
  induction items with
  | nil =>
    have hclose : Closes (.closeList :: rest) := closes_cons rfl hrest
    exact ⟨hclose.1, hclose⟩
  | cons item items ih =>
    have hitem := h item (.head _) _ (ih fun j hj => h j (.tail _ hj)).2
    rw [itemTokens_cons, itemTokens_cons]
    simp only [separator, if_true, Bool.false_eq_true, if_false, List.nil_append, List.cons_append, List.append_assoc]
    exact ⟨hitem, closes_cons rfl hitem⟩

theorem spaced_memberTokens {members : List (String × Json)} (h : ∀ m ∈ members, m.2.SpacedBefore)
    {rest : List Token} (hrest : Token.Spaced rest) :
    Token.Spaced (memberTokens members true ++ .closeObject :: rest) ∧
      Closes (memberTokens members false ++ .closeObject :: rest) := by
  induction members with
  | nil =>
    have hclose : Closes (.closeObject :: rest) := closes_cons rfl hrest
    exact ⟨hclose.1, hclose⟩
  | cons m members ih =>
    obtain ⟨name, value⟩ := m
    have hvalue := h (name, value) (.head _) _ (ih fun m hm => h m (.tail _ hm)).2
    rw [memberTokens_cons, memberTokens_cons]
    simp only [separator, if_true, Bool.false_eq_true, if_false, List.nil_append, List.cons_append, List.append_assoc]
    have hnamed := (hvalue.cons (t := .colon) rfl).cons (t := .text name) rfl
    exact ⟨hnamed, closes_cons rfl hnamed⟩

theorem spacedBefore (j : Json) : j.SpacedBefore := by
  induction j using Json.induction with
  | leaf j hj =>
    intro rest hrest
    cases j with
    | arr | obj => cases hj
    | null | bool | text | unreadable => exact hrest.1.cons rfl
    | int | real => exact ⟨by simp, fun _ => hrest.2, hrest.1⟩
  | arr items ih =>
    intro rest hrest
    rw [tokens_arr, List.cons_append, List.append_assoc]
    exact (spaced_itemTokens ih hrest.1).1.cons rfl
  | obj members ih =>
    intro rest hrest
    rw [tokens_obj, List.cons_append, List.append_assoc]
    exact (spaced_memberTokens ih hrest.1).1.cons rfl

theorem spaced_tokens (j : Json) : Token.Spaced j.tokens := by
  have h := j.spacedBefore [] ⟨trivial, fun t ht => by cases ht⟩
  rwa [List.append_nil] at h

/-! ### Taking the tokens one by one -/

/-- A value is read where one is expected, whatever surrounds it. -/
def ReadsBack (j : Json) : Prop :=
  ∀ outer rest, Reading.run (.value outer) (j.tokens ++ rest) = Reading.run (.complete j outer) rest

theorem run_cons {r r' : Reading} {t : Token} (h : r.step t = some r') (ts : List Token) :
    Reading.run r (t :: ts) = Reading.run r' ts := by
  rw [Reading.run, h]

/-- A value does not begin with the end of a list. -/
theorem run_items_tokens (j : Json) (outer : List Frame) (rest : List Token) :
    Reading.run (.items outer) (j.tokens ++ rest) = Reading.run (.value (.list [] :: outer)) (j.tokens ++ rest) := by
  have hfirst : ∃ t ts, j.tokens = t :: ts ∧ t ≠ .closeList := by
    cases j with
    | arr items => exact ⟨_, _, tokens_arr items, by decide⟩
    | obj members => exact ⟨_, _, tokens_obj members, by decide⟩
    | null | bool | int | real | text | unreadable => exact ⟨_, [], rfl, by simp⟩
  obtain ⟨t, ts, htokens, ht⟩ := hfirst
  have hstep : Reading.step (.items outer) t = Reading.step (.value (.list [] :: outer)) t := by
    cases t with
    | closeList => exact absurd rfl ht
    | openObject | closeObject | openList | colon | comma | null | bool | int | real | text | unpaired
    | unbounded => rfl
  rw [htokens, List.cons_append, Reading.run, Reading.run, hstep]

/-- The items that are left of a list are read behind those that were read. -/
theorem run_itemTokens {items : List Json} (h : ∀ j ∈ items, j.ReadsBack) (v : Json) (vs : List Json)
    (outer : List Frame) (rest : List Token) :
    Reading.run (.complete v (.list vs :: outer)) (itemTokens items false ++ .closeList :: rest) =
      Reading.run (.complete (.arr ((v :: vs).reverse ++ items)) outer) rest := by
  induction items generalizing v vs with
  | nil =>
    rw [List.append_nil]
    exact run_cons rfl rest
  | cons item items ih =>
    have hrest := ih (fun j hj => h j (.tail _ hj)) item (v :: vs)
    rw [List.reverse_cons, List.append_assoc] at hrest
    rw [itemTokens_cons, List.append_assoc, List.append_assoc, ← List.singleton_append (l := items)]
    exact (run_cons rfl _).trans ((h item (.head _) _ _).trans hrest)

theorem ofNamed_present (members : List (String × Json)) :
    ofNamed (members.map fun m => (some m.1, m.2)) = .obj members := by
  have hnames : (members.map fun m => (some m.1, m.2)).mapM
      (fun m : Option String × Json => m.1.map (·, m.2)) = some members := by
    induction members with
    | nil => rfl
    | cons m members ih =>
      rw [List.map_cons, List.mapM_cons, ih]
      rfl
  rw [ofNamed]
  simp only [hnames]

/-- The members that are left of an object are read behind those that were read. -/
theorem run_memberTokens {members : List (String × Json)} (h : ∀ m ∈ members, m.2.ReadsBack)
    (name : String) (v : Json) (read : List (String × Json)) (outer : List Frame) (rest : List Token) :
    Reading.run (.complete v (.object (read.map fun m => (some m.1, m.2)) (some name) :: outer))
        (memberTokens members false ++ .closeObject :: rest) =
      Reading.run (.complete (.obj (((name, v) :: read).reverse ++ members)) outer) rest := by
  induction members generalizing name v read with
  | nil =>
    have hobj := ofNamed_present ((name, v) :: read).reverse
    rw [List.map_reverse, List.map_cons] at hobj
    rw [List.append_nil, ← hobj]
    exact run_cons rfl rest
  | cons m members ih =>
    obtain ⟨name', value⟩ := m
    have hrest := ih (fun m hm => h m (.tail _ hm)) name' value ((name, v) :: read)
    rw [List.reverse_cons, List.append_assoc] at hrest
    rw [memberTokens_cons, List.append_assoc, List.cons_append, List.cons_append, List.append_assoc,
      ← List.singleton_append (l := members)]
    exact (run_cons rfl _).trans ((run_cons rfl _).trans ((run_cons rfl _).trans
      ((h (name', value) (.head _) _ _).trans hrest)))

theorem readsBack (j : Json) : j.ReadsBack := by
  induction j using Json.induction with
  | leaf j hj =>
    intro outer rest
    cases j with
    | arr | obj => cases hj
    | null | bool | int | real | text | unreadable => exact run_cons rfl rest
  | arr items ih =>
    intro outer rest
    rw [tokens_arr, List.cons_append, List.append_assoc]
    refine (run_cons rfl _).trans ?_
    cases items with
    | nil => exact run_cons rfl rest
    | cons item items =>
      rw [itemTokens_cons, List.append_assoc, List.append_assoc]
      have hitem := ih item (.head _) (.list [] :: outer) (itemTokens items false ++ ([.closeList] ++ rest))
      exact (run_items_tokens item outer _).trans
        (hitem.trans (run_itemTokens (fun j hj => ih j (.tail _ hj)) item [] outer rest))
  | obj members ih =>
    intro outer rest
    rw [tokens_obj, List.cons_append, List.append_assoc]
    refine (run_cons rfl _).trans ?_
    cases members with
    | nil => exact run_cons rfl rest
    | cons m members =>
      obtain ⟨name, value⟩ := m
      rw [memberTokens_cons, List.append_assoc, List.cons_append, List.cons_append, List.append_assoc]
      have hvalue := ih (name, value) (.head _) (.object [] (some name) :: outer)
        (memberTokens members false ++ ([.closeObject] ++ rest))
      exact (run_cons rfl _).trans ((run_cons rfl _).trans
        (hvalue.trans (run_memberTokens (fun m hm => ih m (.tail _ hm)) name value [] outer rest)))

theorem ofTokens?_tokens (j : Json) : ofTokens? j.tokens = some j := by
  have hrun := j.readsBack [] []
  rw [List.append_nil] at hrun
  rw [ofTokens?, hrun]
  rfl

/-- **A document is read back from its text without blanks.** -/
theorem parse?_render (j : Json) : parse? j.render = some j := by
  rw [parse?, render, Token.scan_render j.spaced_tokens, Option.bind_some, ofTokens?_tokens]

/-- **A document is read back from its text.** -/
theorem parse?_renderIndented (j : Json) : parse? j.renderIndented = some j := by
  rw [parse?, renderIndented, Token.scan_renderIndented j.spaced_tokens, Option.bind_some, ofTokens?_tokens]

end Mqtt.Json
