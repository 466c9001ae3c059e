import Mqtt.Trie

/-!
# A trie as a table: `TrieNode`, `RetainNode`

A trie is read by paths: `Trie.get` gives the entry at each. Every change of a trie is a change of that
table, at one path or at all, as long as siblings are kept in ascending order, and what a change comes back
with is what it tells of the entry at its path; and a trie whose emptied nodes are pruned is empty only if its
table is.
-/

namespace Mqtt

variable {α : Type}

/-! ### Siblings -/

namespace Forest

/-- The levels of the nodes side by side. -/
def names : Forest α → List String
  | nil => []
  | cons l _ _ rest => l :: rest.names

/-- Siblings stand in ascending order, here and below. -/
def Sorted : Forest α → Prop
  | nil => True
  | cons l _ children rest => (∀ l' ∈ rest.names, l < l') ∧ children.Sorted ∧ rest.Sorted

theorem find?_eq_none_iff {level : String} {f : Forest α} :
    f.find? level = none ↔ level ∉ f.names := by
  induction f with
  | nil => simp [find?, names]
  | cons l entry children rest _ ih =>
    rw [find?, names, List.mem_cons]
    by_cases h : l = level
    · simp [h]
    · rw [if_neg h, ih]
      simp [Ne.symm h]

theorem find?_insert (level l : String) (t : Trie α) (f : Forest α) :
    (f.insert level t).find? l = if l = level then some t else f.find? l := by
  have hcons (rest : Forest α) :
      (cons level t.entry t.children rest).find? l = if l = level then some t else rest.find? l := by
    rw [find?]
    by_cases hl : level = l
    · rw [if_pos hl, if_pos hl.symm]
    · rw [if_neg hl, if_neg (Ne.symm hl)]
  induction f with
  | nil => rw [insert, hcons]
  | cons l₀ entry children rest _ ih =>
    rw [insert]
    by_cases h₀ : l₀ = level
    · rw [if_pos h₀, hcons, find?]
      by_cases hl : l = level
      · rw [if_pos hl, if_pos hl]
      · rw [if_neg hl, if_neg hl, if_neg (by rw [h₀]; exact Ne.symm hl)]
    · rw [if_neg h₀]
      by_cases hlt : level < l₀
      · rw [if_pos hlt, hcons]
      · rw [if_neg hlt, find?, ih, find?]
        by_cases hl : l₀ = l
        · rw [if_pos hl, if_neg (by rw [← hl]; exact h₀), if_pos hl]
        · rw [if_neg hl, if_neg hl]

theorem mem_names_insert {level l : String} {t : Trie α} {f : Forest α} :
    l ∈ (f.insert level t).names ↔ l = level ∨ l ∈ f.names := by
  have hnames (f : Forest α) : l ∈ f.names ↔ f.find? l ≠ none := by
    rw [Ne, find?_eq_none_iff, Classical.not_not]
  rw [hnames, hnames, find?_insert]
  by_cases h : l = level
  · simp [h]
  · simp [h]

theorem Sorted.insert {level : String} {t : Trie α} {f : Forest α} (hf : f.Sorted)
    (ht : t.children.Sorted) : (f.insert level t).Sorted := by
  induction f with
  | nil => exact ⟨fun _ h => absurd h List.not_mem_nil, ht, trivial⟩
  | cons l entry children rest _ ih =>
    obtain ⟨hl, hchildren, hrest⟩ := hf
    rw [Forest.insert]
    split
    · next h => exact ⟨h ▸ hl, ht, hrest⟩
    · split
      · next hlt =>
        refine ⟨fun l' hl' => ?_, ht, hl, hchildren, hrest⟩
        rcases List.mem_cons.1 hl' with rfl | hl'
        · exact hlt
        · exact String.lt_trans hlt (hl l' hl')
      · next hne hlt =>
        refine ⟨fun l' hl' => ?_, hchildren, ih hrest⟩
        rcases mem_names_insert.1 hl' with rfl | hl'
        · have hle : l ≤ l' := String.not_lt.1 hlt
          exact Std.lt_of_le_of_ne hle hne
        · exact hl l' hl'

theorem names_erase_subset {level l : String} {f : Forest α} (h : l ∈ (f.erase level).names) :
    l ∈ f.names := by
  induction f with
  | nil => exact h
  | cons l₀ entry children rest _ ih =>
    rw [erase] at h
    rw [names, List.mem_cons]
    split at h
    · exact .inr h
    · exact (List.mem_cons.1 h).imp_right ih

theorem Sorted.erase {level : String} {f : Forest α} (hf : f.Sorted) : (f.erase level).Sorted := by
  induction f with
  | nil => trivial
  | cons l entry children rest _ ih =>
    obtain ⟨hl, hchildren, hrest⟩ := hf
    rw [Forest.erase]
    split
    · exact hrest
    · exact ⟨fun l' hl' => hl l' (names_erase_subset hl'), hchildren, ih hrest⟩

theorem find?_erase {level l : String} {f : Forest α} (hf : f.Sorted) :
    (f.erase level).find? l = if l = level then none else f.find? l := by
  induction f with
  | nil => simp [erase, find?]
  | cons l₀ entry children rest _ ih =>
    obtain ⟨hl, -, hrest⟩ := hf
    rw [erase]
    by_cases h₀ : l₀ = level
    · rw [if_pos h₀]
      by_cases h : l = level
      · rw [if_pos h, find?_eq_none_iff]
        intro hmem
        exact String.lt_irrefl l₀ (by simpa [h₀, h] using hl l hmem)
      · rw [if_neg h, find?, if_neg (by rw [h₀]; exact Ne.symm h)]
    · rw [if_neg h₀, find?, find?, ih hrest]
      by_cases h : l₀ = l
      · rw [if_pos h, if_pos h, if_neg (by rw [← h]; exact h₀)]
      · rw [if_neg h, if_neg h]

theorem Sorted.find? {level : String} {t : Trie α} {f : Forest α} (hf : f.Sorted)
    (h : f.find? level = some t) : t.children.Sorted := by
  induction f with
  | nil => cases h
  | cons l entry children rest _ ih =>
    rw [Forest.find?] at h
    split at h
    · cases h
      exact hf.2.1
    · exact ih hf.2.2 h

end Forest

/-! ### Changes at a path -/

namespace Trie

variable [Blank α] {β : Type}

/-- The entry at a path; a path without a node has the blank one. -/
def get (t : Trie α) : List String → α
  | [] => t.entry
  | level :: path =>
    match t.children.find? level with
    | some child => child.get path
    | none => Blank.blank

@[simp] theorem get_empty (path : List String) : (empty : Trie α).get path = Blank.blank := by
  cases path <;> rfl

theorem get_cons (t : Trie α) (level : String) (path : List String) :
    t.get (level :: path) = ((t.children.find? level).getD empty).get path := by
  rw [get]
  cases t.children.find? level <;> simp

/-- A trie that holds nothing has blank entries only. -/
theorem get_of_isEmpty {t : Trie α} (ht : t.isEmpty = true) (path : List String) :
    t.get path = Blank.blank := by
  obtain ⟨entry, children⟩ := t
  rw [isEmpty, Bool.and_eq_true] at ht
  cases path with
  | nil => exact (Blank.isBlank_iff entry).1 ht.1
  | cons level path =>
    cases children with
    | nil => rfl
    | cons => simp [Forest.isEmpty] at ht

/-- What comes back is what is told of the entry at the path. -/
theorem update_fst (f : α → β × α) (t : Trie α) (path : List String) :
    (t.update f path).1 = (f (t.get path)).1 := by
  induction path generalizing t with
  | nil => rfl
  | cons level path ih => exact (ih _).trans (by rw [get_cons])

theorem get_update (f : α → β × α) (t : Trie α) (path p : List String) :
    (t.update f path).2.get p = if p = path then (f (t.get path)).2 else t.get p := by
  induction path generalizing t p with
  | nil => cases p <;> simp [update, get]
  | cons level path ih =>
    cases p with
    | nil => simp [update, get]
    | cons l p =>
      rw [get_cons, get_cons t level, get_cons t l, update]
      dsimp only
      rw [Forest.find?_insert]
      by_cases hl : l = level
      · simp [hl, ih]
      · simp [hl]

theorem sorted_update {f : α → β × α} {t : Trie α} (ht : t.children.Sorted) (path : List String) :
    (t.update f path).2.children.Sorted := by
  induction path generalizing t with
  | nil => exact ht
  | cons level path ih =>
    refine ht.insert (ih ?_)
    cases h : t.children.find? level with
    | none => trivial
    | some child => exact ht.find? h

theorem updatePruned_fst {f : α → β × α} {absent : β} (habsent : (f Blank.blank).1 = absent) (t : Trie α)
    (path : List String) : (t.updatePruned f absent path).1 = (f (t.get path)).1 := by
  induction path generalizing t with
  | nil => rfl
  | cons level path ih =>
    rw [updatePruned, get]
    cases t.children.find? level with
    | none => exact habsent.symm
    | some child => exact ih child

theorem sorted_updatePruned {f : α → β × α} {absent : β} {t : Trie α} (ht : t.children.Sorted)
    (path : List String) : (t.updatePruned f absent path).2.children.Sorted := by
  induction path generalizing t with
  | nil => exact ht
  | cons level path ih =>
    rw [updatePruned]
    split
    · exact ht
    · next child h =>
      dsimp only
      split
      · exact ht.erase
      · exact ht.insert (ih (ht.find? h))

theorem get_updatePruned {f : α → β × α} {absent : β} (hf : (f Blank.blank).2 = Blank.blank) {t : Trie α}
    (ht : t.children.Sorted) (path p : List String) :
    (t.updatePruned f absent path).2.get p = if p = path then (f (t.get path)).2 else t.get p := by
  induction path generalizing t p with
  | nil => cases p <;> simp [updatePruned, get]
  | cons level path ih =>
    cases hfind : t.children.find? level with
    | none =>
      rw [updatePruned, hfind, get_cons t level, hfind]
      by_cases hp : p = level :: path
      · simp [hp, get_cons, hfind, hf]
      · simp [hp]
    | some child =>
      have hchild := ih (ht.find? hfind)
      cases p with
      | nil =>
        rw [updatePruned, hfind]
        simp [get]
      | cons l p =>
        rw [get_cons, get_cons t level, get_cons t l, updatePruned, hfind]
        dsimp only
        by_cases hl : l = level
        · rw [hl, hfind]
          split
          · next hempty =>
            -- The node was dropped, so the entry it would have is blank.
            rw [Forest.find?_erase ht, if_pos rfl]
            have hblank := get_of_isEmpty hempty p
            rw [hchild] at hblank
            simpa using hblank.symm
          · rw [Forest.find?_insert, if_pos rfl]
            simpa using hchild p
        · split
          · rw [Forest.find?_erase ht, if_neg hl]
            simp [hl]
          · rw [Forest.find?_insert, if_neg hl]
            simp [hl]

end Trie

/-! ### Changes of all entries -/

namespace Forest

variable [Blank α] {g : α → α}

theorem names_mapPruned_subset {l : String} {f : Forest α} (h : l ∈ (f.mapPruned g).names) :
    l ∈ f.names := by
  induction f with
  | nil => exact h
  | cons l₀ entry children rest _ ih =>
    rw [mapPruned] at h
    rw [names, List.mem_cons]
    split at h
    · exact .inr (ih h)
    · exact (List.mem_cons.1 h).imp_right ih

theorem Sorted.mapPruned {f : Forest α} (hf : f.Sorted) : (f.mapPruned g).Sorted := by
  induction f with
  | nil => trivial
  | cons l entry children rest ihc ihr =>
    obtain ⟨hl, hchildren, hrest⟩ := hf
    rw [Forest.mapPruned]
    split
    · exact ihr hrest
    · exact ⟨fun l' hl' => hl l' (names_mapPruned_subset hl'), ihc hchildren, ihr hrest⟩

/-- A node is changed with all that is below it, and dropped if nothing is left. -/
theorem find?_mapPruned {f : Forest α} (hf : f.Sorted) (l : String) :
    (f.mapPruned g).find? l = ((f.find? l).map (·.mapPruned g)).filter (!·.isEmpty) := by
  induction f with
  | nil => rfl
  | cons l₀ entry children rest _ ih =>
    obtain ⟨hl, -, hrest⟩ := hf
    rw [mapPruned, find?]
    by_cases h : l₀ = l
    · rw [if_pos h]
      have hgone : (rest.mapPruned g).find? l = none := by
        rw [find?_eq_none_iff]
        intro hmem
        exact String.lt_irrefl l₀ (by simpa [h] using hl l (names_mapPruned_subset hmem))
      have hnode : (Trie.mapPruned g ⟨entry, children⟩).isEmpty =
          (Blank.isBlank (g entry) && (children.mapPruned g).isEmpty) := rfl
      split
      · next hblank => simp [hgone, Option.filter, hnode, hblank]
      · next hblank =>
        rw [Bool.not_eq_true] at hblank
        rw [find?, if_pos h, Option.map_some, Option.filter, hnode, hblank]
        rfl
    · rw [if_neg h, ← ih hrest]
      split
      · rfl
      · rw [find?, if_neg h]

end Forest

theorem Trie.get_mapPruned [Blank α] {g : α → α} (hg : g Blank.blank = Blank.blank) {t : Trie α}
    (ht : t.children.Sorted) (path : List String) : (t.mapPruned g).get path = g (t.get path) := by
  induction path generalizing t with
  | nil => rfl
  | cons level path ih =>
    rw [get_cons, get_cons t, mapPruned]
    dsimp only
    rw [Forest.find?_mapPruned ht]
    cases hfind : t.children.find? level with
    | none => simp [hg]
    | some child =>
      have hchild := ih (ht.find? hfind)
      cases hempty : (child.mapPruned g).isEmpty with
      | true =>
        rw [get_of_isEmpty hempty] at hchild
        simp [Option.filter, hempty, ← hchild]
      | false => simp [Option.filter, hempty, hchild]

/-! ### Pruned tries -/

namespace Forest

variable [Blank α]

/-- No node is empty, here and below. -/
def Pruned : Forest α → Prop
  | nil => True
  | cons _ entry children rest =>
    (⟨entry, children⟩ : Trie α).isEmpty = false ∧ children.Pruned ∧ rest.Pruned

theorem Pruned.insert {level : String} {t : Trie α} {f : Forest α} (hf : f.Pruned)
    (ht : t.isEmpty = false) (hchildren : t.children.Pruned) : (f.insert level t).Pruned := by
  induction f with
  | nil => exact ⟨ht, hchildren, trivial⟩
  | cons l entry children rest _ ih =>
    rw [Forest.insert]
    split
    · exact ⟨ht, hchildren, hf.2.2⟩
    · split
      · exact ⟨ht, hchildren, hf⟩
      · exact ⟨hf.1, hf.2.1, ih hf.2.2⟩

theorem Pruned.erase {level : String} {f : Forest α} (hf : f.Pruned) : (f.erase level).Pruned := by
  induction f with
  | nil => trivial
  | cons l entry children rest _ ih =>
    rw [Forest.erase]
    split
    · exact hf.2.2
    · exact ⟨hf.1, hf.2.1, ih hf.2.2⟩

theorem Pruned.find? {level : String} {t : Trie α} {f : Forest α} (hf : f.Pruned)
    (h : f.find? level = some t) : t.children.Pruned := by
  induction f with
  | nil => cases h
  | cons l entry children rest _ ih =>
    rw [Forest.find?] at h
    split at h
    · cases h
      exact hf.2.1
    · exact ih hf.2.2 h

theorem pruned_mapPruned (g : α → α) (f : Forest α) : (f.mapPruned g).Pruned := by
  induction f with
  | nil => trivial
  | cons l entry children rest ihc ihr =>
    rw [mapPruned]
    split
    · exact ihr
    · next h => exact ⟨by simpa [Trie.isEmpty] using h, ihc, ihr⟩

/-- In a pruned forest there is something to be found. -/
theorem Pruned.exists_get {f : Forest α} (hf : f.Pruned) (hne : f.isEmpty = false) :
    ∃ l p t, f.find? l = some t ∧ t.get p ≠ Blank.blank := by
  induction f with
  | nil => cases hne
  | cons l entry children rest ihc _ =>
    obtain ⟨hnode, hchildren, -⟩ := hf
    refine ⟨l, ?_⟩
    rw [Forest.find?, if_pos rfl]
    rw [Trie.isEmpty, Bool.and_eq_false_iff] at hnode
    rcases hnode with hentry | hbelow
    · refine ⟨[], _, rfl, fun hblank => ?_⟩
      rw [(Blank.isBlank_iff entry).2 hblank] at hentry
      cases hentry
    · obtain ⟨l', p, t, hfind, hget⟩ := ihc hchildren hbelow
      refine ⟨l' :: p, _, rfl, ?_⟩
      rw [Trie.get_cons]
      simpa [hfind] using hget

end Forest

namespace Trie

variable [Blank α] {β : Type}

theorem isEmpty_update {f : α → β × α} (hf : ∀ a, Blank.isBlank (f a).2 = false) (t : Trie α)
    (path : List String) : (t.update f path).2.isEmpty = false := by
  cases path with
  | nil => simp [update, isEmpty, hf]
  | cons level path =>
    rw [update, isEmpty, Bool.and_eq_false_iff]
    right
    dsimp only
    generalize t.children = children
    cases children with
    | nil => rfl
    | cons l entry below rest =>
      rw [Forest.insert]
      split
      · rfl
      · split <;> rfl

theorem pruned_update {f : α → β × α} (hf : ∀ a, Blank.isBlank (f a).2 = false) {t : Trie α}
    (ht : t.children.Pruned) (path : List String) : (t.update f path).2.children.Pruned := by
  induction path generalizing t with
  | nil => exact ht
  | cons level path ih =>
    refine ht.insert (isEmpty_update hf _ path) (ih ?_)
    cases h : t.children.find? level with
    | none => trivial
    | some child => exact ht.find? h

theorem pruned_updatePruned {f : α → β × α} {absent : β} {t : Trie α} (ht : t.children.Pruned)
    (path : List String) : (t.updatePruned f absent path).2.children.Pruned := by
  induction path generalizing t with
  | nil => exact ht
  | cons level path ih =>
    rw [updatePruned]
    split
    · exact ht
    · next child h =>
      dsimp only
      split
      · exact ht.erase
      · next hne => exact ht.insert (by simpa using hne) (ih (ht.find? h))

/-- A pruned trie is empty exactly if all its entries are blank. -/
theorem isEmpty_iff_get {t : Trie α} (ht : t.children.Pruned) :
    t.isEmpty = true ↔ ∀ path, t.get path = Blank.blank := by
  refine ⟨get_of_isEmpty, fun h => ?_⟩
  have hentry : Blank.isBlank t.entry = true := (Blank.isBlank_iff _).2 (h [])
  cases hempty : t.children.isEmpty with
  | true => rw [isEmpty, hentry, hempty]; rfl
  | false =>
    obtain ⟨l, p, child, hfind, hget⟩ := ht.exists_get hempty
    have hblank := h (l :: p)
    rw [get_cons, hfind] at hblank
    exact absurd hblank hget

end Trie

/-! ### Listing the entries -/

namespace Forest

theorem path_of_mem_entries {f : Forest α} {above path : List String} {a : α}
    (h : (path, a) ∈ f.entries above) : ∃ l p, path = (l :: p).reverse ++ above ∧ l ∈ f.names := by
  induction f generalizing above with
  | nil => cases h
  | cons l entry children rest ihc ihr =>
    rw [entries, List.mem_cons, List.mem_append] at h
    rcases h with h | h | h
    · cases h
      exact ⟨l, [], rfl, .head _⟩
    · obtain ⟨l', p, rfl, -⟩ := ihc h
      exact ⟨l, l' :: p, by simp, .head _⟩
    · obtain ⟨l', p, rfl, hl'⟩ := ihr h
      exact ⟨l', p, rfl, .tail _ hl'⟩

/-- No path is listed twice. -/
theorem nodup_entries {f : Forest α} (hf : f.Sorted) (above : List String) :
    ((f.entries above).map (·.1)).Nodup := by
  induction f generalizing above with
  | nil => exact .nil
  | cons l entry children rest ihc ihr =>
    obtain ⟨hl, hchildren, hrest⟩ := hf
    have hbeside {l' : String} (hl' : l' ∈ rest.names) : l ≠ l' := by
      rintro rfl
      exact String.lt_irrefl l (hl l hl')
    rw [entries, List.map_cons, List.map_append, List.nodup_cons, List.nodup_append]
    refine ⟨fun hmem => ?_, ihc hchildren _, ihr hrest _, fun path hpath path' hpath' heq => ?_⟩
    · rw [List.mem_append, List.mem_map, List.mem_map] at hmem
      rcases hmem with ⟨⟨path, a⟩, hmem, heq⟩ | ⟨⟨path, a⟩, hmem, heq⟩
      · obtain ⟨l', p, rfl, -⟩ := path_of_mem_entries hmem
        have hlength := congrArg List.length heq
        simp only [List.length_append, List.length_reverse, List.length_cons] at hlength
        omega
      · obtain ⟨l', p, rfl, hl'⟩ := path_of_mem_entries hmem
        have hp : p = [] := by
          have hlength := congrArg List.length heq
          simpa using hlength
        subst hp
        exact hbeside hl' (List.cons.inj heq).1.symm
    · subst heq
      obtain ⟨⟨q, a⟩, hmem, rfl⟩ := List.mem_map.1 hpath
      obtain ⟨⟨q', a'⟩, hmem', heq : q' = q⟩ := List.mem_map.1 hpath'
      obtain ⟨l', p, hp, -⟩ := path_of_mem_entries hmem
      obtain ⟨l'', p', hp', hl''⟩ := path_of_mem_entries hmem'
      have hsame : (l :: l' :: p).reverse ++ above = (l'' :: p').reverse ++ above := by
        rw [← hp', heq, hp]
        simp
      have hlast := List.reverse_inj.1 (List.append_cancel_right hsame)
      exact hbeside hl'' (List.cons.inj hlast).1

/-- The entries that are listed are those that lookup finds, apart from blank ones. -/
theorem mem_entries [Blank α] {f : Forest α} (hf : f.Sorted) {a : α} (ha : a ≠ Blank.blank)
    {above path : List String} :
    (path, a) ∈ f.entries above ↔
      ∃ l p, path = (l :: p).reverse ++ above ∧ ((f.find? l).getD .empty).get p = a := by
  induction f generalizing above with
  | nil =>
    constructor
    · intro h
      cases h
    · rintro ⟨l, p, -, hget⟩
      exact absurd (by simpa [find?] using hget.symm) ha
  | cons l₀ entry children rest ihc ihr =>
    obtain ⟨hl₀, hchildren, hrest⟩ := hf
    rw [entries, List.mem_cons, List.mem_append, ihc hchildren, ihr hrest]
    constructor
    · rintro (h | ⟨l, p, rfl, hget⟩ | ⟨l, p, rfl, hget⟩)
      · cases h
        exact ⟨l₀, [], rfl, by simp [find?, Trie.get]⟩
      · refine ⟨l₀, l :: p, by simp, ?_⟩
        rw [find?, if_pos rfl]
        simpa [Trie.get_cons] using hget
      · refine ⟨l, p, rfl, ?_⟩
        have hne : l₀ ≠ l := by
          rintro rfl
          have hgone : rest.find? l₀ = none :=
            find?_eq_none_iff.2 fun hmem => String.lt_irrefl l₀ (hl₀ l₀ hmem)
          rw [hgone] at hget
          exact ha (by simpa using hget.symm)
        rw [find?, if_neg hne]
        exact hget
    · rintro ⟨l, p, rfl, hget⟩
      rw [find?] at hget
      by_cases h : l₀ = l
      · subst h
        rw [if_pos rfl] at hget
        cases p with
        | nil => exact .inl (by rw [← hget]; rfl)
        | cons l' p =>
          refine .inr (.inl ⟨l', p, by simp, ?_⟩)
          simpa [Trie.get_cons] using hget
      · rw [if_neg h] at hget
        exact .inr (.inr ⟨l, p, rfl, hget⟩)

end Forest

end Mqtt
