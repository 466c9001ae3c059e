import Mqtt.Topic

/-!
# Levels of topics and filters: `topic_matches_filter`

A text and its levels determine each other. The comparison of a filter with a topic can be read as a
walk down the levels of both, `Topic.Walks`, which is what a trie of filters does for all of its
filters at once; for valid filters the two agree.
-/

namespace Mqtt.Topic

/-! ### Splitting and joining -/

theorem splitLevels_eq_splitOn (cs : List Char) : splitLevels cs = cs.splitOn '/' := by
  induction cs with
  | nil => rfl
  | cons c cs ih =>
    rw [List.splitOn_cons_eq_if_modifyHead, ← ih]
    have hne : splitLevels cs ≠ [] := by
      rw [ih]
      exact List.splitOn_ne_nil _ _
    obtain ⟨level, rest, hsplit⟩ := List.exists_cons_of_ne_nil hne
    unfold splitLevels at hsplit ⊢
    rw [List.foldr_cons, hsplit]
    by_cases hc : c = '/'
    · simp [hc]
    · simp [hc]

theorem levels_ne_nil (s : String) : levels s ≠ [] := by
  unfold levels
  rw [splitLevels_eq_splitOn]
  simp

/-- The levels of a text, joined, are the text. -/
theorem intercalate_levels (s : String) : "/".intercalate (levels s) = s := by
  apply String.ext
  rw [String.toList_intercalate, levels, List.map_map, splitLevels_eq_splitOn]
  have hid : (String.toList ∘ String.ofList) = id := funext fun cs => by simp
  rw [hid, List.map_id]
  exact List.intercalate_splitOn '/'

theorem levels_injective {s s' : String} (h : levels s = levels s') : s = s' := by
  rw [← intercalate_levels s, h, intercalate_levels]

/-! ### The first level -/

/-- The first level begins as the text does. -/
theorem head?_levels {s level : String} {rest : List String} (h : levels s = level :: rest) :
    level.toList.head? = if s.toList.head? = some '/' then none else s.toList.head? := by
  unfold levels at h
  rw [splitLevels_eq_splitOn] at h
  cases hs : s.toList with
  | nil =>
    rw [hs] at h
    cases h
    rfl
  | cons c cs =>
    rw [hs, List.splitOn_cons_eq_if_modifyHead] at h
    by_cases hc : c = '/'
    · rw [if_pos (by simpa using hc)] at h
      cases h
      simp [hc]
    · rw [if_neg (by simpa using hc)] at h
      obtain ⟨first, others, hsplit⟩ := List.exists_cons_of_ne_nil (List.splitOn_ne_nil '/' cs)
      rw [hsplit] at h
      cases h
      simp [hc]

theorem isReserved_level {s level : String} {rest : List String} (h : levels s = level :: rest) :
    isReserved level = isReserved s := by
  unfold isReserved
  rw [head?_levels h]
  split
  · next hs => simp [hs]
  · rfl

/-! ### Walking -/

/-- A walk down the levels of a filter and a topic that ends with both, or at a `#`. In the first
level wildcards pass over reserved topics. -/
inductive Walks : Bool → List String → List String → Prop
  | stop (first : Bool) : Walks first [] []
  | parent (first : Bool) : Walks first [multiWildcard] []
  | rest {first : Bool} {level : String} (path : List String) :
      (first && isReserved level) = false → Walks first [multiWildcard] (level :: path)
  | single {first : Bool} {level : String} {filter path : List String} :
      (first && isReserved level) = false → Walks false filter path →
      Walks first (singleWildcard :: filter) (level :: path)
  | literal (first : Bool) (level : String) {filter path : List String} :
      Walks false filter path → Walks first (level :: filter) (level :: path)

/-- A level of a valid filter is a wildcard or contains none, and only the last is `#`. -/
theorem validLevels_cons_iff {level : String} {rest : List String} :
    validLevels (level :: rest) = true ↔
      (level = multiWildcard ∧ rest = [] ∨ level = singleWildcard ∨ hasWildcard level = false) ∧
        validLevels rest = true := by
  cases rest with
  | nil =>
    simp only [validLevels, Bool.or_eq_true, decide_eq_true_eq, Bool.not_eq_true', and_true]
    exact or_assoc.trans or_left_comm
  | cons next rest =>
    simp only [validLevels, Bool.and_eq_true, Bool.or_eq_true, decide_eq_true_eq, Bool.not_eq_true',
      List.cons_ne_nil, and_false, false_or]

theorem ne_multiWildcard {level : String} (h : level = singleWildcard ∨ hasWildcard level = false) :
    level ≠ multiWildcard := by
  rintro rfl
  rcases h with hsingle | hplain
  · exact absurd hsingle (by decide)
  · exact absurd hplain (by decide)

/-- Beyond the first level, walking is comparing. -/
theorem walks_false_iff {filter : List String} (hvalid : validLevels filter = true)
    (path : List String) : Walks false filter path ↔ matchLevels filter path = true := by
  induction path generalizing filter with
  | nil =>
    constructor
    · intro h
      cases h <;> rfl
    · intro h
      cases filter with
      | nil => exact .stop false
      | cons level rest =>
        have hlevel : level = multiWildcard := by simpa [matchLevels] using h
        subst hlevel
        rcases (validLevels_cons_iff.1 hvalid).1 with ⟨-, rfl⟩ | hother
        · exact .parent false
        · exact absurd rfl (ne_multiWildcard hother)
  | cons level path ih =>
    constructor
    · intro h
      cases h with
      | rest => simp [matchLevels]
      | single _ h =>
        have hnext := (ih (validLevels_cons_iff.1 hvalid).2).1 h
        simp [matchLevels, hnext]
      | literal _ _ h =>
        have hnext := (ih (validLevels_cons_iff.1 hvalid).2).1 h
        simp [matchLevels, hnext]
    · intro h
      cases filter with
      | nil => cases h
      | cons wanted rest =>
        obtain ⟨hwanted, hrest⟩ := validLevels_cons_iff.1 hvalid
        rw [matchLevels] at h
        split at h
        · next hmulti =>
          subst hmulti
          rcases hwanted with ⟨-, rfl⟩ | hother
          · exact .rest path rfl
          · exact absurd rfl (ne_multiWildcard hother)
        · split at h
          · next heq =>
            rw [Bool.or_eq_true, decide_eq_true_eq, decide_eq_true_eq] at heq
            rcases heq with rfl | rfl
            · exact .single rfl ((ih hrest).2 h)
            · exact .literal false wanted ((ih hrest).2 h)
          · cases h

/-- In the first level a reserved topic is passed over by a wildcard, and by nothing else. -/
theorem walks_true_iff {filter : List String} (hvalid : validLevels filter = true) {level : String}
    (path : List String) :
    Walks true filter (level :: path) ↔
      ¬(isReserved level = true ∧ ∃ rest, filter = multiWildcard :: rest ∨ filter = singleWildcard :: rest)
        ∧ matchLevels filter (level :: path) = true := by
  rw [← walks_false_iff hvalid]
  cases hreserved : isReserved level with
  | false =>
    simp only [Bool.false_eq_true, false_and, not_false_eq_true, true_and]
    constructor
    · intro h
      cases h with
      | rest => exact .rest path rfl
      | single _ h => exact .single rfl h
      | literal _ _ h => exact .literal false level h
    · intro h
      cases h with
      | rest => exact .rest path (by simpa using hreserved)
      | single _ h => exact .single (by simpa using hreserved) h
      | literal _ _ h => exact .literal true level h
  | true =>
    have hplain : level ≠ multiWildcard ∧ level ≠ singleWildcard := by
      constructor <;> rintro rfl <;> revert hreserved <;> decide
    constructor
    · intro h
      cases h with
      | rest _ h => simp [hreserved] at h
      | single h _ => simp [hreserved] at h
      | literal _ _ h =>
        refine ⟨?_, .literal false level h⟩
        rintro ⟨-, rest, heq | heq⟩
        · exact hplain.1 (List.cons.inj heq).1
        · exact hplain.2 (List.cons.inj heq).1
    · rintro ⟨hwild, h⟩
      cases h with
      | rest => exact absurd ⟨rfl, _, .inl rfl⟩ hwild
      | single _ h => exact absurd ⟨rfl, _, .inr rfl⟩ hwild
      | literal _ _ h => exact .literal true level h

/-- A valid filter begins with a wildcard exactly if its first level is one. -/
theorem head?_isWildcardChar_iff {filter : String} (hvalid : validLevels (levels filter) = true) :
    filter.toList.head?.any isWildcardChar = true ↔
      ∃ rest, levels filter = multiWildcard :: rest ∨ levels filter = singleWildcard :: rest := by
  obtain ⟨level, rest, hlevels⟩ := List.exists_cons_of_ne_nil (levels_ne_nil filter)
  have hhead : level.toList.head?.any isWildcardChar = filter.toList.head?.any isWildcardChar := by
    rw [head?_levels hlevels]
    split
    · next h => rw [h]; rfl
    · rfl
  rw [← hhead, hlevels]
  constructor
  · intro h
    rw [hlevels] at hvalid
    rcases (validLevels_cons_iff.1 hvalid).1 with ⟨rfl, -⟩ | rfl | hplain
    · exact ⟨rest, .inl rfl⟩
    · exact ⟨rest, .inr rfl⟩
    · unfold hasWildcard at hplain
      cases hcs : level.toList with
      | nil =>
        rw [hcs] at h
        cases h
      | cons c cs =>
        rw [hcs] at h hplain
        rw [List.any_cons, show isWildcardChar c = true from h] at hplain
        cases hplain
  · rintro ⟨rest', h | h⟩
    · rw [(List.cons.inj h).1]; rfl
    · rw [(List.cons.inj h).1]; rfl

/-- **Walking is matching**, for every valid filter and every topic. -/
theorem walks_iff_isMatch {filter : String} (hvalid : isValidFilter filter = true) (topic : String) :
    Walks true (levels filter) (levels topic) ↔ isMatch topic filter = true := by
  unfold isValidFilter at hvalid
  rw [Bool.and_eq_true] at hvalid
  obtain ⟨level, path, hlevels⟩ := List.exists_cons_of_ne_nil (levels_ne_nil topic)
  rw [isMatch, Bool.and_eq_true, Bool.not_eq_true', ← Bool.not_eq_true, Bool.and_eq_true,
    head?_isWildcardChar_iff hvalid.2, hlevels, walks_true_iff hvalid.2, isReserved_level hlevels]

/-! ### Any walk -/

/-- No level contains a separator. -/
theorem slash_notMem_of_mem_levels {s level : String} (h : level ∈ levels s) : '/' ∉ level.toList := by
  have hsplit (cs : List Char) : ∀ l ∈ cs.splitOn '/', '/' ∉ l := by
    induction cs with
    | nil => simp [List.splitOn_nil]
    | cons c cs ih =>
      obtain ⟨first, rest, hfirst⟩ := List.exists_cons_of_ne_nil (List.splitOn_ne_nil '/' cs)
      rw [List.splitOn_cons_eq_if_modifyHead, hfirst]
      rw [hfirst] at ih
      intro l hl
      split at hl
      · rcases List.mem_cons.1 hl with rfl | hl
        · exact List.not_mem_nil
        · exact ih l hl
      · next hc =>
        rcases List.mem_cons.1 hl with rfl | hl
        · rw [List.mem_cons, not_or]
          exact ⟨fun heq => hc (by simp [← heq]), ih first (.head _)⟩
        · exact ih l (.tail _ hl)
  unfold levels at h
  rw [splitLevels_eq_splitOn] at h
  obtain ⟨l, hl, rfl⟩ := List.mem_map.1 h
  rw [String.toList_ofList]
  exact hsplit _ l hl

/-- Levels, joined, are the levels of a text. -/
theorem levels_intercalate {path : List String} (hne : path ≠ [])
    (hpath : ∀ level ∈ path, '/' ∉ level.toList) : levels ("/".intercalate path) = path := by
  rw [levels, splitLevels_eq_splitOn, String.toList_intercalate]
  have hsplit : List.splitOn '/' (['/'].intercalate (path.map String.toList)) = path.map String.toList := by
    refine List.splitOn_intercalate '/' (fun l hl => ?_) (by simpa using hne)
    obtain ⟨level, hlevel, rfl⟩ := List.mem_map.1 hl
    exact hpath level hlevel
  rw [show "/".toList = ['/'] from rfl, hsplit, List.map_map]
  have hid : (String.ofList ∘ String.toList) = id := funext fun s => by simp
  rw [hid, List.map_id]

/-- The levels of a walk are wildcards and levels of the topic. -/
theorem mem_of_walks {first : Bool} {path rest : List String} (h : Walks first path rest) {level : String}
    (hlevel : level ∈ path) : level = multiWildcard ∨ level = singleWildcard ∨ level ∈ rest := by
  induction h with
  | stop => cases hlevel
  | parent => exact .inl (List.mem_singleton.1 hlevel)
  | rest path _ => exact .inl (List.mem_singleton.1 hlevel)
  | single _ _ ih =>
    rcases List.mem_cons.1 hlevel with rfl | hlevel
    · exact .inr (.inl rfl)
    · exact (ih hlevel).imp_right (·.imp_right (.tail _))
  | literal _ _ _ ih =>
    rcases List.mem_cons.1 hlevel with rfl | hlevel
    · exact .inr (.inr (.head _))
    · exact (ih hlevel).imp_right (·.imp_right (.tail _))

/-- A walk compares levels, whatever the filter. -/
theorem matchLevels_of_walks {first : Bool} {path rest : List String} (h : Walks first path rest) :
    matchLevels path rest = true := by
  induction h with
  | stop => rfl
  | parent => rfl
  | rest path _ => simp [matchLevels]
  | single _ _ ih => simp [matchLevels, ih]
  | literal _ _ _ ih => simp [matchLevels, ih]

/-- **Every walk ends at a filter that matches**, valid or not. -/
theorem isMatch_of_walks {path : List String} {topic : String} (h : Walks true path (levels topic)) :
    levels ("/".intercalate path) = path ∧ isMatch topic ("/".intercalate path) = true := by
  have hne : path ≠ [] := by
    rintro rfl
    generalize hlevels : levels topic = rest at h
    cases h
    exact levels_ne_nil topic hlevels
  have hlevels : levels ("/".intercalate path) = path := levels_intercalate hne fun level hlevel => by
    rcases mem_of_walks h hlevel with rfl | rfl | hlevel
    · decide
    · decide
    · exact slash_notMem_of_mem_levels hlevel
  refine ⟨hlevels, ?_⟩
  rw [isMatch, hlevels, matchLevels_of_walks h, Bool.and_true, Bool.not_eq_true', Bool.and_eq_false_iff]
  -- Only the level itself leads a walk into a reserved topic, and it begins with no wildcard.
  by_cases hreserved : isReserved topic = true
  · right
    obtain ⟨level, rest, htopic⟩ := List.exists_cons_of_ne_nil (levels_ne_nil topic)
    have hfirst : isReserved level = true := by rw [isReserved_level htopic, hreserved]
    rw [htopic] at h
    generalize hfilter : "/".intercalate path = filter at hlevels ⊢
    cases h with
    | rest _ hvisible => simp [hfirst] at hvisible
    | single hvisible _ => simp [hfirst] at hvisible
    | literal _ _ _ =>
      have hhead : isReserved filter = true := by rw [← isReserved_level hlevels, hfirst]
      rw [isReserved, decide_eq_true_eq] at hhead
      rw [hhead]
      rfl
  · exact .inl (by simpa using hreserved)

end Mqtt.Topic
