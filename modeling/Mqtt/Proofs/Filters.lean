import Mathlib.Data.List.Forall2
import Mqtt.Proofs.Levels

/-!
# What filters mean: `is_valid_topic_filter`, `topic_matches_filter`

A filter is valid if its wildcards stand where they may, and it matches topics level by level: `+` stands for any one
level, and a `#` at the end for all levels that are left, none included. The comparison walks down both paths with
`matchLevels`. A valid filter has no `#`, and then it is compared as a whole, or it has one behind the rest, and then
the rest is compared with as many levels of the topic (`Topic.isMatch_iff_levels`).
-/

namespace Mqtt.Topic

/-- A level of a filter stands for a level of a topic. -/
def LevelMatches (wanted level : String) : Prop := wanted = singleWildcard ∨ wanted = level

instance (wanted level : String) : Decidable (LevelMatches wanted level) :=
  inferInstanceAs (Decidable (wanted = singleWildcard ∨ wanted = level))

/-! ### Valid filters -/

theorem hasWildcard_eq_false_iff {s : String} : hasWildcard s = false ↔ '+' ∉ s.toList ∧ '#' ∉ s.toList := by
  simp only [hasWildcard, isWildcardChar, List.any_eq_false, Bool.or_eq_true, decide_eq_true_eq, not_or]
  constructor
  · intro h
    exact ⟨fun hplus => (h _ hplus).1 rfl, fun hhash => (h _ hhash).2 rfl⟩
  · rintro ⟨hplus, hhash⟩ c hc
    exact ⟨fun heq => hplus (heq ▸ hc), fun heq => hhash (heq ▸ hc)⟩

/-- Every level contains no wildcard, or is `+`, or is `#` and the last. -/
theorem validLevels_iff {path : List String} :
    validLevels path = true ↔ ∀ before level after, path = before ++ level :: after →
      ('+' ∉ level.toList ∧ '#' ∉ level.toList) ∨ level = "+" ∨ level = "#" ∧ after = [] := by
  induction path with
  | nil => simp [validLevels]
  | cons first rest ih =>
    rw [validLevels_cons_iff, ih, hasWildcard_eq_false_iff]
    constructor
    · rintro ⟨hfirst, hrest⟩ before level after heq
      cases before with
      | nil =>
        cases heq
        rcases hfirst with hmulti | hsingle | hplain
        · exact .inr (.inr hmulti)
        · exact .inr (.inl hsingle)
        · exact .inl hplain
      | cons _ before =>
        cases heq
        exact hrest before level after rfl
    · intro h
      refine ⟨?_, fun before level after heq => h (first :: before) level after (by rw [heq, List.cons_append])⟩
      rcases h [] first rest rfl with hplain | hsingle | hmulti
      · exact .inr (.inr hplain)
      · exact .inr (.inl hsingle)
      · exact .inl hmulti

/-- Only the last level of a valid filter may be `#`. -/
theorem exists_plain_of_validLevels {path : List String} (h : validLevels path = true) :
    ∃ plain, multiWildcard ∉ plain ∧ (path = plain ∨ path = plain ++ [multiWildcard]) := by
  induction path with
  | nil => exact ⟨[], List.not_mem_nil, .inl rfl⟩
  | cons level rest ih =>
    obtain ⟨hlevel, hrest⟩ := validLevels_cons_iff.1 h
    rcases hlevel with ⟨rfl, rfl⟩ | hother
    · exact ⟨[], List.not_mem_nil, .inr rfl⟩
    · have hne : multiWildcard ≠ level := (ne_multiWildcard hother).symm
      obtain ⟨plain, hplain, hsplit⟩ := ih hrest
      refine ⟨level :: plain, ?_, hsplit.imp (congrArg _) (congrArg _)⟩
      rw [List.mem_cons, not_or]
      exact ⟨hne, hplain⟩

/-! ### Comparing levels -/

theorem matchLevels_cons {wanted : String} (h : wanted ≠ multiWildcard) (filter : List String) (level : String)
    (path : List String) :
    matchLevels (wanted :: filter) (level :: path) = true ↔
      LevelMatches wanted level ∧ matchLevels filter path = true := by
  rw [matchLevels, if_neg h]
  by_cases hlevel : LevelMatches wanted level
  · have hcond : (decide (wanted = singleWildcard) || decide (wanted = level)) = true := by
      simpa [LevelMatches] using hlevel
    simp only [hcond, if_true, hlevel, true_and]
  · have hcond : ¬ (decide (wanted = singleWildcard) || decide (wanted = level)) = true := by
      simpa [LevelMatches] using hlevel
    simp only [if_neg hcond, hlevel, false_and, Bool.false_eq_true]

/-- Without a `#` both paths have the same length, and each level stands for the one in its place. -/
theorem matchLevels_plain {filter : List String} (h : multiWildcard ∉ filter) (path : List String) :
    matchLevels filter path = true ↔ List.Forall₂ LevelMatches filter path := by
  induction filter generalizing path with
  | nil => cases path <;> simp [matchLevels]
  | cons wanted filter ih =>
    rw [List.mem_cons, not_or] at h
    obtain ⟨hwanted, hfilter⟩ := h
    cases path with
    | nil => simp [matchLevels, Ne.symm hwanted]
    | cons level path => rw [matchLevels_cons (Ne.symm hwanted), ih hfilter, List.forall₂_cons]

/-- With a `#` at the end what stands before it is compared with as many levels. -/
theorem matchLevels_rest {filter : List String} (h : multiWildcard ∉ filter) (path : List String) :
    matchLevels (filter ++ [multiWildcard]) path = true ↔
      filter.length ≤ path.length ∧ List.Forall₂ LevelMatches filter (path.take filter.length) := by
  induction filter generalizing path with
  | nil => cases path <;> simp [matchLevels]
  | cons wanted filter ih =>
    rw [List.mem_cons, not_or] at h
    obtain ⟨hwanted, hfilter⟩ := h
    rw [List.cons_append]
    cases path with
    | nil => simp [matchLevels, Ne.symm hwanted]
    | cons level path =>
      rw [matchLevels_cons (Ne.symm hwanted), ih hfilter, List.length_cons, List.length_cons, List.take_succ_cons,
        List.forall₂_cons, Nat.succ_le_succ_iff]
      exact and_left_comm

/-- A valid filter has a `#` at its end, or none at all. -/
theorem matchLevels_iff {filter : List String} (hvalid : validLevels filter = true) (path : List String) :
    matchLevels filter path = true ↔
      (filter.getLast? = some "#" ∧ filter.length - 1 ≤ path.length ∧
          List.Forall₂ LevelMatches (filter.take (filter.length - 1)) (path.take (filter.length - 1))) ∨
        ("#" ∉ filter ∧ path.length = filter.length ∧ List.Forall₂ LevelMatches filter path) := by
  obtain ⟨plain, hplain, rfl | rfl⟩ := exists_plain_of_validLevels hvalid
  · have hlast : filter.getLast? ≠ some "#" := fun hlast => hplain (List.mem_of_getLast? hlast)
    have hlength : List.Forall₂ LevelMatches filter path → path.length = filter.length := fun h => h.length_eq.symm
    rw [matchLevels_plain hplain]
    constructor
    · intro h
      exact .inr ⟨hplain, hlength h, h⟩
    · rintro (⟨h, -⟩ | ⟨-, -, h⟩)
      · exact absurd h hlast
      · exact h
  · have hmem : "#" ∈ plain ++ [multiWildcard] := List.mem_append_right _ (.head _)
    rw [matchLevels_rest hplain, List.length_append, List.length_singleton, Nat.add_sub_cancel, List.take_left]
    constructor
    · intro h
      exact .inl ⟨List.getLast?_concat, h⟩
    · rintro (⟨-, h⟩ | ⟨h, -⟩)
      · exact h
      · exact absurd hmem h

/-! ### Filters and topics -/

/-- **Matching goes level by level**, where the levels are what stands between the separators. A filter is valid
exactly if it is not empty and each of its levels contains no wildcard, or is `+`, or is `#` and the last. A valid
filter matches a topic exactly if the topic does not begin with `$` while the first level of the filter is a wildcard,
and either the filter ends with `#` and what stands before it is compared with as many levels, which the topic has, or
there is no `#` in it and both have the same number of levels and are compared as a whole. -/
theorem isMatch_iff_levels (topic filter : String) :
    (∀ s, levels s = (s.toList.splitOn '/').map String.ofList) ∧
    (isValidFilter filter = true ↔ filter ≠ "" ∧ ∀ before level after, levels filter = before ++ level :: after →
      ('+' ∉ level.toList ∧ '#' ∉ level.toList) ∨ level = "+" ∨ level = "#" ∧ after = []) ∧
    (isValidFilter filter = true →
      (isMatch topic filter = true ↔
        ¬ (topic.toList.head? = some '$' ∧ ((levels filter).head? = some "+" ∨ (levels filter).head? = some "#")) ∧
          (((levels filter).getLast? = some "#" ∧ (levels filter).length - 1 ≤ (levels topic).length ∧
              List.Forall₂ LevelMatches ((levels filter).take ((levels filter).length - 1))
                ((levels topic).take ((levels filter).length - 1))) ∨
            ("#" ∉ levels filter ∧ (levels topic).length = (levels filter).length ∧
              List.Forall₂ LevelMatches (levels filter) (levels topic))))) := by
  refine ⟨fun s => ?_, ?_, fun hvalid => ?_⟩
  · rw [levels, splitLevels_eq_splitOn]
  · rw [isValidFilter, Bool.and_eq_true, decide_eq_true_eq, validLevels_iff]
  · rw [isValidFilter, Bool.and_eq_true] at hvalid
    have hhead : (∃ rest, levels filter = multiWildcard :: rest ∨ levels filter = singleWildcard :: rest) ↔
        (levels filter).head? = some "+" ∨ (levels filter).head? = some "#" := by
      rw [exists_or, ← List.head?_eq_some_iff, ← List.head?_eq_some_iff]
      exact or_comm
    rw [isMatch, Bool.and_eq_true, Bool.not_eq_true', ← Bool.not_eq_true, Bool.and_eq_true,
      head?_isWildcardChar_iff hvalid.2, hhead, matchLevels_iff hvalid.2, isReserved, decide_eq_true_eq]

/-- `#` matches the level above it as well. -/
theorem isMatch_iff_levels_parent :
    isValidFilter "sport/+/#" = true ∧ isMatch "sport/tennis" "sport/+/#" = true := by
  have hvalid : isValidFilter "sport/+/#" = true := by decide +kernel
  refine ⟨hvalid, ((isMatch_iff_levels "sport/tennis" "sport/+/#").2.2 hvalid).2 ⟨?_, .inl ?_⟩⟩
  · decide +kernel
  · decide +kernel

/-- A level before the separator may be empty, and `+` stands for it; topics of the server are left alone. -/
example : isMatch "/finance" "+/+" = true ∧ isMatch "/finance" "+" = false ∧
    isMatch "$SYS/uptime" "+/uptime" = false ∧ isMatch "$SYS/uptime" "$SYS/#" = true := by
  decide +kernel

end Mqtt.Topic
