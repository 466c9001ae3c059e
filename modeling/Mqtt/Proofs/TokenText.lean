import Mathlib.Data.List.Basic
import Mqtt.Json.Token

/-!
# Tokens are read back

What `Token.render` and `Token.renderIndented` write is scanned to the tokens it was written from. Each token is
read off the front of what follows it (`scanOne_chars`), and blanks are passed over, so any blanks between the tokens
do (`Written`). A number is the only token whose end is told by what follows, so numbers must stand before a comma,
a closing or the end (`Spaced`), as they do in every document.
-/

namespace Mqtt

/-! ### Digits -/

namespace Digits

theorem digitOf?_ten {c : Char} (hc : c.isDigit = true) : digitOf? 10 c = some (c.toNat - '0'.toNat) := by
  obtain ⟨hlow, hhigh⟩ : '0' ≤ c ∧ c ≤ '9' := by simpa [Char.isDigit, Char.le_def] using hc
  have hvalue : c.toNat ≤ 57 := hhigh
  have hdigit : digit? c = some (c.toNat - '0'.toNat) := by simp [digit?, hlow, hhigh]
  have hlt : c.toNat - '0'.toNat < 10 := by
    have hzero : '0'.toNat = 48 := rfl
    omega
  rw [digitOf?, hdigit, Option.filter_some, if_pos (decide_eq_true hlt)]

theorem foldlM_digits {ds : List Char} (hds : ∀ c ∈ ds, c.isDigit = true) (n : Nat) :
    ds.foldlM (fun n c => (digitOf? 10 c).map (n * 10 + ·)) n = some (Nat.ofDigitChars 10 ds n) := by
  induction ds generalizing n with
  | nil => rfl
  | cons c ds ih =>
    rw [List.foldlM_cons, digitOf?_ten (hds c (.head _)), Nat.ofDigitChars_cons, Nat.mul_comm 10 n]
    exact ih (fun c hc => hds c (.tail _ hc)) _

/-- The digits of a number write it. -/
theorem value_toDigits (n : Nat) : value (Nat.toDigits 10 n) = n := by
  have hdigits : ∀ c ∈ Nat.toDigits 10 n, c.isDigit = true := fun c hc =>
    Nat.isDigit_of_mem_toDigits (by decide) (by decide) hc
  have hne : (Nat.toDigits 10 n).isEmpty = false := by simp
  rw [value, value?, hne, if_neg Bool.false_ne_true, foldlM_digits hdigits, Option.getD_some,
    Nat.ofDigitChars_ten_toDigits]

theorem exists_toDigits (n : Nat) : ∃ c cs, Nat.toDigits 10 n = c :: cs ∧ c.isDigit = true := by
  obtain ⟨c, cs, hcs⟩ := List.exists_cons_of_ne_nil (Nat.toDigits_ne_nil (n := n) (b := 10))
  have hmem : c ∈ Nat.toDigits 10 n := by rw [hcs]; exact .head cs
  exact ⟨c, cs, hcs, Nat.isDigit_of_mem_toDigits (by decide) (by decide) hmem⟩

/-- Only the digits of 0 begin with 0. -/
theorem head?_toDigits {n : Nat} (hn : n ≠ 0) : (Nat.toDigits 10 n).head? ≠ some '0' := by
  induction n using Nat.strongRecOn with
  | ind n ih =>
    by_cases hlt : n < 10
    · rw [Nat.toDigits_of_lt_base hlt]
      simpa using hn
    · rw [Nat.toDigits_of_base_le (by decide) (by omega), List.head?_append_of_ne_nil _ Nat.toDigits_ne_nil]
      exact ih (n / 10) (by omega) (by omega)

theorem split_digits {ds rest : List Char} (hds : ∀ c ∈ ds, c.isDigit = true)
    (hrest : ∀ c ∈ rest.head?, c.isDigit = false) : split (ds ++ rest) = (ds, rest) := by
  rw [split, List.takeWhile_append_of_pos hds, List.dropWhile_append_of_pos hds]
  cases rest with
  | nil => rw [List.takeWhile_nil, List.dropWhile_nil, List.append_nil]
  | cons c rest =>
    have hc : ¬ c.isDigit = true := Bool.eq_false_iff.1 (hrest c rfl)
    rw [List.takeWhile_cons_of_neg hc, List.dropWhile_cons_of_neg hc, List.append_nil]

end Digits

namespace Json.Token

/-! ### Numbers -/

/-- No number goes on with these characters. -/
def EndsNumber (cs : List Char) : Prop := ∀ c ∈ cs.head?, c.isDigit = false ∧ c ≠ '.' ∧ c ≠ 'e' ∧ c ≠ 'E'

theorem scanFraction_of_ends {cs : List Char} (h : EndsNumber cs) : scanFraction cs = some ([], cs) := by
  apply scanFraction.eq_2
  rintro rest rfl
  exact (h '.' rfl).2.1 rfl

theorem scanExponent_of_ends {cs : List Char} (h : EndsNumber cs) : scanExponent cs = some (none, cs) := by
  cases cs with
  | nil => rfl
  | cons c cs =>
    obtain ⟨-, -, he, hE⟩ := h c rfl
    simp [scanExponent, he, hE]

/-- The digits of a number are read as the number, unless that would be a negative zero. -/
theorem scanNumber_toDigits (negative : Bool) (n : Nat) {rest : List Char} (hzero : negative = true → n ≠ 0)
    (hrest : EndsNumber rest) :
    scanNumber negative (Nat.toDigits 10 n ++ rest) = some (.int (if negative then -n else n), rest) := by
  have hsplit : Digits.split (Nat.toDigits 10 n ++ rest) = (Nat.toDigits 10 n, rest) :=
    Digits.split_digits (fun c hc => Nat.isDigit_of_mem_toDigits (by decide) (by decide) hc)
      fun c hc => (hrest c hc).1
  have hlead : ((Nat.toDigits 10 n).isEmpty ||
      ((Nat.toDigits 10 n).head? = some '0' && (Nat.toDigits 10 n).length > 1)) = false := by
    by_cases hn : n = 0
    · subst hn
      rfl
    · simp [Digits.head?_toDigits hn]
  have hplain : (!(negative && (n : Nat) = 0)) = true := by
    cases negative with
    | true => simp [hzero rfl]
    | false => rfl
  simp only [scanNumber, hsplit, hlead, Bool.false_eq_true, if_false, scanFraction_of_ends hrest,
    scanExponent_of_ends hrest, Digits.value_toDigits, Option.bind_eq_bind, Option.bind_some,
    List.isEmpty_nil, Option.isNone_none, hplain, Bool.and_self, if_true]
  rfl

theorem scanOne_of_isDigit {c : Char} {cs : List Char} (hc : c.isDigit = true) :
    scanOne (c :: cs) = scanNumber false (c :: cs) := by
  apply scanOne.eq_12
  all_goals
    intro rest h
    cases h
    cases hc

theorem chars_ofNat (n : Nat) : (int (.ofNat n)).chars = Nat.toDigits 10 n := Nat.toList_repr

theorem chars_negSucc (n : Nat) : (int (.negSucc n)).chars = '-' :: Nat.toDigits 10 (n + 1) := by
  have hrepr : toString (Int.negSucc n) = "-" ++ Nat.repr (n + 1) := rfl
  rw [chars, hrepr, String.toList_append, Nat.toList_repr]
  rfl

theorem scanOne_int (n : Int) {rest : List Char} (hrest : EndsNumber rest) :
    scanOne ((int n).chars ++ rest) = some (int n, rest) := by
  cases n with
  | ofNat n =>
    obtain ⟨c, cs, hcs, hc⟩ := Digits.exists_toDigits n
    have hscan := scanNumber_toDigits false n (fun h => by cases h) hrest
    rw [chars_ofNat, hcs, List.cons_append]
    rw [hcs, List.cons_append] at hscan
    exact (scanOne_of_isDigit hc).trans hscan
  | negSucc n =>
    rw [chars_negSucc, List.cons_append]
    exact scanNumber_toDigits true (n + 1) (fun _ => Nat.succ_ne_zero n) hrest

/-! ### Texts -/

/-- An escaped control character is written with two digits in base sixteen. -/
theorem hex4?_control {n : Nat} (hn : n < 32) :
    hex4? '0' '0' (Nat.digitChar (n / 16)) (Nat.digitChar (n % 16)) = some n := by
  have hall : ∀ n < 32, hex4? '0' '0' (Nat.digitChar (n / 16)) (Nat.digitChar (n % 16)) = some n := by decide
  exact hall n hn

/-- An escaped character is read as the character. -/
theorem scanText_escape {q : Quoted} (hq : q.high = none) (c : Char) (cs : List Char) :
    scanText q (escape c ++ cs) = scanText (q.push c) cs := by
  unfold escape
  split_ifs with hquote hback hline hreturn htab hbell hform hcontrol
  · subst hquote; rfl
  · subst hback; rfl
  · subst hline; rfl
  · subst hreturn; rfl
  · subst htab; rfl
  · obtain rfl : c = Char.ofNat 8 := Char.toNat_inj.1 hbell
    rfl
  · obtain rfl : c = Char.ofNat 12 := Char.toNat_inj.1 hform
    rfl
  · have hunit : q.pushUnit c.toNat = q.push c := by
      have hhigh : ¬ (0xD800 ≤ c.toNat) := by omega
      have hlow : ¬ (0xDC00 ≤ c.toNat) := by omega
      simp [Quoted.pushUnit, hq, hhigh, hlow]
    simp only [List.cons_append, List.nil_append]
    rw [scanText.eq_3, hex4?_control hcontrol]
    simp only [hunit]
  · rw [List.singleton_append, scanText.eq_5]
    · rw [if_neg (by simp [hcontrol, hback])]
    · exact fun h => hquote h
    · exact fun _ _ _ _ _ h _ => hback h
    · exact fun _ _ h _ => hback h

/-- A quoted text is read as the text. -/
theorem scanText_flatMap_escape (cs rest : List Char) :
    ∀ q : Quoted, q.high = none →
      scanText q (cs.flatMap escape ++ '"' :: rest) =
        some (Quoted.token ⟨cs.reverse ++ q.chars, none, q.ok⟩, rest) := by
  induction cs with
  | nil =>
    rintro ⟨chars, high, ok⟩ hq
    cases hq
    rfl
  | cons c cs ih =>
    intro q hq
    have hpushed : q.push c = ⟨c :: q.chars, none, q.ok⟩ := by simp [Quoted.push, hq]
    rw [List.flatMap_cons, List.append_assoc, scanText_escape hq, ih _ rfl, hpushed, List.reverse_cons,
      List.append_assoc]
    rfl

theorem scanOne_text (s : String) (rest : List Char) : scanOne ((text s).chars ++ rest) = some (text s, rest) := by
  have hscan := scanText_flatMap_escape s.toList rest .start rfl
  have htoken : Quoted.token ⟨s.toList.reverse ++ [], none, true⟩ = text s := by
    simp [Quoted.token]
  simp only [chars, List.cons_append, List.append_assoc]
  exact hscan.trans (congrArg (fun t => some (t, rest)) htoken)

/-! ### Tokens -/

/-- The token is a number. -/
def isNumber : Token → Bool
  | int _ | real | unbounded => true
  | _ => false

theorem scanOne_real {rest : List Char} (hrest : EndsNumber rest) :
    scanOne (real.chars ++ rest) = some (real, rest) := by
  have hsplit : Digits.split ('0' :: rest) = (['0'], rest) :=
    show Digits.split (['0'] ++ rest) = _ from Digits.split_digits (by simp) fun c hc => (hrest c hc).1
  have hfinite : ¬ Binary64.ofDecimal true 0 0 = .infinite true := by decide +kernel
  have hvalue : Digits.value ['0'] = 0 := rfl
  have hscan : scanNumber true ('0' :: rest) = some (real, rest) := by
    simp [scanNumber, hsplit, scanFraction_of_ends hrest, scanExponent_of_ends hrest, hvalue, hfinite]
  exact hscan

/-- **A token is read off the front of what follows it.** -/
theorem scanOne_chars {t : Token} {rest : List Char} (ht : t ≠ unbounded)
    (hrest : t.isNumber = true → EndsNumber rest) : scanOne (t.chars ++ rest) = some (t, rest) := by
  cases t with
  | openObject | closeObject | openList | closeList | colon | comma | null => rfl
  | bool b => cases b <;> rfl
  | int n => exact scanOne_int n (hrest rfl)
  | real => exact scanOne_real (hrest rfl)
  | text s => exact scanOne_text s rest
  | unpaired => rfl
  | unbounded => exact absurd rfl ht

theorem isBlank_of_isDigit {c : Char} (hc : c.isDigit = true) : isBlank c = false := by
  simp only [isBlank, Bool.or_eq_false_iff, decide_eq_false_iff_not]
  refine ⟨⟨⟨?_, ?_⟩, ?_⟩, ?_⟩
  all_goals
    rintro rfl
    cases hc

/-- No token begins with a blank. -/
theorem exists_chars (t : Token) : ∃ c cs, t.chars = c :: cs ∧ isBlank c = false := by
  cases t with
  | int n =>
    cases n with
    | ofNat n =>
      obtain ⟨c, cs, hcs, hc⟩ := Digits.exists_toDigits n
      exact ⟨c, cs, (chars_ofNat n).trans hcs, isBlank_of_isDigit hc⟩
    | negSucc n => exact ⟨'-', _, chars_negSucc n, rfl⟩
  | bool b => cases b <;> exact ⟨_, _, rfl, rfl⟩
  | openObject | closeObject | openList | closeList | colon | comma | null | real | text | unpaired | unbounded =>
    exact ⟨_, _, rfl, rfl⟩

/-! ### Rows of tokens -/

/-- Tokens that may follow a number. -/
def endsNumber : Token → Bool
  | comma | closeList | closeObject => true
  | _ => false

/-- Every number stands before a token that may follow one, or at the end. -/
def Spaced : List Token → Prop
  | [] => True
  | t :: ts => t ≠ unbounded ∧ (t.isNumber = true → ∀ u ∈ ts.head?, u.endsNumber = true) ∧ Spaced ts

theorem Spaced.cons {t : Token} (ht : t.isNumber = false) {ts : List Token} (hts : Spaced ts) : Spaced (t :: ts) := by
  refine ⟨?_, fun hnumber => ?_, hts⟩
  · rintro rfl
    cases ht
  · rw [ht] at hnumber
    cases hnumber

/-- The characters write the tokens in their order, with blanks before each and at the end. -/
inductive Written : List Token → List Char → Prop
  | nil {blanks : List Char} : (∀ c ∈ blanks, isBlank c = true) → Written [] blanks
  | cons {blanks : List Char} {t : Token} {ts : List Token} {cs : List Char} :
      (∀ c ∈ blanks, isBlank c = true) → Written ts cs → Written (t :: ts) (blanks ++ (t.chars ++ cs))

theorem scanAll_blanks {bs : List Char} (hbs : ∀ c ∈ bs, isBlank c = true) (read : List Token) (cs : List Char)
    {fuel : Nat} (hfuel : bs.length ≤ fuel) :
    scanAll fuel read (bs ++ cs) = scanAll (fuel - bs.length) read cs := by
  induction bs generalizing fuel with
  | nil => rfl
  | cons b bs ih =>
    obtain _ | fuel := fuel
    · cases hfuel
    · have hfuel := Nat.le_of_succ_le_succ hfuel
      rw [List.cons_append, scanAll, if_pos (hbs b (.head _)), ih (fun c hc => hbs c (.tail _ hc)) hfuel,
        List.length_cons, Nat.add_sub_add_right]

theorem not_goesOn_of_isBlank {c : Char} (hc : isBlank c = true) : c.isDigit = false ∧ c ≠ '.' ∧ c ≠ 'e' ∧ c ≠ 'E' := by
  simp only [isBlank, Bool.or_eq_true, decide_eq_true_eq] at hc
  rcases hc with ((rfl | rfl) | rfl) | rfl <;> decide

theorem endsNumber_of_blanks {blanks cs : List Char} (hblanks : ∀ c ∈ blanks, isBlank c = true) (hcs : EndsNumber cs) :
    EndsNumber (blanks ++ cs) := by
  cases blanks with
  | nil => exact hcs
  | cons b blanks =>
    intro c hc
    cases hc
    exact not_goesOn_of_isBlank (hblanks b (.head _))

/-- What comes after a number ends it. -/
theorem Written.endsNumber {ts : List Token} {cs : List Char} (h : Written ts cs)
    (hts : ∀ u ∈ ts.head?, u.endsNumber = true) : EndsNumber cs := by
  cases h with
  | nil hblanks =>
    have hnil : EndsNumber [] := fun c hc => nomatch hc
    have hend := endsNumber_of_blanks hblanks hnil
    rwa [List.append_nil] at hend
  | @cons blanks u ts cs hblanks _ =>
    refine endsNumber_of_blanks hblanks fun c hc => ?_
    have hu := hts u rfl
    cases u with
    | comma | closeList | closeObject =>
      cases hc
      decide
    | openObject | openList | colon | null | bool | int | real | text | unpaired | unbounded => cases hu

/-- **The tokens that were written are read.** -/
theorem Written.scanAll_eq {ts : List Token} {cs : List Char} (h : Written ts cs) (hts : Spaced ts)
    {read : List Token} {fuel : Nat} (hfuel : cs.length ≤ fuel) : scanAll fuel read cs = some (read.reverse ++ ts) := by
  induction h generalizing read fuel with
  | @nil blanks hblanks =>
    have hscan := scanAll_blanks hblanks read [] hfuel
    rw [List.append_nil] at hscan
    rw [hscan, scanAll, List.append_nil]
  | @cons blanks t ts cs hblanks hwritten ih =>
    obtain ⟨hbounded, hnumber, hts⟩ := hts
    have hscan : scanOne (t.chars ++ cs) = some (t, cs) :=
      scanOne_chars hbounded fun ht => hwritten.endsNumber (hnumber ht)
    obtain ⟨c, cs', hchars, hc⟩ := t.exists_chars
    rw [List.length_append, hchars, List.length_append, List.length_cons] at hfuel
    rw [scanAll_blanks hblanks _ _ (by omega)]
    obtain ⟨rest, hrest⟩ : ∃ rest, fuel - blanks.length = rest + 1 := ⟨fuel - blanks.length - 1, by omega⟩
    rw [hchars, List.cons_append] at hscan ⊢
    rw [hrest, scanAll, if_neg (by simp [hc]), hscan]
    dsimp only
    rw [ih hts (by omega), List.reverse_cons, List.append_assoc]
    rfl

theorem scan_of_written {s : String} {ts : List Token} (h : Written ts s.toList) (hts : Spaced ts) :
    scan s = some ts := by
  rw [scan]
  exact h.scanAll_eq hts (Nat.le_refl _)

/-! ### Layouts -/

theorem written_flatMap (ts : List Token) : Written ts (ts.flatMap chars) := by
  induction ts with
  | nil => exact .nil (List.forall_mem_nil _)
  | cons t ts ih =>
    have hcons : Written (t :: ts) ([] ++ (t.chars ++ ts.flatMap chars)) := .cons (List.forall_mem_nil _) ih
    exact hcons

/-- **Tokens are read back from their text without blanks.** -/
theorem scan_render {ts : List Token} (hts : Spaced ts) : scan (render ts) = some ts := by
  refine scan_of_written ?_ hts
  rw [render, String.toList_ofList]
  exact written_flatMap ts

/-- The characters of tokens on indented lines, written behind `previous`. -/
def indented : (depth : Nat) → (previous : Option Token) → List Token → List Char
  | _, _, [] => []
  | depth, previous, t :: ts =>
    (previous.elim [] fun p => gap depth p t) ++ (t.chars ++ indented (depthAfter depth t) (some t) ts)

theorem foldl_indentStep (ts : List Token) :
    ∀ (depth : Nat) (previous : Option Token) (written : List (List Char)),
      (ts.foldl indentStep (depth, previous, written)).2.2.reverse.flatten =
        written.reverse.flatten ++ indented depth previous ts := by
  induction ts with
  | nil => exact fun depth previous written => (List.append_nil _).symm
  | cons t ts ih =>
    intro depth previous written
    have hstep : indentStep (depth, previous, written) t =
        (depthAfter depth t, some t, ((previous.elim [] fun p => gap depth p t) ++ t.chars) :: written) := by
      cases previous <;> rfl
    rw [List.foldl_cons, hstep, ih, indented]
    simp only [List.reverse_cons, List.flatten_append, List.flatten_singleton, List.append_assoc]

theorem renderIndented_eq (ts : List Token) : renderIndented ts = String.ofList (indented 0 none ts) := by
  rw [renderIndented, foldl_indentStep]
  rfl

theorem isBlank_of_mem_lineBreak {depth : Nat} {c : Char} (hc : c ∈ lineBreak depth) : isBlank c = true := by
  rcases List.mem_cons.1 hc with rfl | hc
  · rfl
  · rw [List.eq_of_mem_replicate hc]
    rfl

theorem gap_cases (depth : Nat) (p t : Token) :
    gap depth p t = [] ∨ (∃ d, gap depth p t = lineBreak d) ∨ gap depth p t = [' '] := by
  unfold gap
  split <;> simp

theorem isBlank_of_mem_gap {depth : Nat} {p t : Token} {c : Char} (hc : c ∈ gap depth p t) : isBlank c = true := by
  rcases gap_cases depth p t with h | ⟨d, h⟩ | h
  · rw [h] at hc
    cases hc
  · exact isBlank_of_mem_lineBreak (h ▸ hc)
  · rw [h] at hc
    rw [List.mem_singleton.1 hc]
    rfl

theorem written_indented (depth : Nat) (previous : Option Token) (ts : List Token) :
    Written ts (indented depth previous ts) := by
  induction ts generalizing depth previous with
  | nil => exact .nil (List.forall_mem_nil _)
  | cons t ts ih =>
    refine .cons ?_ (ih _ _)
    cases previous with
    | none => exact List.forall_mem_nil _
    | some p => exact fun c hc => isBlank_of_mem_gap hc

/-- **Tokens are read back from their indented lines.** -/
theorem scan_renderIndented {ts : List Token} (hts : Spaced ts) : scan (renderIndented ts) = some ts := by
  refine scan_of_written ?_ hts
  rw [renderIndented_eq, String.toList_ofList]
  exact written_indented 0 none ts

end Json.Token

end Mqtt
