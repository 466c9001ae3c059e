import Mqtt.Proofs.Fields

/-!
# Lengths in groups of seven bits: `VarIntDecoder`

A length is spelled by one to four groups, least significant group first, of which each but the last
announces another. `reads_reader_iff` says that the spellings are what is read as a length. The shortest
spelling is the one that is written (`Spells.eq_encode`).
-/

namespace Mqtt.RemainingLength

open Reader

/-- The number that groups make. -/
def value : List UInt8 → Nat
  | [] => 0
  | b :: bs => b.toNat % 128 + 128 * value bs

/-- Each group but the last announces another. -/
def Closed : List UInt8 → Prop
  | [] => False
  | b :: bs => if b < 128 then bs = [] else Closed bs

/-- How many numbers that many groups can make. -/
def capacity : Nat → Nat
  | 0 => 1
  | k + 1 => 128 * capacity k

/-- The bytes spell the length. -/
structure Spells (field : List UInt8) (n : Nat) : Prop where
  closed : Closed field
  length_le : field.length ≤ 4
  value_eq : value field = n

theorem Closed.ne_nil {field : List UInt8} (h : Closed field) : field ≠ [] := by
  rintro rfl
  exact h

/-- The last group is the only one that announces none. -/
theorem Closed.append_inj {field field' rest rest' : List UInt8} (h : Closed field) (h' : Closed field')
    (happend : field ++ rest = field' ++ rest') : field = field' ∧ rest = rest' := by
  induction field generalizing field' with
  | nil => exact h.elim
  | cons b field ih =>
    obtain _ | ⟨b', field'⟩ := field'
    · exact h'.elim
    obtain ⟨rfl, htail⟩ := List.cons.inj happend
    by_cases hb : b < 128
    · rw [Closed, if_pos hb] at h h'
      subst h h'
      exact ⟨rfl, htail⟩
    · rw [Closed, if_neg hb] at h h'
      obtain ⟨rfl, rfl⟩ := ih h h' htail
      exact ⟨rfl, rfl⟩

theorem value_lt_capacity (field : List UInt8) : value field < capacity field.length := by
  induction field with
  | nil => exact Nat.one_pos
  | cons b field ih =>
    have hb := Nat.mod_lt b.toNat (show 0 < 128 by decide)
    rw [value, List.length_cons, capacity]
    omega

theorem capacity_le {k : Nat} (h : k ≤ 4) : capacity k ≤ maxValue + 1 := by
  have hall : ∀ k < 5, capacity k ≤ maxValue + 1 := by decide
  exact hall k (Nat.lt_succ_of_le h)

/-! ### Reading -/

theorem groups_eq (further weight value : Nat) :
    groups further weight value = Reader.byte.bind fun b =>
      if b < 128 then .done (value + b.toNat % 128 * weight)
      else match further with
        | 0 => .fail .invalidRemainingLength
        | n + 1 => groups n (weight * 128) (value + b.toNat % 128 * weight) := by
  cases further <;> rfl

/-- What one byte says: it is the last group, or another one is allowed and follows. -/
theorem reads_groups_cons_iff {further weight before n : Nat} {b : UInt8} {bs rest : List UInt8} :
    (groups further weight before).Reads (b :: bs) n rest ↔
      (b < 128 ∧ n = before + b.toNat % 128 * weight ∧ bs = rest) ∨
        (¬ b < 128 ∧ ∃ k, further = k + 1 ∧
          (groups k (weight * 128) (before + b.toNat % 128 * weight)).Reads bs n rest) := by
  have hread : (groups further weight before).Reads (b :: bs) n rest ↔
      ((if b < 128 then .done (before + b.toNat % 128 * weight)
        else match further with
          | 0 => .fail .invalidRemainingLength
          | k + 1 => groups k (weight * 128) (before + b.toNat % 128 * weight) : Reader Nat)).Reads bs n rest := by
    rw [groups_eq]
    exact Iff.rfl
  rw [hread]
  by_cases hb : b < 128
  · simp [hb, reads_done_iff]
  · cases further <;> simp [hb]

theorem reads_groups_iff {further weight before n : Nat} {bs rest : List UInt8} :
    (groups further weight before).Reads bs n rest ↔
      ∃ field, Closed field ∧ field.length ≤ further + 1 ∧ n = before + value field * weight ∧
        bs = field ++ rest := by
  induction bs generalizing further weight before with
  | nil =>
    rw [groups_eq]
    refine ⟨fun h => ?_, fun ⟨field, hclosed, _, _, hbs⟩ => ?_⟩
    · obtain ⟨b, mid, hb, -⟩ := reads_bind_iff.1 h
      cases reads_byte_iff.1 hb
    · exact absurd (List.append_eq_nil_iff.1 hbs.symm).1 hclosed.ne_nil
  | cons b bs ih =>
    have hsum (field : List UInt8) : before + b.toNat % 128 * weight + value field * (weight * 128)
        = before + value (b :: field) * weight := by
      rw [value, Nat.add_mul, Nat.add_assoc, Nat.mul_comm weight, ← Nat.mul_assoc, Nat.mul_comm (value field)]
    rw [reads_groups_cons_iff]
    constructor
    · rintro (⟨hb, rfl, rfl⟩ | ⟨hb, k, rfl, h⟩)
      · exact ⟨[b], by simp [Closed, hb], by simp, by simp [value], rfl⟩
      · obtain ⟨field, hclosed, hlength, rfl, rfl⟩ := ih.1 h
        exact ⟨b :: field, by simpa [Closed, hb] using hclosed, by simpa using hlength, hsum field, rfl⟩
    · rintro ⟨field, hclosed, hlength, rfl, hbs⟩
      obtain _ | ⟨b', field⟩ := field
      · exact hclosed.elim
      obtain ⟨rfl, rfl⟩ := List.cons.inj hbs
      by_cases hb : b < 128
      · rw [Closed, if_pos hb] at hclosed
        subst hclosed
        exact .inl ⟨hb, by simp [value], rfl⟩
      · rw [Closed, if_neg hb] at hclosed
        have hmore := List.length_pos_iff.2 hclosed.ne_nil
        rw [List.length_cons] at hlength
        obtain ⟨k, rfl⟩ := Nat.exists_eq_add_one.2 (show 0 < further by omega)
        exact .inr ⟨hb, k, rfl, ih.2 ⟨field, hclosed, by omega, (hsum field).symm, rfl⟩⟩

/-- What is read as a length is a spelling of it. -/
theorem reads_reader_iff {n : Nat} {bs rest : List UInt8} :
    reader.Reads bs n rest ↔ ∃ field, Spells field n ∧ bs = field ++ rest := by
  rw [reader, reads_groups_iff]
  constructor
  · rintro ⟨field, hclosed, hlength, hvalue, hbs⟩
    exact ⟨field, ⟨hclosed, hlength, by omega⟩, hbs⟩
  · rintro ⟨field, ⟨hclosed, hlength, hvalue⟩, hbs⟩
    exact ⟨field, hclosed, hlength, by omega, hbs⟩

/-- Behind a last group nothing is waited for. -/
theorem Closed.settles {field : List UInt8} (h : Closed field) (further weight before : Nat) (rest : List UInt8) :
    (∃ n rest', (groups further weight before).Reads (field ++ rest) n rest') ∨
      ∃ e rest', (groups further weight before).feed (field ++ rest) = (fail e, rest') := by
  induction field generalizing further weight before with
  | nil => exact h.elim
  | cons b field ih =>
    have hfeed (further : Nat) : (groups further weight before).feed (b :: field ++ rest)
        = ((if b < 128 then .done (before + b.toNat % 128 * weight)
          else match further with
            | 0 => .fail .invalidRemainingLength
            | k + 1 => groups k (weight * 128) (before + b.toNat % 128 * weight) : Reader Nat)).feed
              (field ++ rest) := by
      rw [groups_eq]
      rfl
    unfold Reads
    rw [hfeed]
    by_cases hb : b < 128
    · rw [if_pos hb]
      exact .inl ⟨_, _, feed_done _ _⟩
    · rw [Closed, if_neg hb] at h
      rw [if_neg hb]
      cases further with
      | zero => exact .inr ⟨_, _, feed_fail _ _⟩
      | succ further => exact ih h further _ _

/-! ### Writing -/

theorem closed_encode (n : Nat) : Closed (encode n) := by
  fun_induction encode n with
  | case1 n hn =>
    have hlast : UInt8.ofNat n < 128 := by
      rw [UInt8.lt_iff_toNat_lt, UInt8.toNat_ofNat_of_lt' (show n < 256 by omega)]
      exact hn
    rw [Closed, if_pos hlast]
  | case2 n hn ih =>
    have hmore : ¬ UInt8.ofNat (n % 128 + 128) < 128 := by
      rw [UInt8.lt_iff_toNat_lt, UInt8.toNat_ofNat_of_lt' (show n % 128 + 128 < 256 by omega)]
      exact Nat.not_lt.2 (Nat.le_add_left 128 _)
    rw [Closed, if_neg hmore]
    exact ih

theorem value_encode (n : Nat) : value (encode n) = n := by
  fun_induction encode n with
  | case1 n hn =>
    rw [value, value, UInt8.toNat_ofNat_of_lt' (show n < 256 by omega)]
    omega
  | case2 n hn ih =>
    rw [value, ih, UInt8.toNat_ofNat_of_lt' (show n % 128 + 128 < 256 by omega)]
    omega

theorem encodedLength_le {n k : Nat} (h : n < capacity (k + 1)) : encodedLength n ≤ k + 1 := by
  induction k generalizing n with
  | zero =>
    have hone : encodedLength n = 1 := by rw [encodedLength, if_pos (by simpa [capacity] using h)]
    omega
  | succ k ih =>
    rw [encodedLength]
    split
    · omega
    · rw [capacity] at h
      have hle := ih (n := n / 128) (by omega)
      omega

theorem spells_encode {n : Nat} (h : n ≤ maxValue) : Spells (encode n) n where
  closed := closed_encode n
  length_le := by
    rw [length_encode]
    exact encodedLength_le (k := 3) (Nat.lt_succ_of_le h)
  value_eq := value_encode n

theorem Closed.encodedLength_le {field : List UInt8} (h : Closed field) :
    encodedLength (value field) ≤ field.length := by
  induction field with
  | nil => exact h.elim
  | cons b field ih =>
    rw [encodedLength, List.length_cons]
    split
    · omega
    · next hlarge =>
      by_cases hb : b < 128
      · rw [Closed, if_pos hb] at h
        subst h
        simp only [value] at hlarge
        omega
      · rw [Closed, if_neg hb] at h
        have hdiv : value (b :: field) / 128 = value field := by
          rw [value]
          omega
        rw [hdiv, Nat.add_comm]
        exact Nat.succ_le_succ (ih h)

/-- The groups of a number in its shortest spelling are the ones that are written. -/
theorem Closed.eq_encode {field : List UInt8} (h : Closed field)
    (hshort : field.length = encodedLength (value field)) : field = encode (value field) := by
  induction field with
  | nil => exact h.elim
  | cons b field ih =>
    by_cases hb : b < 128
    · rw [Closed, if_pos hb] at h
      subst h
      have hvalue : value [b] = b.toNat := by
        rw [UInt8.lt_iff_toNat_lt] at hb
        exact Nat.mod_eq_of_lt hb
      have hlt : b.toNat < 128 := UInt8.lt_iff_toNat_lt.1 hb
      rw [hvalue, encode, if_pos hlt, UInt8.ofNat_toNat]
    · rw [Closed, if_neg hb] at h
      have hfield := List.length_pos_iff.2 h.ne_nil
      have hlarge : ¬ value (b :: field) < 128 := by
        intro hsmall
        rw [encodedLength, if_pos hsmall, List.length_cons] at hshort
        omega
      have hdiv : value (b :: field) / 128 = value field := by
        rw [value]
        omega
      have hmod : value (b :: field) % 128 + 128 = b.toNat := by
        have hlt := b.toNat_lt
        rw [UInt8.lt_iff_toNat_lt, Nat.not_lt] at hb
        rw [value]
        have h128 : (128 : UInt8).toNat = 128 := rfl
        omega
      rw [encodedLength, if_neg hlarge, hdiv, List.length_cons] at hshort
      rw [encode, if_neg hlarge, hmod, hdiv, UInt8.ofNat_toNat, ← ih h (by omega)]

namespace Spells

variable {field : List UInt8} {n : Nat}

theorem le_maxValue (h : Spells field n) : n ≤ maxValue := by
  have hlt := value_lt_capacity field
  have hle := capacity_le h.length_le
  rw [h.value_eq] at hlt
  omega

theorem encodedLength_le (h : Spells field n) : encodedLength n ≤ field.length := by
  rw [← h.value_eq]
  exact h.closed.encodedLength_le

/-- Where a spelling ends is seen from its bytes. -/
theorem append_inj {field' rest rest' : List UInt8} {n' : Nat} (h : Spells field n) (h' : Spells field' n')
    (happend : field ++ rest = field' ++ rest') : field = field' ∧ rest = rest' :=
  h.closed.append_inj h'.closed happend

theorem eq_encode (h : Spells field n) (hshort : field.length = encodedLength n) : field = encode n := by
  rw [← h.value_eq] at hshort ⊢
  exact h.closed.eq_encode hshort

end Spells

end Mqtt.RemainingLength
