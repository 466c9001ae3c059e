import Mathlib.Algebra.BigOperators.Ring.Finset
import Mathlib.Tactic.Ring
import Mqtt.Proofs.Ranges

/-!
# The bytes of a length: `encode_to_vec`, `VarIntDecoder`

A length is taken apart by division and put together by shifts, both in words of 32 bits. `VarInt.append` is the
loop that pushes its groups to a buffer; it writes what `encode` lists (`VarInt.append_eq`), as the loop that shifts
reads what `decode` does (`VarInt.decodeOnce_eq`). `RemainingLength.lengths_exact` says of every length how it is
written, and of all bytes whether they are refused, are too few, or begin with a length, and with which.
-/

namespace Mqtt

namespace Buffered.VarInt

/-! ### Writing in words -/

theorem rest_eq_zero_iff (value : UInt32) : value / 128 = 0 ↔ value.toNat < 128 := by
  have hrest : (value / 128).toNat = value.toNat / 128 := UInt32.toNat_div value 128
  rw [← UInt32.toNat_inj, hrest, UInt32.toNat_zero, Nat.div_eq_zero_iff]
  omega

/-- Push the groups of a number, the lowest first. Each but the last announces another. -/
def push (value : UInt32) (buf : List UInt8) : List UInt8 :=
  let group := (value % 128).toUInt8
  let rest := value / 128
  let buf := buf ++ [if 0 < rest then group ||| 0x80 else group]
  if rest = 0 then buf else push rest buf
termination_by value.toNat
decreasing_by
  next hrest =>
    have hmore : ¬ value.toNat < 128 := fun hlast => hrest ((rest_eq_zero_iff value).2 hlast)
    have hdiv : (value / 128).toNat = value.toNat / 128 := UInt32.toNat_div value 128
    omega

/-- Write a number behind what a buffer holds, and tell how many bytes that took. -/
def append (value : UInt32) (buf : List UInt8) : Checked (List UInt8 × Nat) := do
  let after := push value buf
  let written ← minus? after.length buf.length
  return (after, written)

theorem group_eq (value : UInt32) : (value % 128).toUInt8 = UInt8.ofNat (value.toNat % 128) := by
  rw [← UInt8.toNat_inj, UInt32.toNat_toUInt8, UInt32.toNat_mod, UInt8.toNat_ofNat']
  rfl

theorem or_high {group : Nat} (h : group < 128) : UInt8.ofNat group ||| 0x80 = UInt8.ofNat (group + 128) := by
  have table : ∀ i : Fin 128, UInt8.ofNat i.val ||| 0x80 = UInt8.ofNat (i.val + 128) := by decide +kernel
  exact table ⟨group, h⟩

/-- What the buffer held stays in front, and the groups follow. -/
theorem push_eq (value : UInt32) (buf : List UInt8) : push value buf = buf ++ RemainingLength.encode value.toNat := by
  fun_induction push value buf with
  | case1 value buf group rest after hrest =>
    have hlast : value.toNat < 128 := (rest_eq_zero_iff value).1 hrest
    have hgroup : group = UInt8.ofNat value.toNat := by
      rw [← Nat.mod_eq_of_lt hlast]
      exact group_eq value
    rw [RemainingLength.encode, if_pos hlast, ← hgroup]
    simp [after, hrest]
  | case2 value buf group rest after hrest ih =>
    have hmore : ¬ value.toNat < 128 := fun hlast => hrest ((rest_eq_zero_iff value).2 hlast)
    have hdiv : rest.toNat = value.toNat / 128 := UInt32.toNat_div value 128
    have hgroup : group ||| 0x80 = UInt8.ofNat (value.toNat % 128 + 128) := by
      rw [← or_high (Nat.mod_lt _ (by decide))]
      exact congrArg (· ||| 0x80) (group_eq value)
    have hpos : 0 < rest := UInt32.pos_iff_ne_zero.2 hrest
    rw [ih, hdiv, RemainingLength.encode.eq_def value.toNat, if_neg hmore, ← hgroup]
    simp [after, hpos]

theorem append_eq (value : UInt32) (buf : List UInt8) :
    append value buf =
      .ok (buf ++ RemainingLength.encode value.toNat, RemainingLength.encodedLength value.toNat) := by
  have hwritten : minus? (buf ++ RemainingLength.encode value.toNat).length buf.length
      = .ok (RemainingLength.encodedLength value.toNat) := by
    rw [List.length_append, minus?_of_le (Nat.le_add_right _ _), Nat.add_sub_cancel_left,
      RemainingLength.length_encode]
  rw [append, push_eq, hwritten]
  rfl

/-! ### Reading in words -/

/-- Read a length at the front of a buffer: its value and how many bytes it took, or nothing if more are needed. -/
def decodeOnce (buf : List UInt8) : Checked (Option (Nat × Nat)) := do
  let (progress, _) ← decode 0 fresh buf
  return progress.value.map (·, progress.consumed)

/-- Shifts read what is read by adding up, and none of them goes out of range. -/
theorem decodeOnce_eq (buf : List UInt8) : decodeOnce buf = (RemainingLength.decode buf).mapError Fault.refused := by
  have hanswers := fresh.decode_answers waits_fresh (Nat.zero_le buf.length)
  rw [List.drop_zero] at hanswers
  rw [decodeOnce, RemainingLength.decode]
  cases hanswers with
  | whole hfeed hends hout =>
    rw [List.drop_zero] at hfeed
    rw [hout, hfeed]
    rfl
  | refused hfeed hout =>
    rw [List.drop_zero] at hfeed
    rw [hout, hfeed]
    rfl
  | waits hfeed hwaits hout =>
    rw [List.drop_zero] at hfeed
    rw [hout, hfeed]
    rfl

end Buffered.VarInt

namespace RemainingLength

open Buffered (VarInt)
open Reader (outcome)

/-! ### How many bytes a length takes -/

theorem capacity_eq_pow (k : Nat) : capacity k = 128 ^ k := by
  induction k with
  | zero => rfl
  | succ k ih => rw [capacity, ih, Nat.pow_succ, Nat.mul_comm]

theorem encodedLength_pos (n : Nat) : 0 < encodedLength n := by
  rw [encodedLength]
  split <;> omega

/-- So many groups are enough if and only if they can make the number. -/
theorem encodedLength_le_iff (n k : Nat) : encodedLength n ≤ k ↔ 0 < k ∧ n < 128 ^ k := by
  constructor
  · intro hle
    have hfits := value_lt_capacity (encode n)
    rw [value_encode, length_encode, capacity_eq_pow] at hfits
    exact ⟨Nat.lt_of_lt_of_le (encodedLength_pos n) hle, hfits.trans_le (Nat.pow_le_pow_right (by decide) hle)⟩
  · rintro ⟨hpos, hfits⟩
    obtain ⟨k, rfl⟩ := Nat.exists_eq_succ_of_ne_zero hpos.ne'
    exact encodedLength_le (capacity_eq_pow (k + 1) ▸ hfits)

/-! ### Bytes that announce others -/

/-- The high bit of a byte says that another group follows. -/
def Announces (b : UInt8) : Prop := b &&& 0x80 ≠ 0

theorem announces_iff {b : UInt8} : Announces b ↔ ¬ b < 128 := (VarInt.and_high b).not

theorem low_eq (b : UInt8) : (b &&& 0x7F).toNat = b.toNat % 128 := by
  rw [← UInt8.toNat_toUInt32, VarInt.and_low]

/-- A length ends with the first group that announces no other. -/
theorem closed_append {init : List UInt8} {last : UInt8} (hinit : ∀ b ∈ init, Announces b) (hlast : ¬ Announces last) :
    Closed (init ++ [last]) := by
  induction init with
  | nil =>
    rw [announces_iff, not_not] at hlast
    rw [List.nil_append, Closed, if_pos hlast]
  | cons b init ih =>
    obtain ⟨hb, hinit⟩ := List.forall_mem_cons.1 hinit
    rw [List.cons_append, Closed, if_neg (announces_iff.1 hb)]
    exact ih hinit

/-- A number is the sum of its groups, each with the weight of its place. -/
theorem sum_low_eq_value (field rest : List UInt8) :
    ∑ i ∈ Finset.range field.length, ((field ++ rest).getD i 0 &&& 0x7F).toNat * 128 ^ i = value field := by
  induction field with
  | nil => rfl
  | cons b field ih =>
    rw [List.length_cons, Finset.sum_range_succ', value, ← ih, Finset.mul_sum]
    simp only [List.cons_append, List.getD_cons_succ, List.getD_cons_zero, Nat.pow_succ, Nat.pow_zero, low_eq]
    rw [Nat.add_comm, Nat.mul_one]
    congr 1
    refine Finset.sum_congr rfl fun i _ => ?_
    ring

/-! ### Reading -/

/-- Bytes that announce others are taken as groups, as long as there is room for more. -/
theorem feed_announcing {announcing : List UInt8} (h : ∀ b ∈ announcing, Announces b) {further : Nat}
    (hroom : announcing.length ≤ further) (weight before : Nat) (bs : List UInt8) :
    ∃ weight' before', (groups further weight before).feed (announcing ++ bs) =
      (groups (further - announcing.length) weight' before').feed bs := by
  induction announcing generalizing further weight before with
  | nil => exact ⟨weight, before, rfl⟩
  | cons b announcing ih =>
    obtain ⟨hb, hannouncing⟩ := List.forall_mem_cons.1 h
    cases further with
    | zero => exact absurd hroom (Nat.not_succ_le_zero _)
    | succ further =>
      -- Where no length comes of it, what it would have come to does not matter.
      obtain ⟨weight', before', hfeed⟩ := ih hannouncing (Nat.le_of_succ_le_succ hroom) (weight * 128)
        (before + b.toNat % 128 * weight)
      refine ⟨weight', before', ?_⟩
      rw [List.cons_append, Buffered.feed_groups, if_neg (announces_iff.1 hb), List.length_cons, Nat.succ_sub_succ]
      exact hfeed

/-- A fourth group that announces a fifth is refused. -/
theorem decode_of_long {bs : List UInt8} (hlength : 4 ≤ bs.length) (h : ∀ b ∈ bs.take 4, Announces b) :
    decode bs = .error .invalidRemainingLength := by
  obtain ⟨b, rest, hrest⟩ := List.exists_cons_of_length_pos (l := bs.drop 3) (by rw [List.length_drop]; omega)
  have hbs : bs = bs.take 3 ++ b :: rest := by rw [← hrest, List.take_append_drop]
  have hthree : (bs.take 3).length = 3 := List.length_take_of_le (by omega)
  have hfourth : bs[3]? = some b := by rw [← List.head?_drop, hrest, List.head?_cons]
  have hfour : bs.take 4 = bs.take 3 ++ [b] := by rw [List.take_add_one, hfourth, Option.toList_some]
  rw [hfour, List.forall_mem_append, List.forall_mem_singleton] at h
  -- The first three leave room for one group, and the fourth byte is not the last one.
  obtain ⟨weight, before, hfeed⟩ := feed_announcing h.1 hthree.le 1 0 (b :: rest)
  rw [← hbs, hthree, Buffered.feed_groups, if_neg (announces_iff.1 h.2)] at hfeed
  rw [decode, reader, hfeed]
  rfl

/-- Groups that all announce another, and are no more than three, are too few. -/
theorem decode_of_short {bs : List UInt8} (hlength : bs.length < 4) (h : ∀ b ∈ bs, Announces b) :
    decode bs = .ok none := by
  obtain ⟨weight, before, hfeed⟩ := feed_announcing h (Nat.le_of_lt_succ hlength) 1 0 []
  rw [List.append_nil] at hfeed
  rw [decode, reader, hfeed]
  unfold groups
  rfl

theorem decode_of_spells {field : List UInt8} {n : Nat} (h : Spells field n) (rest : List UInt8) :
    decode (field ++ rest) = .ok (some (n, field.length)) := by
  have hread : reader.feed (field ++ rest) = (.done n, rest) := reads_reader_iff.2 ⟨field, h, rfl⟩
  have htook : (field ++ rest).length - rest.length = field.length := by
    rw [List.length_append, Nat.add_sub_cancel]
  simp only [decode, hread, outcome, htook]

/-- Every byte string begins with bytes that announce others, and ends there or goes on with one that does not. -/
theorem exists_announcing (bs : List UInt8) : (∀ b ∈ bs, Announces b) ∨
    ∃ init last rest, bs = init ++ last :: rest ∧ (∀ b ∈ init, Announces b) ∧ ¬ Announces last := by
  induction bs with
  | nil => exact .inl nofun
  | cons b bs ih =>
    by_cases hb : Announces b
    · rcases ih with hall | ⟨init, last, rest, rfl, hinit, hlast⟩
      · exact .inl (List.forall_mem_cons.2 ⟨hb, hall⟩)
      · exact .inr ⟨b :: init, last, rest, rfl, List.forall_mem_cons.2 ⟨hb, hinit⟩, hlast⟩
    · exact .inr ⟨[], b, bs, rfl, nofun, hb⟩

/-- The first byte that announces no other is the `k`-th, and one of the first four. -/
def EndsIn (bs : List UInt8) (k : Nat) : Prop :=
  k ≤ 4 ∧ ∃ init last rest, bs = init ++ last :: rest ∧ init.length + 1 = k ∧ (∀ b ∈ init, Announces b) ∧
    ¬ Announces last

/-- The low bits of the first `k` bytes, put together. -/
def lowSum (bs : List UInt8) (k : Nat) : Nat := ∑ i ∈ Finset.range k, (bs.getD i 0 &&& 0x7F).toNat * 128 ^ i

/-- A length ends in one of the first four bytes, unless these all announce another or there are fewer. -/
theorem endsIn_or (bs : List UInt8) : (4 ≤ bs.length ∧ ∀ b ∈ bs.take 4, Announces b) ∨
    (bs.length < 4 ∧ ∀ b ∈ bs, Announces b) ∨ ∃ k, EndsIn bs k := by
  rcases exists_announcing bs with hall | ⟨init, last, rest, rfl, hinit, hlast⟩
  · by_cases hlength : bs.length < 4
    · exact .inr (.inl ⟨hlength, hall⟩)
    · exact .inl ⟨Nat.le_of_not_lt hlength, fun b hb => hall b (List.mem_of_mem_take hb)⟩
  · by_cases hroom : init.length + 1 ≤ 4
    · exact .inr (.inr ⟨_, hroom, init, last, rest, rfl, rfl, hinit, hlast⟩)
    · have hinside : (init ++ last :: rest).take 4 = init.take 4 := List.take_append_of_le_length (by omega)
      refine .inl ⟨by rw [List.length_append]; omega, fun b hb => hinit b ?_⟩
      rw [hinside] at hb
      exact List.mem_of_mem_take hb

theorem EndsIn.decode_eq {bs : List UInt8} {k : Nat} (h : EndsIn bs k) :
    decode bs = .ok (some (lowSum bs k, k)) ∧ lowSum bs k ≤ maxValue ∧ encodedLength (lowSum bs k) ≤ k := by
  obtain ⟨hroom, init, last, rest, rfl, rfl, hinit, hlast⟩ := h
  have hfield : init ++ last :: rest = (init ++ [last]) ++ rest := by simp
  have hlength : (init ++ [last]).length = init.length + 1 := by simp
  have hvalue : lowSum (init ++ last :: rest) (init.length + 1) = value (init ++ [last]) := by
    rw [lowSum, hfield, ← hlength, sum_low_eq_value]
  have hspells : Spells (init ++ [last]) (value (init ++ [last])) :=
    ⟨closed_append hinit hlast, hlength ▸ hroom, rfl⟩
  rw [hvalue, hfield, ← hlength]
  exact ⟨decode_of_spells hspells rest, hspells.le_maxValue, hspells.encodedLength_le⟩

/-- What is read at the front of some bytes, as the bytes say. -/
inductive Decodes (bs : List UInt8) : Except ProtocolError (Option (Nat × Nat)) → Prop
  | long : 4 ≤ bs.length → (∀ b ∈ bs.take 4, Announces b) → Decodes bs (.error .invalidRemainingLength)
  | short : bs.length < 4 → (∀ b ∈ bs, Announces b) → Decodes bs (.ok none)
  | whole {k : Nat} : EndsIn bs k → Decodes bs (.ok (some (lowSum bs k, k)))

section

variable {bs : List UInt8} {out : Except ProtocolError (Option (Nat × Nat))}

theorem decode_eq_iff : decode bs = out ↔ Decodes bs out := by
  constructor
  · rintro rfl
    rcases endsIn_or bs with ⟨hlength, hall⟩ | ⟨hlength, hall⟩ | ⟨k, hends⟩
    · rw [decode_of_long hlength hall]
      exact .long hlength hall
    · rw [decode_of_short hlength hall]
      exact .short hlength hall
    · rw [hends.decode_eq.1]
      exact .whole hends
  · intro h
    cases h with
    | long hlength hall => exact decode_of_long hlength hall
    | short hlength hall => exact decode_of_short hlength hall
    | whole hends => exact hends.decode_eq.1

theorem decode_eq_error_iff (e : ProtocolError) : decode bs = .error e ↔
    e = .invalidRemainingLength ∧ 4 ≤ bs.length ∧ ∀ b ∈ bs.take 4, Announces b := by
  rw [decode_eq_iff]
  constructor
  · intro h
    cases h with
    | long hlength hall => exact ⟨rfl, hlength, hall⟩
  · rintro ⟨rfl, hlength, hall⟩
    exact .long hlength hall

theorem decode_eq_none_iff : decode bs = .ok none ↔ bs.length < 4 ∧ ∀ b ∈ bs, Announces b := by
  rw [decode_eq_iff]
  constructor
  · intro h
    cases h with
    | short hlength hall => exact ⟨hlength, hall⟩
  · rintro ⟨hlength, hall⟩
    exact .short hlength hall

theorem decode_eq_some_iff (n k : Nat) : decode bs = .ok (some (n, k)) ↔ EndsIn bs k ∧ n = lowSum bs k := by
  rw [decode_eq_iff]
  constructor
  · intro h
    cases h with
    | whole hends => exact ⟨hends, rfl⟩
  · rintro ⟨hends, rfl⟩
    exact .whole hends

end

/-- **How lengths are written and read.** A length is written behind what is there, in one to four bytes; `k` bytes are
enough for it if and only if it is less than `128 ^ k`, and whatever follows these bytes, they are read as what was
written. Bytes are refused if and only if the first four all announce another, and are too few if and only if there
are fewer and all announce another. Otherwise they are read up to the first that announces no other, as the sum of
their low seven bits with the weights of their places. A length may be spelled in more bytes than are written for it,
but never in fewer. The loops that push groups and shift them do the same, and no shift goes out of range. -/
theorem lengths_exact :
    (∀ n ≤ maxValue, ∀ before after : List UInt8,
      VarInt.append (UInt32.ofNat n) before = .ok (before ++ encode n, encodedLength n) ∧
      (encode n).length = encodedLength n ∧ 1 ≤ encodedLength n ∧ encodedLength n ≤ 4 ∧
      (∀ k, encodedLength n ≤ k ↔ 0 < k ∧ n < 128 ^ k) ∧
      decode (encode n ++ after) = .ok (some (n, encodedLength n))) ∧
    ∀ bs : List UInt8,
      VarInt.decodeOnce bs = (decode bs).mapError .refused ∧
      (∀ e, decode bs = .error e ↔
        e = .invalidRemainingLength ∧ 4 ≤ bs.length ∧ ∀ b ∈ bs.take 4, Announces b) ∧
      (decode bs = .ok none ↔ bs.length < 4 ∧ ∀ b ∈ bs, Announces b) ∧
      ∀ n k, (decode bs = .ok (some (n, k)) ↔ EndsIn bs k ∧ n = lowSum bs k) ∧
        (decode bs = .ok (some (n, k)) → n ≤ maxValue ∧ (encode n).length ≤ k) := by
  refine ⟨fun n hn before after => ?_, fun bs => ⟨VarInt.decodeOnce_eq bs, decode_eq_error_iff, decode_eq_none_iff,
    fun n k => ⟨decode_eq_some_iff n k, fun h => ?_⟩⟩⟩
  · have hword : (UInt32.ofNat n).toNat = n :=
      UInt32.toNat_ofNat_of_lt' (Nat.lt_of_le_of_lt hn (by decide))
    have happend := VarInt.append_eq (UInt32.ofNat n) before
    have hread := decode_of_spells (spells_encode hn) after
    have hroom := (spells_encode hn).length_le
    rw [hword] at happend
    rw [length_encode] at hread hroom
    exact ⟨happend, length_encode n, encodedLength_pos n, hroom, encodedLength_le_iff n, hread⟩
  · obtain ⟨hends, rfl⟩ := (decode_eq_some_iff n k).1 h
    rw [length_encode]
    exact hends.decode_eq.2

/-- The least length that takes three bytes, and the length zero spelled in as many. -/
theorem lengths_exact_spare :
    16384 ≤ maxValue ∧ VarInt.append 16384 [7] = .ok ([7, 0x80, 0x80, 1], 3) ∧
      EndsIn [0x80, 0x80, 0, 9] 3 ∧ decode [0x80, 0x80, 0, 9] = .ok (some (0, 3)) ∧ (encode 0).length ≤ 3 := by
  have hle : 16384 ≤ maxValue := by decide
  obtain ⟨happend, -⟩ := lengths_exact.1 16384 hle [7] []
  obtain ⟨-, -, -, hread⟩ := lengths_exact.2 [0x80, 0x80, 0, 9]
  have hends : EndsIn [0x80, 0x80, 0, 9] 3 :=
    ⟨by decide, [0x80, 0x80], 0, [9], rfl, rfl, by simp [Announces], by simp [Announces]⟩
  have hdecode := (hread 0 3).1.2 ⟨hends, rfl⟩
  refine ⟨hle, ?_, hends, hdecode, ((hread 0 3).2 hdecode).2⟩
  have hencode : encode 16384 = [0x80, 0x80, 1] := by simp [encode]
  have hlength : encodedLength 16384 = 3 := by simp [encodedLength]
  rw [hencode, hlength] at happend
  exact happend

end RemainingLength

end Mqtt
