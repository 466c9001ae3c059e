import Mqtt.Packet.Encode
import Mqtt.Proofs.Reading

/-!
# Reading is undoing writing, field by field: `U8Decoder` to `StringDecoder`

`Reader.Reads r bs a rest` says that `r` takes the value `a` from the front of `bs` and leaves `rest`. For
each field the values that can be taken are exactly the ones that can be written, and the bytes taken are
exactly the bytes written; one such equivalence for each field is all that is needed of it, whether a
stream is read back or a packet is written again.
-/

namespace Mqtt

namespace Reader

variable {α β γ : Type}

/-! ### Feeding a sequence of fields -/

theorem bind_done (r : Reader α) : r.bind done = r := by
  induction r with
  | done a => rfl
  | fail e => rfl
  | more got n next ih =>
    rw [Reader.bind]
    exact congrArg (more got n) (funext ih)

theorem bind_bind (r : Reader α) (f : α → Reader β) (g : β → Reader γ) :
    (r.bind f).bind g = r.bind fun a => (f a).bind g := by
  induction r with
  | done a => rfl
  | fail e => rfl
  | more got n next ih =>
    rw [Reader.bind, Reader.bind, Reader.bind]
    exact congrArg (more got n) (funext ih)

instance : LawfulMonad Reader := LawfulMonad.mk' Reader bind_done (fun _ _ => rfl) bind_bind

theorem step_bind (got : ByteArray) (n : Nat) (next : ByteArray → Reader α) (f : α → Reader β)
    (b : UInt8) : ((more got n next).bind f).step b = ((more got n next).step b).bind f := by
  cases n <;> rfl

/-- A sequence of fields is given to the first of them, and what it leaves to the others. -/
theorem feed_bind (r : Reader α) (f : α → Reader β) (bs : List UInt8) :
    (r.bind f).feed bs =
      match r.feed bs with
      | (done a, rest) => (f a).feed rest
      | (r, rest) => (r.bind f, rest) := by
  induction bs generalizing r with
  | nil =>
    rw [feed_nil, feed_nil]
    cases r with
    | done a => exact (feed_nil _).symm
    | fail e => rfl
    | more got n next => rfl
  | cons b bs ih =>
    cases r with
    | done a => rw [feed_done]; rfl
    | fail e => rw [feed_fail]; exact feed_fail e _
    | more got n next =>
      have hstep : ((more got n next).bind f).feed (b :: bs)
          = (((more got n next).step b).bind f).feed bs := by
        rw [← step_bind]
        exact feed_more_cons _ _ _ _ _
      rw [hstep, ih, ← feed_more_cons]

theorem feed_bind_of_done {r : Reader α} {bs rest : List UInt8} {a : α} (f : α → Reader β)
    (h : r.feed bs = (done a, rest)) : (r.bind f).feed bs = (f a).feed rest := by
  rw [feed_bind, h]

theorem feed_bind_of_fail {r : Reader α} {bs rest : List UInt8} {e : ProtocolError} (f : α → Reader β)
    (h : r.feed bs = (fail e, rest)) : (r.bind f).feed bs = (fail e, rest) := by
  rw [feed_bind, h]
  rfl

/-! ### What a reader takes -/

/-- The reader takes the value from the front of the bytes and leaves the rest. -/
def Reads (r : Reader α) (bs : List UInt8) (a : α) (rest : List UInt8) : Prop :=
  r.feed bs = (done a, rest)

variable {bs rest : List UInt8}

theorem reads_done_iff {a b : α} : (done a).Reads bs b rest ↔ b = a ∧ bs = rest := by
  unfold Reads
  rw [feed_done]
  constructor
  · intro h
    cases h
    exact ⟨rfl, rfl⟩
  · rintro ⟨rfl, rfl⟩
    rfl

@[simp] theorem reads_pure_iff {a b : α} : (pure a : Reader α).Reads bs b rest ↔ b = a ∧ bs = rest :=
  reads_done_iff

@[simp] theorem reads_fail_iff {e : ProtocolError} {a : α} : ¬ (fail e : Reader α).Reads bs a rest := by
  unfold Reads
  rw [feed_fail]
  intro h
  cases (Prod.mk.inj h).1

/-- Fields are taken one after the other. -/
@[simp] theorem reads_bind_iff {r : Reader α} {f : α → Reader β} {b : β} :
    (r >>= f).Reads bs b rest ↔ ∃ a mid, r.Reads bs a mid ∧ (f a).Reads mid b rest := by
  constructor
  · intro h
    have hfeed : (r.bind f).feed bs = (done b, rest) := h
    rw [feed_bind] at hfeed
    rcases hr : r.feed bs with ⟨a | e | ⟨got, n, next⟩, mid⟩
    · rw [hr] at hfeed
      exact ⟨a, mid, hr, hfeed⟩
    · rw [hr] at hfeed
      cases (Prod.mk.inj hfeed).1
    · rw [hr] at hfeed
      cases (Prod.mk.inj hfeed).1
  · rintro ⟨a, mid, hr, hf⟩
    exact (feed_bind_of_done f hr).trans hf

@[simp] theorem reads_map_iff {r : Reader α} {f : α → β} {b : β} :
    (f <$> r).Reads bs b rest ↔ ∃ a, r.Reads bs a rest ∧ b = f a := by
  have hmap : f <$> r = r >>= fun a => pure (f a) := rfl
  rw [hmap, reads_bind_iff]
  constructor
  · rintro ⟨a, mid, hr, hb⟩
    obtain ⟨rfl, rfl⟩ := reads_pure_iff.1 hb
    exact ⟨a, hr, rfl⟩
  · rintro ⟨a, hr, rfl⟩
    exact ⟨a, rest, hr, reads_pure_iff.2 ⟨rfl, rfl⟩⟩

@[simp] theorem reads_ofExcept_iff {x : Except ProtocolError α} {a : α} :
    (ofExcept x).Reads bs a rest ↔ x = .ok a ∧ bs = rest := by
  cases x with
  | error e =>
    constructor
    · intro h
      exact absurd h reads_fail_iff
    · rintro ⟨h, -⟩
      cases h
  | ok b =>
    rw [ofExcept, reads_done_iff, Except.ok.injEq, eq_comm (a := a)]

/-! ### Numbers and bytes -/

@[simp] theorem reads_byte_iff {b : UInt8} : byte.Reads bs b rest ↔ bs = b :: rest := by
  cases bs with
  | nil =>
    constructor
    · intro h
      cases (Prod.mk.inj h).1
    · intro h
      cases h
  | cons c bs =>
    have hbyte : byte.feed (c :: bs) = (done c, bs) := feed_done c bs
    unfold Reads
    rw [hbyte]
    constructor
    · intro h
      cases h
      rfl
    · intro h
      cases h
      rfl

/-- A number is its two bytes, high byte first. -/
theorem word_bytes (n : UInt16) :
    UInt16.ofNat ((UInt8.ofNat (n.toNat / 256)).toNat * 256 + (UInt8.ofNat (n.toNat % 256)).toNat) = n := by
  have hhigh : n.toNat / 256 < UInt8.size := Nat.div_lt_of_lt_mul n.toNat_lt
  have hlow : n.toNat % 256 < UInt8.size := Nat.mod_lt _ (by decide)
  rw [UInt8.toNat_ofNat_of_lt' hhigh, UInt8.toNat_ofNat_of_lt' hlow, Nat.mul_comm, Nat.div_add_mod,
    UInt16.ofNat_toNat]

/-- Two bytes are those of the number they make. -/
theorem bytes_word (high low : UInt8) :
    Wire.word (UInt16.ofNat (high.toNat * 256 + low.toNat)) = [high, low] := by
  have hhigh := high.toNat_lt
  have hlow := low.toNat_lt
  have hlt : high.toNat * 256 + low.toNat < UInt16.size := by
    unfold UInt16.size
    omega
  have hdiv : (high.toNat * 256 + low.toNat) / 256 = high.toNat := by omega
  have hmod : (high.toNat * 256 + low.toNat) % 256 = low.toNat := by omega
  rw [Wire.word, UInt16.toNat_ofNat_of_lt' hlt, hdiv, hmod, UInt8.ofNat_toNat, UInt8.ofNat_toNat]

@[simp] theorem reads_word_iff {n : UInt16} : word.Reads bs n rest ↔ bs = Wire.word n ++ rest := by
  constructor
  · intro h
    match bs, h with
    | [], h => cases (Prod.mk.inj h).1
    | [_], h => cases (Prod.mk.inj h).1
    | high :: low :: bs, h =>
      have hword : word.feed (high :: low :: bs)
          = (done (UInt16.ofNat (high.toNat * 256 + low.toNat)), bs) := feed_done _ bs
      unfold Reads at h
      rw [hword] at h
      cases h
      rw [bytes_word]
      rfl
  · rintro rfl
    have hword : word.feed (Wire.word n ++ rest)
        = (done (UInt16.ofNat ((UInt8.ofNat (n.toNat / 256)).toNat * 256
            + (UInt8.ofNat (n.toNat % 256)).toNat)), rest) := feed_done _ rest
    unfold Reads
    rw [hword, word_bytes]

/-- Bytes wanted are bytes kept. -/
theorem reads_more_done_iff {got a : ByteArray} {n : Nat} :
    (more got n done).Reads bs a rest ↔
      ∃ as : List UInt8, as.length = n + 1 ∧ a = got ++ as.toByteArray ∧ bs = as ++ rest := by
  induction bs generalizing got n with
  | nil =>
    constructor
    · intro h
      unfold Reads at h
      rw [feed_nil] at h
      cases (Prod.mk.inj h).1
    · rintro ⟨as, hlength, -, hnil⟩
      rw [(List.append_eq_nil_iff.1 hnil.symm).1] at hlength
      cases hlength
  | cons b bs ih =>
    have hpush (as : List UInt8) : got ++ (b :: as).toByteArray = got.push b ++ as.toByteArray := by
      apply ByteArray.ext
      simp
    have hstep : (more got n done).Reads (b :: bs) a rest
        ↔ ((more got n done).step b).Reads bs a rest := by
      unfold Reads
      rw [feed_more_cons]
    rw [hstep]
    cases n with
    | zero =>
      rw [show (more got 0 done).step b = done (got.push b) from rfl, reads_done_iff]
      constructor
      · rintro ⟨rfl, rfl⟩
        refine ⟨[b], rfl, ?_, rfl⟩
        rw [hpush]
        exact ByteArray.append_empty.symm
      · rintro ⟨as, hlength, rfl, hbs⟩
        obtain ⟨b', rfl⟩ := List.length_eq_one_iff.1 hlength
        cases hbs
        refine ⟨?_, rfl⟩
        rw [hpush]
        exact ByteArray.append_empty
    | succ n =>
      rw [show (more got (n + 1) done).step b = more (got.push b) n done from rfl, ih]
      constructor
      · rintro ⟨as, hlength, rfl, rfl⟩
        exact ⟨b :: as, by simp [hlength], (hpush as).symm, rfl⟩
      · rintro ⟨as, hlength, rfl, hbs⟩
        cases as with
        | nil => cases hlength
        | cons b' as =>
          cases hbs
          exact ⟨as, by simpa using hlength, hpush as, rfl⟩

@[simp] theorem reads_bytes_iff {n : Nat} {a : ByteArray} :
    (bytes n).Reads bs a rest ↔ a.size = n ∧ bs = a.data.toList ++ rest := by
  cases n with
  | zero =>
    rw [bytes, reads_done_iff]
    constructor
    · rintro ⟨rfl, rfl⟩
      exact ⟨rfl, rfl⟩
    · rintro ⟨hsize, rfl⟩
      obtain rfl := ByteArray.size_eq_zero_iff.1 hsize
      exact ⟨rfl, rfl⟩
  | succ n =>
    rw [bytes, reads_more_done_iff]
    constructor
    · rintro ⟨as, hlength, rfl, rfl⟩
      simp [hlength]
    · rintro ⟨hsize, rfl⟩
      refine ⟨a.data.toList, by simpa using hsize, ?_, rfl⟩
      apply ByteArray.ext
      simp

@[simp] theorem reads_binary_iff {a : ByteArray} :
    binary.Reads bs a rest ↔ a.size ≤ 65535 ∧ bs = Wire.binary a ++ rest := by
  simp only [binary, reads_bind_iff, reads_word_iff, reads_bytes_iff, Wire.binary]
  constructor
  · rintro ⟨n, mid, rfl, hsize, rfl⟩
    have hlt := n.toNat_lt
    refine ⟨by omega, ?_⟩
    rw [hsize, UInt16.ofNat_toNat, List.append_assoc]
  · rintro ⟨hsize, rfl⟩
    refine ⟨UInt16.ofNat a.size, a.data.toList ++ rest, by rw [List.append_assoc], ?_, rfl⟩
    rw [UInt16.toNat_ofNat_of_lt' (Nat.lt_succ_of_le hsize)]

/-! ### Texts -/

end Reader

namespace Wire

/-- A text that can be written behind its length and read again. -/
def IsText (s : String) : Prop := s.utf8ByteSize ≤ 65535 ∧ '\x00' ∉ s.toList

instance (s : String) : Decidable (IsText s) := inferInstanceAs (Decidable (_ ∧ _))

/-- Only U+0000 is written with a byte of 0. -/
theorem zero_mem_utf8EncodeChar {c : Char} : (0 : UInt8) ∈ String.utf8EncodeChar c ↔ c = '\x00' := by
  have hzero : c = '\x00' ↔ c.val.toNat = 0 := by
    constructor
    · rintro rfl
      rfl
    · intro h
      exact Char.ext (UInt32.toNat_inj.1 h)
  have hbyte (n : Nat) (hn : n < 256) : (0 : UInt8) = UInt8.ofNat n ↔ n = 0 := by
    rw [← UInt8.toNat_inj, UInt8.toNat_ofNat_of_lt' hn]
    exact eq_comm
  rw [hzero]
  fun_cases String.utf8EncodeChar c with
  | case1 v h =>
    rw [List.mem_singleton, hbyte _ (by omega)]
  | case2 v h =>
    simp only [List.mem_cons, List.not_mem_nil, or_false]
    rw [hbyte _ (by omega), hbyte _ (by omega)]
    omega
  | case3 v h =>
    simp only [List.mem_cons, List.not_mem_nil, or_false]
    rw [hbyte _ (by omega), hbyte _ (by omega), hbyte _ (by omega)]
    omega
  | case4 v h =>
    simp only [List.mem_cons, List.not_mem_nil, or_false]
    rw [hbyte _ (by omega), hbyte _ (by omega), hbyte _ (by omega), hbyte _ (by omega)]
    omega

theorem contains_zero_toUTF8 (s : String) : s.toUTF8.data.contains 0 = true ↔ '\x00' ∈ s.toList := by
  have hdata : s.toUTF8.data.toList = s.toList.flatMap String.utf8EncodeChar := by
    rw [show s.toUTF8 = s.toByteArray from rfl, ← String.utf8Encode_toList, List.utf8Encode]
    simp
  rw [Array.contains_iff_mem, ← Array.mem_toList_iff, hdata, List.mem_flatMap]
  constructor
  · rintro ⟨c, hc, hzero⟩
    rw [← zero_mem_utf8EncodeChar.1 hzero]
    exact hc
  · intro h
    exact ⟨_, h, zero_mem_utf8EncodeChar.2 rfl⟩

end Wire

namespace Reader

variable {bs rest : List UInt8}

theorem fromUTF8?_toUTF8 (s : String) : String.fromUTF8? s.toUTF8 = some s := by
  simp [String.fromUTF8?, String.toUTF8, s.isValidUTF8]
  rfl

theorem decodeText_eq_ok_iff {a : ByteArray} {s : String} :
    decodeText a = .ok s ↔ a = s.toUTF8 ∧ '\x00' ∉ s.toList := by
  constructor
  · intro h
    obtain rfl := decodeText_ok h
    refine ⟨rfl, fun hnull => ?_⟩
    rw [decodeText, if_pos ((Wire.contains_zero_toUTF8 s).2 hnull)] at h
    cases h
  · rintro ⟨rfl, hnull⟩
    rw [decodeText, if_neg (fun h => hnull ((Wire.contains_zero_toUTF8 s).1 h)), fromUTF8?_toUTF8]

@[simp] theorem reads_text_iff {s : String} :
    text.Reads bs s rest ↔ Wire.IsText s ∧ bs = Wire.text s ++ rest := by
  simp only [text, reads_bind_iff, reads_binary_iff, reads_ofExcept_iff, decodeText_eq_ok_iff]
  unfold Wire.IsText Wire.text
  constructor
  · rintro ⟨a, mid, ⟨hsize, rfl⟩, ⟨rfl, hnull⟩, rfl⟩
    exact ⟨⟨by simpa using hsize, hnull⟩, rfl⟩
  · rintro ⟨⟨hsize, hnull⟩, rfl⟩
    exact ⟨s.toUTF8, rest, ⟨by simpa using hsize, rfl⟩, ⟨rfl, hnull⟩, rfl⟩

end Reader

end Mqtt
