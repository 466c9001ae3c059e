import Mqtt.Proofs.Packets

/-!
# Fields from a buffer: `RawDecoder`, `BinaryDecoder`, `StringDecoder`

A decoder that is handed buffers does not take its bytes one by one. It slices off the buffer what it needs, counts
what is missing by subtracting what it has, and keeps what it has when the buffer runs out. Here the fields are read
in this way, and every slice and every subtraction is checked: one that is out of range ends the call
(`Fault.outOfRange`). `Answers` says that a call on a buffer answers as the reader does that is given the bytes one
by one, so none of the checks ever fails; `Kind.decode_answers` says so of every kind of field.
-/

namespace Mqtt

/-! ### Readers that are given several bytes -/

theorem append_cons_toByteArray (got : ByteArray) (b : UInt8) (bs : List UInt8) :
    got ++ (b :: bs).toByteArray = got.push b ++ bs.toByteArray := by
  apply ByteArray.ext
  simp

namespace Reader

variable {α : Type}

/-- A field that waits takes what it is given if that is not enough, and otherwise what it waits for. -/
theorem feed_more (got : ByteArray) (n : Nat) (next : ByteArray → Reader α) (bs : List UInt8) :
    (more got n next).feed bs =
      if bs.length ≤ n then (more (got ++ bs.toByteArray) (n - bs.length) next, [])
      else (next (got ++ (bs.take (n + 1)).toByteArray)).feed (bs.drop (n + 1)) := by
  induction bs generalizing got n with
  | nil =>
    rw [feed_nil]
    simp
  | cons b bs ih =>
    rw [feed_more_cons]
    cases n with
    | zero =>
      rw [if_neg (by simp), List.take_succ_cons, append_cons_toByteArray]
      simp [step]
    | succ n =>
      rw [step, ih, List.take_succ_cons, append_cons_toByteArray, append_cons_toByteArray, List.drop_succ_cons]
      simp

/-- A reader that waits has taken all bytes. -/
theorem rest_eq_nil {r : Reader α} {bs rest : List UInt8} {got : ByteArray} {n : Nat} {next : ByteArray → Reader α}
    (h : r.feed bs = (more got n next, rest)) : rest = [] := by
  induction bs generalizing r with
  | nil =>
    rw [feed_nil] at h
    exact (Prod.mk.inj h).2.symm
  | cons b bs ih =>
    cases r with
    | done a => rw [feed_done] at h; cases h
    | fail e => rw [feed_fail] at h; cases h
    | more got n next =>
      rw [feed_more_cons] at h
      exact ih h

/-- What a reader took for its value is all it needs. -/
theorem feed_split {r : Reader α} {bs rest : List UInt8} {a : α} (h : r.feed bs = (done a, rest)) :
    ∃ taken, bs = taken ++ rest ∧ r.feed taken = (done a, []) := by
  induction bs generalizing r with
  | nil =>
    rw [feed_nil] at h
    obtain ⟨rfl, rfl⟩ := Prod.mk.inj h
    exact ⟨[], rfl, feed_nil _⟩
  | cons b bs ih =>
    cases r with
    | done a' =>
      rw [feed_done] at h
      cases h
      exact ⟨[], rfl, feed_nil _⟩
    | fail e => rw [feed_fail] at h; cases h
    | more got n next =>
      rw [feed_more_cons] at h
      obtain ⟨taken, rfl, htaken⟩ := ih h
      exact ⟨b :: taken, rfl, by rw [feed_more_cons, htaken]⟩

theorem length_rest_le (r : Reader α) (bs : List UInt8) : (r.feed bs).2.length ≤ bs.length := by
  induction bs generalizing r with
  | nil => simp [feed_nil]
  | cons b bs ih =>
    cases r with
    | done a => simp [feed_done]
    | fail e => simp [feed_fail]
    | more got n next =>
      rw [feed_more_cons]
      exact Nat.le_succ_of_le (ih _)

theorem Reads.append {r : Reader α} {taken : List UInt8} {a : α} (h : r.Reads taken a []) (more : List UInt8) :
    r.Reads (taken ++ more) a more := by
  rw [Reads, feed_append, h, feed_done]
  rfl

end Reader

namespace Buffered

/-! ### Checked operations -/

/-- Why a call ends early. -/
inductive Fault where
  /-- A slice, a subtraction or a shift is not possible. -/
  | outOfRange
  /-- A loop goes on for longer than there are bytes. -/
  | endless
  /-- The bytes are not accepted. -/
  | refused (e : ProtocolError)

abbrev Checked (α : Type) := Except Fault α

/-- The bytes of a buffer from a position on. -/
def from? (buf : List UInt8) (pos : Nat) : Checked (List UInt8) :=
  if pos ≤ buf.length then .ok (buf.drop pos) else .error .outOfRange

/-- The first bytes of a buffer. -/
def upTo? (buf : List UInt8) (n : Nat) : Checked (List UInt8) :=
  if n ≤ buf.length then .ok (buf.take n) else .error .outOfRange

def minus? (a b : Nat) : Checked Nat := if b ≤ a then .ok (a - b) else .error .outOfRange

theorem from?_of_le {buf : List UInt8} {pos : Nat} (h : pos ≤ buf.length) : from? buf pos = .ok (buf.drop pos) :=
  if_pos h

theorem upTo?_of_le {buf : List UInt8} {n : Nat} (h : n ≤ buf.length) : upTo? buf n = .ok (buf.take n) := if_pos h

/-- As many bytes as are wanted, or as there are. -/
theorem upTo?_min (buf : List UInt8) (n : Nat) : upTo? buf (min n buf.length) = .ok (buf.take n) := by
  rw [upTo?_of_le (Nat.min_le_right _ _)]
  congr 1
  exact List.take_eq_take_min.symm

theorem minus?_of_le {a b : Nat} (h : b ≤ a) : minus? a b = .ok (a - b) := if_pos h

/-- How many bytes of its buffer a call took, and the value if it is there. -/
structure Progress (α : Type) where
  consumed : Nat
  value : Option α

variable {α β σ τ : Type}

/-- Read a field from a position on, and go on behind it if it is there. -/
def field (decode : List UInt8 → Checked (Progress α × σ)) (buf : List UInt8) (pos : Nat) (waits : σ → τ)
    (next : α → σ → Nat → Checked (Progress β × τ)) : Checked (Progress β × τ) := do
  let rest ← from? buf pos
  let (progress, s) ← decode rest
  match progress.value with
  | none => return (⟨pos + progress.consumed, none⟩, waits s)
  | some a => next a s (pos + progress.consumed)

/-! ### Answering as a reader does -/

/-- A call that read `buf` from `pos` on answers as the reader does that is given these bytes one by one: it took the
bytes that the reader took, and what it keeps stands for what is left of the reader. -/
inductive Answers (Ends : σ → Prop) (Waits : σ → Reader α → Prop) (r : Reader α) (buf : List UInt8) (pos : Nat)
    (out : Checked (Progress α × σ)) : Prop
  | whole {a : α} {rest : List UInt8} {s : σ} : r.feed (buf.drop pos) = (.done a, rest) → Ends s →
      out = .ok (⟨buf.length - rest.length, some a⟩, s) → Answers Ends Waits r buf pos out
  | refused {e : ProtocolError} {rest : List UInt8} : r.feed (buf.drop pos) = (.fail e, rest) →
      out = .error (.refused e) → Answers Ends Waits r buf pos out
  | waits {got : ByteArray} {n : Nat} {next : ByteArray → Reader α} {s : σ} :
      r.feed (buf.drop pos) = (.more got n next, []) → Waits s (.more got n next) →
      out = .ok (⟨buf.length, none⟩, s) → Answers Ends Waits r buf pos out

section

variable {buf : List UInt8} {pos : Nat} {decode : List UInt8 → Checked (Progress α × σ)} {waits : σ → τ}
  {next : α → σ → Nat → Checked (Progress β × τ)} {consumed : Nat}

theorem field_of_some {a : α} {s : σ} (hpos : pos ≤ buf.length)
    (h : decode (buf.drop pos) = .ok (⟨consumed, some a⟩, s)) :
    field decode buf pos waits next = next a s (pos + consumed) := by
  simp only [field, from?_of_le hpos, h, bind, Except.bind]

theorem field_of_none {s : σ} (hpos : pos ≤ buf.length) (h : decode (buf.drop pos) = .ok (⟨consumed, none⟩, s)) :
    field decode buf pos waits next = .ok (⟨pos + consumed, none⟩, waits s) := by
  simp only [field, from?_of_le hpos, h, bind, Except.bind, pure, Except.pure]

theorem field_of_error {f : Fault} (hpos : pos ≤ buf.length) (h : decode (buf.drop pos) = .error f) :
    field decode buf pos waits next = .error f := by
  simp only [field, from?_of_le hpos, h, bind, Except.bind]

variable {Ends : σ → Prop} {Waits : σ → Reader α → Prop} {Ends' : τ → Prop} {Waits' : τ → Reader β → Prop}

/-- What is left of a reader goes on behind what it took. -/
theorem Answers.of_feed {r r' : Reader α} {pos' : Nat} {out : Checked (Progress α × σ)}
    (h : Answers Ends Waits r' buf pos' out) (hfeed : r.feed (buf.drop pos) = r'.feed (buf.drop pos')) :
    Answers Ends Waits r buf pos out := by
  cases h with
  | whole hfeed' hends hout => exact .whole (hfeed.trans hfeed') hends hout
  | refused hfeed' hout => exact .refused (hfeed.trans hfeed') hout
  | waits hfeed' hwaits hout => exact .waits (hfeed.trans hfeed') hwaits hout

/-- **One field after the other.** A call that reads a field and then goes on answers as the readers do that are
sequenced. -/
theorem Answers.field {r : Reader α} {g : α → Reader β} (hpos : pos ≤ buf.length)
    (h : Answers Ends Waits r (buf.drop pos) 0 (decode (buf.drop pos)))
    (hwaits : ∀ s got n more, r.feed (buf.drop pos) = (.more got n more, []) → Waits s (.more got n more) →
      Waits' (waits s) ((Reader.more got n more).bind g))
    (hnext : ∀ a s pos', pos ≤ pos' → pos' ≤ buf.length → r.feed (buf.drop pos) = (.done a, buf.drop pos') → Ends s →
      Answers Ends' Waits' (g a) buf pos' (next a s pos')) :
    Answers Ends' Waits' (r.bind g) buf pos (Buffered.field decode buf pos waits next) := by
  have hlength : (buf.drop pos).length = buf.length - pos := List.length_drop
  cases h with
  | @whole a rest s hfeed hends hout =>
    rw [List.drop_zero] at hfeed
    obtain ⟨taken, htaken, -⟩ := Reader.feed_split hfeed
    have hcount : (buf.drop pos).length = taken.length + rest.length := by rw [htaken, List.length_append]
    have hthere : (buf.drop pos).length - rest.length = taken.length := by omega
    rw [hthere] at hout
    have hrest : rest = buf.drop (pos + taken.length) := by rw [← List.drop_drop, htaken, List.drop_left]
    rw [hrest] at hfeed
    rw [field_of_some hpos hout]
    exact (hnext a s (pos + taken.length) (Nat.le_add_right _ _) (by omega) hfeed hends).of_feed
      (Reader.feed_bind_of_done g hfeed)
  | refused hfeed hout =>
    rw [List.drop_zero] at hfeed
    exact .refused (Reader.feed_bind_of_fail g hfeed) (field_of_error hpos hout)
  | @waits got n more s hfeed hholds hout =>
    rw [List.drop_zero] at hfeed
    have hbind : (r.bind g).feed (buf.drop pos) = ((Reader.more got n more).bind g, []) := by
      rw [Reader.feed_bind, hfeed]
    have hthere : pos + (buf.drop pos).length = buf.length := by omega
    refine .waits hbind (hwaits s got n more hfeed hholds) ?_
    rw [field_of_none hpos hout, hthere]

end

/-! ### Numbers and bytes -/

/-- The next byte, which is not kept if it is not there. -/
def decodeByte : List UInt8 → Checked (Progress UInt8 × Unit)
  | [] => .ok (⟨0, none⟩, ())
  | b :: _ => .ok (⟨1, some b⟩, ())

theorem decodeByte_answers (buf : List UInt8) :
    Answers (fun _ => True) (fun _ r => r = Reader.byte) Reader.byte buf 0 (decodeByte buf) := by
  cases buf with
  | nil => exact .waits (Reader.feed_nil _) rfl rfl
  | cons b bs =>
    have hfeed : Reader.byte.feed (b :: bs) = (.done b, bs) := Reader.feed_done b bs
    refine .whole (s := ()) hfeed trivial ?_
    simp [decodeByte]

/-- A 16-bit number of which `got` has come. -/
structure Word where
  got : ByteArray

namespace Word

def fresh : Word := ⟨.empty⟩

/-- The number that two bytes make, high byte first. -/
def number (bs : ByteArray) : UInt16 :=
  UInt16.ofNat ((bs.data.getD 0 0).toNat * 256 + (bs.data.getD 1 0).toNat)

/-- What comes is copied behind what is there, in an array of two bytes. -/
def decode (w : Word) (buf : List UInt8) : Checked (Progress UInt16 × Word) := do
  let missing ← minus? 2 w.got.size
  let taken ← upTo? buf (min missing buf.length)
  let _ ← minus? 2 (w.got.size + taken.length)
  let got := w.got ++ taken.toByteArray
  if got.size < 2 then return (⟨taken.length, none⟩, ⟨got⟩)
  return (⟨taken.length, some (number got)⟩, fresh)

/-- A number waits for its second byte at least. -/
def Waits (w : Word) (r : Reader UInt16) : Prop :=
  w.got.size < 2 ∧ r = .more w.got (1 - w.got.size) fun bs => .done (number bs)

theorem waits_fresh : fresh.Waits Reader.word := ⟨by decide, rfl⟩

theorem decode_answers {w : Word} {r : Reader UInt16} (h : w.Waits r) (buf : List UInt8) :
    Answers (· = fresh) Waits r buf 0 (w.decode buf) := by
  obtain ⟨hsize, rfl⟩ := h
  have hfeed := Reader.feed_more w.got (1 - w.got.size) (fun bs => .done (number bs)) buf
  have hmissing : minus? 2 w.got.size = .ok (2 - w.got.size) := minus?_of_le (by omega)
  have htaken := upTo?_min buf (2 - w.got.size)
  have hlength : (buf.take (2 - w.got.size)).length = min (2 - w.got.size) buf.length := List.length_take
  have hroom : minus? 2 (w.got.size + (buf.take (2 - w.got.size)).length)
      = .ok (2 - (w.got.size + (buf.take (2 - w.got.size)).length)) := minus?_of_le (by omega)
  by_cases hshort : buf.length ≤ 1 - w.got.size
  · have hall : buf.take (2 - w.got.size) = buf := List.take_of_length_le (by omega)
    have hgot : (w.got ++ buf.toByteArray).size < 2 := by
      rw [ByteArray.size_append, List.size_toByteArray]
      omega
    rw [if_pos hshort] at hfeed
    refine .waits (s := ⟨w.got ++ buf.toByteArray⟩) hfeed ⟨hgot, ?_⟩ ?_
    · rw [ByteArray.size_append, List.size_toByteArray, Nat.sub_add_eq]
    · rw [hall] at htaken hroom
      simp only [decode, hmissing, htaken, hroom, bind, Except.bind, pure, Except.pure, if_pos hgot]
  · have hcount : 1 - w.got.size + 1 = 2 - w.got.size := by omega
    have hgot : ¬ (w.got ++ (buf.take (2 - w.got.size)).toByteArray).size < 2 := by
      rw [ByteArray.size_append, List.size_toByteArray]
      omega
    rw [if_neg hshort, hcount, Reader.feed_done] at hfeed
    refine .whole hfeed rfl ?_
    have hconsumed : buf.length - (buf.drop (2 - w.got.size)).length = (buf.take (2 - w.got.size)).length := by
      rw [List.length_drop, hlength]
      omega
    simp only [decode, hmissing, htaken, hroom, bind, Except.bind, pure, Except.pure, if_neg hgot, hconsumed]

end Word

/-- So many bytes, of which `got` has come. -/
structure Raw where
  length : Nat
  got : ByteArray

namespace Raw

def new (length : Nat) : Raw := ⟨length, .empty⟩

def decode (s : Raw) (buf : List UInt8) : Checked (Progress ByteArray × Raw) := do
  let missing ← minus? s.length s.got.size
  let taken ← upTo? buf (min missing buf.length)
  let got := s.got ++ taken.toByteArray
  if got.size < s.length then return (⟨taken.length, none⟩, { s with got })
  return (⟨taken.length, some got⟩, { s with got := .empty })

/-- What is left to be read. -/
def reader (s : Raw) : Reader ByteArray :=
  match s.length - s.got.size with
  | 0 => .done s.got
  | n + 1 => .more s.got n .done

/-- There is room for what has come. -/
def Waits (s : Raw) (r : Reader ByteArray) : Prop := s.got.size ≤ s.length ∧ r = s.reader

theorem waits_new (length : Nat) : (new length).Waits (Reader.bytes length) := by
  refine ⟨Nat.zero_le _, ?_⟩
  cases length <;> rfl

theorem decode_answers {s : Raw} {r : Reader ByteArray} (h : s.Waits r) (buf : List UInt8) :
    Answers (fun _ => True) Waits r buf 0 (s.decode buf) := by
  obtain ⟨hsize, rfl⟩ := h
  have hmissing : minus? s.length s.got.size = .ok (s.length - s.got.size) := minus?_of_le hsize
  have htaken := upTo?_min buf (s.length - s.got.size)
  have hfeed : s.reader.feed buf =
      if buf.length < s.length - s.got.size
      then (.more (s.got ++ buf.toByteArray) (s.length - s.got.size - 1 - buf.length) .done, [])
      else (.done (s.got ++ (buf.take (s.length - s.got.size)).toByteArray), buf.drop (s.length - s.got.size)) := by
    unfold reader
    cases hleft : s.length - s.got.size with
    | zero => simp [Reader.feed_done]
    | succ n =>
      dsimp only
      rw [Reader.feed_more, Reader.feed_done]
      simp only [Nat.lt_succ_iff, Nat.add_sub_cancel]
  by_cases hshort : buf.length < s.length - s.got.size
  · have hall : buf.take (s.length - s.got.size) = buf := List.take_of_length_le (Nat.le_of_lt hshort)
    have hgot : (s.got ++ buf.toByteArray).size < s.length := by
      rw [ByteArray.size_append, List.size_toByteArray]
      omega
    rw [if_pos hshort] at hfeed
    refine .waits (s := { s with got := s.got ++ buf.toByteArray }) hfeed ⟨Nat.le_of_lt hgot, ?_⟩ ?_
    · have hleft : s.length - (s.got ++ buf.toByteArray).size = s.length - s.got.size - 1 - buf.length + 1 := by
        rw [ByteArray.size_append, List.size_toByteArray]
        omega
      simp only [reader, hleft]
    · rw [hall] at htaken
      simp only [decode, hmissing, htaken, bind, Except.bind, pure, Except.pure, if_pos hgot]
  · have hlength : (buf.take (s.length - s.got.size)).length = s.length - s.got.size := by
      rw [List.length_take]
      omega
    have hgot : ¬ (s.got ++ (buf.take (s.length - s.got.size)).toByteArray).size < s.length := by
      rw [ByteArray.size_append, List.size_toByteArray]
      omega
    rw [if_neg hshort] at hfeed
    refine .whole (s := { s with got := .empty }) hfeed trivial ?_
    have hconsumed : buf.length - (buf.drop (s.length - s.got.size)).length
        = (buf.take (s.length - s.got.size)).length := by
      rw [List.length_drop, hlength]
      omega
    simp only [decode, hmissing, htaken, bind, Except.bind, pure, Except.pure, if_neg hgot, hconsumed]

end Raw

/-! ### Byte strings and texts behind their length -/

/-- A byte string behind its length, of which either is being read. -/
structure Binary where
  length : Word
  body : Option Raw

namespace Binary

def fresh : Binary := ⟨.fresh, none⟩

/-- Go on with the bytes once their number is known. -/
def decodeBody (b : Binary) (raw : Raw) (buf : List UInt8) (pos : Nat) : Checked (Progress ByteArray × Binary) :=
  field raw.decode buf pos (fun raw => { b with body := some raw }) fun bs _ pos =>
    .ok (⟨pos, some bs⟩, { b with body := none })

def decode (b : Binary) (buf : List UInt8) : Checked (Progress ByteArray × Binary) :=
  match b.body with
  | some raw => b.decodeBody raw buf 0
  | none =>
    field b.length.decode buf 0 (fun length => { b with length }) fun n length pos =>
      decodeBody { b with length } (.new n.toNat) buf pos

inductive Waits (b : Binary) : Reader ByteArray → Prop
  | length {r : Reader UInt16} : b.body = none → b.length.Waits r → Waits b (r.bind fun n => Reader.bytes n.toNat)
  | body {raw : Raw} {r : Reader ByteArray} : b.body = some raw → b.length = .fresh → raw.Waits r → Waits b r

theorem waits_fresh : fresh.Waits Reader.binary := .length rfl Word.waits_fresh

theorem decodeBody_answers {b : Binary} (hb : b.length = .fresh) {raw : Raw} {r : Reader ByteArray}
    (h : raw.Waits r) {buf : List UInt8} {pos : Nat} (hpos : pos ≤ buf.length) :
    Answers (· = fresh) Waits r buf pos (b.decodeBody raw buf pos) := by
  rw [← r.bind_done]
  refine .field hpos (raw.decode_answers h _) (fun raw' got n more _ hraw => ?_) (fun bs _ pos' _ hle _ _ => ?_)
  · rw [Reader.bind_done]
    exact .body rfl hb hraw
  · have hends : ({ b with body := none } : Binary) = fresh := by rw [hb]; rfl
    have hthere : buf.length - (buf.drop pos').length = pos' := by
      rw [List.length_drop]
      omega
    refine .whole (Reader.feed_done bs _) hends ?_
    rw [hthere]

theorem decode_answers {b : Binary} {r : Reader ByteArray} (h : b.Waits r) (buf : List UInt8) :
    Answers (· = fresh) Waits r buf 0 (b.decode buf) := by
  unfold decode
  cases h with
  | length hbody hlength =>
    rw [hbody]
    dsimp only
    refine .field (Nat.zero_le _) (b.length.decode_answers hlength _) (fun w got n more _ hw => ?_)
      (fun n w pos' _ hle _ hw => ?_)
    · exact .length rfl hw
    · exact decodeBody_answers hw (Raw.waits_new _) hle
  | body hbody hlength hraw =>
    rw [hbody]
    exact decodeBody_answers hlength hraw (Nat.zero_le _)

/-- A text is a byte string that is looked at when it is there. -/
def decodeText (b : Binary) (buf : List UInt8) : Checked (Progress String × Binary) := do
  let (progress, b) ← b.decode buf
  match progress.value with
  | none => return (⟨progress.consumed, none⟩, b)
  | some bs =>
    match Reader.decodeText bs with
    | .ok s => return (⟨progress.consumed, some s⟩, b)
    | .error e => throw (.refused e)

def WaitsText (b : Binary) (r : Reader String) : Prop :=
  ∃ r', b.Waits r' ∧ r = r'.bind fun bs => Reader.ofExcept (Reader.decodeText bs)

theorem waitsText_fresh : fresh.WaitsText Reader.text := ⟨_, waits_fresh, rfl⟩

theorem decodeText_answers {b : Binary} {r : Reader String} (h : b.WaitsText r) (buf : List UInt8) :
    Answers (· = fresh) WaitsText r buf 0 (b.decodeText buf) := by
  obtain ⟨r', hwaits, rfl⟩ := h
  unfold decodeText
  cases b.decode_answers hwaits buf with
  | @whole bs rest b' hfeed hends hout =>
    have hbind := Reader.feed_bind_of_done (fun bs => Reader.ofExcept (Reader.decodeText bs)) hfeed
    simp only [hout, bind, Except.bind]
    cases htext : Reader.decodeText bs with
    | ok s =>
      rw [htext, Reader.ofExcept, Reader.feed_done] at hbind
      exact .whole hbind hends rfl
    | error e =>
      rw [htext, Reader.ofExcept, Reader.feed_fail] at hbind
      exact .refused hbind rfl
  | refused hfeed hout =>
    simp only [hout, bind, Except.bind]
    exact .refused (Reader.feed_bind_of_fail _ hfeed) rfl
  | waits hfeed hwaits' hout =>
    simp only [hout, bind, Except.bind]
    refine .waits ?_ ⟨_, hwaits', rfl⟩ rfl
    rw [Reader.feed_bind, hfeed]
    rfl

end Binary

/-! ### Every kind of field -/

/-- The kinds of fields that packets are made of. -/
inductive Kind where
  | byte | word | binary | text
  /-- Bytes whose number is known. -/
  | raw

namespace Kind

abbrev Value : Kind → Type
  | byte => UInt8
  | word => UInt16
  | binary | raw => ByteArray
  | text => String

/-- What is kept of a field that is not whole. -/
abbrev Partial : Kind → Type
  | byte => Unit
  | word => Word
  | binary | text => Binary
  | raw => Raw

def decode : (k : Kind) → k.Partial → List UInt8 → Checked (Progress k.Value × k.Partial)
  | byte, _ => decodeByte
  | word, w => w.decode
  | binary, b => b.decode
  | text, b => b.decodeText
  | raw, s => s.decode

/-- What is kept stands for what is left of a reader. -/
def Waits : (k : Kind) → k.Partial → Reader k.Value → Prop
  | byte, _ => fun r => r = Reader.byte
  | word, w => w.Waits
  | binary, b => b.Waits
  | text, b => b.WaitsText
  | raw, s => s.Waits

/-- Behind a field that is whole the same place can be used for the next one of its kind. -/
def Ends : (k : Kind) → k.Partial → Prop
  | byte, _ | raw, _ => True
  | word, w => w = .fresh
  | binary, b | text, b => b = .fresh

/-- **Every field is read from a buffer as it is read byte by byte**, and nothing is ever out of range. -/
theorem decode_answers (k : Kind) {s : k.Partial} {r : Reader k.Value} (h : k.Waits s r) (buf : List UInt8) :
    Answers k.Ends k.Waits r buf 0 (k.decode s buf) := by
  cases k with
  | byte =>
    obtain rfl : r = Reader.byte := h
    exact decodeByte_answers buf
  | word => exact Word.decode_answers h buf
  | binary => exact Binary.decode_answers h buf
  | text => exact Binary.decodeText_answers h buf
  | raw => exact Raw.decode_answers h buf

end Kind

end Buffered

end Mqtt
