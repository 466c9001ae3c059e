import Mathlib.Algebra.Group.Nat.Defs
import Mqtt.Proofs.Scripts
import Mqtt.Proofs.Refusals

/-!
# Packets from a buffer: `PacketDecoder::decode`

A decoder of packets that is handed buffers: the fixed header first, then exactly the bytes of the body. The length of
the body is put together by shifts, the body is cut off the buffer, and what a call took is subtracted from what is
left of it. All of this is checked, and `Decoder.answers_eq` says that no check ever fails: in whatever buffers the
bytes come, the answers are those of the decoder that takes them one by one.
-/

namespace Mqtt

/-! ### Bodies that are given several bytes -/

/-- The fields of a body are given no byte behind it, and settled with what they leave of it. -/
theorem Decoder.State.proceed_settle (max : Nat) (h : FixedHeader) (left : Nat) (r : Reader Packet) (bs : List UInt8) :
    proceed max (settle h left r) bs =
      let fed := r.feed (bs.take left)
      let settled := settle h (left - ((bs.take left).length - fed.2.length)) fed.1
      (settled.1, settled.2, fed.2 ++ bs.drop left) := by
  induction bs generalizing left r with
  | nil =>
    cases r with
    | done p =>
      rw [Reader.feed_done]
      cases left <;> simp [settle, proceed]
    | fail e =>
      rw [Reader.feed_fail]
      simp [settle, proceed]
    | more got n next =>
      rw [List.take_nil, Reader.feed_nil]
      cases left <;> simp [settle, proceed, State.next]
  | cons b bs ih =>
    cases r with
    | done p =>
      rw [Reader.feed_done]
      cases left <;> simp [settle, proceed]
    | fail e =>
      rw [Reader.feed_fail]
      simp [settle, proceed]
    | more got n next =>
      cases left with
      | zero =>
        rw [List.take_zero, Reader.feed_nil]
        simp [settle, proceed]
      | succ left =>
        have hproceed : proceed max (settle h (left + 1) (.more got n next)) (b :: bs)
            = proceed max (settle h left ((Reader.more got n next).step b)) bs := State.next_cons ..
        have htook := Reader.length_rest_le ((Reader.more got n next).step b) (bs.take left)
        have hleft (rest : List UInt8) (hrest : rest.length ≤ (bs.take left).length) :
            left + 1 - ((b :: bs.take left).length - rest.length) = left - ((bs.take left).length - rest.length) := by
          rw [List.length_cons]
          omega
        rw [hproceed, ih, List.take_succ_cons, Reader.feed_more_cons, List.drop_succ_cons]
        dsimp only
        rw [hleft _ htook]

namespace Buffered

open Decoder (State Yield)

/-! ### The remaining length -/

/-- A group is added, and if it is not the last one the others follow. -/
theorem feed_groups (further weight value : Nat) (b : UInt8) (bs : List UInt8) :
    (RemainingLength.groups further weight value).feed (b :: bs) =
      if b < 128 then (.done (value + b.toNat % 128 * weight), bs)
      else match further with
        | 0 => (.fail .invalidRemainingLength, bs)
        | n + 1 => (RemainingLength.groups n (weight * 128) (value + b.toNat % 128 * weight)).feed bs := by
  have hbyte : Reader.byte.feed (b :: bs) = (.done b, bs) := Reader.reads_byte_iff.2 rfl
  rw [RemainingLength.groups_eq, Reader.feed_bind_of_done _ hbyte]
  split
  · exact Reader.feed_done _ bs
  · cases further with
    | zero => exact Reader.feed_fail _ bs
    | succ n => rfl

def shift? (a : UInt32) (k : Nat) : Checked UInt32 := if k < 32 then .ok (a <<< UInt32.ofNat k) else .error .outOfRange

/-- The groups of a length that have come. -/
structure VarInt where
  value : UInt32
  count : Nat

namespace VarInt

def fresh : VarInt := ⟨0, 0⟩

/-- Take one group after the other; `consumed` bytes were taken before. -/
def decode (consumed : Nat) : VarInt → List UInt8 → Checked (Progress Nat × VarInt)
  | v, [] => .ok (⟨consumed, none⟩, v)
  | v, b :: bs => do
    let group ← shift? (b &&& 0x7F).toUInt32 (7 * v.count)
    let value := v.value ||| group
    if b &&& 0x80 = 0 then return (⟨consumed + 1, some value.toNat⟩, fresh)
    if v.count + 1 = 4 then throw (.refused .invalidRemainingLength)
    decode (consumed + 1) ⟨value, v.count + 1⟩ bs

/-- Three groups have come at most, and their bits are the lowest. -/
structure Waits (v : VarInt) (r : Reader Nat) : Prop where
  small : v.value.toNat < 2 ^ (7 * v.count)
  room : v.count ≤ 3
  reader : r = RemainingLength.groups (3 - v.count) (2 ^ (7 * v.count)) v.value.toNat

theorem waits_fresh : fresh.Waits RemainingLength.reader := ⟨by decide, by decide, rfl⟩

theorem Waits.more {v : VarInt} {r : Reader Nat} (h : v.Waits r) : ∃ got n next, r = .more got n next := by
  rw [h.reader]
  unfold RemainingLength.groups
  exact ⟨_, _, _, rfl⟩

theorem and_high (b : UInt8) : b &&& 0x80 = 0 ↔ b < 128 := by
  have table : ∀ i : Fin 256, UInt8.ofNat i.val &&& 0x80 = 0 ↔ UInt8.ofNat i.val < 128 := by decide +kernel
  simpa using table ⟨b.toNat, b.toNat_lt⟩

theorem and_low (b : UInt8) : (b &&& 0x7F).toUInt32.toNat = b.toNat % 128 := by
  rw [UInt8.toNat_toUInt32, UInt8.toNat_and]
  exact Nat.and_two_pow_sub_one_eq_mod b.toNat 7

/-- A group goes above those that have come, and no bit of it is lost. -/
theorem toNat_or_shift {v : VarInt} {r : Reader Nat} (h : v.Waits r) (b : UInt8) :
    (v.value ||| ((b &&& 0x7F).toUInt32 <<< UInt32.ofNat (7 * v.count))).toNat
        = v.value.toNat + b.toNat % 128 * 2 ^ (7 * v.count) ∧
      v.value.toNat + b.toNat % 128 * 2 ^ (7 * v.count) < 2 ^ (7 * (v.count + 1)) := by
  have hcount := h.room
  have hshift : (UInt32.ofNat (7 * v.count)).toNat % 32 = 7 * v.count := by
    rw [UInt32.toNat_ofNat_of_lt' (show 7 * v.count < UInt32.size by unfold UInt32.size; omega)]
    omega
  have hgroup : b.toNat % 128 < 2 ^ 7 := Nat.mod_lt _ (by decide)
  have hpow : 2 ^ (7 * (v.count + 1)) = 2 ^ 7 * 2 ^ (7 * v.count) := by rw [← Nat.pow_add]; congr 1; omega
  have hsum : v.value.toNat + b.toNat % 128 * 2 ^ (7 * v.count) < 2 ^ (7 * (v.count + 1)) := by
    have hle : (b.toNat % 128 + 1) * 2 ^ (7 * v.count) ≤ 2 ^ 7 * 2 ^ (7 * v.count) := Nat.mul_le_mul_right _ hgroup
    have hsmall := h.small
    rw [Nat.add_mul, Nat.one_mul] at hle
    omega
  have hfits : b.toNat % 128 * 2 ^ (7 * v.count) < 2 ^ 32 := by
    have hpow28 : 2 ^ (7 * (v.count + 1)) ≤ 2 ^ 32 := Nat.pow_le_pow_right (by decide) (by omega)
    omega
  refine ⟨?_, hsum⟩
  rw [UInt32.toNat_or, UInt32.toNat_shiftLeft, hshift, and_low, Nat.shiftLeft_eq, Nat.mod_eq_of_lt hfits,
    ← Nat.shiftLeft_eq, Nat.or_comm, ← Nat.shiftLeft_add_eq_or_of_lt h.small, Nat.shiftLeft_eq, Nat.add_comm]

/-- **A length is put together as it is added up**, and no shift goes out of range. -/
theorem decode_answers {v : VarInt} {r : Reader Nat} (h : v.Waits r) {buf : List UInt8} {pos : Nat}
    (hpos : pos ≤ buf.length) : Answers (· = fresh) Waits r buf pos (decode pos v (buf.drop pos)) := by
  generalize hbs : buf.drop pos = bs
  induction bs generalizing pos v r with
  | nil =>
    obtain ⟨got, n, next, hmore⟩ := h.more
    have hfeed : r.feed (buf.drop pos) = (.more got n next, []) := by rw [hbs, Reader.feed_nil, hmore]
    have hthere : pos = buf.length := Nat.le_antisymm hpos (List.drop_eq_nil_iff.1 hbs)
    refine .waits (s := v) hfeed (hmore ▸ h) ?_
    rw [← hthere, decode]
  | cons b bs ih =>
    have hbs' : buf.drop (pos + 1) = bs := by rw [← List.drop_drop, hbs, List.drop_succ_cons, List.drop_zero]
    have hlength := congrArg List.length hbs
    rw [List.length_drop, List.length_cons] at hlength
    have hpos' : pos + 1 ≤ buf.length := by omega
    have hcount := h.room
    obtain ⟨hvalue, hsmall⟩ := toNat_or_shift h b
    have hshift : shift? (b &&& 0x7F).toUInt32 (7 * v.count)
        = .ok ((b &&& 0x7F).toUInt32 <<< UInt32.ofNat (7 * v.count)) := if_pos (by omega)
    have hfeed := feed_groups (3 - v.count) (2 ^ (7 * v.count)) v.value.toNat b bs
    rw [← h.reader, ← hbs] at hfeed
    simp only [decode, hshift, bind, Except.bind, pure, Except.pure, throw, throwThe, MonadExceptOf.throw, and_high]
    by_cases hlast : b < 128
    · rw [if_pos hlast] at hfeed ⊢
      have hconsumed : buf.length - bs.length = pos + 1 := by omega
      refine .whole (s := fresh) hfeed rfl ?_
      rw [hvalue, hconsumed]
    rw [if_neg hlast] at hfeed ⊢
    by_cases hfull : v.count + 1 = 4
    · have hnone : 3 - v.count = 0 := by omega
      rw [hnone] at hfeed
      rw [if_pos hfull]
      exact .refused hfeed rfl
    · obtain ⟨n, hn⟩ : ∃ n, 3 - v.count = n + 1 := ⟨2 - v.count, by omega⟩
      have hweight : 2 ^ (7 * v.count) * 128 = 2 ^ (7 * (v.count + 1)) := by
        rw [Nat.mul_add, Nat.pow_add]
      rw [hn] at hfeed
      dsimp only at hfeed
      rw [if_neg hfull]
      have hwaits : Waits ⟨v.value ||| ((b &&& 0x7F).toUInt32 <<< UInt32.ofNat (7 * v.count)), v.count + 1⟩
          (RemainingLength.groups n (2 ^ (7 * v.count) * 128) (v.value.toNat + b.toNat % 128 * 2 ^ (7 * v.count))) := by
        have hleft : 3 - (v.count + 1) = n := by omega
        refine ⟨hvalue ▸ hsmall, by dsimp only; omega, ?_⟩
        rw [hleft, hvalue, hweight]
      exact (ih hwaits hpos' hbs').of_feed (by rw [hbs', hfeed])

end VarInt

/-! ### The fixed header -/

/-- A fixed header: the kind and the flags, once they are there, and its length. -/
structure Header where
  first : Option (PacketType × UInt8)
  length : VarInt

namespace Header

def fresh : Header := ⟨none, .fresh⟩

/-- Go on with the length once the first byte is there. -/
def decodeLength (h : Header) (type : PacketType) (flags : UInt8) (buf : List UInt8) (pos : Nat) :
    Checked (Progress FixedHeader × Header) :=
  field (VarInt.decode 0 h.length) buf pos (fun length => ⟨some (type, flags), length⟩) fun n length pos =>
    .ok (⟨pos, some ⟨type, flags, n⟩⟩, ⟨none, length⟩)

def decode (h : Header) (buf : List UInt8) : Checked (Progress FixedHeader × Header) :=
  match h.first with
  | some (type, flags) => h.decodeLength type flags buf 0
  | none =>
    match buf with
    | [] => .ok (⟨0, none⟩, h)
    | b :: _ =>
      match PacketType.ofCode? (b.toNat / 16) with
      | none => .error (.refused (.invalidPacketType (b.toNat / 16)))
      | some type => h.decodeLength type (UInt8.ofNat (b.toNat % 16)) buf 1

/-- The header stands where the header does that is given its bytes one by one. -/
inductive Stands : Header → FixedHeader.Progress → Prop
  | start : Stands fresh .start
  | length {type : PacketType} {flags : UInt8} {v : VarInt} {r : Reader Nat} : v.Waits r →
      Stands ⟨some (type, flags), v⟩ (.length type flags r)

/-- A call on a buffer does with the header what is done with the header that is given its bytes one by one: the body
is begun behind it, or the bytes are refused, or more are needed. -/
inductive Call (max : Nat) (buf : List UInt8) (result : State × Yield × List UInt8)
    (out : Checked (Progress FixedHeader × Header)) : Prop
  | whole {h : FixedHeader} {pos : Nat} : pos ≤ buf.length →
      result = State.proceed max (State.begin max h) (buf.drop pos) → out = .ok (⟨pos, some h⟩, fresh) →
      Call max buf result out
  | refused {e : ProtocolError} : result.2.1 = .error e → out = .error (.refused e) → Call max buf result out
  | waits {progress : FixedHeader.Progress} {header : Header} : result = (.header progress, .ok none, []) →
      header.Stands progress → out = .ok (⟨buf.length, none⟩, header) → Call max buf result out

theorem decodeLength_call (max : Nat) {h : Header} {r : Reader Nat} (hr : h.length.Waits r) (type : PacketType)
    (flags : UInt8) {buf : List UInt8} {pos : Nat} (hpos : pos ≤ buf.length) :
    Call max buf (State.next max (.header (.length type flags r)) (buf.drop pos))
      (h.decodeLength type flags buf pos) := by
  have hlength : (buf.drop pos).length = buf.length - pos := List.length_drop
  have hanswers := h.length.decode_answers hr (Nat.zero_le (buf.drop pos).length)
  rw [List.drop_zero] at hanswers
  obtain ⟨got, n, next, rfl⟩ := hr.more
  rw [State.next_length]
  unfold decodeLength
  cases hanswers with
  | @whole length rest v hfeed hends hout =>
    rw [List.drop_zero] at hfeed
    obtain ⟨taken, htaken, -⟩ := Reader.feed_split hfeed
    have hcount : (buf.drop pos).length = taken.length + rest.length := by rw [htaken, List.length_append]
    have hrest : rest = buf.drop (pos + taken.length) := by rw [← List.drop_drop, htaken, List.drop_left]
    have hthere : (buf.drop pos).length - rest.length = taken.length := by omega
    rw [hthere] at hout
    rw [field_of_some hpos hout, hfeed, hrest]
    exact .whole (by omega) rfl (by rw [hends]; rfl)
  | refused hfeed hout =>
    rw [List.drop_zero] at hfeed
    rw [field_of_error hpos hout, hfeed]
    exact .refused rfl rfl
  | @waits got' n' next' v hfeed hwaits hout =>
    rw [List.drop_zero] at hfeed
    have hthere : pos + (buf.drop pos).length = buf.length := by omega
    rw [field_of_none hpos hout, hfeed, hthere]
    exact .waits rfl (.length hwaits) rfl

theorem decode_call (max : Nat) {h : Header} {progress : FixedHeader.Progress} (hh : h.Stands progress)
    (buf : List UInt8) : Call max buf (State.next max (.header progress) buf) (h.decode buf) := by
  cases hh with
  | length hv => exact decodeLength_call max hv _ _ (Nat.zero_le _)
  | start =>
    cases buf with
    | nil => exact .waits rfl .start rfl
    | cons b bs =>
      rw [State.next_cons]
      unfold decode State.step FixedHeader.Progress.step
      dsimp only [fresh]
      cases hcode : PacketType.ofCode? (b.toNat / 16) with
      | none => exact .refused rfl rfl
      | some type =>
        have hpos : 1 ≤ (b :: bs).length := by simp
        exact decodeLength_call max (h := fresh) VarInt.waits_fresh type _ hpos

end Header

/-! ### The body -/

/-- A body of which `left` bytes are still to come. -/
structure Body where
  header : FixedHeader
  left : Nat
  script : Script Packet

namespace Body

/-- The fields are given no byte behind the body, and must end where it does. -/
def decode (b : Body) (buf : List UInt8) : Checked (Progress Packet × Body) := do
  let buf ← upTo? buf (min buf.length b.left)
  let (progress, script) ← b.script.run buf b.left 0
  let left ← minus? b.left progress.consumed
  match progress.value with
  | some _ =>
    if left ≠ 0 then throw (.refused (.malformedPacket (.trailingBytes b.header.type left)))
    return (progress, { b with left, script })
  | none =>
    if left = 0 then throw (.refused (.malformedPacket (.fieldsExceed b.header.type b.header.remainingLength)))
    return (progress, { b with left, script })

/-- The body stands for what is left of a reader of it. -/
def Stands (b : Body) (r : Reader Packet) : Prop := b.script.Follows r b.left

/-- More bytes of the body are needed. -/
def Unsettled (b : Body) (r : Reader Packet) : Prop :=
  State.settle b.header b.left r = (.body b.header b.left r, .ok none)

/-- A call on a buffer does with the body what is done with the body that is given its bytes one by one. -/
inductive Call (buf : List UInt8) (result : State × Yield × List UInt8) (out : Checked (Progress Packet × Body)) : Prop
  | whole {p : Packet} {pos : Nat} {b : Body} : pos ≤ buf.length →
      result = (.header .start, .ok (some p), buf.drop pos) → out = .ok (⟨pos, some p⟩, b) → Call buf result out
  | refused {e : ProtocolError} : result.2.1 = .error e → out = .error (.refused e) → Call buf result out
  | waits {b : Body} {r : Reader Packet} : result = (.body b.header b.left r, .ok none, []) → b.Stands r →
      b.Unsettled r → out = .ok (⟨buf.length, none⟩, b) → Call buf result out

section

variable {b : Body} {buf : List UInt8} {pos : Nat} {script : Script Packet}

/-- The fields are given what there is of the body. -/
theorem upTo?_left (b : Body) (buf : List UInt8) : upTo? buf (min buf.length b.left) = .ok (buf.take b.left) := by
  rw [Nat.min_comm, upTo?_min]

/-- The fields have ended, where the body does or before that. -/
theorem decode_of_some {p : Packet} (hpos : pos ≤ b.left)
    (h : b.script.run (buf.take b.left) b.left 0 = .ok (⟨pos, some p⟩, script)) :
    b.decode buf =
      if b.left - pos = 0 then .ok (⟨pos, some p⟩, { b with left := 0, script })
      else .error (.refused (.malformedPacket (.trailingBytes b.header.type (b.left - pos)))) := by
  unfold decode
  by_cases hleft : b.left - pos = 0 <;>
    simp [upTo?_left, h, minus?_of_le hpos, hleft, bind, Except.bind, pure, Except.pure, throw, throwThe,
      MonadExceptOf.throw]

/-- The fields need more bytes, which the body has or has not. -/
theorem decode_of_none (hpos : pos ≤ b.left)
    (h : b.script.run (buf.take b.left) b.left 0 = .ok (⟨pos, none⟩, script)) :
    b.decode buf =
      if b.left - pos = 0 then
        .error (.refused (.malformedPacket (.fieldsExceed b.header.type b.header.remainingLength)))
      else .ok (⟨pos, none⟩, { b with left := b.left - pos, script }) := by
  unfold decode
  by_cases hleft : b.left - pos = 0 <;>
    simp [upTo?_left, h, minus?_of_le hpos, hleft, bind, Except.bind, pure, Except.pure, throw, throwThe,
      MonadExceptOf.throw]

theorem decode_of_error {e : Fault} (h : b.script.run (buf.take b.left) b.left 0 = .error e) :
    b.decode buf = .error e := by
  unfold decode
  simp only [upTo?_left, h, bind, Except.bind]

end

theorem decode_call (max : Nat) {b : Body} {r : Reader Packet} (hb : b.Stands r) (buf : List UInt8) :
    Call buf (State.proceed max (State.settle b.header b.left r) buf) (b.decode buf) := by
  have hlength : (buf.take b.left).length = min b.left buf.length := List.length_take
  have hbound : (buf.take b.left).length ≤ b.left := by omega
  have hrun := b.script.run_answers hbound (Nat.zero_le _) hb
  rw [State.proceed_settle]
  cases hrun with
  | @whole p rest script hfeed _ hout =>
    rw [List.drop_zero] at hfeed
    rw [decode_of_some (by omega) hout, hfeed]
    dsimp only
    generalize hleft : b.left - ((buf.take b.left).length - rest.length) = left
    cases left with
    | succ left =>
      refine .refused (e := .malformedPacket (.trailingBytes b.header.type (left + 1))) ?_ ?_
      · simp [State.settle]
      · simp
    | zero =>
      -- All of the body is taken, so what is left is what stands behind it.
      have hle := Reader.length_rest_le r (buf.take b.left)
      rw [hfeed] at hle
      dsimp only at hle
      obtain rfl : rest = [] := by
        rw [← List.length_eq_zero_iff]
        omega
      have hconsumed : (buf.take b.left).length - ([] : List UInt8).length = b.left := by
        rw [List.length_nil] at hleft ⊢
        omega
      refine .whole (p := p) (b := { b with left := 0, script }) (show b.left ≤ buf.length by omega) ?_ ?_
      · simp [State.settle]
      · rw [hconsumed]
        simp
  | refused hfeed hout =>
    rw [List.drop_zero] at hfeed
    rw [decode_of_error hout, hfeed]
    exact .refused rfl rfl
  | @waits got n next script hfeed hfollows hout =>
    rw [List.drop_zero] at hfeed
    rw [decode_of_none hbound hout, hfeed]
    dsimp only
    by_cases hshort : buf.length < b.left
    · have hall : buf.take b.left = buf := List.take_of_length_le (Nat.le_of_lt hshort)
      have hmore : b.left - buf.length ≠ 0 := by omega
      rw [hall] at hfollows ⊢
      have hunsettled : State.settle b.header (b.left - buf.length) (.more got n next)
          = (.body b.header (b.left - buf.length) (.more got n next), .ok none) := by
        unfold State.settle
        exact if_neg hmore
      refine .waits (b := { b with left := b.left - buf.length, script }) ?_ hfollows hunsettled (by simp [hmore])
      simp [hunsettled, List.drop_of_length_le (Nat.le_of_lt hshort)]
    · have hnone : b.left - min b.left buf.length = 0 := by omega
      refine .refused (e := .malformedPacket (.fieldsExceed b.header.type b.header.remainingLength)) ?_ ?_
      · simp [State.settle, hnone]
      · simp [hnone]

end Body

/-! ### Packets -/

/-- A decoder of packets that is handed buffers. -/
structure Packets where
  max : Nat
  header : Header
  body : Option Body

namespace Packets

def new (max : Nat) : Packets := ⟨max, .fresh, none⟩

def decodeBody (d : Packets) (body : Body) (buf : List UInt8) (pos : Nat) : Checked (Progress Packet × Packets) :=
  field body.decode buf pos (fun body => { d with body := some body }) fun p _ pos =>
    .ok (⟨pos, some p⟩, { d with body := none })

def decode (d : Packets) (buf : List UInt8) : Checked (Progress Packet × Packets) :=
  match d.body with
  | some body => d.decodeBody body buf 0
  | none =>
    field d.header.decode buf 0 (fun header => { d with header }) fun h header pos =>
      let size := h.encodedLength + h.remainingLength
      if d.max > 0 && size > d.max then .error (.refused (.packetTooLarge size d.max))
      else match script h with
        | .error e => .error (.refused e)
        | .ok script => decodeBody { d with header } ⟨h, h.remainingLength, script⟩ buf pos

/-- The decoder stands where the decoder does that is given its bytes one by one. -/
inductive Stands (d : Packets) : State → Prop
  | header {progress : FixedHeader.Progress} : d.body = none → d.header.Stands progress → Stands d (.header progress)
  | body {b : Body} {r : Reader Packet} : d.body = some b → d.header = .fresh → b.Stands r → b.Unsettled r →
      Stands d (.body b.header b.left r)

/-- A call on a buffer answers as the call does that takes the bytes one by one. -/
inductive Call (max : Nat) (buf : List UInt8) (result : State × Yield × List UInt8)
    (out : Checked (Progress Packet × Packets)) : Prop
  | brings {s : State} {p : Option Packet} {rest : List UInt8} {d : Packets} : result = (s, .ok p, rest) →
      d.max = max → d.Stands s → out = .ok (⟨buf.length - rest.length, p⟩, d) → Call max buf result out
  | refused {e : ProtocolError} : result.2.1 = .error e → out = .error (.refused e) → Call max buf result out

theorem decodeBody_call {d : Packets} (hd : d.header = .fresh) {b : Body} {r : Reader Packet} (hb : b.Stands r)
    {buf : List UInt8} {pos : Nat} (hpos : pos ≤ buf.length) :
    Call d.max buf (State.proceed d.max (State.settle b.header b.left r) (buf.drop pos))
      (d.decodeBody b buf pos) := by
  have hlength : (buf.drop pos).length = buf.length - pos := List.length_drop
  unfold decodeBody
  cases Body.decode_call d.max hb (buf.drop pos) with
  | @whole p pos' body hpos' hresult hout =>
    have hthere : pos + pos' = buf.length - ((buf.drop pos).drop pos').length := by
      rw [List.length_drop]
      omega
    rw [field_of_some hpos hout, hthere]
    exact .brings (d := { d with body := none }) hresult rfl (.header rfl (hd ▸ .start)) rfl
  | refused hresult hout =>
    rw [field_of_error hpos hout]
    exact .refused hresult rfl
  | @waits body r' hresult hstands hunsettled hout =>
    have hthere : pos + (buf.drop pos).length = buf.length := by omega
    rw [field_of_none hpos hout, hthere]
    exact .brings (d := { d with body := some body }) hresult rfl (.body rfl hd hstands hunsettled) rfl

/-- **A call on a buffer is a call byte by byte.** -/
theorem decode_call {d : Packets} {s : State} (hd : d.Stands s) (buf : List UInt8) :
    Call d.max buf (s.next d.max buf) (d.decode buf) := by
  have hpos : 0 ≤ buf.length := Nat.zero_le _
  unfold decode
  cases hd with
  | @body b r hbody hheader hb hunsettled =>
    have hcall := decodeBody_call hheader hb hpos
    rw [hunsettled] at hcall
    rw [hbody]
    exact hcall
  | @header progress hbody hheader =>
    rw [hbody]
    dsimp only
    cases Header.decode_call d.max hheader buf with
    | @whole h pos hle hresult hout =>
      rw [field_of_some hpos (by rw [List.drop_zero, hout]), hresult, Nat.zero_add]
      unfold State.begin
      dsimp only
      by_cases hlarge : (d.max > 0 && h.encodedLength + h.remainingLength > d.max) = true
      · rw [if_pos hlarge, if_pos hlarge]
        exact .refused rfl rfl
      rw [if_neg hlarge, if_neg hlarge]
      have hbegins := script_begins h
      generalize script h = s, Mqtt.Body.reader h = r at hbegins
      cases hbegins with
      | refused e => exact .refused rfl rfl
      | reads hfollows =>
        exact decodeBody_call (d := { d with header := .fresh }) rfl (b := ⟨h, h.remainingLength, _⟩) hfollows hle
    | refused hresult hout =>
      rw [field_of_error hpos (by rw [List.drop_zero, hout])]
      exact .refused hresult rfl
    | @waits progress' header hresult hstands hout =>
      rw [field_of_none hpos (by rw [List.drop_zero, hout]), Nat.zero_add]
      exact .brings (d := ⟨d.max, header, none⟩) hresult rfl (.header rfl hstands) rfl

/-- What a call has to say: how many bytes it took and the packet that it brought, or an error. -/
abbrev Answer := Except ProtocolError (Nat × Option Packet)

/-- The answers to one buffer after the other, up to the first error; nothing if anything goes out of range. -/
def answers (d : Packets) : List (List UInt8) → Option (List Answer)
  | [] => some []
  | buf :: bufs =>
    match d.decode buf with
    | .ok (progress, d) => (d.answers bufs).map (.ok (progress.consumed, progress.value) :: ·)
    | .error (.refused e) => some [.error e]
    | .error _ => none

end Packets

end Buffered

namespace Decoder

open Buffered (Packets)

/-- The answers to one buffer after the other, up to the first error. -/
def answers (d : Decoder) : List (List UInt8) → List Packets.Answer
  | [] => []
  | buf :: bufs =>
    match d.next buf with
    | (d, .ok packet, rest) => .ok (buf.length - rest.length, packet) :: d.answers bufs
    | (_, .error e, _) => [.error e]

/-- **Nothing goes out of range.** Whatever buffers a new decoder is handed, the decoder that slices, subtracts and
shifts gives the answers of the one that takes the bytes one by one. -/
theorem answers_eq (max : Nat) (bufs : List (List UInt8)) :
    (Packets.new max).answers bufs = some ((new max).answers bufs) := by
  have hstart : (Packets.new max).Stands (new max).state := .header rfl .start
  have hmax : (Packets.new max).max = (new max).maxPacketSize := rfl
  generalize Packets.new max = d at hstart hmax
  generalize new max = d' at hstart hmax
  induction bufs generalizing d d' with
  | nil => rfl
  | cons buf bufs ih =>
    have hcall := Packets.decode_call hstart buf
    rw [hmax] at hcall
    rw [Packets.answers, answers, next]
    cases hcall with
    | @brings s p rest after hresult hlimit hstands hout =>
      rw [hout, hresult]
      dsimp only
      rw [ih after ⟨d'.maxPacketSize, s⟩ hstands hlimit]
      rfl
    | refused hresult hout =>
      rw [hout]
      generalize d'.state.next d'.maxPacketSize buf = result at hresult
      obtain ⟨s, y, rest⟩ := result
      dsimp only at hresult
      rw [hresult]

end Decoder

end Mqtt
