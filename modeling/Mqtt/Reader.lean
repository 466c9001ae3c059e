import Mqtt.ProtocolError

/-!
# Resumable field readers

A `Reader α` describes how a value is read from a byte stream: it has the value, it has refused
the bytes, or it waits for a positive number of further bytes. Readers take one byte at a time, so
what they return depends on the bytes and not on how the stream was cut into pieces:
`feed_append` says so.

Readers are sequenced with `do`; a format is written as the list of its fields.

Models `U8Decoder` (`byte`), `U16Decoder` (`word`), `RawDecoder` (`bytes`), `BinaryDecoder` and
`StringDecoder` (`text`). The memory a decoder sets aside in advance is left out.
-/

namespace Mqtt

/-- A value that is being read. `more got missing next` holds the bytes of the current field and
waits for `missing + 1` further ones, then goes on as `next` says. -/
inductive Reader (α : Type) where
  | done (value : α)
  | fail (error : ProtocolError)
  | more (got : ByteArray) (missing : Nat) (next : ByteArray → Reader α)

namespace Reader

variable {α β : Type}

instance : Inhabited (Reader α) := ⟨.fail .invalidUtf8⟩

/-- Give the reader one byte. A reader that is finished stays as it is. -/
def step : Reader α → UInt8 → Reader α
  | more got 0 next, b => next (got.push b)
  | more got (n + 1) next, b => more (got.push b) n next
  | r, _ => r

/-- Give the reader bytes until it is finished or they run out; the bytes left over come back. -/
def feed : Reader α → List UInt8 → Reader α × List UInt8
  | more got 0 next, b :: bs => feed (next (got.push b)) bs
  | more got (n + 1) next, b :: bs => feed (more (got.push b) n next) bs
  | r, bs => (r, bs)

/-- Go on with `f` once the value is there. -/
def bind : Reader α → (α → Reader β) → Reader β
  | done a, f => f a
  | fail e, _ => fail e
  | more got n next, f => more got n fun bs => (next bs).bind f

instance : Monad Reader where
  pure := done
  bind := bind

/-- What the reader has to say after the bytes given so far: its value, nothing yet, or an
error. -/
def outcome : Reader α → Except ProtocolError (Option α)
  | done a => .ok (some a)
  | fail e => .error e
  | more _ _ _ => .ok none

/-! ### Fields -/

/-- Exactly `n` bytes. -/
def bytes : Nat → Reader ByteArray
  | 0 => done .empty
  | n + 1 => more .empty n done

/-- One byte. -/
def byte : Reader UInt8 := more .empty 0 fun bs => done (bs.data.getD 0 0)

/-- A 16-bit number, high byte first. -/
def word : Reader UInt16 :=
  more .empty 1 fun bs =>
    done (UInt16.ofNat ((bs.data.getD 0 0).toNat * 256 + (bs.data.getD 1 0).toNat))

/-- A byte string after its 16-bit length. -/
def binary : Reader ByteArray := do
  let n ← word
  bytes n.toNat

/-- Accept bytes as text: U+0000 is refused first, then anything that is not UTF-8. -/
def decodeText (bs : ByteArray) : Except ProtocolError String :=
  if bs.data.contains 0 then .error (.malformedPacket .nullCharacter)
  else match String.fromUTF8? bs with
    | some s => .ok s
    | none => .error .invalidUtf8

/-- Turn a check into a reader that takes no bytes. -/
def ofExcept : Except ProtocolError α → Reader α
  | .ok a => done a
  | .error e => fail e

/-- A text after its 16-bit length in bytes. -/
def text : Reader String := do
  let bs ← binary
  ofExcept (decodeText bs)

/-! ### Cutting the stream -/

theorem feed_done (a : α) (bs : List UInt8) : feed (done a) bs = (done a, bs) := by
  cases bs <;> rfl

theorem feed_fail (e : ProtocolError) (bs : List UInt8) :
    feed (fail e : Reader α) bs = (fail e, bs) := by
  cases bs <;> rfl

theorem feed_nil (r : Reader α) : feed r [] = (r, []) := by
  cases r with
  | more _ n _ => cases n <;> rfl
  | _ => rfl

theorem feed_more_cons (got : ByteArray) (n : Nat) (next : ByteArray → Reader α) (b : UInt8)
    (bs : List UInt8) : feed (more got n next) (b :: bs) = feed ((more got n next).step b) bs := by
  cases n <;> rfl

/-- Feeding two pieces is feeding the first and then, with what it left over, the second. -/
theorem feed_append (r : Reader α) (as bs : List UInt8) :
    feed r (as ++ bs) = feed (feed r as).1 ((feed r as).2 ++ bs) := by
  induction as generalizing r with
  | nil => rw [feed_nil]
  | cons a as ih =>
    cases r with
    | done v => simp [feed_done]
    | fail e => simp [feed_fail]
    | more got n next => rw [List.cons_append, feed_more_cons, ih, ← feed_more_cons]

end Reader

end Mqtt
