import Mqtt.Reader

/-!
# The remaining length

The length of a packet's body is written in groups of seven bits, least significant group first.
The high bit of a byte says that another group follows; four groups are the most a packet may use,
so lengths reach 268 435 455.

Models `encode_to_vec`, `encoded_len`, `VarIntDecoder` and its one-shot form `decode`.
-/

namespace Mqtt.RemainingLength

/-- The greatest length four groups can carry. -/
def maxValue : Nat := 268435455

/-- The groups of `n`, as few as possible. -/
def encode (n : Nat) : List UInt8 :=
  if n < 128 then [UInt8.ofNat n]
  else UInt8.ofNat (n % 128 + 128) :: encode (n / 128)
termination_by n
decreasing_by omega

/-- How many bytes `encode` writes. -/
def encodedLength (n : Nat) : Nat :=
  if n < 128 then 1 else 1 + encodedLength (n / 128)
termination_by n
decreasing_by omega

/-- Read the groups that follow `value`: the next one counts `weight`, and `further` more may come
after it. -/
def groups : (further : Nat) → (weight value : Nat) → Reader Nat
  | further, weight, value => do
    let b ← Reader.byte
    let value := value + b.toNat % 128 * weight
    if b < 128 then return value
    match further with
    | 0 => Reader.fail .invalidRemainingLength
    | n + 1 => groups n (weight * 128) value

/-- Read a length of one to four groups. A group more than needed is accepted; a fourth group that
announces a fifth is not. -/
def reader : Reader Nat := groups 3 1 0

/-- Read a length at the front of `bs`: its value and how many bytes it took, or nothing if more
bytes are needed. -/
def decode (bs : List UInt8) : Except ProtocolError (Option (Nat × Nat)) :=
  let (r, rest) := reader.feed bs
  match r.outcome with
  | .ok none => .ok none
  | .ok (some n) => .ok (some (n, bs.length - rest.length))
  | .error e => .error e

theorem length_encode (n : Nat) : (encode n).length = encodedLength n := by
  fun_induction encode n with
  | case1 n h => rw [encodedLength, if_pos h]; rfl
  | case2 n h ih => rw [encodedLength, if_neg h, List.length_cons, ih]; omega

end Mqtt.RemainingLength
