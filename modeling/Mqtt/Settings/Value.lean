import Mqtt.Binary64

/-!
# The values of settings

A setting is written as a truth value, a number or a text.
-/

namespace Mqtt.Settings

inductive Value where
  | bool (b : Bool)
  | int (n : Int)
  | real (x : Binary64)
  | text (s : String)
  deriving DecidableEq, Inhabited

namespace Value

/-- The greatest integer, and the greatest natural number, of 64 bits. -/
def maxInt : Int := 0x7fffffffffffffff
def maxNat : Nat := 0xffffffffffffffff

/-- An integer of 64 bits. -/
def int64? (n : Int) : Option Int := if -(maxInt + 1) ≤ n && n ≤ maxInt then some n else none

/-- A decimal integer of 64 bits with a sign or without. -/
def parseInt? (s : String) : Option Int := do
  let (negative, ds) := Binary64.takeSign s.toList
  let n ← Digits.value? 10 ds
  int64? (if negative then -(n : Int) else n)

/-- The value that an environment variable holds: a truth value in any case, an integer, any other
number, or else a text. -/
def ofVariable (s : String) : Value :=
  match s.toLower with
  | "true" => bool true
  | "false" => bool false
  | _ =>
    match parseInt? s with
    | some n => int n
    | none =>
      match Binary64.parse? s with
      | some x => real x
      | none => text s

end Value

end Mqtt.Settings
