/-!
# Digits

Numbers written in digits, in any base up to sixteen.
-/

namespace Mqtt.Digits

/-- The value of a digit; letters of either case stand for ten to fifteen. -/
def digit? (c : Char) : Option Nat :=
  if '0' ≤ c && c ≤ '9' then some (c.toNat - '0'.toNat)
  else if 'a' ≤ c && c ≤ 'f' then some (c.toNat - 'a'.toNat + 10)
  else if 'A' ≤ c && c ≤ 'F' then some (c.toNat - 'A'.toNat + 10)
  else none

/-- The value of a digit of a base. -/
def digitOf? (base : Nat) (c : Char) : Option Nat := (digit? c).filter (· < base)

/-- The number that digits write, the highest first. No digits write no number. -/
def value? (base : Nat) (cs : List Char) : Option Nat :=
  if cs.isEmpty then none
  else cs.foldlM (fun n c => (digitOf? base c).map (n * base + ·)) 0

/-- The number that decimal digits write. Other characters are not expected. -/
def value (cs : List Char) : Nat := (value? 10 cs).getD 0

/-- The decimal digits at the front and what follows them. -/
def split (cs : List Char) : List Char × List Char :=
  (cs.takeWhile Char.isDigit, cs.dropWhile Char.isDigit)

/-- How many decimal digits a number takes. -/
def count (n : Nat) : Nat := (Nat.toDigits 10 n).length

end Mqtt.Digits
