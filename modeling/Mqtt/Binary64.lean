import Mqtt.Digits

/-!
# Double precision numbers

A number written in decimal is rounded to 53 significant binary digits. It is written again with
the fewest decimal digits that are read as the same number, and of several such with the nearest.
-/

namespace Mqtt

/-- The number `± m · 2 ^ q`, an infinity, or no number at all. -/
inductive Binary64 where
  | finite (negative : Bool) (m : Nat) (q : Int)
  | infinite (negative : Bool)
  | nan
  deriving DecidableEq, Inhabited

namespace Binary64

/-! ### Quotients

A quotient is given by its numerator and its denominator, which is not 0. -/

/-- A quotient times a power of a base. -/
def scale (base num den : Nat) : Int → Nat × Nat
  | .ofNat k => (num * base.pow k, den)
  | .negSucc k => (num, den * base.pow (k + 1))

/-- The nearest integer; a half goes to the even neighbour. -/
def roundEven (num den : Nat) : Nat :=
  let n := num / den
  let r := num % den
  if 2 * r < den || (2 * r = den && n % 2 = 0) then n else n + 1

/-- The nearest integer; a half goes up. -/
def roundUp (num den : Nat) : Nat := (2 * num + den) / (2 * den)

/-- The exponent of the greatest power of two that a positive quotient reaches. -/
def binaryExponent (num den : Nat) : Int :=
  let e : Int := num.log2 - den.log2
  let (n, d) := scale 2 num den (-e)
  if n < d then e - 1 else e

/-- The exponent of the least power of ten above a positive quotient. -/
def decimalExponent (num den : Nat) : Int :=
  if num < den then 1 - Digits.count ((den - 1) / num) else Digits.count (num / den)

/-! ### Reading -/

/-- The double nearest to a quotient. -/
def ofQuotient (negative : Bool) (num den : Nat) : Binary64 :=
  if num = 0 then finite negative 0 0
  else
    let q := max (binaryExponent num den - 52) (-1074)
    let (n, d) := scale 2 num den (-q)
    let m := roundEven n d
    let (m, q) := if m = 1 <<< 53 then (1 <<< 52, q + 1) else (m, q)
    if q > 971 then infinite negative else finite negative m q

/-- The double nearest to `digits · 10 ^ exponent`. No power of ten is taken when the result is an
infinity or zero anyway. -/
def ofDecimal (negative : Bool) (digits : Nat) (exponent : Int) : Binary64 :=
  let size := exponent + Digits.count digits
  if digits = 0 || size < -330 then finite negative 0 0
  else if size > 330 then infinite negative
  else
    let (num, den) := scale 10 digits 1 exponent
    ofQuotient negative num den

/-- Take a sign off the front: whether it was a minus, and the rest. -/
def takeSign : List Char → Bool × List Char
  | '-' :: cs => (true, cs)
  | '+' :: cs => (false, cs)
  | cs => (false, cs)

/-- The exponent that the end of a number writes, which may be missing. -/
def exponent? : List Char → Option Int
  | [] => some 0
  | c :: cs =>
    if c = 'e' || c = 'E' then
      let (negative, ds) := takeSign cs
      (Digits.value? 10 ds).map fun n => if negative then -(n : Int) else n
    else none

/-- Read an unsigned number: digits, at most one point among them, and possibly an exponent. -/
def unsigned? (negative : Bool) (cs : List Char) : Option Binary64 := do
  let (whole, rest) := Digits.split cs
  let (fraction, rest) := match rest with
    | '.' :: rest => Digits.split rest
    | rest => ([], rest)
  let digits ← Digits.value? 10 (whole ++ fraction)
  return ofDecimal negative digits ((← exponent? rest) - fraction.length)

/-- Read a number, or the name of one that is not finite. -/
def parse? (s : String) : Option Binary64 :=
  let (negative, cs) := takeSign s.toList
  match (String.ofList cs).toLower with
  | "inf" | "infinity" => some (infinite negative)
  | "nan" => some nan
  | _ => unsigned? negative cs

/-! ### Writing -/

/-- A decimal of at most `n` digits. Rounding up can give one digit more, which is a 1 before zeros. -/
def normalize (n digits : Nat) (e : Int) : Nat × Int :=
  if digits = Nat.pow 10 n then (1, e + n) else (digits, e)

/-- The decimals of so many digits next to a quotient, the nearer one first; of two that are equally
near, the greater one. -/
def neighbours (num den n : Nat) : List (Nat × Int) :=
  let e := decimalExponent num den - n
  let (num, den) := scale 10 num den (-e)
  let near := roundUp num den
  let far := if near = num / den then near + 1 else near - 1
  [normalize n near e, normalize n far e]

/-- The digits and the exponent of the shortest decimal that is read as `m · 2 ^ q`. -/
def shortest (m : Nat) (q : Int) : Nat × Int :=
  let (num, den) := scale 2 m 1 q
  let candidates := (List.range 17).flatMap fun n => neighbours num den (n + 1)
  match candidates.find? fun (digits, e) => ofDecimal false digits e = finite false m q with
  | some found => found
  | none => (0, 0)

/-- The digits of `digits · 10 ^ exponent`, with a point if there is a fraction. -/
def positional (digits : Nat) : (exponent : Int) → List Char
  | .ofNat e => Nat.toDigits 10 digits ++ List.replicate (if digits = 0 then 0 else e) '0'
  | .negSucc e =>
    let ds := Nat.toDigits 10 digits
    let ds := List.replicate (e + 2 - ds.length) '0' ++ ds
    ds.take (ds.length - (e + 1)) ++ '.' :: ds.drop (ds.length - (e + 1))

/-- The text of a number, never with an exponent. -/
def toText : Binary64 → String
  | nan => "NaN"
  | infinite negative => if negative then "-inf" else "inf"
  | finite negative m q =>
    let (digits, e) := if m = 0 then (0, 0) else shortest m q
    String.ofList ((if negative then ['-'] else []) ++ positional digits e)

/-! ### Integers -/

/-- The number is zero. -/
def isZero : Binary64 → Bool
  | finite _ m _ => m = 0
  | _ => false

/-- The nearest natural number up to `max`; a half goes up. -/
def clamp (max : Nat) : Binary64 → Nat
  | nan | infinite true | finite true _ _ => 0
  | infinite false => max
  | finite false m q =>
    let (num, den) := scale 2 m 1 q
    min max (roundUp num den)

end Binary64

end Mqtt
