import Mqtt.Digits

/-!
# Socket addresses

The address a broker listens at: an IP address of either version and the number of the service there.
A version 6 address is written in brackets, with `::` for a run of zeros, and may end in the form of
a version 4 address.
-/

namespace Mqtt

inductive SocketAddress where
  | v4 (a b c d : UInt8) (service : UInt16)
  /-- Eight groups; a zone of 0 is none. -/
  | v6 (groups : List UInt16) (zone : UInt32) (service : UInt16)
  deriving DecidableEq, Inhabited

namespace SocketAddress

/-! ### Reading -/

/-- A decimal number up to `max`; it may begin with zeros. -/
def natUpTo? (max : Nat) (s : String) : Option Nat := (Digits.value? 10 s.toList).filter (· ≤ max)

/-- The number of a service. -/
def service? (s : String) : Option UInt16 := (natUpTo? 65535 s).map UInt16.ofNat

/-- A byte of a version 4 address: at most three digits, and no zero before others. -/
def octet? (s : String) : Option UInt8 :=
  if s.length > 3 || (s.length > 1 && s.toList.head? = some '0') then none
  else (natUpTo? 255 s).map UInt8.ofNat

/-- A version 4 address. -/
def octets? (s : String) : Option (UInt8 × UInt8 × UInt8 × UInt8) := do
  let [a, b, c, d] := s.splitOn "." | none
  return (← octet? a, ← octet? b, ← octet? c, ← octet? d)

/-- A group of a version 6 address: one to four hexadecimal digits. -/
def group? (s : String) : Option UInt16 :=
  if s.length > 4 then none else (Digits.value? 16 s.toList).map UInt16.ofNat

/-- Two bytes as a group. -/
def groupOf (high low : UInt8) : UInt16 := high.toUInt16 * 256 + low.toUInt16

/-- Groups, the last two of which may be written as a version 4 address if `mixed`. -/
def groups? (mixed : Bool) : List String → Option (List UInt16)
  | [] => some []
  | [s] =>
    match group? s with
    | some g => some [g]
    | none =>
      if mixed then (octets? s).map fun (a, b, c, d) => [groupOf a b, groupOf c d] else none
  | s :: ss => do return (← group? s) :: (← groups? mixed ss)

/-- The groups on one side of `::`, which may be empty. -/
def sideGroups? (mixed : Bool) (s : String) : Option (List UInt16) :=
  if s = "" then some [] else groups? mixed (s.splitOn ":")

/-- The eight groups of a version 6 address; `::` stands for at least one of them. -/
def allGroups? (s : String) : Option (List UInt16) :=
  match s.splitOn "::" with
  | [s] => (groups? true (s.splitOn ":")).filter (·.length = 8)
  | [front, back] => do
    let front ← sideGroups? false front
    let back ← sideGroups? true back
    if front.length + back.length < 8 then
      some (front ++ List.replicate (8 - front.length - back.length) 0 ++ back)
    else none
  | _ => none

/-- What stands in the brackets: an address and possibly `%` and a zone. -/
def v6? (s : String) (service : UInt16) : Option SocketAddress :=
  match s.splitOn "%" with
  | [s] => (allGroups? s).map (v6 · 0 service)
  | [s, zone] => do
    return v6 (← allGroups? s) (UInt32.ofNat (← natUpTo? 4294967295 zone)) service
  | _ => none

def parse? (s : String) : Option SocketAddress :=
  match s.toList with
  | '[' :: cs =>
    match (String.ofList cs).splitOn "]:" with
    | [address, service] => do v6? address (← service? service)
    | _ => none
  | _ =>
    match s.splitOn ":" with
    | [address, service] => do
      let (a, b, c, d) ← octets? address
      return v4 a b c d (← service? service)
    | _ => none

/-! ### Writing -/

/-- A number in lower-case hexadecimal digits. -/
def hex (g : UInt16) : String := String.ofList (Nat.toDigits 16 g.toNat)

def v4Text (a b c d : UInt8) : String := ".".intercalate ([a, b, c, d].map fun x => toString x.toNat)

/-- The longest run of zeros, the first of several: where it begins and how long it is. -/
def longestZeros (groups : List UInt16) : Nat × Nat :=
  (List.range groups.length).foldl
    (fun best i =>
      let n := ((groups.drop i).takeWhile (· = 0)).length
      if n > best.2 then (i, n) else best)
    (0, 0)

def groupsText (groups : List UInt16) : String := ":".intercalate (groups.map hex)

/-- A version 6 address: a version 4 address in disguise shows its form, a run of two zeros or more
is left out. -/
def v6Text : List UInt16 → String
  | [0, 0, 0, 0, 0, 0xffff, g, h] =>
    "::ffff:" ++ v4Text (g / 256).toUInt8 g.toUInt8 (h / 256).toUInt8 h.toUInt8
  | groups =>
    let (start, n) := longestZeros groups
    if n < 2 then groupsText groups
    else groupsText (groups.take start) ++ "::" ++ groupsText (groups.drop (start + n))

def toText : SocketAddress → String
  | v4 a b c d service => v4Text a b c d ++ ":" ++ toString service.toNat
  | v6 groups zone service =>
    let zone := if zone = 0 then "" else "%" ++ toString zone.toNat
    "[" ++ v6Text groups ++ zone ++ "]:" ++ toString service.toNat

end SocketAddress

end Mqtt
