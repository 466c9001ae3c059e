import Mqtt.Settings.Document

/-!
# Reading settings out of documents

A file that is read on its own must write each setting as what it is. Where files and the environment
are put together, a value may also stand for one of another kind.
-/

namespace Mqtt.Settings

/-- How parts of a document are read as what the settings are. -/
structure Reading where
  /-- A natural number that fits into 64 bits. -/
  nat? : Value → Option Nat
  bool? : Value → Option Bool
  text? : Value → Option String
  /-- The name of a choice: a text, or the only member of a group. -/
  choice? : Document → Option String

namespace Reading

/-- Every value stands for itself only. A choice that is made by a group has nothing in it. -/
def exact : Reading where
  nat?
    | .int (.ofNat n) => some n
    | _ => none
  bool?
    | .bool b => some b
    | _ => none
  text?
    | .text s => some s
    | _ => none
  choice?
    | .value (.text s) => some s
    | .group [(name, .group [])] => some name
    | _ => none

/-- Words and numbers stand for truth values and the other way round, fractions for the nearest
natural number, and everything for its text. Choices may be named in any case. -/
def lenient : Reading where
  nat?
    | .int (.ofNat n) => some n
    | .int (.negSucc _) => none
    | .bool b => some b.toNat
    | .real x => some (x.clamp Value.maxNat)
    | .text s =>
      match s.toLower with
      | "true" | "on" | "yes" => some 1
      | "false" | "off" | "no" => some 0
      | _ =>
        let digits := match s.toList with
          | '+' :: cs => cs
          | cs => cs
        (Digits.value? 10 digits).filter (· ≤ Value.maxNat)
  bool?
    | .bool b => some b
    | .int n => some (n ≠ 0)
    | .real x => some !x.isZero
    | .text s =>
      match s.toLower with
      | "1" | "true" | "on" | "yes" => some true
      | "0" | "false" | "off" | "no" => some false
      | _ => none
  text?
    | .text s => some s
    | .bool b => some (if b then "true" else "false")
    | .int n => some (toString n)
    | .real x => some x.toText
  choice?
    | .value (.text s) => some (foldName s)
    | .group [(name, _)] => some (foldName name)
    | _ => none

end Reading

end Mqtt.Settings
