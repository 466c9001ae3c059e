/-!
# JSON values

The values of the documents the broker and the client keep between runs. The documents hold texts,
integers, truth values, lists and objects. Two further values can be met in a document written by
somebody else and are kept only to be passed over: a number that is not an integer and a value that
cannot be read as any.

Models the values that `serde_json` writes and reads here.
-/

namespace Mqtt

/-- A JSON value. The members of an object stay in the order of the document, repeated names
included. -/
inductive Json where
  | null
  | bool (b : Bool)
  | int (n : Int)
  /-- A number with a fraction or an exponent, or a negative zero. -/
  | real
  | text (s : String)
  /-- A text in which an escaped surrogate has no partner, an object with such a name in it, or a
  number with a fraction or an exponent beyond double precision. -/
  | unreadable
  | arr (items : List Json)
  | obj (members : List (String × Json))

namespace Json

instance : Inhabited Json := ⟨.null⟩

/-- A natural number as a value. -/
def ofNat (n : Nat) : Json := .int n

/-- An object of the members that are present. -/
def ofMembers (members : List (String × Option Json)) : Json :=
  .obj (members.filterMap fun (name, value) => value.map (name, ·))

/-- An object of members whose names may be unreadable. -/
def ofNamed (members : List (Option String × Json)) : Json :=
  match members.mapM fun (name, value) => name.map (·, value) with
  | some members => .obj members
  | none => .unreadable

/-! ### Reading -/

def bool? : Json → Option Bool
  | .bool b => some b
  | _ => none

def text? : Json → Option String
  | .text s => some s
  | _ => none

/-- A natural number that is at most `max`. -/
def natUpTo? (max : Nat) : Json → Option Nat
  | .int (.ofNat n) => if n ≤ max then some n else none
  | _ => none

def items? : Json → Option (List Json)
  | .arr items => some items
  | _ => none

def members? : Json → Option (List (String × Json))
  | .obj members => some members
  | _ => none

/-- The only member of a name: `none` if there are several, `some none` if there is none. -/
def uniqueMember (name : String) (members : List (String × Json)) : Option (Option Json) :=
  match members.filter (·.1 = name) with
  | [] => some none
  | [(_, value)] => some (some value)
  | _ => none

/-- The fields of a record, in the order of their names. A record is written as an object, in which
other members are passed over and none of these is repeated, or as the list of its first fields. -/
def fields? (names : List String) : Json → Option (List (Option Json))
  | .obj members => names.mapM fun name => uniqueMember name members
  | .arr items =>
    if items.length ≤ names.length then
      some (items.map some ++ List.replicate (names.length - items.length) none)
    else none
  | _ => none

/-- The deepest nesting of lists and objects that is read. -/
def maxNesting : Nat := 127

/-- The least natural number beyond double precision: a half unit above the greatest double. -/
def numberLimit : Nat := (1 <<< 54 - 1) <<< 970

/-- The value nests at most so many lists and objects, and everything in it can be read. -/
def fits : Nat → Json → Bool
  | _, .unreadable => false
  | _, .int n => n.natAbs < numberLimit
  | 0, .arr _ => false
  | 0, .obj _ => false
  | depth + 1, .arr items => items.all (fits depth)
  | depth + 1, .obj members => members.all fun m => fits depth m.2
  | _, _ => true

end Json

end Mqtt
