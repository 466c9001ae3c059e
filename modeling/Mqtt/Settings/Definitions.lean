import Mqtt.Settings.Document

/-!
# Definitions in a settings file

A settings file begins sections and gives values to names, and defines nothing twice. A path that has
a value has nothing below it. A section is begun by a heading, by the dotted name of a value, or, at
first without being defined itself, by the heading of a section in it.
-/

namespace Mqtt.Settings

/-- What a path is defined as. -/
inductive Item where
  | value (v : Value)
  /-- A section with a heading of its own. -/
  | headed
  /-- A section that only the dotted name of a value mentions. -/
  | implied
  deriving DecidableEq

abbrev Path := List String

/-- Definitions in the order in which they were made. -/
abbrev Definitions := List (Path × Item)

def Item.document : Item → Document
  | value v => .value v
  | headed | implied => .empty

namespace Definitions

/-- Something is defined at a path or below it. -/
def hasBelow (ds : Definitions) (path : Path) : Bool := ds.any fun (p, _) => path.isPrefixOf p

/-- A value stands at the path or above it. -/
def isBlocked (ds : Definitions) (path : Path) : Bool :=
  ds.any fun
    | (p, .value _) => p.isPrefixOf path
    | _ => false

/-- Begin a section. -/
def addHeading (ds : Definitions) (path : Path) : Option Definitions :=
  if (ds.lookup path).isSome || ds.isBlocked path then none else some (ds ++ [(path, .headed)])

/-- Go down from a section through those that a dotted name mentions. One with a heading is not
entered. One that is only mentioned in headings of sections below it is passed, but the last one must
be mentioned by dotted names; `welcome` tells whether that holds of the section reached so far. -/
def enter (ds : Definitions) (path : Path) (welcome : Bool) : List String → Option Definitions
  | [] => if welcome then some ds else none
  | name :: names =>
    let path := path ++ [name]
    match ds.lookup path with
    | some .headed | some (.value _) => none
    | some .implied => ds.enter path true names
    | none =>
      if ds.hasBelow path then ds.enter path false names
      else enter (ds ++ [(path, .implied)]) path true names

/-- Give a value to a dotted name in a section. -/
def addValue (ds : Definitions) (path : Path) (names : List String) (v : Value) :
    Option Definitions := do
  let ds ← ds.enter path true names.dropLast
  if ds.hasBelow (path ++ names) then none
  return ds ++ [(path ++ names, .value v)]

/-- The document that is defined. -/
def document (ds : Definitions) : Document :=
  ds.foldl (fun d (path, item) => Document.begin item.document path d) .empty

end Definitions

end Mqtt.Settings
