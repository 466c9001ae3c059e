import Mqtt.Settings.Value

/-!
# Settings documents

A document is a tree of values, of lists and of groups with named members. A document can be put at a
place in another one: then groups are merged member by member, and anything else takes the place of
what was there. Merging does not tell letters of different case apart in names.
-/

namespace Mqtt.Settings

inductive Document where
  /-- A place in a list where nothing was put. -/
  | nothing
  | value (v : Value)
  | list (items : List Document)
  | group (members : List (String × Document))

/-- A step from a document to a part of it. -/
inductive Step where
  | name (s : String)
  /-- The position of an item, from the end of the list if it is negative. -/
  | index (i : Int)
  deriving DecidableEq

/-- The character that stands for both cases of a letter. Of the letters that are not ASCII, the
Kelvin sign alone has an ASCII letter as its lower case; two others are the same only if they are
equal. -/
def foldCase (c : Char) : Char := if c = '\u212a' then 'k' else c.toLower

/-- A name in the case in which names are compared. -/
def foldName (s : String) : String := String.ofList (s.toList.map foldCase)

namespace Document

instance : Inhabited Document := ⟨.nothing⟩

/-- A group without members. -/
def empty : Document := .group []

/-! ### Parts -/

def value? : Document → Option Value
  | value v => some v
  | _ => none

/-- The member of a name. -/
def member? (name : String) : Document → Option Document
  | group members => members.lookup name
  | _ => none

/-- The fields of a record: the members of their names, or as many items of a list as there are.
What is left over is passed over. -/
def fields? (names : List String) : Document → Option (List (Option Document))
  | group members => some (names.map fun name => members.lookup name)
  | list items => some ((List.range names.length).map fun i => items[i]?)
  | _ => none

/-! ### Changing a part -/

/-- Change the member of a name among members; one that is missing comes last. -/
def alterMember (name : String) (f : Document → Document) :
    List (String × Document) → List (String × Document)
  | [] => [(name, f nothing)]
  | (n, d) :: members => if n = name then (n, f d) :: members else (n, d) :: alterMember name f members

/-- Change the member of a name. What is no group gives way to an empty one. -/
def onMember (name : String) (f : Document → Document) : Document → Document
  | group members => group (alterMember name f members)
  | _ => group [(name, f nothing)]

/-- The position in a list of some length that an index stands for. It may lie behind the end, but
not before the beginning. -/
def position? (length : Nat) : Int → Option Nat
  | .ofNat i => some i
  | .negSucc i => if i < length then some (length - (i + 1)) else none

def items : Document → List Document
  | list items => items
  | _ => []

/-- Change the item at an index. What is no list gives way to an empty one, and a list that is too
short is filled up. -/
def onItem (index : Int) (f : Document → Document) (d : Document) : Document :=
  match position? d.items.length index with
  | some i => list ((d.items ++ List.replicate (i + 1 - d.items.length) nothing).modify i f)
  | none => list d.items

/-- Have something at a path of names, unless there is something already. -/
def begin (new : Document) : List String → Document → Document
  | [], nothing => new
  | [], d => d
  | name :: path, d => d.onMember name (begin new path)

/-! ### Putting documents together -/

mutual

/-- Lay a document over another one. The members of a group are laid over those of the other; an
empty group leaves any document as it is. -/
def overlay : (new : Document) → (old : Document) → Document
  | group members, nothing => overlayMembers members empty
  | group members, old => overlayMembers members old
  | new, _ => new

/-- Lay members over a document, one after the other. -/
def overlayMembers : List (String × Document) → Document → Document
  | [], d => d
  | (name, new) :: members, d => overlayMembers members (d.onMember (foldName name) (overlay new))

end

/-- Put a document at a place: as a member over what is there, as an item instead of it. -/
def put (new : Document) : List Step → Document → Document
  | [], d => overlay new d
  | .name s :: steps, d => d.onMember (foldName s) (put new steps)
  | .index i :: [], d => d.onItem i fun _ => new
  | .index i :: steps, d => d.onItem i (put new steps)

end Document

end Mqtt.Settings
