import Mqtt.Settings.Document

/-!
# Places in a document

The name of a member of a source of settings can be the place of a part deep in the document that the
source is laid over: names with dots between them, each with indices in brackets behind it.
-/

namespace Mqtt.Settings

/-- A character in a name of a place. -/
def Step.isNameChar (c : Char) : Bool := c.isAlphanum || c = ' ' || c = '_' || c = '-'

def Step.isBlank (c : Char) : Bool := c = ' ' || c = '\t'

/-- An index, read behind its opening bracket: an integer of 64 bits with blanks around it. -/
def Step.index? (s : String) : Option Step := do
  let cs := s.toList.dropWhile isBlank
  let (negative, cs) := match cs with
    | '-' :: cs => (true, cs)
    | cs => (false, cs)
  let (ds, rest) := Digits.split cs
  if rest.dropWhile isBlank ≠ [']'] then none
  let n ← Digits.value? 10 ds
  return .index (← Value.int64? (if negative then -(n : Int) else n))

namespace Place

/-- A name and the indices behind it. -/
def steps? (s : String) : Option (List Step) :=
  match s.splitOn "[" with
  | name :: indices => do
    if name = "" || !name.toList.all Step.isNameChar then none
    return .name name :: (← indices.mapM Step.index?)
  | [] => none

/-- The place that a text writes. Any text that writes none is a name itself. -/
def ofName (s : String) : List Step :=
  match (s.splitOn ".").mapM steps? with
  | some steps => steps.flatten
  | none => [.name s]

end Place

/-- Put the members of a source at their places. -/
def Document.lay (d source : Document) : Document :=
  match source with
  | .group members => members.foldl (fun d (name, new) => put new (Place.ofName name) d) d
  | _ => d

end Mqtt.Settings
