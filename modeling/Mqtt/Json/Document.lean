import Mqtt.Json.Token

/-!
# JSON documents

A value is written as a row of tokens (`Json.tokens`) and read back by a machine that takes one token
at a time and keeps the lists and objects that are still open (`Reading`). `Json.parse?` and
`Json.render` go between values and texts.

Models `to_string`, `to_string_pretty` and `from_str` of `serde_json`.
-/

namespace Mqtt.Json

/-! ### Writing -/

mutual

/-- Write a value behind the tokens written so far, the last one first. -/
def emit : Json → List Token → List Token
  | .null, written => .null :: written
  | .bool b, written => .bool b :: written
  | .int n, written => .int n :: written
  | .real, written => .real :: written
  | .text s, written => .text s :: written
  | .unreadable, written => .unpaired :: written
  | .arr items, written => .closeList :: emitItems items true (.openList :: written)
  | .obj members, written => .closeObject :: emitMembers members true (.openObject :: written)

/-- Write the items of a list; all but the first follow a comma. -/
def emitItems : List Json → (first : Bool) → List Token → List Token
  | [], _, written => written
  | item :: items, first, written =>
    emitItems items false (emit item (if first then written else .comma :: written))

/-- Write the members of an object; all but the first follow a comma. -/
def emitMembers : List (String × Json) → (first : Bool) → List Token → List Token
  | [], _, written => written
  | (name, value) :: members, first, written =>
    emitMembers members false
      (emit value (.colon :: .text name :: (if first then written else .comma :: written)))

end

/-- The tokens of a value. -/
def tokens (j : Json) : List Token := (emit j []).reverse

/-- The text of a value without blanks. -/
def render (j : Json) : String := Token.render j.tokens

/-- The text of a value on indented lines. -/
def renderIndented (j : Json) : String := Token.renderIndented j.tokens

/-! ### Reading -/

/-- A list or object that is not closed yet, with what it holds so far, the last one first. An
object also has the name of the member whose value is being read. A name that is not well-formed is
missing. -/
inductive Frame where
  | list (items : List Json)
  | object (members : List (Option String × Json)) (name : Option String)

/-- What may come next, inside the open lists and objects, the innermost first. -/
inductive Reading where
  /-- A value. -/
  | value (outer : List Frame)
  /-- A list was opened: its first item or its end. -/
  | items (outer : List Frame)
  /-- An object was opened: its first name or its end. -/
  | members (outer : List Frame)
  /-- The name of a further member. -/
  | name (members : List (Option String × Json)) (outer : List Frame)
  /-- The colon after a name. -/
  | colon (members : List (Option String × Json)) (name : Option String) (outer : List Frame)
  /-- A value is complete. -/
  | complete (value : Json) (outer : List Frame)

namespace Reading

/-- A value begins with this token. -/
def begin (outer : List Frame) : Token → Option Reading
  | .openList => some (items outer)
  | .openObject => some (members outer)
  | .null => some (complete .null outer)
  | .bool b => some (complete (.bool b) outer)
  | .int n => some (complete (.int n) outer)
  | .real => some (complete .real outer)
  | .text s => some (complete (.text s) outer)
  | .unpaired | .unbounded => some (complete .unreadable outer)
  | .closeList | .closeObject | .colon | .comma => none

/-- Take one token. -/
def step : Reading → Token → Option Reading
  | value outer, t => begin outer t
  | items outer, .closeList => some (complete (.arr []) outer)
  | items outer, t => begin (.list [] :: outer) t
  | members outer, .closeObject => some (complete (.obj []) outer)
  | members outer, .text s => some (colon [] (some s) outer)
  | members outer, .unpaired => some (colon [] none outer)
  | members _, _ => none
  | name ms outer, .text s => some (colon ms (some s) outer)
  | name ms outer, .unpaired => some (colon ms none outer)
  | name _ _, _ => none
  | colon ms s outer, .colon => some (value (.object ms s :: outer))
  | colon _ _ _, _ => none
  | complete v (.list vs :: outer), .comma => some (value (.list (v :: vs) :: outer))
  | complete v (.list vs :: outer), .closeList => some (complete (.arr (v :: vs).reverse) outer)
  | complete v (.object ms s :: outer), .comma => some (name ((s, v) :: ms) outer)
  | complete v (.object ms s :: outer), .closeObject =>
    some (complete (ofNamed ((s, v) :: ms).reverse) outer)
  | complete _ _, _ => none

/-- Take a row of tokens. -/
def run : Reading → List Token → Option Reading
  | r, [] => some r
  | r, t :: ts =>
    match r.step t with
    | some r => run r ts
    | none => none

end Reading

/-- The value that a row of tokens writes. -/
def ofTokens? (ts : List Token) : Option Json :=
  match Reading.run (.value []) ts with
  | some (.complete v []) => some v
  | _ => none

/-- The value that a text writes. -/
def parse? (s : String) : Option Json := (Token.scan s).bind ofTokens?

end Mqtt.Json
