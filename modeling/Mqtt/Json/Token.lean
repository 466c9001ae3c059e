import Mqtt.Binary64
import Mqtt.Json

/-!
# JSON text

A JSON document is a row of tokens with blanks between them. `Token.render` writes tokens without
blanks, `Token.renderIndented` on indented lines, and `Token.scan` reads both.
-/

namespace Mqtt.Json

inductive Token where
  | openObject | closeObject | openList | closeList | colon | comma
  | null
  | bool (b : Bool)
  | int (n : Int)
  | real
  | text (s : String)
  /-- A text in which an escaped surrogate has no partner. -/
  | unpaired
  /-- A number with a fraction or an exponent, beyond double precision. -/
  | unbounded
  deriving DecidableEq, Inhabited

namespace Token

/-! ### Writing -/

/-- A character inside a quoted text. Quotes, backslashes and control characters are escaped. -/
def escape (c : Char) : List Char :=
  if c = '"' then ['\\', '"']
  else if c = '\\' then ['\\', '\\']
  else if c = '\n' then ['\\', 'n']
  else if c = '\r' then ['\\', 'r']
  else if c = '\t' then ['\\', 't']
  else if c.toNat = 8 then ['\\', 'b']
  else if c.toNat = 12 then ['\\', 'f']
  else if c.toNat < 32 then
    ['\\', 'u', '0', '0', Nat.digitChar (c.toNat / 16), Nat.digitChar (c.toNat % 16)]
  else [c]

/-- The characters of a token. The tokens that are never written have a stand-in. -/
def chars : Token → List Char
  | openObject => ['\x7b']
  | closeObject => ['\x7d']
  | openList => ['[']
  | closeList => [']']
  | colon => [':']
  | comma => [',']
  | null => ['n', 'u', 'l', 'l']
  | bool true => ['t', 'r', 'u', 'e']
  | bool false => ['f', 'a', 'l', 's', 'e']
  | int n => (toString n).toList
  | real => ['-', '0']
  | text s => '"' :: (s.toList.flatMap escape ++ ['"'])
  | unpaired => ['"', '\\', 'u', 'd', '8', '0', '0', '"']
  | unbounded => ['1', 'e', '3', '0', '9']

/-- The tokens one after the other. -/
def render (tokens : List Token) : String := String.ofList (tokens.flatMap chars)

/-- A line break and the blanks of a level of indentation. -/
def lineBreak (depth : Nat) : List Char := '\n' :: List.replicate (2 * depth) ' '

/-- What stands between two tokens at a nesting depth: nothing inside an empty list or object, a
line break after an opening or a comma and before a closing, a blank after a colon. -/
def gap (depth : Nat) : Token → Token → List Char
  | openObject, closeObject | openList, closeList => []
  | openObject, _ | openList, _ | comma, _ => lineBreak depth
  | _, closeObject | _, closeList => lineBreak (depth - 1)
  | colon, _ => [' ']
  | _, _ => []

/-- The nesting depth after a token. -/
def depthAfter (depth : Nat) : Token → Nat
  | openObject | openList => depth + 1
  | closeObject | closeList => depth - 1
  | _ => depth

/-- Write a token after `previous`; `written` holds the pieces so far, the last one first. -/
def indentStep : Nat × Option Token × List (List Char) → Token → Nat × Option Token × List (List Char)
  | (depth, previous, written), t =>
    let blank := match previous with
      | some p => gap depth p t
      | none => []
    (depthAfter depth t, some t, (blank ++ t.chars) :: written)

/-- The tokens on lines of their own, two blanks for each level. -/
def renderIndented (tokens : List Token) : String :=
  String.ofList (tokens.foldl indentStep (0, none, [])).2.2.reverse.flatten

/-! ### Reading -/

/-- A quoted text that is being read: its characters, the last one first, an escaped high surrogate
that waits for its partner, and whether all is well so far. -/
structure Quoted where
  chars : List Char
  high : Option Nat
  ok : Bool

namespace Quoted

def start : Quoted := ⟨[], none, true⟩

/-- A character, plain or escaped by name. -/
def push (q : Quoted) (c : Char) : Quoted := ⟨c :: q.chars, none, q.ok && q.high.isNone⟩

/-- A unit escaped by number. A high surrogate and the low one after it are one character. -/
def pushUnit (q : Quoted) (u : Nat) : Quoted :=
  match q.high with
  | some high =>
    if 0xDC00 ≤ u && u ≤ 0xDFFF then
      ⟨Char.ofNat (0x10000 + (high - 0xD800) * 0x400 + (u - 0xDC00)) :: q.chars, none, q.ok⟩
    else ⟨q.chars, none, false⟩
  | none =>
    if 0xD800 ≤ u && u ≤ 0xDBFF then { q with high := some u }
    else if 0xDC00 ≤ u && u ≤ 0xDFFF then { q with ok := false }
    else q.push (Char.ofNat u)

/-- The token at the closing quote. -/
def token (q : Quoted) : Token :=
  if q.ok && q.high.isNone then .text (String.ofList q.chars.reverse) else .unpaired

end Quoted

/-- The number written by four hexadecimal digits. -/
def hex4? (a b c d : Char) : Option Nat := Digits.value? 16 [a, b, c, d]

/-- The character named by a letter after a backslash. -/
def named? (c : Char) : Option Char :=
  if c = '"' || c = '\\' || c = '/' then some c
  else if c = 'n' then some '\n'
  else if c = 'r' then some '\r'
  else if c = 't' then some '\t'
  else if c = 'b' then some (Char.ofNat 8)
  else if c = 'f' then some (Char.ofNat 12)
  else none

/-- Read a quoted text after its opening quote. Control characters must be escaped. -/
def scanText : Quoted → List Char → Option (Token × List Char)
  | _, [] => none
  | q, '"' :: cs => some (q.token, cs)
  | q, '\\' :: 'u' :: a :: b :: c :: d :: cs =>
    match hex4? a b c d with
    | some u => scanText (q.pushUnit u) cs
    | none => none
  | q, '\\' :: c :: cs =>
    match named? c with
    | some c => scanText (q.push c) cs
    | none => none
  | q, c :: cs => if c.toNat < 32 || c = '\\' then none else scanText (q.push c) cs

/-- Read a fraction, if one begins here: its digits, and what follows. -/
def scanFraction : List Char → Option (List Char × List Char)
  | '.' :: cs =>
    let (ds, rest) := Digits.split cs
    if ds.isEmpty then none else some (ds, rest)
  | cs => some ([], cs)

/-- Read an exponent, if one begins here, and what follows. -/
def scanExponent : List Char → Option (Option Int × List Char)
  | c :: cs =>
    if c = 'e' || c = 'E' then
      let (negative, cs) := Binary64.takeSign cs
      let (ds, rest) := Digits.split cs
      let n := Digits.value ds
      if ds.isEmpty then none else some (some (if negative then -n else n), rest)
    else some (none, c :: cs)
  | [] => some (none, [])

/-- Read a number after its sign. A number of several digits does not begin with 0. -/
def scanNumber (negative : Bool) (cs : List Char) : Option (Token × List Char) := do
  let (ds, rest) := Digits.split cs
  if ds.isEmpty || (ds.head? = some '0' && ds.length > 1) then none
  let (fraction, rest) ← scanFraction rest
  let (exponent, rest) ← scanExponent rest
  let n := Digits.value ds
  if fraction.isEmpty && exponent.isNone && !(negative && n = 0) then
    return (.int (if negative then -n else n), rest)
  let x := Binary64.ofDecimal negative (Digits.value (ds ++ fraction))
    (exponent.getD 0 - fraction.length)
  return (if x = .infinite negative then .unbounded else .real, rest)

/-- The four blanks of JSON. -/
def isBlank (c : Char) : Bool := c = ' ' || c = '\n' || c = '\t' || c = '\r'

/-- Read the token at the front, which is not a blank. -/
def scanOne : List Char → Option (Token × List Char)
  | '\x7b' :: cs => some (openObject, cs)
  | '\x7d' :: cs => some (closeObject, cs)
  | '[' :: cs => some (openList, cs)
  | ']' :: cs => some (closeList, cs)
  | ':' :: cs => some (colon, cs)
  | ',' :: cs => some (comma, cs)
  | 'n' :: 'u' :: 'l' :: 'l' :: cs => some (null, cs)
  | 't' :: 'r' :: 'u' :: 'e' :: cs => some (bool true, cs)
  | 'f' :: 'a' :: 'l' :: 's' :: 'e' :: cs => some (bool false, cs)
  | '"' :: cs => scanText .start cs
  | '-' :: cs => scanNumber true cs
  | cs => scanNumber false cs

/-- Read tokens to the end of the text; `read` holds those so far, the last one first. A token
takes at least one character, so `fuel` need not exceed the length. -/
def scanAll : (fuel : Nat) → (read : List Token) → List Char → Option (List Token)
  | _, read, [] => some read.reverse
  | 0, _, _ :: _ => none
  | fuel + 1, read, c :: cs =>
    if isBlank c then scanAll fuel read cs
    else match scanOne (c :: cs) with
      | some (t, rest) => scanAll fuel (t :: read) rest
      | none => none

/-- The tokens of a text. -/
def scan (s : String) : Option (List Token) := scanAll s.toList.length [] s.toList

end Token

end Mqtt.Json
