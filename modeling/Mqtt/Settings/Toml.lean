import Mqtt.Settings.Definitions

/-!
# Settings files

A file is read line by line: a heading in brackets begins a section, `name = value` gives a value,
and the rest of a line after `#` is a comment. Values are truth values, numbers and quoted texts; a
text between three quotes may go on over several lines.
-/

namespace Mqtt.Settings.Toml

inductive Token where
  | opening | closing | dot | equals | lineEnd
  /-- Characters without quotes. -/
  | bare (s : String)
  | quoted (s : String)
  /-- A text between three quotes. -/
  | lines (s : String)
  deriving DecidableEq

/-! ### Tokens -/

/-- How a text is quoted: between double quotes, where a backslash escapes, or between single ones;
by one of them, in a line, or by three, over any number of lines. -/
structure Quoting where
  isDouble : Bool
  isTriple : Bool

namespace Quoting

def mark (q : Quoting) : Char := if q.isDouble then '"' else '\''

/-- The token of a text whose characters are held in reverse. -/
def token (q : Quoting) (cs : List Char) : Token :=
  let s := String.ofList cs.reverse
  if q.isTriple then .lines s else .quoted s

end Quoting

/-- Where the reading of a text is; characters read are held the last one first. -/
inductive Mode where
  | blank
  | comment
  /-- In a bare word. One that is a value may have dots in it. -/
  | bare (isValue : Bool) (cs : List Char)
  /-- Behind an opening quote. -/
  | opened (q : Quoting)
  /-- Behind two quotes, which are an empty text unless a third one follows. -/
  | empty (q : Quoting)
  /-- In a text, behind so many quotes that may be part of it or close it. -/
  | text (q : Quoting) (cs : List Char) (quotes : Nat)
  | escape (q : Quoting) (cs : List Char)
  /-- In a character escaped by number, of which so many digits are missing. -/
  | number (q : Quoting) (cs : List Char) (missing n : Nat)
  /-- In blanks that are left out behind a backslash, before the end of its line or after it. -/
  | fold (q : Quoting) (cs : List Char) (isAfter : Bool)

/-- The tokens so far, the last one first, and what is being read. -/
abbrev Scan := List Token × Mode

/-- A character that is a token by itself. -/
def mark? (c : Char) : Option Token :=
  if c = '[' then some .opening
  else if c = ']' then some .closing
  else if c = '.' then some .dot
  else if c = '=' then some .equals
  else if c = '\n' then some .lineEnd
  else none

def isBlank (c : Char) : Bool := c = ' ' || c = '\t'

/-- The character named by a letter after a backslash. -/
def named? (c : Char) : Option Char :=
  if c = '"' || c = '\\' then some c
  else if c = 'n' then some '\n'
  else if c = 'r' then some '\r'
  else if c = 't' then some '\t'
  else if c = 'b' then some (Char.ofNat 8)
  else if c = 'f' then some (Char.ofNat 12)
  else none

/-- A character outside quotes, of no bare word that has begun. -/
def stepPlain (tokens : List Token) (c : Char) : Scan :=
  if isBlank c then (tokens, .blank)
  else if c = '#' then (tokens, .comment)
  else if c = '"' then (tokens, .opened ⟨true, false⟩)
  else if c = '\'' then (tokens, .opened ⟨false, false⟩)
  else match mark? c with
    | some t => (t :: tokens, .blank)
    | none => (tokens, .bare (tokens.head? = some .equals) [c])

/-- A character outside quotes that does not go on with a bare word. -/
def endsBare (isValue : Bool) (c : Char) : Bool :=
  if c = '.' then !isValue
  else isBlank c || c = '#' || c = '"' || c = '\'' || (mark? c).isSome

/-- A character of a text that is no quote. -/
def stepText (q : Quoting) (cs : List Char) (c : Char) : Option Mode :=
  if c = '\n' && !q.isTriple then none
  else if c = '\\' && q.isDouble then some (.escape q cs)
  else some (.text q (c :: cs) 0)

/-- A quote or another character in a text. Of the quotes at the end of a text the last three close
it, and at most two before them are part of it. -/
def stepQuoted (tokens : List Token) (q : Quoting) (cs : List Char) (quotes : Nat) (c : Char) :
    Option Scan :=
  if !q.isTriple then
    if c = q.mark then some (q.token cs :: tokens, .blank)
    else (stepText q cs c).map (tokens, ·)
  else if c = q.mark then
    if quotes < 4 then some (tokens, .text q cs (quotes + 1))
    else some (q.token (q.mark :: q.mark :: cs) :: tokens, .blank)
  else if quotes < 3 then
    (stepText q (List.replicate quotes q.mark ++ cs) c).map (tokens, ·)
  else some (stepPlain (q.token (List.replicate (quotes - 3) q.mark ++ cs) :: tokens) c)

/-- Read a character. The end of a line and a tab are the only control characters there may be. -/
def step : Scan → Char → Option Scan
  | (tokens, mode), c =>
    if (c.toNat < 32 && c ≠ '\t' && c ≠ '\n') || c.toNat = 127 then none
    else match mode with
      | .blank => some (stepPlain tokens c)
      | .comment => some (if c = '\n' then (.lineEnd :: tokens, .blank) else (tokens, .comment))
      | .bare isValue cs =>
        if endsBare isValue c then some (stepPlain (.bare (String.ofList cs.reverse) :: tokens) c)
        else some (tokens, .bare isValue (c :: cs))
      | .opened q =>
        if c = q.mark && !q.isTriple then some (tokens, .empty q)
        else if c = '\n' && q.isTriple then some (tokens, .text q [] 0)
        else stepQuoted tokens q [] 0 c
      | .empty q =>
        if c = q.mark then some (tokens, .opened { q with isTriple := true })
        else some (stepPlain (q.token [] :: tokens) c)
      | .text q cs quotes => stepQuoted tokens q cs quotes c
      | .escape q cs =>
        if c = 'u' then some (tokens, .number q cs 4 0)
        else if c = 'U' then some (tokens, .number q cs 8 0)
        else if q.isTriple && (isBlank c || c = '\n') then some (tokens, .fold q cs (c = '\n'))
        else (named? c).map fun c => (tokens, .text q (c :: cs) 0)
      | .number q cs missing n => do
        let n := n * 16 + (← Digits.digit? c)
        if missing > 1 then return (tokens, .number q cs (missing - 1) n)
        else if n.isValidChar then return (tokens, .text q (Char.ofNat n :: cs) 0)
        else none
      | .fold q cs isAfter =>
        if isBlank c || c = '\n' then some (tokens, .fold q cs (isAfter || c = '\n'))
        else if isAfter then stepQuoted tokens q cs 0 c
        else none

/-- The tokens at the end of the text. -/
def finish : Scan → Option (List Token)
  | (tokens, .blank) | (tokens, .comment) => some tokens.reverse
  | (tokens, .bare _ cs) => some (Token.bare (String.ofList cs.reverse) :: tokens).reverse
  | (tokens, .empty q) => some (q.token [] :: tokens).reverse
  | (tokens, .text q cs quotes) =>
    if quotes < 3 then none
    else some (q.token (List.replicate (quotes - 3) q.mark ++ cs) :: tokens).reverse
  | _ => none

/-- The tokens of a text. A mark of the byte order at its beginning is passed over. -/
def scan (s : String) : Option (List Token) :=
  let cs := match (s.replace "\r\n" "\n").toList with
    | '\ufeff' :: cs => cs
    | cs => cs
  (cs.foldlM step ([], Mode.blank)).bind finish

/-! ### Numbers -/

/-- The number that digits write with single underscores between them. -/
def natural? (base : Nat) (cs : List Char) : Option Nat :=
  let groups := (String.ofList cs).splitOn "_"
  if groups.all (· ≠ "") then Digits.value? base (cs.filter (· ≠ '_')) else none

/-- A decimal number without needless zeros. -/
def decimal? (cs : List Char) : Option Nat :=
  if cs.head? = some '0' && cs.length > 1 then none else natural? 10 cs

/-- An integer: decimal with a sign or without, or in base 16, 8 or 2. -/
def integer? (cs : List Char) : Option Int :=
  match cs with
  | '0' :: 'x' :: cs => (natural? 16 cs).map Int.ofNat
  | '0' :: 'o' :: cs => (natural? 8 cs).map Int.ofNat
  | '0' :: 'b' :: cs => (natural? 2 cs).map Int.ofNat
  | _ =>
    let (negative, ds) := Binary64.takeSign cs
    (decimal? ds).map fun n => if negative then -(n : Int) else n

/-- A character of a row of digits. -/
def isDigitOrMark (c : Char) : Bool := c.isDigit || c = '_'

/-- The end of a number: nothing, or an exponent. -/
def isExponent : List Char → Bool
  | [] => true
  | c :: cs => (c = 'e' || c = 'E') && (natural? 10 (Binary64.takeSign cs).2).isSome

/-- A number without a sign that has a fraction, an exponent or both, or the name of one that is not
finite. -/
def isReal (cs : List Char) : Bool :=
  let whole := cs.takeWhile isDigitOrMark
  match cs.dropWhile isDigitOrMark with
  | [] => false
  | '.' :: cs =>
    (decimal? whole).isSome && (natural? 10 (cs.takeWhile isDigitOrMark)).isSome &&
      isExponent (cs.dropWhile isDigitOrMark)
  | rest => (decimal? whole).isSome && isExponent rest || cs = ['i', 'n', 'f'] || cs = ['n', 'a', 'n']

/-- A number that is no integer. One that is too great is refused. -/
def real? (s : String) : Option Binary64 := do
  let cs := (Binary64.takeSign s.toList).2
  if !isReal cs then none
  let x ← Binary64.parse? (String.ofList (s.toList.filter (· ≠ '_')))
  if x = .infinite false && cs ≠ ['i', 'n', 'f'] then none else some x

/-! ### Lines -/

/-- A letter, a digit, an underscore or a hyphen. -/
def isNameChar (c : Char) : Bool := c.isAlphanum || c = '_' || c = '-'

def name? : Token → Option String
  | .bare s => if s.all isNameChar then some s else none
  | .quoted s => some s
  | _ => none

/-- Names with dots between them, and what follows. -/
def dotted? : List Token → Option (List String × List Token)
  | t :: .dot :: ts => do
    let (names, rest) ← dotted? ts
    return ((← name? t) :: names, rest)
  | t :: ts => do return ([← name? t], ts)
  | [] => none

/-- The most names that dots connect. -/
def maxNames : Nat := 79

/-- A dotted name, and what follows. -/
def names? (ts : List Token) : Option (List String × List Token) :=
  (dotted? ts).filter fun (names, _) => names.length ≤ maxNames

def value? : Token → Option Value
  | .quoted s | .lines s => some (.text s)
  | .bare "true" => some (.bool true)
  | .bare "false" => some (.bool false)
  | .bare s =>
    match integer? s.toList with
    | some n => (Value.int64? n).map .int
    | none => (real? s).map .real
  | _ => none

/-- What was defined so far, and the section that values go to. -/
abbrev State := Definitions × Path

/-- Read the tokens of a line. -/
def readLine (s : State) : List Token → Option State
  | [] => some s
  | .opening :: ts => do
    let (path, [.closing]) ← names? ts | none
    return (← s.1.addHeading path, path)
  | ts => do
    let (names, [.equals, v]) ← names? ts | none
    return (← s.1.addValue s.2 names (← value? v), s.2)

/-- The tokens of each line. -/
def linesOf : List Token → List (List Token)
  | [] => [[]]
  | .lineEnd :: ts => [] :: linesOf ts
  | t :: ts =>
    match linesOf ts with
    | [] => [[t]]
    | line :: rest => (t :: line) :: rest

/-- The document that a text writes. -/
def parse? (s : String) : Option Document := do
  let (ds, _) ← (linesOf (← scan s)).foldlM readLine (([], []) : State)
  return ds.document

end Mqtt.Settings.Toml
