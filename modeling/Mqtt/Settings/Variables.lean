import Mqtt.Settings.Document

/-!
# Environment variables in settings

A settings file may refer to variables: `${NAME}` stands for the value of a variable, and
`${NAME:-text}` for a text if the variable is not set. A variable whose own name begins with that of
the program overrides a setting of the file.

Models `substitute_env_vars`, and the environment as a source of settings.
-/

namespace Mqtt.Settings

/-- The variables that are set. -/
abbrev Environment := List (String × String)

namespace Environment

/-- The variables in a block of entries `NAME=value`, each with a zero byte behind it. An entry that
is no text is passed over. -/
def ofBlock (block : ByteArray) : Environment :=
  (block.data.toList.splitBy fun byte _ => byte ≠ 0).filterMap fun entry => do
    let cs := (← String.fromUTF8? ⟨(entry.filter (· ≠ 0)).toArray⟩).toList
    return (String.ofList (cs.takeWhile (· ≠ '=')), String.ofList ((cs.dropWhile (· ≠ '=')).drop 1))

/-- The value of a variable. An environment is a row of texts `NAME=value`, and the first one that
begins with the name and an equals sign counts; so a name may also have such a sign in it. -/
def value? (env : Environment) (name : String) : Option String :=
  env.findSome? fun (n, v) =>
    let entry := (n ++ "=" ++ v).toList
    let start := (name ++ "=").toList
    if start.isPrefixOf entry then some (String.ofList (entry.drop start.length)) else none

/-! ### References -/

/-- A reference to a variable: its name, the text if it is not set, and the characters after it. -/
structure Reference where
  name : String
  default : String
  rest : List Char

/-- A character in the name of a variable. -/
def isNameChar (c : Char) : Bool := c ≠ '\x7d' && c ≠ ':'

/-- A character in the text for a variable that is not set. -/
def isDefaultChar (c : Char) : Bool := c ≠ '\x7d'

/-- Read a reference after its opening brace; its name is not empty. -/
def reference? (cs : List Char) : Option Reference :=
  let name := cs.takeWhile isNameChar
  if name.isEmpty then none
  else match cs.dropWhile isNameChar with
    | '\x7d' :: rest => some ⟨String.ofList name, "", rest⟩
    | ':' :: '-' :: cs =>
      match cs.dropWhile isDefaultChar with
      | _ :: rest => some ⟨String.ofList name, String.ofList (cs.takeWhile isDefaultChar), rest⟩
      | [] => none
    | _ => none

theorem length_of_dropWhile {p : Char → Bool} {cs : List Char} {c : Char} {rest : List Char}
    (h : cs.dropWhile p = c :: rest) : rest.length < cs.length := by
  have := (List.dropWhile_suffix p (l := cs)).length_le
  rw [h, List.length_cons] at this
  omega

theorem reference?_length {cs : List Char} {r : Reference} (h : reference? cs = some r) :
    r.rest.length < cs.length := by
  simp only [reference?] at h
  split at h
  · cases h
  split at h
  · rename_i heq
    cases h
    exact length_of_dropWhile heq
  · rename_i heq
    split at h
    · rename_i heq'
      cases h
      have := length_of_dropWhile heq
      have := length_of_dropWhile heq'
      simp only [List.length_cons] at *
      omega
    · cases h
  · cases h

/-- Put the values of variables in the place of references. What is put in is not looked at again. -/
def substitute (env : Environment) : List Char → List Char
  | '$' :: '\x7b' :: cs =>
    match _h : reference? cs with
    | some r => ((env.value? r.name).getD r.default).toList ++ env.substitute r.rest
    | none => '$' :: env.substitute ('\x7b' :: cs)
  | c :: cs => c :: env.substitute cs
  | [] => []
termination_by cs => cs.length
decreasing_by
  · have := reference?_length _h
    simp only [List.length_cons]
    omega
  all_goals simp

/-! ### Overriding -/

/-- The name of the setting that a variable overrides, if the variable's own name begins with that of
the program. Two underscores stand for a dot. -/
def settingName? (variableName : String) : Option String :=
  match (foldName variableName).toList with
  | 'b' :: 'r' :: 'o' :: 'o' :: 'k' :: '_' :: '_' :: cs =>
    some ((String.ofList cs).replace "__" ".")
  | _ => none

/-- The settings that variables override. -/
def document (env : Environment) : Document :=
  .group (env.filterMap fun (name, value) =>
    (settingName? name).map (·, .value (.ofVariable value)))

end Environment

end Mqtt.Settings
