import Mqtt.Server

/-!
# A broker's directory

The files a broker works with, held in memory: a directory that has no other directories in it. A
broker is started in it, and leaves its store in it.

Models `persistence::load` and `persistence::save`, and the part of `main` that deals with files.
-/

namespace Mqtt

/-- Contents by name. -/
structure Directory where
  files : List (String × ByteArray)

namespace Directory

/-- The file that a path can name: the path has one part, apart from dots for the directory itself. -/
def name? (path : String) : Option String :=
  match (path.splitOn "/").filter (· ≠ ".") with
  | [name] => if name = "" || name = ".." then none else some name
  | _ => none

def read? (d : Directory) (path : String) : Option ByteArray := (name? path).bind fun name => d.files.lookup name

def remove (d : Directory) (path : String) : Directory :=
  match name? path with
  | some name => ⟨d.files.filter (·.1 ≠ name)⟩
  | none => d

/-- Write a file, if the path can name one. -/
def write (d : Directory) (path : String) (content : ByteArray) : Directory :=
  match name? path with
  | some name => ⟨(name, content) :: d.files.filter (·.1 ≠ name)⟩
  | none => d

/-- Start a broker with the settings of a file. A store that can be read is read and removed. -/
def boot (d : Directory) (env : Settings.Environment) (settingsFile : String) :
    Except Settings.Error (Server × Directory) := do
  let settings ← Settings.load env (d.read? settingsFile)
  let store := d.read? settings.storePath
  let isTaken := settings.persistent && (store.bind String.fromUTF8?).isSome
  return (Server.start settings store, if isTaken then d.remove settings.storePath else d)

/-- A name with its extension exchanged for that of a store being written. A dot that begins a name
begins no extension. -/
def interimName (name : String) : String :=
  let parts := name.splitOn "."
  let stem := if parts.length > 1 && parts.dropLast ≠ [""] then ".".intercalate parts.dropLast
    else name
  stem ++ ".json.tmp"

/-- Where a store is written before it gets its own path. -/
def interimPath (path : String) : String :=
  let names := path.splitOn "/"
  "/".intercalate (names.dropLast ++ [interimName (names.getLastD "")])

/-- Keep what a broker leaves. The store takes the place of an earlier one only when it is complete;
a file at the interim path is lost. -/
def save (d : Directory) (s : Server) : Directory :=
  match s.storeFile? with
  | some text => (d.remove (interimPath s.settings.storePath)).write s.settings.storePath text.toUTF8
  | none => d

end Directory

end Mqtt
