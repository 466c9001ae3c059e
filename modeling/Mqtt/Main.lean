import Mqtt.CommandLine
import Mqtt.Directory

/-!
# The command

Serves the client on the standard streams: what comes in is handed to the server, and what the
server has to say goes out. The store is read when the command starts and written when it ends.

Models `main`. Nothing answers to signals here (`shutdown_on_signal`): a run ends with its input.
-/

namespace Mqtt.Command

/-- The content of a file, if it can be read. -/
def contentOf? (path : String) : IO (Option ByteArray) := do
  try
    return some (← IO.FS.readBinFile path)
  catch _ => return none

/-- The variables that are set, as the system lists them for a process. -/
def environment : IO Settings.Environment := do
  return ((← contentOf? "/proc/self/environ").map Settings.Environment.ofBlock).getD []

/-- Do what the server wants done, and tell whether the stream is to be closed. -/
def perform (output : IO.FS.Stream) (actions : List Server.Action) : IO Bool := do
  let mut closed := false
  for action in actions do
    match action with
    | .write _ bytes =>
      output.write bytes
      output.flush
    | .close _ => closed := true
  return closed

/-- Hand over bytes until the stream ends or is to be closed. -/
partial def serve (input output : IO.FS.Stream) (token : Nat) (s : Server) : IO Server := do
  let bytes ← input.read 4096
  let (actions, s) := s.receive token bytes.data.toList bytes.isEmpty (← IO.monoMsNow)
  if ← perform output actions then return s
  serve input output token s

/-- Read the store and remove it. -/
def takeStore (settings : Settings) : IO (Option ByteArray) := do
  if !settings.persistent then return none
  let store ← contentOf? settings.storePath
  if (store.bind String.fromUTF8?).isSome then IO.FS.removeFile settings.storePath
  return store

/-- Serve one client, then keep what is to be kept. -/
def run (settings : Settings) : IO UInt32 := do
  let start := Server.start settings (← takeStore settings)
  let output ← IO.getStdout
  let s ← match start.accept (← IO.monoMsNow) with
    | (some token, s) => serve (← IO.getStdin) output token s
    | (none, s) => pure s
  let (actions, s) := s.shutdown
  discard (perform output actions)
  if let some text := s.storeFile? then
    let interim := Directory.interimPath settings.storePath
    IO.FS.writeFile interim text
    IO.FS.rename interim settings.storePath
  return 0

end Mqtt.Command

open Mqtt

def main (arguments : List String) : IO UInt32 := do
  let file ← match CommandLine.parse CommandLine.defaultFile arguments with
    | .serve path => Command.contentOf? path
    | _ => pure none
  match CommandLine.run (← Command.environment) (fun _ => file) arguments with
  | .serve settings => Command.run settings
  | .exit e =>
    IO.print e.output
    IO.eprint e.errors
    return e.code.toUInt32
