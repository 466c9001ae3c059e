import Mqtt.Settings

/-!
# The command line

What the arguments of the broker's command ask for, and what it says when it does not get as far as
serving.

Models `parse_args` and the part of `main` up to the server.
-/

namespace Mqtt.CommandLine

/-- What the arguments ask for. -/
inductive Request where
  /-- Serve with the settings of a file. -/
  | serve (settingsFile : String)
  | help
  | missingFile
  | unknown (argument : String)
  deriving DecidableEq

/-- The settings file if none is named. -/
def defaultFile : String := "brook.toml"

/-- Read arguments; the first one that ends the matter decides. -/
def parse (file : String) : List String → Request
  | [] => .serve file
  | argument :: rest =>
    if argument = "-c" || argument = "--config" then
      match rest with
      | file :: rest => parse file rest
      | [] => .missingFile
    else if argument = "-h" || argument = "--help" then .help
    else .unknown argument

/-- The help text. -/
def helpText : String := "\n".intercalate [
  "brook - MQTT 3.1.1 broker",
  "",
  "Usage: brook [OPTIONS]",
  "",
  "Options:",
  "  -c, --config <FILE>     Config file path (default: " ++ defaultFile ++ ")",
  "  -h, --help              Show this help message",
  "",
  "Configuration:",
  "  Config file uses TOML format. All settings can be overridden",
  "  with environment variables using BROOK__ prefix:",
  "",
  "  BROOK__SERVER__BIND=0.0.0.0:1884",
  "  BROOK__MQTT__MAX_QOS=1",
  "  BROOK__PERSISTENCE__ENABLED=true",
  "  BROOK__LOG__LEVEL=debug",
  ""]

/-- How the command ends without serving. -/
structure Exit where
  code : UInt8
  output : String
  errors : String
  deriving DecidableEq

/-- Serve with some settings, or end. -/
inductive Outcome where
  | serve (settings : Settings)
  | exit (e : Exit)

/-- What comes of the arguments, given the environment and the files there are. -/
def run (env : Settings.Environment) (file? : String → Option ByteArray) (arguments : List String) :
    Outcome :=
  match parse defaultFile arguments with
  | .help => .exit ⟨0, helpText, ""⟩
  | .missingFile => .exit ⟨1, "", "Error: -c requires a file path\n"⟩
  | .unknown argument =>
    .exit ⟨1, "", "Unknown argument: " ++ argument ++ "\nUse --help for usage information\n"⟩
  | .serve file =>
    match Settings.load env (file? file) with
    | .ok settings => .serve settings
    | .error e => .exit ⟨1, "", "Failed to load configuration: " ++ e.message ++ "\n"⟩

end Mqtt.CommandLine
