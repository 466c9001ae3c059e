import Mqtt.Connection
import Mqtt.Settings.Place
import Mqtt.Settings.Reading
import Mqtt.Settings.Toml
import Mqtt.Settings.Variables
import Mqtt.SocketAddress

/-!
# Settings

What an operator may set, where the settings come from, and which are accepted. Settings are the
defaults, overridden by a file, overridden in turn by environment variables.

Models `Config` with its sections: `Config::parse`, `Config::load`, `validate`, and the options and
limits taken from it.
-/

namespace Mqtt

/-- How much is logged. -/
inductive LogLevel where
  | off | error | warn | info | debug | trace
  deriving DecidableEq, Inhabited

namespace LogLevel

def name : LogLevel → String
  | off => "off"
  | error => "error"
  | warn => "warn"
  | info => "info"
  | debug => "debug"
  | trace => "trace"

def ofName? (s : String) : Option LogLevel :=
  [off, error, warn, info, debug, trace].find? (·.name = s)

end LogLevel

structure Settings where
  logLevel : LogLevel := .info
  /-- Where the broker listens. -/
  bind : SocketAddress := .v4 0 0 0 0 1883
  /-- Connections beyond this number are closed at once. -/
  maxConnections : Nat := 10000
  /-- In bytes, the fixed header included. -/
  maxPacketSize : Nat := 268435460
  /-- In bytes. -/
  maxTopicLength : Nat := 65535
  /-- In seconds; 0 is any. -/
  maxKeepAlive : UInt16 := 65535
  /-- Messages kept for a client that is away; 0 is any number. -/
  maxQueuedMessages : Nat := 0
  /-- The highest quality of service that is granted, as a number. -/
  maxQoS : UInt8 := 2
  retainAvailable : Bool := true
  /-- A client gets the messages it publishes itself. -/
  reflect : Bool := true
  /-- Keep sessions, subscriptions and retained messages from one run to the next. -/
  persistent : Bool := false
  /-- The file they are kept in. -/
  storePath : String := "brook-session-store.json"
  /-- In seconds; 0 is only at the end. -/
  saveInterval : Nat := 60
  deriving DecidableEq, Inhabited

namespace Settings

/-! ### What is accepted -/

/-- The greatest packet there is: a fixed header of five bytes and the longest body. -/
def greatestPacket : Nat := 268435460

/-- A setting that is not accepted. -/
inductive Unacceptable where
  | packetSizeTooSmall
  | packetSizeTooGreat
  | topicLengthTooGreat
  | qosTooHigh
  | noStorePath
  deriving DecidableEq, Inhabited

def Unacceptable.message : Unacceptable → String
  | packetSizeTooSmall => "max_packet_size must be at least 2"
  | packetSizeTooGreat =>
    "max_packet_size cannot exceed MQTT protocol maximum (" ++ toString greatestPacket ++ ")"
  | topicLengthTooGreat => "max_topic_length cannot exceed 65535"
  | qosTooHigh => "max_qos must be 0, 1, or 2"
  | noStorePath => "persistence.path must be set when persistence is enabled"

/-- The first setting that is not accepted. -/
def unacceptable? (s : Settings) : Option Unacceptable :=
  if s.maxPacketSize < 2 then some .packetSizeTooSmall
  else if s.maxPacketSize > greatestPacket then some .packetSizeTooGreat
  else if s.maxTopicLength > 65535 then some .topicLengthTooGreat
  else if s.maxQoS > 2 then some .qosTooHigh
  else if s.persistent && s.storePath = "" then some .noStorePath
  else none

/-! ### What follows from settings -/

/-- The quality of service granted at most. -/
def grantedQoS (s : Settings) : QoS :=
  if s.maxQoS = 0 then .atMostOnce else if s.maxQoS = 1 then .atLeastOnce else .exactlyOnce

def brokerOptions (s : Settings) : BrokerOptions where
  maxQoS := s.grantedQoS
  retainAvailable := s.retainAvailable
  reflect := s.reflect
  maxQueuedMessages := s.maxQueuedMessages
  maxTopicLength := s.maxTopicLength

def connectionLimits (s : Settings) : ConnectionLimits where
  maxPacketSize := s.maxPacketSize
  maxTopicLength := s.maxTopicLength
  maxKeepAlive := s.maxKeepAlive

/-! ### Documents -/

/-- The document that writes settings. -/
def toDocument (s : Settings) : Document :=
  let nat (n : Nat) : Document := .value (.int n)
  let bool (b : Bool) : Document := .value (.bool b)
  let text (s : String) : Document := .value (.text s)
  .group [
    ("log", .group [("level", text s.logLevel.name)]),
    ("server", .group [("bind", text s.bind.toText), ("max_connections", nat s.maxConnections)]),
    ("limits", .group [
      ("max_packet_size", nat s.maxPacketSize), ("max_topic_length", nat s.maxTopicLength)]),
    ("session", .group [
      ("max_keep_alive", nat s.maxKeepAlive.toNat),
      ("max_queued_messages", nat s.maxQueuedMessages)]),
    ("mqtt", .group [
      ("max_qos", nat s.maxQoS.toNat), ("retain_available", bool s.retainAvailable),
      ("reflect", bool s.reflect)]),
    ("persistence", .group [
      ("enabled", bool s.persistent), ("path", text s.storePath),
      ("sync_interval_secs", nat s.saveInterval)])]

/-- The fields of a section. None is there if the section is missing; a value is no section. -/
def sectionOf? (d : Document) (name : String) (fields : List String) :
    Option (List (Option Document)) :=
  match d.member? name with
  | some d => d.fields? fields
  | none => some (fields.map fun _ => none)

/-- Read a field; one that is missing has its default. -/
def field {α : Type} (default : α) (read : Document → Option α) : Option Document → Option α
  | some d => read d
  | none => some default

/-- Read all settings. Names that mean nothing are passed over. -/
def ofDocument? (r : Reading) (d : Document) : Option Settings := do
  let nat (d : Document) := d.value?.bind r.nat?
  let natUpTo (max : Nat) (d : Document) := (nat d).filter (· ≤ max)
  let bool (d : Document) := d.value?.bind r.bool?
  let text (d : Document) := d.value?.bind r.text?
  let [level] ← sectionOf? d "log" ["level"] | none
  let [bind, maxConnections] ← sectionOf? d "server" ["bind", "max_connections"] | none
  let [maxPacketSize, maxTopicLength] ←
    sectionOf? d "limits" ["max_packet_size", "max_topic_length"] | none
  let [maxKeepAlive, maxQueuedMessages] ←
    sectionOf? d "session" ["max_keep_alive", "max_queued_messages"] | none
  let [maxQoS, retainAvailable, reflect] ←
    sectionOf? d "mqtt" ["max_qos", "retain_available", "reflect"] | none
  let [enabled, path, interval] ←
    sectionOf? d "persistence" ["enabled", "path", "sync_interval_secs"] | none
  return {
    logLevel := ← field .info (fun d => (r.choice? d).bind LogLevel.ofName?) level
    bind := ← field (.v4 0 0 0 0 1883) (fun d => (text d).bind SocketAddress.parse?) bind
    maxConnections := ← field 10000 nat maxConnections
    maxPacketSize := ← field greatestPacket nat maxPacketSize
    maxTopicLength := ← field 65535 nat maxTopicLength
    maxKeepAlive := ← field 65535 (fun d => (natUpTo 65535 d).map UInt16.ofNat) maxKeepAlive
    maxQueuedMessages := ← field 0 nat maxQueuedMessages
    maxQoS := ← field 2 (fun d => (natUpTo 255 d).map UInt8.ofNat) maxQoS
    retainAvailable := ← field true bool retainAvailable
    reflect := ← field true bool reflect
    persistent := ← field false bool enabled
    storePath := ← field "brook-session-store.json" text path
    saveInterval := ← field 60 nat interval }

/-- Why there are no settings. -/
inductive Error where
  /-- The file is not a text. -/
  | unreadable
  /-- The file and the environment do not give settings of the right kinds. -/
  | unloadable
  /-- The text of a file by itself does not give settings of the right kinds. -/
  | malformed
  | unacceptable (what : Unacceptable)
  deriving DecidableEq, Inhabited

def Error.message : Error → String
  | unreadable => "IO error"
  | unloadable => "Config error"
  | malformed => "Validation error: TOML parse error"
  | unacceptable what => "Validation error: " ++ what.message

/-- Settings that are accepted. -/
def check (s : Settings) : Except Error Settings :=
  match s.unacceptable? with
  | some what => .error (.unacceptable what)
  | none => .ok s

/-- The document of a file, with the values of the variables that it refers to. -/
def documentOf? (env : Environment) (text : String) : Option Document :=
  Toml.parse? (String.ofList (env.substitute text.toList))

/-- Read settings from the text of a file alone. -/
def parse (env : Environment) (text : String) : Except Error Settings :=
  match (documentOf? env text).bind (ofDocument? .exact) with
  | some s => s.check
  | none => .error .malformed

/-- Read settings from a file, if there is one, and the environment. The environment is laid over the
file, and both together over the defaults. -/
def load (env : Environment) (file : Option ByteArray) : Except Error Settings := do
  let d ← match file with
    | none => .ok .empty
    | some bytes =>
      match String.fromUTF8? bytes with
      | none => .error Error.unreadable
      | some text =>
        match documentOf? env text with
        | some d => .ok d
        | none => .error Error.unloadable
  let given := (Document.empty.lay d).lay env.document
  match ofDocument? .lenient ((toDocument {}).lay given) with
  | some s => s.check
  | none => .error .unloadable

end Settings

end Mqtt
