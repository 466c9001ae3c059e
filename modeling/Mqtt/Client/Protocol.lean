import Mqtt.Client.Event
import Mqtt.Decoder
import Mqtt.Inflight
import Mqtt.KeepAlive
import Mqtt.Packet.Encode
import Mqtt.PacketIds
import Mqtt.Topic

/-!
# The client's side of the protocol

A client is either disconnected, waiting for the answer to its CONNECT, or connected. It does no
input or output: calls and received bytes change its state, queue bytes to be written, and queue
events for the application. Times are handed in.

The open handshakes outlive a connection, and are carried on when the next one is accepted.

Models `ClientConfig` and `ClientProtocol`: `connect`, `disconnect`, `subscribe`, `unsubscribe`,
`publish`, `handle_bytes` with `handle_packet` and `handle_connack`, `poll_timers`, `next_deadline`,
`connection_lost`, `consume_output` and `next_event`. A `Link` is the protocol without its decoder;
the time to wait for a socket (`connect_timeout`) is left out.
-/

namespace Mqtt.Client

/-- How a client introduces itself. -/
structure Config where
  /-- Where the broker is: a host and the number of the service there. -/
  address : String := "localhost:1883"
  clientId : String := ""
  username : Option String := none
  password : Option ByteArray := none
  /-- In seconds; 0 is none. -/
  keepAlive : UInt16 := 60
  cleanSession : Bool := true
  will : Option Will := none
  /-- The greatest packet accepted; 0 is no limit. -/
  maxPacketSize : Nat := 0
  deriving Inhabited

/-- How far the client has come. -/
inductive State where
  | disconnected
  /-- CONNECT was sent. -/
  | connecting
  | connected
  deriving DecidableEq, Inhabited

def State.name : State → String
  | disconnected => "Disconnected"
  | connecting => "Connecting"
  | connected => "Connected"

/-- Everything about the client but the packet that is being read. -/
structure Link where
  state : State
  inflight : Inflight
  packetIds : PacketIds
  /-- The period of the connection, in seconds. -/
  keepAliveSeconds : UInt16
  ping : PingTimer
  keepAlive : KeepAlive
  /-- What is still to be written. -/
  outbound : ByteArray
  /-- What the application has not been told yet, the oldest first. -/
  events : List Event

/-- A client. -/
structure Protocol where
  link : Link
  decoder : Decoder

namespace Link

/-- Queue a packet. -/
def send (l : Link) (p : Packet) : Link := { l with outbound := l.outbound ++ p.toBytes }

/-- Queue an event. -/
def report (l : Link) (e : Event) : Link := { l with events := l.events ++ [e] }

/-- The connection is over. -/
def close (l : Link) (reason : Option String) : Link :=
  { l with state := .disconnected, ping := .stopped }.report (.disconnected reason)

/-- The packet for CONNECT that a configuration asks for. -/
def connectPacket (config : Config) : Packet :=
  .connect {
    protocolName, protocolLevel, cleanSession := config.cleanSession, keepAlive := config.keepAlive,
    clientId := config.clientId, will := config.will, username := config.username,
    password := config.password }

/-! ### Packets that arrive -/

/-- Handling a packet changes the client step by step. What it has changed when it fails stays
changed. -/
abbrev Handling := EStateM Error Link

/-- The answer to CONNECT. One that is turned down is over with it; if it is accepted, everything not
yet acknowledged is sent again. -/
def handleConnack (now : Nat) (present : Bool) (code : ConnackCode) : Handling Unit := do
  if code ≠ .accepted then
    modify (·.close (some ("Connection refused: " ++ code.name)))
    throw (.connectionRefused code)
  modify fun l => { l with state := .connected, ping := .new l.keepAliveSeconds now }
  modify fun l => l.inflight.resend.foldl send l
  modify (·.report (.connected present))

/-- Carry on an open handshake. What it has changed stays changed also if it fails. -/
def withInflight {α : Type} (f : Inflight.Handshaking α) : Handling α := do
  match f.run (← get).inflight with
  | .ok a inflight =>
    modify ({ · with inflight })
    return a
  | .error e inflight =>
    modify ({ · with inflight })
    throw (.protocol e)

/-- A PUBLISH is answered, and reported unless it came before. -/
def handlePublish (p : Publish) : Handling Unit := do
  let arrival ← withInflight (Inflight.onPublish p)
  if let some packet := arrival.reply then modify (·.send packet)
  if arrival.deliver then modify (·.report (.message p.topic p.payload p.qos p.retain))

/-- Handle a packet on an accepted connection. -/
def handleConnected : Packet → Handling Unit
  | .publish p => handlePublish p
  | .puback id => do
    let message ← withInflight (Inflight.onPuback id)
    if message.isSome then modify (·.report (.acknowledged id))
  | .pubrec id => do
    let reply ← withInflight (Inflight.onPubrec id)
    modify (·.send reply)
  | .pubrel id => do
    let reply ← withInflight (Inflight.onPubrel id)
    modify (·.send reply)
  | .pubcomp id => do
    let waited ← withInflight (Inflight.onPubcomp id)
    if waited then modify (·.report (.completed id))
  | .suback id codes => do
    if id = 0 then throw (.protocol (.missingPacketId .suback))
    modify (·.report (.subscribed id codes))
  | .unsuback id => do
    if id = 0 then throw (.protocol (.missingPacketId .unsuback))
    modify (·.report (.unsubscribed id))
  | .pingresp => return
  | p@(.connect _) | p@(.connack ..) | p@(.subscribe ..) | p@(.unsubscribe ..) | p@.pingreq
  | p@.disconnect => throw (.protocol (.unexpectedPacket p.type))

/-- Handle a packet. -/
def handlePacket (now : Nat) (p : Packet) : Handling Unit := do
  match (← get).state, p with
  | .connecting, .connack present code => handleConnack now present code
  | .connecting, p => throw (.protocol (.unexpectedPacket p.type))
  | _, p => handleConnected p

/-- A packet that is not accepted: why, and how far its handling had got. -/
structure Refusal where
  error : Error
  link : Link

/-- The connection is over, if it is not already. -/
def Refusal.close (r : Refusal) : Link :=
  if r.link.state = .disconnected then r.link else r.link.close (some r.error.message)

/-- What becomes of the client. -/
def handle (l : Link) (now : Nat) (p : Packet) : Except Refusal Link :=
  match (handlePacket now p).run l with
  | .ok _ l => .ok l
  | .error e l => .error ⟨e, l⟩

/-! ### Calls -/

/-- Take an identifier that no open handshake holds. -/
def allocateId (l : Link) : Except Error UInt16 × Link :=
  match l.packetIds.allocate l.inflight.isInUse with
  | (some id, packetIds) => (.ok id, { l with packetIds })
  | (none, packetIds) => (.error (.invalidState .noFreeIdentifier), { l with packetIds })

/-- Go on with a fresh identifier. -/
def withId {α : Type} (l : Link) (f : UInt16 → Link → α × Link) : Except Error α × Link :=
  match l.allocateId with
  | (.ok id, l) =>
    let (a, l) := f id l
    (.ok a, l)
  | (.error e, l) => (.error e, l)

/-- Queue a SUBSCRIBE; its identifier comes back. -/
def subscribe (l : Link) (topics : List TopicRequest) : Except Error UInt16 × Link :=
  if l.state ≠ .connected then (.error .notConnected, l)
  else if topics.isEmpty then (.error (.protocol (.malformedPacket .emptySubscribe)), l)
  else l.withId fun id l => (id, l.send (.subscribe id topics))

/-- Queue an UNSUBSCRIBE; its identifier comes back. -/
def unsubscribe (l : Link) (filters : List String) : Except Error UInt16 × Link :=
  if l.state ≠ .connected then (.error .notConnected, l)
  else if filters.isEmpty then (.error (.protocol (.malformedPacket .emptyUnsubscribe)), l)
  else l.withId fun id l => (id, l.send (.unsubscribe id filters))

/-- Queue a PUBLISH. One that needs an acknowledgement is kept under an identifier, which comes
back. -/
def publish (l : Link) (m : Message) : Except Error (Option UInt16) × Link :=
  if l.state ≠ .connected then (.error .notConnected, l)
  else if !Topic.isValidName m.topic then (.error (.protocol (.invalidTopicName m.topic)), l)
  else if m.qos.isAcknowledged then
    l.withId fun id l =>
      (some id, { l with inflight := l.inflight.track id m }.send (.publish (m.toPublish id false)))
  else (.ok none, l.send (.publish (m.toPublish 0 false)))

/-- Queue a DISCONNECT, unless there is no connection. -/
def disconnect (l : Link) : Link :=
  if l.state = .disconnected then l else (l.send .disconnect).close none

/-- The stream broke. -/
def connectionLost (l : Link) (reason : String) : Link :=
  if l.state = .disconnected then l else l.close (some reason)

/-- Do what is due: give up if the broker has been silent for too long, else ask it for a sign of
life. -/
def pollTimers (l : Link) (now : Nat) : Except Error Unit × Link :=
  if l.state = .disconnected then (.ok (), l)
  else if l.keepAlive.isExpired now then
    (.error .keepAliveTimeout, l.close (some Error.keepAliveTimeout.message))
  else
    let (due, ping) := l.ping.poll now
    let l := { l with ping }
    (.ok (), if due then l.send .pingreq else l)

/-- When `pollTimers` next has something to do. -/
def nextDeadline (l : Link) : Option Nat :=
  if l.state = .disconnected then none
  else match l.ping.deadline, l.keepAlive.deadline with
    | some a, some b => some (min a b)
    | some a, none => some a
    | none, b => b

end Link

namespace Protocol

/-- A disconnected client with the handshakes of an earlier run. -/
def new (inflight : Inflight) (maxPacketSize : Nat) : Protocol :=
  { link :=
      { state := .disconnected, inflight, packetIds := .start, keepAliveSeconds := 0,
        ping := .stopped, keepAlive := .disabled 0, outbound := .empty, events := [] }
    decoder := .new maxPacketSize }

def state (c : Protocol) : State := c.link.state

def isConnected (c : Protocol) : Bool := c.link.state = .connected

def inflight (c : Protocol) : Inflight := c.link.inflight

/-- Queue a CONNECT. A clean session forgets the open handshakes. -/
def connect (c : Protocol) (config : Config) (now : Nat) : Except Error Unit × Protocol :=
  let l := c.link
  if l.state ≠ .disconnected then (.error (.invalidState .alreadyConnected), c)
  else
    let l := if config.cleanSession then { l with inflight := .empty, packetIds := .start } else l
    let l := { l with
      state := .connecting, keepAliveSeconds := config.keepAlive, ping := .stopped,
      keepAlive := .new config.keepAlive now, outbound := .empty }
    (.ok (), ⟨l.send (Link.connectPacket config), .new c.decoder.maxPacketSize⟩)

/-- Change the link only. -/
def onLink {α : Type} (c : Protocol) (f : Link → α × Link) : α × Protocol :=
  let (a, link) := f c.link
  (a, { c with link })

def disconnect (c : Protocol) : Protocol := { c with link := c.link.disconnect }

def subscribe (c : Protocol) (topics : List TopicRequest) : Except Error UInt16 × Protocol :=
  c.onLink (·.subscribe topics)

def unsubscribe (c : Protocol) (filters : List String) : Except Error UInt16 × Protocol :=
  c.onLink (·.unsubscribe filters)

def publish (c : Protocol) (m : Message) : Except Error (Option UInt16) × Protocol :=
  c.onLink (·.publish m)

def pollTimers (c : Protocol) (now : Nat) : Except Error Unit × Protocol :=
  c.onLink (·.pollTimers now)

def connectionLost (c : Protocol) (reason : String) : Protocol :=
  { c with link := c.link.connectionLost reason }

/-- Take in bytes one at a time and handle every packet that is complete. What follows the end of the
connection is not looked at. -/
def receive (now max : Nat) :
    Decoder.State → Link → List UInt8 → Except Error Unit × Protocol
  | s, l, [] => (.ok (), ⟨l, ⟨max, s⟩⟩)
  | s, l, byte :: bytes =>
    if l.state = .disconnected then (.ok (), ⟨l, ⟨max, s⟩⟩)
    else match s.step max byte with
      | (s, .ok none) => receive now max s l bytes
      | (s, .error e) => (.error (.protocol e), ⟨l.close (some e.message), ⟨max, s⟩⟩)
      | (s, .ok (some packet)) =>
        let l := { l with keepAlive := l.keepAlive.restart now }
        match l.handle now packet with
        | .error r => (.error r.error, ⟨r.close, ⟨max, s⟩⟩)
        | .ok l => receive now max s l bytes

/-- Handle bytes of the broker. -/
def handleBytes (c : Protocol) (now : Nat) (bytes : List UInt8) : Except Error Unit × Protocol :=
  let ⟨l, ⟨max, s⟩⟩ := c
  receive now max s l bytes

/-- Drop bytes that were written. -/
def consume (c : Protocol) (n : Nat) : Protocol :=
  { c with link := { c.link with outbound := c.link.outbound.extract n c.link.outbound.size } }

/-- Take the oldest event. -/
def nextEvent (c : Protocol) : Option Event × Protocol :=
  match c.link.events with
  | [] => (none, c)
  | e :: events => (some e, { c with link := { c.link with events } })

end Protocol

end Mqtt.Client
