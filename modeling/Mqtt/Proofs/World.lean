import Mqtt.Proofs.Hub
import Mqtt.Proofs.Listening

/-!
# A client, its broker, and the bytes between them: `ClientProtocol`, `Broker`

Everything that can happen to one client and the broker it connects to again and again, one action after
the other and in any order. A connection is cut by reading nothing more from it: the client gives it up
by `connectionLost` and the broker by `teardown`, each when it pleases, and what was not read until then
is lost. The client may already be on its next connection while the broker still reads the last one.

Beside the state of both stand two histories: what happened to the messages the client publishes, and
what happened to those the broker sends the client. Bytes are read one at a time, so that the histories
are told packet by packet; `clientReads_eq` and `brokerReads_eq` say that this makes no difference.
-/

namespace Mqtt

/-- A client, its broker, and the bytes between them. -/
structure World where
  client : Client.Protocol
  hub : Hub
  /-- The newest connection; it is 0 before there is any. -/
  newest : Nat
  /-- Bytes the client has written and the broker has not read, by connection. -/
  up : Nat → List UInt8
  /-- Bytes the broker has written to the newest connection and the client has not read. -/
  down : List UInt8
  /-- What happened to the client's messages. -/
  fromClient : Log
  /-- What happened to the broker's messages. -/
  fromBroker : Log

/-! ### Marks -/

/-- The packet that a byte completes. -/
def Decoder.completes (d : Decoder) (b : UInt8) : Option Packet :=
  match d.state.step d.maxPacketSize b with
  | (_, .ok packet) => packet
  | (_, .error _) => none

/-- The packet that a byte completes on a connection, and what comes of it if it is accepted. -/
def Connection.accepts? (c : Connection) (b : Broker) (now : Nat) (byte : UInt8) :
    Option (Packet × Peer.Handled) :=
  if c.peer.isClosed then none
  else match c.decoder.completes byte with
    | none => none
    | some packet =>
      match Peer.handle { c.peer with keepAlive := c.peer.keepAlive.restart now } b now packet with
      | .ok h => some (packet, h)
      | .error _ => none

/-- The packet that a byte completes on a connection, and how far its handling got, accepted or refused. -/
def Connection.handles? (c : Connection) (b : Broker) (now : Nat) (byte : UInt8) :
    Option (Packet × Peer.Handled) :=
  if c.peer.isClosed then none
  else (c.decoder.completes byte).map fun packet =>
    match Peer.handle { c.peer with keepAlive := c.peer.keepAlive.restart now } b now packet with
    | .ok h => (packet, h)
    | .error r => (packet, r.handled)

/-- What a byte of the client says of its messages: those that the broker was given to publish have arrived. -/
def Connection.arrivals (c : Connection) (b : Broker) (now : Nat) (byte : UInt8) : Log :=
  match c.handles? b now byte with
  | some (packet, h) => h.arrivals packet
  | none => []

/-- What is open in the session of the connection's client. -/
def Connection.inflight (c : Connection) (b : Broker) : Inflight :=
  match c.peer.clientId with
  | some client => b.inflightOf client
  | none => .empty

/-- What a byte of the client says of the broker's messages: one is settled, others are sent. -/
def Connection.settlements (c : Connection) (b : Broker) (now : Nat) (byte : UInt8) : Log :=
  match c.accepts? b now byte with
  | some (packet, h) => (c.inflight b).settlements packet ++ Delivery.taken h.output
  | none => []

namespace World

/-- A client and a broker without any state. -/
def start (options : BrokerOptions) (maxPacketSize : Nat) : World :=
  { client := .new .empty maxPacketSize, hub := .start (.new options), newest := 0, up := fun _ => [],
    down := [], fromClient := [], fromBroker := [] }

/-- What can happen. -/
inductive Action where
  /-- The client opens a connection, and introduces itself. -/
  | connect (config : Client.Config) (limits : ConnectionLimits) (now : Nat)
  | publish (m : Message)
  | subscribe (topics : List TopicRequest)
  | unsubscribe (filters : List String)
  | pollTimers (now : Nat)
  /-- The client says goodbye. -/
  | disconnect
  /-- The client finds its connection broken. -/
  | connectionLost (reason : String)
  /-- The application asks the client for an event. -/
  | nextEvent
  /-- Some bytes of the client are written to its connection. -/
  | clientWrites (count : Nat)
  /-- The client reads some bytes of its connection. -/
  | clientReads (now count : Nat)
  /-- The broker reads some bytes of a connection, which need not be the newest. -/
  | brokerReads (token now count : Nat)
  /-- Some bytes of the broker are written to a connection. -/
  | brokerWrites (token count : Nat)
  /-- The broker ends a connection, for whatever reason. -/
  | teardown (token : Nat) (reason : CloseReason)
  /-- A message is published by somebody else. -/
  | brokerPublishes (origin : Option String) (m : Message)

/-- Every message can be written. -/
def Action.Fits : Action → Prop
  | publish m | brokerPublishes _ m => m.Fits
  | _ => True

instance : DecidablePred Action.Fits := fun a => by
  unfold Action.Fits
  split <;> infer_instance

/-- The streams once the bytes of one have changed. -/
def setUp (w : World) (token : Nat) (bs : List UInt8) : Nat → List UInt8 :=
  fun t => if t = token then bs else w.up t

/-- The client connects under its identifier and asks for the session that is kept. -/
def connect (id : String) (w : World) (config : Client.Config) (limits : ConnectionLimits) (now : Nat) :
    World :=
  match w.client.connect { config with clientId := id, cleanSession := false } now with
  | (.error _, client) => { w with client }
  | (.ok _, client) =>
    { w with client, hub := w.hub.accept (w.newest + 1) limits now, newest := w.newest + 1, down := [] }

def publish (w : World) (m : Message) : World :=
  { w with
    client := (w.client.publish m).2
    fromClient := w.fromClient ++ Client.keeps m (w.client.publish m).1 }

def clientWrites (w : World) (count : Nat) : World :=
  { w with
    client := w.client.consume count
    up := w.setUp w.newest (w.up w.newest ++ w.client.link.outbound.data.toList.take count) }

/-- The client reads the next byte. The events it brings are marks of both histories. -/
def clientReadsByte (w : World) (now : Nat) : World :=
  match w.down with
  | [] => w
  | b :: down =>
    let client := (w.client.handleBytes now [b]).2
    let events := client.link.events.drop w.client.link.events.length
    { w with
      client, down
      fromClient := w.fromClient ++ events.filterMap Client.Event.settlement?
      fromBroker := w.fromBroker ++ (w.client.decoder.completes b).toList.flatMap fun packet =>
        events.filterMap (Client.Event.arrival? packet) }

def clientReads (w : World) (now : Nat) : (count : Nat) → World
  | 0 => w
  | count + 1 => (w.clientReadsByte now).clientReads now count

/-- The broker reads the next byte of a connection. -/
def brokerReadsByte (w : World) (token now : Nat) : World :=
  match w.up token, w.hub.connections[token]? with
  | b :: rest, some c =>
    { w with
      hub := w.hub.receive token now [b]
      up := w.setUp token rest
      fromClient := w.fromClient ++ c.arrivals w.hub.broker now b
      fromBroker := w.fromBroker ++ c.settlements w.hub.broker now b }
  | _, _ => w

theorem brokerReadsByte_eq {w : World} {t : Nat} {b : UInt8} {rest : List UInt8} {c : Connection}
    (hup : w.up t = b :: rest) (hc : w.hub.connections[t]? = some c) (now : Nat) :
    w.brokerReadsByte t now =
      { w with
        hub := w.hub.receive t now [b]
        up := w.setUp t rest
        fromClient := w.fromClient ++ c.arrivals w.hub.broker now b
        fromBroker := w.fromBroker ++ c.settlements w.hub.broker now b } := by
  unfold brokerReadsByte
  rw [hup, hc]

/-- There is nothing to read, or nobody to read it. -/
theorem brokerReadsByte_idle {w : World} {t : Nat} (h : w.up t = [] ∨ w.hub.connections[t]? = none) (now : Nat) :
    w.brokerReadsByte t now = w := by
  unfold brokerReadsByte
  split
  · next hup hc =>
    rw [hup, hc] at h
    simp at h
  · rfl

def brokerReads (w : World) (token now : Nat) : (count : Nat) → World
  | 0 => w
  | count + 1 => (w.brokerReadsByte token now).brokerReads token now count

/-- What was queued for a connection. -/
def outbound (w : World) (token : Nat) : List UInt8 :=
  match w.hub.connections[token]? with
  | some c => c.peer.outbound.data.toList
  | none => []

/-- Bytes that are written to an older connection are lost. -/
def brokerWrites (w : World) (token count : Nat) : World :=
  { w with
    hub := w.hub.written token count
    down := if token = w.newest then w.down ++ (w.outbound token).take count else w.down }

def teardown (w : World) (token : Nat) (reason : CloseReason) : World :=
  { w with
    hub := w.hub.teardown token reason
    fromBroker := w.fromBroker ++ match w.hub.connections[token]? with
      | some c => Delivery.taken (c.teardown w.hub.broker reason).2.2
      | none => [] }

def brokerPublishes (w : World) (origin : Option String) (m : Message) : World :=
  { w with
    hub := w.hub.publish origin m
    fromBroker := w.fromBroker ++ Delivery.taken (w.hub.broker.publish origin m).1 }

/-- One action, of a client with the given identifier. -/
def step (id : String) (w : World) : Action → World
  | .connect config limits now => w.connect id config limits now
  | .publish m => w.publish m
  | .subscribe topics => { w with client := (w.client.subscribe topics).2 }
  | .unsubscribe filters => { w with client := (w.client.unsubscribe filters).2 }
  | .pollTimers now => { w with client := (w.client.pollTimers now).2 }
  | .disconnect => { w with client := w.client.disconnect }
  | .connectionLost reason => { w with client := w.client.connectionLost reason }
  | .nextEvent => { w with client := w.client.nextEvent.2 }
  | .clientWrites count => w.clientWrites count
  | .clientReads now count => w.clientReads now count
  | .brokerReads token now count => w.brokerReads token now count
  | .brokerWrites token count => w.brokerWrites token count
  | .teardown token reason => w.teardown token reason
  | .brokerPublishes origin m => w.brokerPublishes origin m

def run (id : String) (w : World) (actions : List Action) : World := actions.foldl (step id) w

end World

end Mqtt
