import Mqtt.Broker
import Mqtt.Decoder
import Mqtt.KeepAlive
import Mqtt.Packet.Encode

/-!
# Connections

The server's side of one client connection: bytes come in, packets are handled on the broker, bytes
go out. A connection accepts nothing but CONNECT first, and any error closes it. The connection does
no input or output itself; the time is handed in.

A packet is handled in place: the handlers change the peer and the broker step by step, and where one
fails, what it did before stays done.

Models `Connection` and `ConnectionLimits`: `handle_bytes`, `handle_packet`, `handle_connect` (in
three parts: the checks, `chooseId` and `openSession`), `handle_publish`, `handle_subscribe`,
`handle_unsubscribe`, `reject` (`turnDown`), `route` (`distribute`) and `teardown` (`depart`). A
`Peer` is a connection without its decoder. What a handler passes to `Broker::publish` is written
down as a `Publication`.
-/

namespace Mqtt

/-- What the server allows a connection. -/
structure ConnectionLimits where
  maxPacketSize : Nat := 268435460
  /-- In bytes. -/
  maxTopicLength : Nat := 65535
  /-- In seconds; 0 is any. -/
  maxKeepAlive : UInt16 := 65535
  deriving DecidableEq, Inhabited

/-- How far a connection has come. -/
inductive ConnectionState where
  | awaitingConnect
  | connected
  | closed
  deriving DecidableEq, Inhabited

def ConnectionState.name : ConnectionState → String
  | awaitingConnect => "AwaitingConnect"
  | connected => "Connected"
  | closed => "Closed"

/-- Why a connection ends. Only an ungraceful end publishes the will. -/
inductive CloseReason where
  /-- The client said goodbye. -/
  | graceful
  /-- The connection broke, the client erred or fell silent. -/
  | ungraceful
  /-- The broker stops. -/
  | shutdown
  deriving DecidableEq, Inhabited

/-- The other end of a connection, as far as it is known. -/
structure Peer where
  token : Nat
  limits : ConnectionLimits
  /-- Known once CONNECT is accepted. -/
  clientId : Option String
  /-- The message to be published if the connection breaks. -/
  will : Option Message
  isClosed : Bool
  tornDown : Bool
  keepAlive : KeepAlive
  /-- What is still to be written to the client. -/
  outbound : ByteArray

/-- A connection: the peer and the packet that is being read from it. -/
structure Connection where
  peer : Peer
  decoder : Decoder

namespace Peer

def state (p : Peer) : ConnectionState :=
  if p.isClosed then .closed else if p.clientId.isSome then .connected else .awaitingConnect

def hasWill (p : Peer) : Bool := p.will.isSome

/-- Append a packet to what is to be written. -/
def send (p : Peer) (packet : Packet) : Peer :=
  { p with outbound := p.outbound ++ packet.toBytes }

/-- A reply to the client itself. -/
def reply (p : Peer) (packet : Packet) : Delivery := ⟨p.token, packet⟩

/-- Write what is for this client and list what is for others behind `others`. -/
def distribute (p : Peer) (others : Array Delivery) (output : List Delivery) : Peer × Array Delivery :=
  output.foldl
    (fun (p, others) d =>
      if d.token = p.token then (p.send d.packet, others) else (p, others.push d))
    (p, others)

/-- A message that is given to a broker to publish. -/
structure Publication where
  broker : Broker
  origin : Option String
  message : Message

/-- How far a connection has got with what it is doing: the peer and the broker by then, what is to be
sent, replies to the client itself included, and what was given to the broker to publish. -/
structure Handled where
  peer : Peer
  broker : Broker
  output : List Delivery
  published : List Publication

namespace Handled

/-- Nothing is done yet. -/
def start (p : Peer) (b : Broker) : Handled := ⟨p, b, [], []⟩

def onPeer (h : Handled) (f : Peer → Peer) : Handled := { h with peer := f h.peer }

def onBroker (h : Handled) (f : Broker → Broker) : Handled := { h with broker := f h.broker }

/-- List what is to be delivered. -/
def route (h : Handled) (ds : List Delivery) : Handled := { h with output := h.output ++ ds }

/-- Answer the client. -/
def reply (h : Handled) (packet : Packet) : Handled := h.route [h.peer.reply packet]

/-- Change the broker, and get to know something about it. -/
def ask {α : Type} (h : Handled) (f : Broker → α × Broker) : α × Handled :=
  let (a, broker) := f h.broker
  (a, { h with broker })

/-- Give the broker a message to publish. -/
def publish (h : Handled) (origin : Option String) (m : Message) : List Delivery × Handled :=
  let (ds, broker) := h.broker.publish origin m
  (ds, { h with broker, published := h.published ++ [⟨h.broker, origin, m⟩] })

end Handled

/-- Handling a packet changes peer and broker step by step. What it has changed when it fails stays
changed. -/
abbrev Handling := EStateM ProtocolError Handled

/-- A packet that is not accepted: why, and how far its handling had got. -/
structure Refusal where
  error : ProtocolError
  handled : Handled

abbrev Outcome := Except Refusal Handled

/-- What becomes of a peer and a broker. -/
def Handling.outcome (x : Handling Unit) (p : Peer) (b : Broker) : Outcome :=
  match x.run (.start p b) with
  | .ok _ h => .ok h
  | .error e h => .error ⟨e, h⟩

/-! ### CONNECT -/

/-- Turn down a CONNECT with a code. -/
def turnDown {α : Type} (code : ConnackCode) (error : ProtocolError) : Handling α := do
  modify (·.reply (.connack false code))
  throw error

/-- The identifier a CONNECT goes by. A clean session without one has it made up. -/
def chooseId (c : Connect) : Handling String := do
  if c.clientId = "" then
    if !c.cleanSession then turnDown .identifierRejected (.identifierRejected c.clientId)
    modifyGet (·.ask Broker.assignClientId)
  else return c.clientId

/-- Let a client in under its identifier. A session that is kept is taken up again unless a clean one is
asked for. -/
def openSession (now : Nat) (c : Connect) (id : String) : Handling Unit := do
  modify (·.onPeer fun p => { p with
    keepAlive := .new (KeepAlive.effective p.limits.maxKeepAlive c.keepAlive) now
    will := c.will.map Will.message })
  let h ← get
  let present := h.broker.hasRetainedSession id && !c.cleanSession
  if present then
    modify (·.onBroker (·.renewSession id h.peer.token))
    modify (·.reply (.connack true .accepted))
    let ds ← modifyGet (·.ask (·.restartSession id))
    modify (·.route ds)
  else
    modify (·.onBroker (·.deleteSession id))
    modify (·.onBroker (·.newSession id h.peer.token c.cleanSession))
    modify (·.reply (.connack false .accepted))
  modify (·.onPeer ({ · with clientId := some id }))

/-- CONNECT is checked for name, level and identifier, in this order; an identifier in use is not
given away. -/
def handleConnect (now : Nat) (c : Connect) : Handling Unit := do
  if c.protocolName ≠ protocolName then throw (.invalidProtocolName c.protocolName)
  if c.protocolLevel ≠ protocolLevel then
    turnDown .unacceptableProtocolVersion (.unsupportedProtocolVersion c.protocolLevel)
  let id ← chooseId c
  if (← get).broker.hasActiveSession id then turnDown .identifierRejected (.identifierRejected id)
  openSession now c id

/-! ### Packets of a connected client -/

/-- Carry on a handshake of a client's session. What it has changed stays changed also if it fails. -/
def withInflight {α : Type} (id : String) (f : Inflight.Handshaking α) : Handling α := do
  match (← get).broker.session? id with
  | none => throw (.malformedPacket (.noSession id))
  | some s =>
    match f.run s.inflight with
    | .ok a inflight =>
      modify (·.onBroker (·.setSession id { s with inflight }))
      return a
    | .error e inflight =>
      modify (·.onBroker (·.setSession id { s with inflight }))
      throw e

/-- A PUBLISH is answered before it is routed, and one that came before is only answered. -/
def handlePublish (id : String) (publish : Publish) : Handling Unit := do
  if !Topic.isValidName publish.topic then throw (.invalidTopicName publish.topic)
  if publish.topic.utf8ByteSize > (← get).peer.limits.maxTopicLength then
    throw (.invalidTopicName publish.topic)
  let arrival ← withInflight id (Inflight.onPublish publish)
  if let some packet := arrival.reply then modify (·.reply packet)
  if arrival.deliver then
    let ds ← modifyGet (·.publish (some id) publish.message)
    modify (·.route ds)

/-- Subscribe to one filter after the other: the codes and what is to be delivered. -/
def subscribeAll (b : Broker) (id : String) : List TopicRequest → List UInt8 × List Delivery × Broker
  | [] => ([], [], b)
  | t :: ts =>
    let (code, ds, b) := b.subscribe id t.filter t.qos
    let (codes, more, b) := subscribeAll b id ts
    (code :: codes, ds ++ more, b)

/-- A SUBSCRIBE is answered before retained messages are sent. -/
def handleSubscribe (client : String) (id : UInt16) (topics : List TopicRequest) : Handling Unit := do
  if id = 0 then throw (.missingPacketId .subscribe)
  let (codes, ds) ← modifyGet (·.ask fun b =>
    let (codes, ds, b) := subscribeAll b client topics
    ((codes, ds), b))
  modify (·.reply (.suback id codes))
  modify (·.route ds)

def handleUnsubscribe (client : String) (id : UInt16) (filters : List String) : Handling Unit := do
  if id = 0 then throw (.missingPacketId .unsubscribe)
  modify (·.onBroker fun b => filters.foldl (fun b filter => b.unsubscribe client filter) b)
  modify (·.reply (.unsuback id))

/-- The client says goodbye: its will is void. -/
def handleDisconnect (p : Peer) : Peer := { p with will := none, isClosed := true }

/-- Handle a packet of a client whose CONNECT was accepted. -/
def handleConnected (client : String) : Packet → Handling Unit
  | .publish publish => handlePublish client publish
  | .puback id => do
    let _ ← withInflight client (Inflight.onPuback id)
  | .pubrec id => do
    let packet ← withInflight client (Inflight.onPubrec id)
    modify (·.reply packet)
  | .pubrel id => do
    let packet ← withInflight client (Inflight.onPubrel id)
    modify (·.reply packet)
  | .pubcomp id => do
    let _ ← withInflight client (Inflight.onPubcomp id)
  | .subscribe id topics => handleSubscribe client id topics
  | .unsubscribe id filters => handleUnsubscribe client id filters
  | .pingreq => modify (·.reply .pingresp)
  | .disconnect => modify (·.onPeer handleDisconnect)
  | packet@(.connect _) | packet@(.connack ..) | packet@(.suback ..) | packet@(.unsuback _)
  | packet@.pingresp => throw (.unexpectedPacket packet.type)

/-- Handle a packet. -/
def handlePacket (now : Nat) (packet : Packet) : Handling Unit := do
  let p := (← get).peer
  if p.isClosed then throw (.unexpectedPacket packet.type)
  match p.clientId with
  | some client => handleConnected client packet
  | none =>
    match packet with
    | .connect c => handleConnect now c
    | _ => throw .firstPacketNotConnect

def handle (p : Peer) (b : Broker) (now : Nat) (packet : Packet) : Outcome :=
  (handlePacket now packet).outcome p b

/-! ### The end -/

/-- The connection ends. The client's session is released, and then its will is published if the end
was ungraceful. Ending a connection again does nothing. -/
def depart (reason : CloseReason) : StateM Handled Unit := do
  if (← get).peer.tornDown then return
  modify (·.onPeer ({ · with tornDown := true, isClosed := true }))
  let some client := (← get).peer.clientId | return
  if reason ≠ .ungraceful then modify (·.onPeer ({ · with will := none }))
  modify fun h => h.onBroker (·.releaseSession client h.peer.token)
  let some will := (← get).peer.will | return
  modify (·.onPeer ({ · with will := none }))
  let ds ← modifyGet (·.publish (some client) will)
  modify (·.route ds)

end Peer

namespace Connection

/-- A connection that was just accepted. -/
def new (token : Nat) (limits : ConnectionLimits) (now : Nat) : Connection :=
  { peer :=
      { token, limits, clientId := none, will := none, isClosed := false, tornDown := false,
        keepAlive := .disabled now, outbound := .empty }
    decoder := .new limits.maxPacketSize }

def token (c : Connection) : Nat := c.peer.token

def isClosed (c : Connection) : Bool := c.peer.isClosed

/-- When the client must have said something. -/
def deadline (c : Connection) : Option Nat := c.peer.keepAlive.deadline

def isExpired (c : Connection) (now : Nat) : Bool := c.peer.keepAlive.isExpired now

/-- Queue a packet for the client. -/
def send (c : Connection) (packet : Packet) : Connection := { c with peer := c.peer.send packet }

/-- Drop bytes that were written. -/
def consume (c : Connection) (n : Nat) : Connection :=
  { c with
    peer := { c.peer with outbound := c.peer.outbound.extract n c.peer.outbound.size } }

/-- What came of some bytes: the connection and the broker after them, what is to be delivered to
other connections, and the error that closed the connection, if one did. -/
structure Received where
  connection : Connection
  broker : Broker
  deliveries : Array Delivery
  error : Option ProtocolError

/-- Take in bytes one at a time and handle every packet that is complete. What follows the end of the
connection is not looked at. -/
def receive (now max : Nat) :
    Decoder.State → Peer → Broker → Array Delivery → List UInt8 → Received
  | s, p, b, ds, [] => ⟨⟨p, ⟨max, s⟩⟩, b, ds, none⟩
  | s, p, b, ds, byte :: bytes =>
    if p.isClosed then ⟨⟨p, ⟨max, s⟩⟩, b, ds, none⟩
    else match s.step max byte with
      | (s, .ok none) => receive now max s p b ds bytes
      | (s, .error e) => ⟨⟨{ p with isClosed := true }, ⟨max, s⟩⟩, b, ds, some e⟩
      | (s, .ok (some packet)) =>
        let p := { p with keepAlive := p.keepAlive.restart now }
        match p.handle b now packet with
        | .error r =>
          let (p, ds) := r.handled.peer.distribute ds r.handled.output
          ⟨⟨{ p with isClosed := true }, ⟨max, s⟩⟩, r.handled.broker, ds, some r.error⟩
        | .ok h =>
          let (p, ds) := h.peer.distribute ds h.output
          receive now max s p h.broker ds bytes

/-- Handle bytes of the client. -/
def handleBytes (c : Connection) (b : Broker) (now : Nat) (bytes : List UInt8) : Received :=
  let ⟨p, ⟨max, s⟩⟩ := c
  receive now max s p b #[] bytes

/-- What the end of a connection does. -/
def departure (c : Connection) (b : Broker) (reason : CloseReason) : Peer.Handled :=
  ((Peer.depart reason).run (.start c.peer b)).2

/-- The connection ends: the connection and the broker after it, and what is to be delivered. -/
def teardown (c : Connection) (b : Broker) (reason : CloseReason) :
    Connection × Broker × List Delivery :=
  let h := c.departure b reason
  ({ c with peer := h.peer }, h.broker, h.output)

end Connection

end Mqtt
