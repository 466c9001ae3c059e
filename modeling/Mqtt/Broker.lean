import Mqtt.SessionStore

/-!
# The broker

Subscriptions, retained messages and sessions, and how a message gets from a publisher to its
subscribers. The broker knows no connection: whatever is to be sent is a `Delivery` for the
connection with a certain token. Deliveries are listed in the order in which they are made, and
subscribers are served in the order of their client identifiers.

Models `Broker` and `BrokerOptions`: `publish` (its loop over the subscribers is `route`),
`subscribe` with `appear` (`replayRetained`), `unsubscribe`, sessions from `new_session` and
`renew_session` to `release_session`, `is_active_session` (`isOwner`), `assign_client_id`,
`restart_session`, `snapshot` and `restore`. The hash maps are kept in the order of their keys.
`retained_messages`, which only shows what is retained, is left out.
-/

namespace Mqtt

/-- What an operator may choose. -/
structure BrokerOptions where
  maxQoS : QoS := .exactlyOnce
  retainAvailable : Bool := true
  /-- A client gets the messages it publishes itself. -/
  reflect : Bool := true
  maxQueuedMessages : Nat := 0
  /-- In bytes. -/
  maxTopicLength : Nat := 65535
  deriving DecidableEq, Inhabited

structure Broker where
  options : BrokerOptions
  subscriptions : SubscriptionTree
  retained : RetainTree
  sessions : Std.ExtTreeMap String Session
  /-- The number of the last client identifier that was made up. -/
  assigned : Nat

namespace Broker

def new (options : BrokerOptions) : Broker := ⟨options, .empty, .empty, ∅, 0⟩

instance : Inhabited Broker := ⟨new {}⟩

/-! ### Sessions -/

def session? (b : Broker) (client : String) : Option Session := b.sessions[client]?

def setSession (b : Broker) (client : String) (s : Session) : Broker :=
  { b with sessions := b.sessions.insert client s }

/-- Change the session of a client, if there is one. -/
def modifySession (b : Broker) (client : String) (f : Session → Session) : Broker :=
  match b.session? client with
  | some s => b.setSession client (f s)
  | none => b

def hasSession (b : Broker) (client : String) : Bool := b.sessions.contains client

/-- A connection owns the client's session. -/
def hasActiveSession (b : Broker) (client : String) : Bool :=
  (b.session? client).any Session.isActive

/-- The client has a session that no connection owns. -/
def hasRetainedSession (b : Broker) (client : String) : Bool :=
  (b.session? client).any (!·.isActive)

/-- The connection owns the client's session. -/
def isOwner (b : Broker) (client : String) (token : Nat) : Bool :=
  (b.session? client).any (·.isOwnedBy token)

/-- Make a session for a new connection in place of any other. -/
def newSession (b : Broker) (client : String) (token : Nat) (cleanSession : Bool) : Broker :=
  b.setSession client (.new token cleanSession b.options.maxQueuedMessages)

/-- Give the session of a client to a connection. -/
def renewSession (b : Broker) (client : String) (token : Nat) : Broker :=
  b.modifySession client (·.renew token)

/-- Take the session of a client away from its connection. -/
def retainSession (b : Broker) (client : String) : Broker := b.modifySession client Session.retain

/-- Forget a client: its session and its subscriptions. -/
def deleteSession (b : Broker) (client : String) : Broker :=
  { b with
    sessions := b.sessions.erase client
    subscriptions := b.subscriptions.unsubscribeAll client }

/-- The connection is gone. If it owned the client's session, a clean one is forgotten and any other
kept without an owner. -/
def releaseSession (b : Broker) (client : String) (token : Nat) : Broker :=
  match b.session? client with
  | none => b
  | some s =>
    if s.isOwnedBy token then
      if s.cleanSession then b.deleteSession client else b.retainSession client
    else b

/-! ### Client identifiers -/

/-- The identifier made up with a number. -/
def madeUpId (n : Nat) : String := "brook-" ++ toString n

/-- The first number after `n` whose identifier is free, among the next `tries`. -/
def nextFree (b : Broker) : (tries : Nat) → (n : Nat) → Nat
  | 0, n => n + 1
  | tries + 1, n => if b.hasSession (madeUpId (n + 1)) then b.nextFree tries (n + 1) else n + 1

/-- Make up an identifier that no session has. There are no more taken ones than sessions, so so many
tries and one are enough. -/
def assignClientId (b : Broker) : String × Broker :=
  let n := b.nextFree b.sessions.size b.assigned
  (madeUpId n, { b with assigned := n })

/-! ### Routing -/

/-- Send a message to a client; a client without a session gets nothing. -/
def sendTo (b : Broker) (client : String) (m : Message) (q : QoS) (retain : Bool) :
    Option Delivery × Broker :=
  match b.session? client with
  | none => (none, b)
  | some s =>
    let (d, s) := s.send m q retain
    (d, b.setSession client s)

/-- Do one thing after the other and list what is to be delivered. -/
def each {α : Type} (act : Broker → α → Option Delivery × Broker) (b : Broker) (xs : List α) :
    List Delivery × Broker :=
  let (made, b) := xs.foldl
    (fun (made, b) x =>
      match act b x with
      | (some d, b) => (d :: made, b)
      | (none, b) => (made, b))
    ([], b)
  (made.reverse, b)

/-- Send a message to clients, to each at its own quality of service. -/
def route (b : Broker) (m : Message) (receivers : List (String × QoS)) : List Delivery × Broker :=
  b.each (fun b (client, q) => b.sendTo client m q false) receivers

/-- Who receives a message: the subscribers of its topic, without its publisher if messages are not
reflected. -/
def receivers (b : Broker) (origin : Option String) (topic : String) : List (String × QoS) :=
  (b.subscriptions.subscribers topic).toList.filter fun (client, _) =>
    b.options.reflect || origin ≠ some client

/-- Publish a message: retain it if it asks for that, then send it to all that receive it. -/
def publish (b : Broker) (origin : Option String) (m : Message) : List Delivery × Broker :=
  let b := if m.retain && b.options.retainAvailable then { b with retained := b.retained.retain m }
    else b
  b.route m (b.receivers origin m.topic)

/-- Send a client the retained messages that match a filter. -/
def replayRetained (b : Broker) (client filter : String) (q : QoS) : List Delivery × Broker :=
  b.each (fun b m => b.sendTo client m q true) (b.retained.matching filter)

/-- Subscribe a client to a filter and send it the retained messages that match. The code for the
SUBACK is the quality of service granted, or a failure if the filter is not valid or too long. -/
def subscribe (b : Broker) (client filter : String) (q : QoS) : UInt8 × List Delivery × Broker :=
  if filter.utf8ByteSize > b.options.maxTopicLength || !Topic.isValidFilter filter then
    (subackFailure, [], b)
  else
    let granted := min q b.options.maxQoS
    let b := { b with subscriptions := (b.subscriptions.subscribe filter client granted).2 }
    (granted.toByte, b.replayRetained client filter granted)

/-- Take a subscription of a client away. -/
def unsubscribe (b : Broker) (client filter : String) : Broker :=
  { b with subscriptions := (b.subscriptions.unsubscribe filter client).2 }

/-- Bring a client that came back up to date: the retained messages of its subscriptions, then the
messages that waited, in order, then everything it had not acknowledged before. -/
def restartSession (b : Broker) (client : String) : List Delivery × Broker :=
  match b.session? client with
  | none => ([], b)
  | some s =>
    match s.owner with
    | none => ([], b)
    | some token =>
      let resend := s.inflight.resend.map (Delivery.mk token)
      let b := b.setSession client { s with queue := [] }
      let (retained, b) := (b.subscriptions.subscriptions client).foldl
        (fun (made, b) (filter, q) =>
          let (ds, b) := b.replayRetained client filter q
          (made ++ ds, b))
        ([], b)
      let (queued, b) := b.each (fun b m => b.sendTo client m m.qos false) s.queue
      (retained ++ queued ++ resend, b)

/-! ### Runs -/

/-- The client has a session that is to be kept for the next run. -/
def isPersistent (b : Broker) (client : String) : Bool :=
  (b.session? client).any (!·.cleanSession)

/-- What is kept for the next run: the sessions that are not clean with their subscriptions, and the
retained messages. -/
def store (b : Broker) : SessionStore :=
  { sessions := b.sessions.filter fun _ s => !s.cleanSession
    retained := b.retained
    subscriptions := b.subscriptions.filterClients b.isPersistent }

/-- The document of what is kept. -/
def snapshot (b : Broker) : Json := b.store.toJson

/-- A broker that goes on from what was kept. No connection owns a session, and subscriptions without
a session are dropped. -/
def restore (options : BrokerOptions) (store : SessionStore) : Broker :=
  let sessions := store.sessions.map fun _ s =>
    { s.retain with maxQueued := options.maxQueuedMessages }
  { options, sessions, assigned := 0, retained := store.retained
    subscriptions := store.subscriptions.filterClients sessions.contains }

end Broker

end Mqtt
