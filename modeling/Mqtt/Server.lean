import Mqtt.Settings

/-!
# The server

All connections of a broker. Streams are opened, bring bytes, end or break; the server answers with
what is to be written to which stream and which streams are to be closed. A stream is known by its
token. Packets for a stream that is gone are dropped.

Models `Server`: `accept_connections`, `handle_readable` (`receive`) with `Client::process`,
`flush_client`, `dispatch`, `close_client`, `expire_keep_alives`, `save_store` (`storeFile?`) and
`shutdown`. A stream takes all that is written, so partial writes and the interest in them
(`handle_writable`) are left out, and so are storing in regular intervals (`sync_store`) and the
log.
-/

namespace Mqtt

structure Server where
  settings : Settings
  broker : Broker
  connections : Std.ExtTreeMap Nat Connection
  /-- The token of the next connection. -/
  nextToken : Nat

namespace Server

/-- What is to be done to a stream. -/
inductive Action where
  | write (token : Nat) (bytes : ByteArray)
  | close (token : Nat)

def new (settings : Settings) (broker : Broker) : Server := ⟨settings, broker, ∅, 2⟩

/-- A server that goes on from what was kept, if its settings ask for that. A store that cannot be
read is as good as none. -/
def start (settings : Settings) (store : Option ByteArray) : Server :=
  let options := settings.brokerOptions
  match SessionStore.ofFile? (if settings.persistent then store else none) with
  | some store => new settings (.restore options store)
  | none => new settings (.new options)

/-- The content of the store file at the end, if there is to be one. -/
def storeFile? (s : Server) : Option String :=
  if s.settings.persistent then some s.broker.snapshot.renderIndented else none

/-- A stream was opened: its token, unless there are too many connections. -/
def accept (s : Server) (now : Nat) : Option Nat × Server :=
  if s.connections.size ≥ s.settings.maxConnections then (none, s)
  else
    let c := Connection.new s.nextToken s.settings.connectionLimits now
    (some s.nextToken,
      { s with connections := s.connections.insert s.nextToken c, nextToken := s.nextToken + 1 })

/-- Write all that a connection has to say. -/
def flush (s : Server) (token : Nat) : List Action × Server :=
  match s.connections[token]? with
  | none => ([], s)
  | some c =>
    let bytes := c.peer.outbound
    if bytes.isEmpty then ([], s)
    else
      ([.write token bytes],
        { s with connections := s.connections.insert token (c.consume bytes.size) })

/-- Append a delivery to what its connection has to say. -/
def enqueue (s : Server) (d : Delivery) : Server :=
  match s.connections[d.token]? with
  | none => s
  | some c => { s with connections := s.connections.insert d.token (c.send d.packet) }

/-- Write to several connections, one after the other. -/
def flushAll : List Nat → Server → List Action × Server
  | [], s => ([], s)
  | token :: tokens, s =>
    let (actions, s) := s.flush token
    let (more, s) := flushAll tokens s
    (actions ++ more, s)

/-- Write deliveries to the connections that are still there. -/
def dispatch (s : Server) (ds : List Delivery) : List Action × Server :=
  let s := ds.foldl enqueue s
  flushAll ((ds.map (·.token)).mergeSort (· ≤ ·)).eraseDups s

/-- End a connection. What its broker delivers on that account is still to be dispatched. -/
def close (s : Server) (token : Nat) (reason : CloseReason) : List Action × List Delivery × Server :=
  match s.connections[token]? with
  | none => ([], [], s)
  | some c =>
    let (c, broker, ds) := c.teardown s.broker reason
    let last := if c.peer.outbound.isEmpty then [] else [Action.write token c.peer.outbound]
    (last ++ [.close token], ds,
      { s with broker, connections := s.connections.erase token })

/-- Why a connection ends after bytes were handled, if it does: on an error, after a goodbye, or
because the stream ended. -/
def reasonAfter (r : Connection.Received) (ended : Bool) : Option CloseReason :=
  if r.error.isSome then some .ungraceful
  else if r.connection.isClosed then some .graceful
  else if ended then some .ungraceful
  else none

/-- A stream brought bytes, and possibly its end. Replies are written first, then the connection is
closed if it has to be, then others get what is for them. -/
def receive (s : Server) (token : Nat) (bytes : List UInt8) (ended : Bool) (now : Nat) :
    List Action × Server :=
  match s.connections[token]? with
  | none => ([], s)
  | some c =>
    let r := c.handleBytes s.broker now bytes
    let s := { s with broker := r.broker, connections := s.connections.insert token r.connection }
    let (replies, s) := s.flush token
    let (closing, ds, s) := match reasonAfter r ended with
      | some reason => s.close token reason
      | none => ([], [], s)
    let (others, s) := s.dispatch (r.deliveries.toList ++ ds)
    (replies ++ closing ++ others, s)

/-- End connections for one reason. -/
def closeAll (reason : CloseReason) : List Nat → Server → List Action × List Delivery × Server
  | [], s => ([], [], s)
  | token :: tokens, s =>
    let (actions, ds, s) := s.close token reason
    let (moreActions, moreDs, s) := closeAll reason tokens s
    (actions ++ moreActions, ds ++ moreDs, s)

/-- End connections ungracefully: their streams broke, or their clients were silent for too long. -/
def drop (s : Server) (tokens : List Nat) : List Action × Server :=
  let (closing, ds, s) := closeAll .ungraceful tokens s
  let (others, s) := s.dispatch ds
  (closing ++ others, s)

/-- End the connections whose clients were silent for too long. -/
def expire (s : Server) (now : Nat) : List Action × Server :=
  s.drop (s.connections.filter fun _ c => c.isExpired now).keys

/-- When the next client will have been silent for too long. -/
def nextDeadline (s : Server) : Option Nat :=
  (s.connections.toList.filterMap fun (_, c) => c.deadline).min?

/-- End all connections. No will is published. -/
def shutdown (s : Server) : List Action × Server :=
  let (actions, _, s) := closeAll .shutdown s.connections.keys s
  (actions, s)

end Server

end Mqtt
