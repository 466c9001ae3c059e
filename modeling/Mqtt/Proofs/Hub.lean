import Mqtt.Connection

/-!
# A broker with its connections: `Broker`, `Connection`

Everything that can happen to a broker and the connections that share it, one action after the other
and in any order. No connection is ever forgotten, so one that was torn down can be torn down again,
and its token is not given out a second time. What the broker delivers is queued at once.
-/

namespace Mqtt

/-- A broker and all connections that were ever made to it, by token. -/
structure Hub where
  broker : Broker
  connections : Std.ExtTreeMap Nat Connection

namespace Hub

/-- What can happen. -/
inductive Action where
  /-- A stream was opened. -/
  | accept (token : Nat) (limits : ConnectionLimits) (now : Nat)
  /-- A client's stream brought bytes, whatever they are. -/
  | receive (token now : Nat) (bytes : List UInt8)
  /-- A connection ends, for whatever reason. -/
  | teardown (token : Nat) (reason : CloseReason)
  /-- Bytes were written to a client. -/
  | written (token count : Nat)
  /-- A message is published, by a client or by the broker itself. -/
  | publish (origin : Option String) (m : Message)

/-- A broker nobody has connected to yet. -/
def start (b : Broker) : Hub := ⟨b, ∅⟩

def setConnection (h : Hub) (token : Nat) (c : Connection) : Hub :=
  { h with connections := h.connections.insert token c }

/-- Queue a packet at its connection; one for a stream that is gone is dropped. -/
def enqueue (h : Hub) (d : Delivery) : Hub :=
  match h.connections[d.token]? with
  | none => h
  | some c => h.setConnection d.token (c.send d.packet)

def dispatch (h : Hub) (ds : List Delivery) : Hub := ds.foldl enqueue h

/-- A new connection, unless the token is taken. -/
def accept (h : Hub) (token : Nat) (limits : ConnectionLimits) (now : Nat) : Hub :=
  match h.connections[token]? with
  | none => h.setConnection token (.new token limits now)
  | some _ => h

def receive (h : Hub) (token now : Nat) (bytes : List UInt8) : Hub :=
  match h.connections[token]? with
  | none => h
  | some c =>
    let r := c.handleBytes h.broker now bytes
    (({ h with broker := r.broker } : Hub).setConnection token r.connection).dispatch
      r.deliveries.toList

def teardown (h : Hub) (token : Nat) (reason : CloseReason) : Hub :=
  match h.connections[token]? with
  | none => h
  | some c =>
    let r := c.teardown h.broker reason
    (({ h with broker := r.2.1 } : Hub).setConnection token r.1).dispatch r.2.2

def written (h : Hub) (token count : Nat) : Hub :=
  match h.connections[token]? with
  | none => h
  | some c => h.setConnection token (c.consume count)

def publish (h : Hub) (origin : Option String) (m : Message) : Hub :=
  ({ h with broker := (h.broker.publish origin m).2 } : Hub).dispatch (h.broker.publish origin m).1

def step (h : Hub) : Action → Hub
  | .accept token limits now => h.accept token limits now
  | .receive token now bytes => h.receive token now bytes
  | .teardown token reason => h.teardown token reason
  | .written token count => h.written token count
  | .publish origin m => h.publish origin m

def run (h : Hub) (actions : List Action) : Hub := actions.foldl step h

/-! ### Connections by token -/

@[simp] theorem connections_setConnection (h : Hub) (token other : Nat) (c : Connection) :
    (h.setConnection token c).connections[other]? =
      if token = other then some c else h.connections[other]? := by
  simp [setConnection, Std.ExtTreeMap.getElem?_insert]

@[simp] theorem broker_setConnection (h : Hub) (token : Nat) (c : Connection) :
    (h.setConnection token c).broker = h.broker := rfl

@[simp] theorem broker_enqueue (h : Hub) (d : Delivery) : (h.enqueue d).broker = h.broker := by
  unfold enqueue
  split <;> rfl

@[simp] theorem broker_dispatch (h : Hub) (ds : List Delivery) : (h.dispatch ds).broker = h.broker := by
  unfold dispatch
  induction ds generalizing h with
  | nil => rfl
  | cons d ds ih => rw [List.foldl_cons, ih, broker_enqueue]

/-- What queueing a packet does to one connection. -/
theorem connections_enqueue (h : Hub) (d : Delivery) (token : Nat) :
    (h.enqueue d).connections[token]? =
      (h.connections[token]?).map fun c => if d.token = token then c.send d.packet else c := by
  unfold enqueue
  cases hd : h.connections[d.token]? with
  | none =>
    by_cases htoken : d.token = token
    · simp [← htoken, hd]
    · simp [htoken]
  | some c =>
    dsimp only
    rw [connections_setConnection]
    by_cases htoken : d.token = token
    · simp [← htoken, hd]
    · simp [htoken]

/-- The packets of some deliveries that are for one connection. -/
def packetsFor (token : Nat) (ds : List Delivery) : List Packet :=
  (ds.filter (·.token = token)).map (·.packet)

theorem packetsFor_append (token : Nat) (ds ds' : List Delivery) :
    packetsFor token (ds ++ ds') = packetsFor token ds ++ packetsFor token ds' := by
  simp [packetsFor]

theorem packetsFor_of_ne {token : Nat} {ds : List Delivery} (h : ∀ d ∈ ds, d.token ≠ token) :
    packetsFor token ds = [] := by
  have hnone : ds.filter (·.token = token) = [] := List.filter_eq_nil_iff.2 fun d hd => by simpa using h d hd
  rw [packetsFor, hnone, List.map_nil]

theorem packetsFor_of_token {token : Nat} {ds : List Delivery} (h : ∀ d ∈ ds, d.token = token) :
    packetsFor token ds = ds.map (·.packet) := by
  have hall : ds.filter (·.token = token) = ds := List.filter_eq_self.2 fun d hd => decide_eq_true (h d hd)
  rw [packetsFor, hall]

theorem connections_dispatch (h : Hub) (ds : List Delivery) (token : Nat) :
    (h.dispatch ds).connections[token]? =
      (h.connections[token]?).map fun c => (packetsFor token ds).foldl Connection.send c := by
  unfold dispatch
  induction ds generalizing h with
  | nil => simp [packetsFor]
  | cons d ds ih =>
    rw [List.foldl_cons, ih, connections_enqueue, Option.map_map]
    congr 1
    funext c
    by_cases htoken : d.token = token
    · simp [packetsFor, htoken]
    · simp [packetsFor, htoken]

end Hub

/-! ### What queueing leaves alone -/

namespace Connection

/-- Queueing packets writes them one behind the other, and does nothing else. -/
theorem foldl_send (ps : List Packet) (c : Connection) :
    ps.foldl send c =
      { c with peer := { c.peer with
          outbound := ps.foldl (fun bytes p => bytes ++ p.toBytes) c.peer.outbound } } := by
  induction ps generalizing c with
  | nil => rfl
  | cons p ps ih => rw [List.foldl_cons, ih]; rfl

end Connection

/-- Replies to the client itself are written, all else is listed. -/
theorem Peer.distribute_eq (p : Peer) (others : Array Delivery) (output : List Delivery) :
    p.distribute others output =
      ({ p with outbound :=
          (Hub.packetsFor p.token output).foldl (fun bytes q => bytes ++ q.toBytes) p.outbound },
        others ++ (output.filter fun d => !decide (d.token = p.token)).toArray) := by
  unfold distribute
  induction output generalizing p others with
  | nil => simp [Hub.packetsFor]
  | cons d output ih =>
    rw [List.foldl_cons]
    by_cases htoken : d.token = p.token
    · simp only [htoken, if_true]
      rw [ih]
      have htoken' : (p.send d.packet).token = p.token := rfl
      simp only [htoken', Hub.packetsFor, List.filter_cons, htoken, decide_true, if_true, List.map_cons,
        List.foldl_cons, Bool.not_true, Bool.false_eq_true, if_false]
      rfl
    · simp only [htoken, if_false]
      rw [ih]
      simp [Hub.packetsFor, htoken]

end Mqtt
