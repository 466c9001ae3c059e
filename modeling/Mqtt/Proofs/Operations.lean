import Mqtt.Proofs.Nesting
import Mqtt.Proofs.Snapshot

/-!
# What is done to a broker in the course of its runs: `Broker`, `Connection`

A broker stops, and another one goes on from the snapshot it left; connections come and go all the time. Of
all that, only three kinds of things reach a broker: packets, the release of a session and messages to be
published. `Hub.operations` lists them for each event in the order in which they are done, so what every
course of events keeps is shown by one case for each kind (`Hub.course_induction`), and what a course leaves
behind can be written down operation by operation.
-/

namespace Mqtt

namespace Broker

/-! ### The next run -/

/-- The store that is read back from the snapshot of a broker, however deep that nests. -/
def reread (b : Broker) : SessionStore := (SessionStore.ofJson? b.snapshot.nesting b.snapshot).getD .empty

/-- The broker of the next run, with options of its own. -/
def restart (b : Broker) (options : BrokerOptions) : Broker := restore options b.reread

/-- Trees that came about by edits are read back. -/
theorem reread_eq {options : BrokerOptions} {b : Broker} (hb : Edits (.new options) b) :
    b.reread = b.store.stored := by
  obtain ⟨lines, held, hlines, hheld⟩ := hb.files
  have hread : SessionStore.ofJson? b.snapshot.nesting b.snapshot = some b.store.stored :=
    SessionStore.ofJson?_toJson hlines.sorted.mapPruned hheld.sorted b.store.legible_toJson.fits_nesting
  rw [reread, hread, Option.getD_some]

/-- The next run begins with the trees of the last one, less the subscriptions of clean sessions. -/
theorem restart_edits {options options' : BrokerOptions} {b : Broker} (hb : Edits (.new options) b) :
    Edits b (b.restart options') := by
  rw [restart, reread_eq hb]
  exact edits_of_change (.filterClients b.isPersistent) (subscriptions_restore_store options' b) rfl

/-! ### Operations -/

/-- What is done to a broker. -/
inductive Operation where
  /-- A packet of a connection is handled. -/
  | packet (p : Peer) (now : Nat) (packet : Packet)
  /-- A connection that is gone gives its session back. -/
  | release (client : String) (token : Nat)
  | publish (origin : Option String) (m : Message)
  | restart (options : BrokerOptions)

def operate (b : Broker) : Operation → Broker
  | .packet p now packet =>
    match p.handle b now packet with
    | .ok h => h.broker
    | .error r => r.handled.broker
  | .release client token => b.releaseSession client token
  | .publish origin m => (b.publish origin m).2
  | .restart options => b.restart options

/-- An operation edits the trees. -/
theorem operate_edits {options : BrokerOptions} {b : Broker} (hb : Edits (.new options) b) (op : Operation) :
    Edits (.new options) (b.operate op) := by
  cases op with
  | packet p now packet =>
    rw [operate]
    split
    · next h hh => exact hb.trans (Peer.handle_ok hh).2.edits
    · next r hh => exact (Peer.handled_of_refused hh).1 ▸ hb
  | release client token => exact hb.trans (releaseSession_edits b client token)
  | publish origin m => exact hb.trans (publish_edits b origin m)
  | restart options' => exact hb.trans (restart_edits hb)

/-- An operation and the broker it is done to. -/
structure Moment where
  broker : Broker
  operation : Operation

/-- The moments of operations that are done one after the other. -/
def moments (b : Broker) : List Operation → List Moment
  | [] => []
  | op :: ops => ⟨b, op⟩ :: (b.operate op).moments ops

end Broker

/-! ### Connections -/

/-- The packets that reach a broker with the bytes of a client. -/
def Connection.operations (now max : Nat) : Decoder.State → Peer → Broker → List UInt8 → List Broker.Operation
  | _, _, _, [] => []
  | s, p, b, byte :: bytes =>
    if p.isClosed then []
    else match s.step max byte with
      | (s, .ok none) => operations now max s p b bytes
      | (_, .error _) => []
      | (s, .ok (some packet)) =>
        let p := { p with keepAlive := p.keepAlive.restart now }
        .packet p now packet ::
          match p.handle b now packet with
          | .error _ => []
          | .ok h => operations now max s (h.peer.distribute #[] h.output).1 h.broker bytes

namespace Connection

section Equations

variable {now max : Nat} {s s' : Decoder.State} {p : Peer} {b : Broker} {byte : UInt8} {bytes : List UInt8}

theorem operations_of_closed (hp : p.isClosed = true) : operations now max s p b bytes = [] := by
  cases bytes with
  | nil => rfl
  | cons byte bytes => rw [operations, if_pos hp]

theorem operations_cons_error {e : ProtocolError} (hp : p.isClosed = false)
    (hstep : s.step max byte = (s', .error e)) : operations now max s p b (byte :: bytes) = [] := by
  rw [operations, if_neg (by simp [hp]), hstep]

theorem operations_cons_none (hp : p.isClosed = false) (hstep : s.step max byte = (s', .ok none)) :
    operations now max s p b (byte :: bytes) = operations now max s' p b bytes := by
  rw [operations, if_neg (by simp [hp]), hstep]

theorem operations_cons_refused {packet : Packet} {r : Peer.Refusal} (hp : p.isClosed = false)
    (hstep : s.step max byte = (s', .ok (some packet)))
    (hh : Peer.handle { p with keepAlive := p.keepAlive.restart now } b now packet = .error r) :
    operations now max s p b (byte :: bytes) =
      [.packet { p with keepAlive := p.keepAlive.restart now } now packet] := by
  rw [operations, if_neg (by simp [hp]), hstep]
  dsimp only
  rw [hh]

theorem operations_cons_handled {packet : Packet} {h : Peer.Handled} (hp : p.isClosed = false)
    (hstep : s.step max byte = (s', .ok (some packet)))
    (hh : Peer.handle { p with keepAlive := p.keepAlive.restart now } b now packet = .ok h) :
    operations now max s p b (byte :: bytes) =
      .packet { p with keepAlive := p.keepAlive.restart now } now packet ::
        operations now max s' (h.peer.distribute #[] h.output).1 h.broker bytes := by
  rw [operations, if_neg (by simp [hp]), hstep]
  dsimp only
  rw [hh]

end Equations

theorem foldl_operate (now max : Nat) (bytes : List UInt8) (s : Decoder.State) (p : Peer) (b : Broker)
    (ds : Array Delivery) :
    (operations now max s p b bytes).foldl Broker.operate b = (receive now max s p b ds bytes).broker := by
  induction s, p, b, bytes using bytes_induction now max generalizing ds with
  | nil s p b => rfl
  | closed s p b bytes hclosed =>
    rw [operations_of_closed hclosed, receive_of_closed hclosed]
    rfl
  | broken s p b byte bytes s' e hopen hstep =>
    rw [operations_cons_error hopen hstep, receive_cons_error hopen hstep]
    rfl
  | more s p b byte bytes s' hopen hstep ih =>
    rw [operations_cons_none hopen hstep, receive_cons_none hopen hstep]
    exact ih ds
  | refused s p b byte bytes s' packet r hopen hstep hh =>
    rw [operations_cons_refused hopen hstep hh, receive_cons_refused hopen hstep hh, List.foldl_cons, Broker.operate,
      hh]
    exact (Peer.handled_of_refused hh).1
  | handled s p b byte bytes s' packet h hopen hstep hh ih =>
    rw [operations_cons_handled hopen hstep hh, receive_cons_handled hopen hstep hh, List.foldl_cons, Broker.operate,
      hh]
    exact ih _

end Connection

/-- What is done to a broker when a connection ends. -/
def Connection.farewell (c : Connection) (reason : CloseReason) : List Broker.Operation :=
  if c.peer.tornDown then []
  else match c.peer.client with
    | none => []
    | some client =>
      .release client.id c.peer.token ::
        match client.will with
        | some will => if reason = .ungraceful then [.publish (some client.id) will] else []
        | none => []

theorem Connection.foldl_farewell (c : Connection) (b : Broker) (reason : CloseReason) :
    (c.farewell reason).foldl Broker.operate b = (c.teardown b reason).2.1 := by
  rw [farewell, teardown_eq]
  cases c.peer.tornDown with
  | true => rfl
  | false =>
    simp only [Bool.false_eq_true, if_false]
    rcases c.peer.client with _ | client
    · rfl
    · dsimp only
      rcases client.will with _ | will
      · rfl
      · dsimp only
        split
        · rw [List.foldl_cons, List.foldl_cons, List.foldl_nil, Broker.operate, Broker.operate]
        · rw [List.foldl_cons, List.foldl_nil, Broker.operate]

namespace Hub

/-! ### Events -/

/-- What can happen to a broker from one run to the next. -/
inductive Event where
  | act (a : Action)
  /-- The broker stops, and another one goes on from its snapshot, with options of its own. -/
  | restart (options : BrokerOptions)

def advance (h : Hub) : Event → Hub
  | .act a => h.step a
  | .restart options => start (h.broker.restart options)

def course (h : Hub) (events : List Event) : Hub := events.foldl advance h

/-- What an event does to the broker. -/
def operations (h : Hub) : Event → List Broker.Operation
  | .act (.receive token now bytes) =>
    match h.connections[token]? with
    | none => []
    | some c => Connection.operations now c.decoder.maxPacketSize c.decoder.state c.peer h.broker bytes
  | .act (.teardown token reason) =>
    match h.connections[token]? with
    | none => []
    | some c => c.farewell reason
  | .act (.publish origin m) => [.publish origin m]
  | .act (.accept _ _ _) | .act (.written _ _) => []
  | .restart options => [.restart options]

/-- There is nothing else that an event does to the broker. -/
theorem foldl_operations (h : Hub) (e : Event) :
    (h.operations e).foldl Broker.operate h.broker = (h.advance e).broker := by
  cases e with
  | act a =>
    cases a with
    | accept token limits now =>
      rw [advance, step, accept]
      split <;> rfl
    | receive token now bytes =>
      rw [operations, advance, step, receive]
      rcases h.connections[token]? with _ | c
      · rfl
      · dsimp only
        rw [broker_dispatch, broker_setConnection, Connection.foldl_operate _ _ _ _ _ _ #[],
          Connection.handleBytes]
    | teardown token reason =>
      rw [operations, advance, step, teardown]
      rcases h.connections[token]? with _ | c
      · rfl
      · dsimp only
        rw [broker_dispatch, broker_setConnection, Connection.foldl_farewell]
    | written token count =>
      rw [advance, step, written]
      split <;> rfl
    | publish origin m =>
      rw [operations, advance, step, publish, broker_dispatch, List.foldl_cons, List.foldl_nil, Broker.operate]
  | restart options => rfl

/-- The moments of a course of events. -/
def moments (h : Hub) : List Event → List Broker.Moment
  | [] => []
  | e :: events => h.broker.moments (h.operations e) ++ (h.advance e).moments events

theorem course_append (h : Hub) (before after : List Event) :
    h.course (before ++ after) = (h.course before).course after := List.foldl_append

theorem moments_append (h : Hub) (before after : List Event) :
    h.moments (before ++ after) = h.moments before ++ (h.course before).moments after := by
  induction before generalizing h with
  | nil => rfl
  | cons e before ih =>
    rw [List.cons_append, moments, moments, ih, List.append_assoc]
    rfl

end Hub

/-! ### What every course of events keeps -/

section Keeping

variable {σ : Type} {record : σ → Broker.Moment → σ} {P : Broker → σ → Prop}

theorem Broker.moments_induction {b : Broker} {ops : List Operation} {x : σ} (hP : P b x)
    (hstep : ∀ m ∈ b.moments ops, ∀ x, P m.broker x → P (m.broker.operate m.operation) (record x m)) :
    P (ops.foldl operate b) ((b.moments ops).foldl record x) := by
  induction ops generalizing b x with
  | nil => exact hP
  | cons op ops ih =>
    have hnext : P (b.operate op) (record x ⟨b, op⟩) := hstep ⟨b, op⟩ (.head _) x hP
    exact ih hnext fun m hm => hstep m (.tail _ hm)

/-- What each operation keeps, every course of events keeps, together with what is recorded on the way. -/
theorem Hub.course_induction {h : Hub} {events : List Event} {x : σ} (hP : P h.broker x)
    (hstep : ∀ m ∈ h.moments events, ∀ x, P m.broker x → P (m.broker.operate m.operation) (record x m)) :
    P (h.course events).broker ((h.moments events).foldl record x) := by
  induction events generalizing h x with
  | nil => exact hP
  | cons e events ih =>
    have hevent := Broker.moments_induction hP fun m hm => hstep m (List.mem_append_left _ hm)
    rw [foldl_operations] at hevent
    have hrest := ih hevent fun m hm => hstep m (List.mem_append_right _ hm)
    rw [moments, List.foldl_append]
    exact hrest

/-- What each operation keeps holds at every moment of a course, with what was recorded up to there. -/
theorem Hub.course_induction_at {h : Hub} {events : List Event} {x : σ} (hP : P h.broker x)
    (hstep : ∀ m ∈ h.moments events, ∀ x, P m.broker x → P (m.broker.operate m.operation) (record x m))
    {earlier later : List Broker.Moment} {m : Broker.Moment} (hm : h.moments events = earlier ++ m :: later) :
    P m.broker (earlier.foldl record x) := by
  -- what is recorded is the past itself, so that it can be said of every moment of it
  let P' (b : Broker) (past : List Broker.Moment) : Prop :=
    P b (past.foldl record x) ∧
      ∀ earlier m later, past = earlier ++ m :: later → P m.broker (earlier.foldl record x)
  have hstart : P' h.broker [] := ⟨hP, fun earlier m later hnil => by simp at hnil⟩
  have hgrows : ∀ m ∈ h.moments events, ∀ past, P' m.broker past →
      P' (m.broker.operate m.operation) (past ++ [m]) := by
    intro m hm past hpast
    refine ⟨?_, fun earlier m' later hsplit => ?_⟩
    · rw [List.foldl_append]
      exact hstep m hm _ hpast.1
    · rcases List.eq_nil_or_concat later with rfl | ⟨later, last, rfl⟩
      · obtain ⟨rfl, hlast⟩ := List.append_inj' hsplit rfl
        cases hlast
        exact hpast.1
      · rw [List.concat_eq_append, ← List.cons_append, ← List.append_assoc] at hsplit
        exact hpast.2 earlier m' later (List.append_inj_left' hsplit rfl)
  have hpast := course_induction hstart hgrows
  have hall : (h.moments events).foldl (fun past m => past ++ [m]) [] = h.moments events := by
    rw [List.foldl_append_eq_append, List.nil_append, ← List.flatMap_def, List.flatMap_singleton']
  rw [hall] at hpast
  exact hpast.2 earlier m later hm

end Keeping

end Mqtt
