import Mqtt.Proofs.Holding
import Mqtt.Proofs.Lines
import Mqtt.Proofs.Packets
import Mqtt.Proofs.Pieces

/-!
# Connections whose deliveries wait: `Server::dispatch`

A broker lists what it has for other connections, and a server brings each delivery to its connection when it
gets to it: in any order, at any later time, and not at all once that connection is torn down. `Switchboard` is a
broker with its connections and the deliveries that wait; it writes down what was queued at connections, in
order, and which bytes each connection has had drained. Two things hold of every run: messages are what comes
through the doors (`Switchboard.Holding.run`), and the bytes of each connection are those of the packets that
were queued at it (`Switchboard.run_logged`).
-/

namespace Mqtt

/-! ### What taking in bytes makes due -/

namespace Connection

/-- What bytes of a client make due, replies to the client itself included. -/
def output (now max : Nat) (s : Decoder.State) (p : Peer) (b : Broker) (bytes : List UInt8) : List Delivery :=
  (b.moments (operations now max s p b bytes)).flatMap Broker.Moment.output

section Equations

variable {now max : Nat} {s s' : Decoder.State} {p : Peer} {b : Broker} {byte : UInt8} {bytes : List UInt8}

theorem output_nil : output now max s p b [] = [] := rfl

theorem output_of_closed (hp : p.isClosed = true) : output now max s p b bytes = [] := by
  rw [output, operations_of_closed hp]
  rfl

theorem output_cons_error {e : ProtocolError} (hp : p.isClosed = false)
    (hstep : s.step max byte = (s', .error e)) : output now max s p b (byte :: bytes) = [] := by
  rw [output, operations_cons_error hp hstep]
  rfl

theorem output_cons_none (hp : p.isClosed = false) (hstep : s.step max byte = (s', .ok none)) :
    output now max s p b (byte :: bytes) = output now max s' p b bytes := by
  rw [output, operations_cons_none hp hstep, output]

theorem output_cons_refused {packet : Packet} {r : Peer.Refusal} (hp : p.isClosed = false)
    (hstep : s.step max byte = (s', .ok (some packet)))
    (hh : Peer.handle { p with keepAlive := p.keepAlive.restart now } b now packet = .error r) :
    output now max s p b (byte :: bytes) = r.reply.toList.map p.reply := by
  rw [output, operations_cons_refused hp hstep hh, Broker.moments, List.flatMap_cons, Broker.Moment.output]
  dsimp only
  rw [hh]
  exact (List.append_nil _).trans (Peer.output_of_refused (p := { p with keepAlive := p.keepAlive.restart now }) hh)

theorem output_cons_handled {packet : Packet} {h : Peer.Handled} (hp : p.isClosed = false)
    (hstep : s.step max byte = (s', .ok (some packet)))
    (hh : Peer.handle { p with keepAlive := p.keepAlive.restart now } b now packet = .ok h) :
    output now max s p b (byte :: bytes) =
      h.output ++ output now max s' (h.peer.distribute #[] h.output).1 h.broker bytes := by
  rw [output, operations_cons_handled hp hstep hh, Broker.moments, List.flatMap_cons, Broker.operate,
    Broker.Moment.output]
  dsimp only
  rw [hh]
  rfl

end Equations

end Connection

theorem Peer.packetsFor_reply (p : Peer) (qs : List Packet) : Hub.packetsFor p.token (qs.map p.reply) = qs := by
  induction qs with
  | nil => rfl
  | cons q qs ih =>
    rw [List.map_cons, Hub.packetsFor, List.filter_cons, if_pos (by simp [reply]), List.map_cons]
    exact congrArg (q :: ·) ih

theorem Peer.othersThan_reply (p : Peer) (qs : List Packet) : Hub.othersThan p.token (qs.map p.reply) = [] := by
  simp [Hub.othersThan, reply]

/-- An accepted packet writes nothing by itself. -/
theorem Peer.outbound_of_handle {p : Peer} {b : Broker} {now : Nat} {packet : Packet} {h : Handled}
    (hh : p.handle b now packet = .ok h) : h.peer.outbound = p.outbound := by
  cases (handle_ok hh).2 <;> rfl

namespace Connection

variable {now max : Nat} {s s' : Decoder.State} {p : Peer} {b : Broker} {byte : UInt8} {bytes : List UInt8}

open Hub (packetsFor othersThan)

/-- What bytes make due is written for the client itself and listed for others. -/
theorem receive_output (now max : Nat) (bytes : List UInt8) (s : Decoder.State) (p : Peer) (b : Broker)
    (ds : Array Delivery) :
    (receive now max s p b ds bytes).deliveries.toList =
        ds.toList ++ othersThan p.token (output now max s p b bytes) ∧
      (receive now max s p b ds bytes).connection.peer.outbound.data.toList =
        p.outbound.data.toList ++ (packetsFor p.token (output now max s p b bytes)).flatMap Packet.encode := by
  have hnothing (token : Nat) : othersThan token [] = [] ∧ packetsFor token [] = [] := ⟨rfl, rfl⟩
  induction s, p, b, bytes using bytes_induction now max generalizing ds with
  | nil s p b => simp [receive, output_nil, hnothing]
  | closed s p b bytes hclosed => simp [receive_of_closed hclosed, output_of_closed hclosed, hnothing]
  | broken s p b byte bytes s' e hopen hstep =>
    simp [receive_cons_error hopen hstep, output_cons_error hopen hstep, hnothing]
  | more s p b byte bytes s' hopen hstep ih =>
    rw [receive_cons_none hopen hstep, output_cons_none hopen hstep]
    exact ih ds
  | refused s p b byte bytes s' packet r hopen hstep hh =>
    rw [receive_cons_refused hopen hstep hh, output_cons_refused hopen hstep hh, p.packetsFor_reply,
      p.othersThan_reply, List.append_nil]
    exact ⟨rfl, Peer.toList_closeOn _ r⟩
  | handled s p b byte bytes s' packet h hopen hstep hh ih =>
    have htoken := Peer.token_of_handle hh
    have hwrites := Peer.outbound_of_handle hh
    rw [receive_cons_handled hopen hstep hh, output_cons_handled hopen hstep hh]
    obtain ⟨hlisted, hwritten⟩ := ih (ds ++ (othersThan h.peer.token h.output).toArray)
    rw [Peer.distribute_eq] at hlisted hwritten ⊢
    refine ⟨hlisted.trans ?_, hwritten.trans ?_⟩
    · simp [othersThan, htoken]
    · simp [toList_foldl_append, htoken, hwrites, Hub.packetsFor_append]

/-! ### What the end of a connection makes due -/

theorem fst_teardown (c : Connection) (b : Broker) (reason : CloseReason) :
    (c.teardown b reason).1 = if c.peer.tornDown then c else c.ended := by
  rw [teardown_eq]
  split
  · rfl
  · split
    · rfl
    · dsimp only
      split
      · split <;> rfl
      · rfl

/-- The end of a connection gives its client's session back, and may publish the will. -/
theorem farewell_cases (c : Connection) (reason : CloseReason) :
    c.farewell reason = [] ∨
      ∃ client, c.peer.client = some client ∧
        (c.farewell reason = [.release client.id c.peer.token] ∨
          ∃ will, client.will = some will ∧
            c.farewell reason = [.release client.id c.peer.token, .publish (some client.id) will]) := by
  unfold farewell
  cases c.peer.tornDown with
  | true => exact .inl rfl
  | false =>
    simp only [Bool.false_eq_true, if_false]
    cases hclient : c.peer.client with
    | none => exact .inl rfl
    | some client =>
      refine .inr ⟨client, rfl, ?_⟩
      dsimp only
      cases hwill : client.will with
      | none => exact .inl rfl
      | some will =>
        dsimp only
        split
        · exact .inr ⟨will, rfl, rfl⟩
        · exact .inl rfl

/-- Ending a connection makes due what its will makes due. -/
theorem output_farewell (c : Connection) (b : Broker) (reason : CloseReason) :
    (b.moments (c.farewell reason)).flatMap Broker.Moment.output = (c.teardown b reason).2.2 := by
  rw [teardown_eq]
  unfold farewell
  cases c.peer.tornDown with
  | true => rfl
  | false =>
    simp only [Bool.false_eq_true, if_false]
    rcases c.peer.client with _ | ⟨id, _ | will⟩
    · rfl
    · rfl
    · dsimp only
      by_cases hreason : reason = .ungraceful
      · simp [hreason, Broker.moments, Broker.Moment.output, Broker.operate]
      · simp [hreason, Broker.moments, Broker.Moment.output]

/-! ### What connections bring through the doors -/

/-- The connection can bring only what comes through the doors. -/
structure Minds (D : Doors) (c : Connection) : Prop where
  peer : D.Minds c.peer
  reads : c.peer.isClosed = false → c.decoder.state.Reached c.decoder.maxPacketSize

variable {D : Doors}

theorem minds_new (token : Nat) {limits : ConnectionLimits} (hlimits : D.limits limits) (now : Nat) :
    (Connection.new token limits now).Minds D :=
  ⟨⟨hlimits, fun _ hclient => (nomatch hclient)⟩, fun _ => Decoder.State.reached_start⟩

/-- Whatever bytes come, the operations that they bring come through the doors. -/
theorem Minds.receive (now : Nat) (bytes : List UInt8) (ds : Array Delivery) (hc : Minds D ⟨p, ⟨max, s⟩⟩) :
    (∀ op ∈ operations now max s p b bytes, D.Admits op) ∧
      (receive now max s p b ds bytes).connection.Minds D := by
  have hnone : ∀ op ∈ [], D.Admits op := List.forall_mem_nil _
  induction s, p, b, bytes using bytes_induction now max generalizing ds with
  | nil s p b => exact ⟨hnone, hc⟩
  | closed s p b bytes hclosed =>
    rw [operations_of_closed hclosed, receive_of_closed hclosed]
    exact ⟨hnone, hc⟩
  | broken s p b byte bytes s' e hopen hstep =>
    rw [operations_cons_error hopen hstep, receive_cons_error hopen hstep]
    exact ⟨hnone, hc.peer, Bool.noConfusion⟩
  | more s p b byte bytes s' hopen hstep ih =>
    rw [operations_cons_none hopen hstep, receive_cons_none hopen hstep]
    exact ih ds ⟨hc.peer, fun _ => (hc.reads hopen).step hstep⟩
  | refused s p b byte bytes s' packet r hopen hstep hh =>
    obtain ⟨hwell, -⟩ := (hc.reads hopen).step_packet hstep
    have hminds : D.Minds { p with keepAlive := p.keepAlive.restart now } := hc.peer
    rw [operations_cons_refused hopen hstep hh, receive_cons_refused hopen hstep hh]
    refine ⟨List.forall_mem_singleton.2 ⟨hc.peer.1, hwell⟩, ?_, fun hopen => ?_⟩
    · dsimp only
      unfold Peer.closeOn
      split <;> exact hminds
    · rw [Peer.closeOn_isClosed] at hopen
      cases hopen
  | handled s p b byte bytes s' packet h hopen hstep hh ih =>
    obtain ⟨hwell, hs'⟩ := (hc.reads hopen).step_packet hstep
    have hminds : D.Minds { p with keepAlive := p.keepAlive.restart now } := hc.peer
    have hnext : D.Minds h.peer := hminds.handle hwell hh
    have hdistributed : Minds D ⟨(h.peer.distribute #[] h.output).1, ⟨max, s'⟩⟩ := by
      rw [Peer.distribute_eq]
      exact ⟨hnext, fun _ => hs'⟩
    rw [operations_cons_handled hopen hstep hh, receive_cons_handled hopen hstep hh]
    obtain ⟨hops, hafter⟩ := ih (ds ++ (othersThan h.peer.token h.output).toArray) hdistributed
    exact ⟨List.forall_mem_cons.2 ⟨⟨hc.peer.1, hwell⟩, hops⟩, hafter⟩

theorem Minds.farewell {c : Connection} (hc : c.Minds D) {reason : CloseReason}
    (hwills : ∀ origin m, Broker.Operation.publish origin m ∈ c.farewell reason → D.will m → D.message m) :
    ∀ op ∈ c.farewell reason, D.Admits op := by
  rcases c.farewell_cases reason with hnone | ⟨client, hclient, hrelease | ⟨will, hwill, hpublish⟩⟩
  · rw [hnone]
    exact List.forall_mem_nil _
  · rw [hrelease]
    exact fun op hop => List.mem_singleton.1 hop ▸ trivial
  · rw [hpublish] at hwills ⊢
    intro op hop
    rcases List.mem_cons.1 hop with rfl | hop
    · trivial
    · obtain rfl := List.mem_singleton.1 hop
      exact hwills _ will (.tail _ (.head _)) (hc.peer.2 client hclient will hwill)

theorem Minds.teardown {c : Connection} (hc : c.Minds D) (b : Broker) (reason : CloseReason) :
    (c.teardown b reason).1.Minds D := by
  rw [fst_teardown]
  split
  · exact hc
  · refine ⟨⟨hc.peer.1, fun client hclient m hm => ?_⟩, Bool.noConfusion⟩
    rw [c.client_ended] at hclient
    obtain ⟨client', -, rfl⟩ := Option.map_eq_some_iff.1 hclient
    cases hm

end Connection

/-- Operations that come through the doors, one after the other. -/
theorem Doors.admits_foldl {D : Doors} {ops : List Broker.Operation} {b : Broker} (hops : ∀ op ∈ ops, D.Admits op)
    (hb : b.Holds D.message) :
    (ops.foldl Broker.operate b).Holds D.message ∧
      ∀ d ∈ (b.moments ops).flatMap Broker.Moment.output, d.packet.Told D.message := by
  induction ops generalizing b with
  | nil => exact ⟨hb, List.forall_mem_nil _⟩
  | cons op ops ih =>
    obtain ⟨hop, hops⟩ := List.forall_mem_cons.1 hops
    obtain ⟨hnext, htold⟩ := D.admits_operate (m := ⟨b, op⟩) hop hb
    obtain ⟨hlast, htolds⟩ := ih hops hnext
    rw [Broker.moments, List.flatMap_cons]
    exact ⟨hlast, List.forall_mem_append.2 ⟨htold, htolds⟩⟩

/-! ### The switchboard -/

/-- A broker with its connections, and deliveries on their way. -/
structure Switchboard where
  hub : Hub
  /-- What was listed for connections and not brought to them yet. -/
  waiting : List Delivery
  /-- Everything that was queued at connections, in order. -/
  sent : List Delivery
  /-- The bytes that a connection has had drained. -/
  drained : Nat → List UInt8

namespace Switchboard

/-- What can happen. -/
inductive Action where
  /-- A stream was opened. -/
  | accept (token : Nat) (limits : ConnectionLimits) (now : Nat)
  /-- A client's stream brought bytes, whatever they are. -/
  | receive (token now : Nat) (bytes : List UInt8)
  /-- A connection ends, for whatever reason. -/
  | teardown (token : Nat) (reason : CloseReason)
  /-- Bytes were written to a client. -/
  | written (token count : Nat)
  /-- One of the deliveries that wait, whichever it is, is brought to its connection. -/
  | dispatch (i : Nat)

/-- A broker that nobody has connected to. -/
def around (b : Broker) : Switchboard := ⟨.start b, [], [], fun _ => []⟩

/-- A broker that is new, and nobody has connected to. -/
def start (options : BrokerOptions) : Switchboard := around (.new options)

/-- What is still to be written to a client. -/
def pending (w : Switchboard) (token : Nat) : List UInt8 :=
  (w.hub.connections[token]?).elim [] fun c => c.peer.outbound.data.toList

/-- What is done to the broker. -/
def operations (w : Switchboard) : Action → List Broker.Operation
  | .receive token now bytes => w.hub.operations (.act (.receive token now bytes))
  | .teardown token reason => w.hub.operations (.act (.teardown token reason))
  | .accept _ _ _ | .written _ _ | .dispatch _ => []

/-- A connection changes, and the broker with it. Deliveries are queued at the connection, and these wait. -/
def change (w : Switchboard) (token : Nat) (c : Connection) (b : Broker) (queued waiting : List Delivery) :
    Switchboard :=
  { w with
    hub := ({ w.hub with broker := b } : Hub).setConnection token c
    waiting
    sent := w.sent ++ queued }

/-- A new connection, unless the token is taken. -/
def accept (w : Switchboard) (token : Nat) (limits : ConnectionLimits) (now : Nat) : Switchboard :=
  match w.hub.connections[token]? with
  | none => w.change token (.new token limits now) w.hub.broker [] w.waiting
  | some _ => w

/-- Bytes are taken in. What they make due for the client itself is queued, the rest waits. -/
def receive (w : Switchboard) (token now : Nat) (bytes : List UInt8) : Switchboard :=
  match w.hub.connections[token]? with
  | none => w
  | some c =>
    let r := c.handleBytes w.hub.broker now bytes
    let due := Connection.output now c.decoder.maxPacketSize c.decoder.state c.peer w.hub.broker bytes
    w.change token r.connection r.broker (due.filter (·.token = token)) (w.waiting ++ r.deliveries.toList)

def teardown (w : Switchboard) (token : Nat) (reason : CloseReason) : Switchboard :=
  match w.hub.connections[token]? with
  | none => w
  | some c =>
    let r := c.teardown w.hub.broker reason
    w.change token r.1 r.2.1 [] (w.waiting ++ r.2.2)

def written (w : Switchboard) (token count : Nat) : Switchboard :=
  match w.hub.connections[token]? with
  | none => w
  | some c =>
    { w.change token (c.consume count) w.hub.broker [] w.waiting with
      drained := fun t => if t = token then w.drained t ++ (w.pending t).take count else w.drained t }

/-- A delivery is queued at its connection; one for a connection that is torn down, or was never made, is
dropped. -/
def dispatch (w : Switchboard) (i : Nat) : Switchboard :=
  match w.waiting[i]? with
  | none => w
  | some d =>
    match w.hub.connections[d.token]? with
    | none => { w with waiting := w.waiting.eraseIdx i }
    | some c =>
      if c.peer.tornDown then { w with waiting := w.waiting.eraseIdx i }
      else w.change d.token (c.send d.packet) w.hub.broker [d] (w.waiting.eraseIdx i)

def step (w : Switchboard) : Action → Switchboard
  | .accept token limits now => w.accept token limits now
  | .receive token now bytes => w.receive token now bytes
  | .teardown token reason => w.teardown token reason
  | .written token count => w.written token count
  | .dispatch i => w.dispatch i

def run (w : Switchboard) (actions : List Action) : Switchboard := actions.foldl step w

/-- The wills that are published in a run. -/
def wills (w : Switchboard) : List Action → List Message
  | [] => []
  | a :: actions =>
    (w.operations a).filterMap (fun | .publish _ m => some m | _ => none) ++ (w.step a).wills actions

/-- All connections of a run have limits of a kind. -/
def Action.Within (P : ConnectionLimits → Prop) : Action → Prop
  | .accept _ limits _ => P limits
  | _ => True

variable {w : Switchboard} {token : Nat} {c : Connection} {b : Broker} {queued waiting : List Delivery}

theorem connections_change (t : Nat) : (w.change token c b queued waiting).hub.connections[t]? =
    if token = t then some c else w.hub.connections[t]? := by
  rw [change, Hub.connections_setConnection]

theorem connections_change_self : (w.change token c b queued waiting).hub.connections[token]? = some c := by
  rw [connections_change, if_pos rfl]

theorem connections_change_of_ne {t : Nat} (ht : t ≠ token) :
    (w.change token c b queued waiting).hub.connections[t]? = w.hub.connections[t]? := by
  rw [connections_change, if_neg (Ne.symm ht)]

theorem packetsFor_change (t : Nat) : Hub.packetsFor t (w.change token c b queued waiting).sent =
    Hub.packetsFor t w.sent ++ Hub.packetsFor t queued :=
  Hub.packetsFor_append t w.sent queued

/-- What is queued at one connection is nothing to another. -/
theorem packetsFor_change_of_ne (hqueued : ∀ d ∈ queued, d.token = token) {t : Nat} (ht : t ≠ token) :
    Hub.packetsFor t (w.change token c b queued waiting).sent = Hub.packetsFor t w.sent := by
  have hnone : Hub.packetsFor t queued = [] :=
    Hub.packetsFor_of_ne fun d hd hmine => ht (hmine.symm.trans (hqueued d hd))
  rw [packetsFor_change, hnone, List.append_nil]

/-! ### Messages on their way -/

/-- Everything inside came through the doors, and so did everything on its way out. -/
structure Holding (D : Doors) (w : Switchboard) : Prop where
  broker : w.hub.broker.Holds D.message
  connections : ∀ (t : Nat) (c : Connection), w.hub.connections[t]? = some c → c.Minds D
  sent : ∀ d ∈ w.sent, d.packet.Told D.message
  waiting : ∀ d ∈ w.waiting, d.packet.Told D.message

variable {D : Doors}

theorem holding_start (options : BrokerOptions) : (start options).Holding D :=
  ⟨Broker.holds_new options, fun t c hc => by simp [start, around, Hub.start] at hc, List.forall_mem_nil _,
    List.forall_mem_nil _⟩

namespace Holding

theorem change (hw : w.Holding D) (hb : b.Holds D.message) (hc : c.Minds D)
    (hqueued : ∀ d ∈ queued, d.packet.Told D.message) (hwaiting : ∀ d ∈ waiting, d.packet.Told D.message) :
    (w.change token c b queued waiting).Holding D := by
  refine ⟨hb, fun t c' hc' => ?_, List.forall_mem_append.2 ⟨hw.sent, hqueued⟩, hwaiting⟩
  rw [connections_change] at hc'
  split at hc'
  · cases hc'
    exact hc
  · exact hw.connections t c' hc'

theorem accept (hw : w.Holding D) (token : Nat) {limits : ConnectionLimits} (hlimits : D.limits limits) (now : Nat) :
    (w.accept token limits now).Holding D := by
  unfold Switchboard.accept
  split
  · exact hw.change hw.broker (Connection.minds_new token hlimits now) (List.forall_mem_nil _) hw.waiting
  · exact hw

theorem receive (hw : w.Holding D) (token now : Nat) (bytes : List UInt8) :
    (w.receive token now bytes).Holding D := by
  unfold Switchboard.receive
  split
  · exact hw
  · next c hc =>
    obtain ⟨hops, hafter⟩ := (hw.connections token c hc).receive now bytes #[] (b := w.hub.broker)
    obtain ⟨hb, htold⟩ := Doors.admits_foldl hops hw.broker
    rw [Connection.foldl_operate _ _ _ _ _ _ #[]] at hb
    have hlisted := (Connection.receive_output now c.decoder.maxPacketSize bytes c.decoder.state c.peer
      w.hub.broker #[]).1
    refine hw.change hb hafter (fun d hd => htold d (List.mem_filter.1 hd).1)
      (List.forall_mem_append.2 ⟨hw.waiting, fun d hd => ?_⟩)
    rw [Connection.handleBytes, hlisted] at hd
    exact htold d (List.mem_filter.1 hd).1

theorem teardown (hw : w.Holding D) (token : Nat) (reason : CloseReason)
    (hwills : ∀ origin m, .publish origin m ∈ w.operations (.teardown token reason) → D.will m → D.message m) :
    (w.teardown token reason).Holding D := by
  unfold Switchboard.teardown
  rw [operations, Hub.operations] at hwills
  split
  · exact hw
  · next c hc =>
    rw [hc] at hwills
    have hminds := hw.connections token c hc
    obtain ⟨hb, htold⟩ := Doors.admits_foldl (hminds.farewell hwills) hw.broker
    rw [Connection.foldl_farewell] at hb
    rw [Connection.output_farewell] at htold
    exact hw.change hb (hminds.teardown w.hub.broker reason) (List.forall_mem_nil _)
      (List.forall_mem_append.2 ⟨hw.waiting, htold⟩)

theorem written (hw : w.Holding D) (token count : Nat) : (w.written token count).Holding D := by
  unfold Switchboard.written
  split
  · exact hw
  · next c hc =>
    have hminds := hw.connections token c hc
    have hconsumed : (c.consume count).Minds D := ⟨hminds.peer, hminds.reads⟩
    have hsame : (w.change token (c.consume count) w.hub.broker [] w.waiting).Holding D :=
      hw.change hw.broker hconsumed (List.forall_mem_nil _) hw.waiting
    exact ⟨hsame.broker, hsame.connections, hsame.sent, hsame.waiting⟩

theorem dispatch (hw : w.Holding D) (i : Nat) : (w.dispatch i).Holding D := by
  have hrest : ∀ d ∈ w.waiting.eraseIdx i, d.packet.Told D.message :=
    fun d hd => hw.waiting d (List.mem_of_mem_eraseIdx hd)
  have hdropped : ({ w with waiting := w.waiting.eraseIdx i } : Switchboard).Holding D :=
    ⟨hw.broker, hw.connections, hw.sent, hrest⟩
  unfold Switchboard.dispatch
  split
  · exact hw
  · next d hd =>
    split
    · exact hdropped
    · next c hc =>
      have hminds := hw.connections d.token c hc
      have hsent : (c.send d.packet).Minds D := ⟨hminds.peer, hminds.reads⟩
      split
      · exact hdropped
      · exact hw.change hw.broker hsent (List.forall_mem_singleton.2 (hw.waiting d (List.mem_of_getElem? hd))) hrest

/-- One action lets nothing in but through the doors. -/
theorem step (hw : w.Holding D) {a : Action} (ha : a.Within D.limits)
    (hwills : ∀ origin m, .publish origin m ∈ w.operations a → D.will m → D.message m) :
    (w.step a).Holding D := by
  cases a with
  | accept token limits now => exact hw.accept token ha now
  | receive token now bytes => exact hw.receive token now bytes
  | teardown token reason => exact hw.teardown token reason hwills
  | written token count => exact hw.written token count
  | dispatch i => exact hw.dispatch i

/-- **Nothing gets in but through the doors**, whatever happens, in every order. -/
theorem run (hw : w.Holding D) {actions : List Action} (hactions : ∀ a ∈ actions, a.Within D.limits)
    (hwills : ∀ m ∈ w.wills actions, D.will m → D.message m) : (w.run actions).Holding D := by
  induction actions generalizing w with
  | nil => exact hw
  | cons a actions ih =>
    obtain ⟨ha, hactions⟩ := List.forall_mem_cons.1 hactions
    rw [wills] at hwills
    obtain ⟨hfirst, hrest⟩ := List.forall_mem_append.1 hwills
    refine ih (hw.step ha fun origin m hm => hfirst m ?_) hactions hrest
    exact List.mem_filterMap.2 ⟨_, hm, rfl⟩

end Holding

/-! ### Who owns what -/

theorem owned_around {b : Broker} (hb : b.Initial) : (around b).hub.Owned := hb.owned

theorem owned_step (ho : w.hub.Owned) (a : Action) : (w.step a).hub.Owned := by
  cases a with
  | accept token limits now =>
    have haccepted := ho.accept token limits now
    unfold Hub.accept at haccepted
    unfold step accept
    dsimp only
    split
    · next hc =>
      rw [hc] at haccepted
      exact haccepted
    · exact ho
  | receive token now bytes =>
    unfold step receive
    dsimp only
    split
    · exact ho
    · next hc => exact ho.handled hc now bytes
  | teardown token reason =>
    unfold step teardown
    dsimp only
    split
    · exact ho
    · next hc => exact ho.ended hc reason
  | written token count =>
    have hwritten := ho.written token count
    unfold Hub.written at hwritten
    unfold step written
    dsimp only
    split
    · exact ho
    · next hc =>
      rw [hc] at hwritten
      exact hwritten
  | dispatch i =>
    unfold step dispatch
    dsimp only
    split
    · exact ho
    · next d _ =>
      split
      · exact ho
      · next c hc =>
        split
        · exact ho
        · have hqueued : (w.hub.enqueue d).Owned := ho.dispatch [d]
          rw [Hub.enqueue, hc] at hqueued
          exact hqueued

/-! ### Bytes on their way -/

/-- What a client gets, drained or not, is what was queued at its connection, one packet behind the other. -/
def Logged (w : Switchboard) : Prop :=
  ∀ t, w.drained t ++ w.pending t = (Hub.packetsFor t w.sent).flatMap Packet.encode

theorem logged_around (b : Broker) : (around b).Logged := fun t => by
  simp [around, pending, Hub.start, Hub.packetsFor]

/-- What is picked out for one connection is nothing for another. -/
theorem packetsFor_filter (t token : Nat) (ds : List Delivery) :
    Hub.packetsFor t (ds.filter (·.token = token)) = if token = t then Hub.packetsFor t ds else [] := by
  rw [Hub.packetsFor, List.filter_filter]
  split
  · next h =>
    subst h
    simp [Hub.packetsFor]
  · next h =>
    rw [List.map_eq_nil_iff, List.filter_eq_nil_iff]
    rintro d - hboth
    obtain ⟨ht, htoken⟩ := by simpa using hboth
    exact h (htoken.symm.trans ht)

theorem outbound_teardown (c : Connection) (b : Broker) (reason : CloseReason) :
    (c.teardown b reason).1.peer.outbound = c.peer.outbound := by
  rw [Connection.fst_teardown]
  split <;> rfl

namespace Logged

/-- What is queued at a connection is what the connection has more to write. -/
theorem change (hw : w.Logged) (hqueued : ∀ d ∈ queued, d.token = token)
    (hbytes : c.peer.outbound.data.toList =
      w.pending token ++ (Hub.packetsFor token queued).flatMap Packet.encode) :
    (w.change token c b queued waiting).Logged := by
  intro t
  have hlog := hw t
  by_cases ht : t = token
  · subst ht
    rw [pending, connections_change_self, Option.elim_some, hbytes, packetsFor_change, List.flatMap_append, ← hlog,
      List.append_assoc]
    rfl
  · rw [pending, connections_change_of_ne ht, packetsFor_change_of_ne hqueued ht]
    exact hlog

theorem accept (hw : w.Logged) (token : Nat) (limits : ConnectionLimits) (now : Nat) :
    (w.accept token limits now).Logged := by
  unfold Switchboard.accept
  split
  · next hc => exact hw.change (List.forall_mem_nil _) (by simp [pending, hc, Hub.packetsFor, Connection.new])
  · exact hw

theorem receive (hw : w.Logged) (ho : w.hub.Owned) (token now : Nat) (bytes : List UInt8) :
    (w.receive token now bytes).Logged := by
  unfold Switchboard.receive
  split
  · exact hw
  · next c hc =>
    have htoken : c.peer.token = token := (ho.settled hc).1
    have hwritten := (Connection.receive_output now c.decoder.maxPacketSize bytes c.decoder.state c.peer
      w.hub.broker #[]).2
    refine hw.change (fun d hd => by simpa using (List.mem_filter.1 hd).2) ?_
    rw [packetsFor_filter, if_pos rfl, pending, hc, Option.elim_some, ← htoken]
    exact hwritten

theorem teardown (hw : w.Logged) (token : Nat) (reason : CloseReason) : (w.teardown token reason).Logged := by
  unfold Switchboard.teardown
  split
  · exact hw
  · next c hc =>
    exact hw.change (List.forall_mem_nil _) (by simp [pending, hc, Hub.packetsFor, outbound_teardown])

theorem written (hw : w.Logged) (token count : Nat) : (w.written token count).Logged := by
  unfold Switchboard.written
  split
  · exact hw
  · next c hc =>
    intro t
    have hlog := hw t
    by_cases ht : t = token
    · subst ht
      have hrest : (c.consume count).peer.outbound.data.toList = c.peer.outbound.data.toList.drop count :=
        toList_extract c.peer.outbound count
      rw [pending, hc, Option.elim_some] at hlog
      simp [pending, hc, hrest, Switchboard.change, hlog]
    · simpa [pending, Switchboard.change, ht, Ne.symm ht] using hlog

theorem dispatch (hw : w.Logged) (i : Nat) : (w.dispatch i).Logged := by
  unfold Switchboard.dispatch
  split
  · exact hw
  · next d _ =>
    split
    · exact hw
    · next c hc =>
      split
      · exact hw
      · refine hw.change (fun d' hd' => by rw [List.mem_singleton.1 hd']) ?_
        simp [pending, hc, Hub.packetsFor, Connection.send, Peer.send, Packet.toList_toBytes]

theorem step (hw : w.Logged) (ho : w.hub.Owned) (a : Action) : (w.step a).Logged := by
  cases a with
  | accept token limits now => exact hw.accept token limits now
  | receive token now bytes => exact hw.receive ho token now bytes
  | teardown token reason => exact hw.teardown token reason
  | written token count => exact hw.written token count
  | dispatch i => exact hw.dispatch i

end Logged

/-- **The bytes of a connection are those of the packets that were queued at it**, in this order. -/
theorem run_logged {b : Broker} (hb : b.Initial) (actions : List Action) : ((around b).run actions).Logged := by
  have hboth (w : Switchboard) (ho : w.hub.Owned) (hw : w.Logged) : (w.run actions).Logged := by
    induction actions generalizing w with
    | nil => exact hw
    | cons a actions ih => exact ih (w.step a) (owned_step ho a) (hw.step ho a)
  exact hboth _ (owned_around hb) (logged_around b)

end Switchboard

end Mqtt
