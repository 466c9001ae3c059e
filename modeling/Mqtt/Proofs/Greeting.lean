import Mqtt.Proofs.Switchboard

/-!
# A client is greeted first, and once: `Connection::handle_packet`

The first packet that is written to a client answers its CONNECT, and no other does. Replies are written when a
packet is handled, so their order is that of the handlers; deliveries of other connections may be written at any
later time, but they are made only for the owners of sessions (`Broker.Due`), and whoever owns a session was
accepted before. Main statement: what a connection is sent is nothing, or a refusal alone, or an acceptance and
then no further answer to a CONNECT, and no delivery is made for a connection that was not accepted or is torn
down (`Switchboard.run_greets`).
-/

namespace Mqtt

/-! ### Whom deliveries are for -/

namespace Broker

/-- A delivery is no answer to a CONNECT, and is for the owner of a session. -/
structure Due (b : Broker) (d : Delivery) : Prop where
  plain : d.packet.type ≠ .connack
  owner : ∃ client clean, b.hold? client = some (some d.token, clean)

variable {b b' : Broker} {d : Delivery}

theorem Due.congr (h : b.Due d) (hhold : ∀ client, b'.hold? client = b.hold? client) : b'.Due d := by
  obtain ⟨hplain, client, clean, howner⟩ := h
  exact ⟨hplain, client, clean, (hhold client).trans howner⟩

theorem Sends.due {M : Message → Prop} {ds : List Delivery} (h : Sends M b ds b') : ∀ d ∈ ds, b'.Due d := by
  intro d hd
  cases h.delivered d hd with
  | publish q retain howner _ _ =>
    exact ⟨PacketType.noConfusion, _, _, (h.frame.hold _).trans howner⟩

theorem publish_due (b : Broker) (origin : Option String) (m : Message) :
    ∀ d ∈ (b.publish origin m).1, (b.publish origin m).2.Due d :=
  (b.publish_sends (M := fun _ => True) origin trivial).due

theorem subscribe_due (b : Broker) (client filter : String) (q : QoS) :
    ∀ d ∈ (b.subscribe client filter q).2.1, (b.subscribe client filter q).2.2.Due d := by
  unfold subscribe
  split
  · exact List.forall_mem_nil _
  · have hsends := replayRetained_sends (M := fun _ => True)
      (b := { b with subscriptions := (b.subscriptions.subscribe filter client (min q b.options.maxQoS)).2 })
      (RetainTree.only_of_forall fun _ => trivial) client filter (min q b.options.maxQoS)
    exact hsends.due

theorem subscribeAll_due (client : String) (topics : List TopicRequest) (b : Broker) :
    ∀ d ∈ (Peer.subscribeAll b client topics).2.1, (Peer.subscribeAll b client topics).2.2.Due d := by
  induction topics generalizing b with
  | nil => exact List.forall_mem_nil _
  | cons t ts ih =>
    intro d hd
    rcases List.mem_append.1 hd with hd | hd
    · exact (subscribe_due b client t.filter t.qos d hd).congr (subscribeAll_serving client ts _).hold
    · exact ih _ d hd

/-- What brings a client up to date is for the connection that has its session. -/
theorem restartSession_due {client : String} {s : Session} {token : Nat} (hs : b.session? client = some s)
    (howner : s.owner = some token) : ∀ d ∈ (b.restartSession client).1, (b.restartSession client).2.Due d := by
  obtain ⟨ds, hds, hsends⟩ := restartSession_sends (M := fun _ => True)
    (RetainTree.only_of_forall fun _ => trivial) hs howner fun _ _ => trivial
  intro d hd
  rw [hds, List.mem_append] at hd
  rcases hd with hd | hd
  · exact hsends.due d hd
  · obtain ⟨p, hp, rfl⟩ := List.mem_map.1 hd
    refine ⟨?_, client, s.cleanSession, ?_⟩
    · rcases Exchange.mem_resend hp with ⟨id, m, -, rfl⟩ | ⟨id, -, rfl⟩ <;> exact PacketType.noConfusion
    · rw [(restartSession_frame hs howner).hold]
      exact hold?_eq_some_iff.2 ⟨s, hs, howner, rfl⟩

end Broker

/-! ### Answers -/

theorem Inflight.Takes.plain {s inflight : Inflight} {publish : Publish} {arrival : Arrival}
    (h : s.Takes publish arrival inflight) : ∀ q ∈ arrival.reply, q.type ≠ .connack := by
  intro q hq
  cases h <;> cases hq <;> exact PacketType.noConfusion

theorem Inflight.Acks.plain {s inflight : Inflight} {packet : Packet} {reply : Option Packet}
    (h : s.Acks packet reply inflight) : ∀ q ∈ reply, q.type ≠ .connack := by
  intro q hq
  cases h <;> cases hq <;> exact PacketType.noConfusion

namespace Peer

open Broker

variable {p : Peer} {b : Broker} {now : Nat} {packet : Packet} {h : Handled}

/-- The acceptance of a CONNECT is the first thing its sender is told, and the only one of its kind. -/
theorem Accepts.due (ha : Accepts p b now packet h) :
    (p.client = none ∧ h.peer.client.isSome = true ∧ ∃ present ds,
        h.output = p.reply (.connack present .accepted) :: ds ∧ ∀ d ∈ ds, h.broker.Due d) ∨
      (p.client.isSome = true ∧ h.peer.client.isSome = true ∧
        ∀ d ∈ h.output, (∃ q, d = p.reply q ∧ q.type ≠ .connack) ∨ h.broker.Due d) := by
  have hsome {client : AcceptedClient} (hp : p.client = some client) : p.client.isSome = true := by rw [hp]; rfl
  have hreplies {reply : Option Packet} (h : ∀ q ∈ reply, q.type ≠ .connack) (b : Broker) :
      ∀ d ∈ reply.toList.map p.reply, (∃ q, d = p.reply q ∧ q.type ≠ .connack) ∨ b.Due d := by
    intro d hd
    obtain ⟨q, hq, rfl⟩ := List.mem_map.1 hd
    exact .inl ⟨q, rfl, h q (Option.mem_toList.1 hq)⟩
  have hreply {q : Packet} (hq : q.type ≠ .connack) (b : Broker) :
      ∀ d ∈ [p.reply q], (∃ q, d = p.reply q ∧ q.type ≠ .connack) ∨ b.Due d :=
    fun d hd => .inl ⟨q, List.mem_singleton.1 hd, hq⟩
  cases ha with
  | fresh hp => exact .inl ⟨hp, rfl, false, [], rfl, List.forall_mem_nil _⟩
  | @resumed c s hp _ _ hs _ =>
    have hmine : (b.setSession c.clientId (s.renew p.token)).session? c.clientId = some (s.renew p.token) := by simp
    exact .inl ⟨hp, rfl, true, _, rfl, restartSession_due hmine rfl⟩
  | @routed client s publish reply inflight hp hs htakes =>
    have hdue := publish_due (b.setSession client.id { s with inflight }) (some client.id) publish.message
    dsimp only
    refine .inr ⟨hsome hp, hsome hp, List.forall_mem_append.2 ⟨hreplies htakes.plain _, ?_⟩⟩
    exact fun d hd => .inr (hdue d hd)
  | repeated hp _ htakes => exact .inr ⟨hsome hp, hsome hp, hreplies htakes.plain _⟩
  | acknowledged hp _ hacks => exact .inr ⟨hsome hp, hsome hp, hreplies hacks.plain _⟩
  | @subscribed client id topics hp =>
    refine .inr ⟨hsome hp, hsome hp, List.forall_mem_cons.2 ⟨.inl ⟨_, rfl, PacketType.noConfusion⟩, ?_⟩⟩
    exact fun d hd => .inr (subscribeAll_due client.id topics b d hd)
  | unsubscribed hp => exact .inr ⟨hsome hp, hsome hp, hreply PacketType.noConfusion _⟩
  | pinged hp => exact .inr ⟨hsome hp, hsome hp, hreply PacketType.noConfusion _⟩
  | left hp =>
    refine .inr ⟨hsome hp, ?_, List.forall_mem_nil _⟩
    rw [isSome_client_handleDisconnect]
    exact hsome hp

/-- Only a client that was not accepted is told of a refusal. -/
theorem client_of_refused {r : Refusal} (hr : p.handle b now packet = .error r) {q : Packet} (hq : r.reply = some q) :
    p.client = none := by
  cases handle_rejects hr with
  | silently => cases hq
  | turnedDown hp => exact hp

/-! ### What a client has been told -/

/-- Nothing, or a refusal alone, or an acceptance and then no further answer to a CONNECT. -/
inductive Heard (p : Peer) : List Packet → Prop
  | nothing : p.client = none → Heard p []
  | refused {code : ConnackCode} : p.client = none → p.isClosed = true → code ≠ .accepted →
      Heard p [.connack false code]
  | accepted {present : Bool} {rest : List Packet} : p.client.isSome = true → (∀ q ∈ rest, q.type ≠ .connack) →
      Heard p (.connack present .accepted :: rest)

namespace Heard

variable {p' : Peer} {log : List Packet}

/-- A connection may be closed, and its will forgotten. -/
theorem congr (hp : p.Heard log) (hclient : p'.client.isSome = p.client.isSome)
    (hclosed : p.isClosed = true → p'.isClosed = true) : p'.Heard log := by
  have hnone (h : p.client = none) : p'.client = none := by
    rw [h] at hclient
    exact Option.not_isSome_iff_eq_none.1 (by simp [hclient])
  cases hp with
  | nothing h => exact .nothing (hnone h)
  | refused h hc hcode => exact .refused (hnone h) (hclosed hc) hcode
  | accepted h hrest => exact .accepted (hclient.trans h) hrest

theorem distribute (hp : p.Heard log) (others : Array Delivery) (output : List Delivery) :
    (p.distribute others output).1.Heard log := by
  rw [distribute_eq]
  exact hp.congr rfl id

theorem nil_of_open (hp : p.Heard log) (hclient : p.client = none) (hopen : p.isClosed = false) : log = [] := by
  cases hp with
  | nothing => rfl
  | refused _ hclosed =>
    rw [hopen] at hclosed
    cases hclosed
  | accepted hsome =>
    rw [hclient] at hsome
    cases hsome

/-- One that was accepted may be told anything but an answer to another CONNECT. -/
theorem append (hp : p.Heard log) (hclient : p.client.isSome = true) {ps : List Packet}
    (hps : ∀ q ∈ ps, q.type ≠ .connack) : p.Heard (log ++ ps) := by
  cases hp with
  | nothing h | refused h =>
    rw [h] at hclient
    cases hclient
  | accepted _ hrest => exact .accepted hclient (List.forall_mem_append.2 ⟨hrest, hps⟩)

/-- Who was accepted once stays accepted, whatever is told besides. -/
theorem isSome_of_append (hp : p.Heard log) (hclient : p.client.isSome = true) {ps : List Packet}
    (hp' : p'.Heard (log ++ ps)) : p'.client.isSome = true := by
  cases hp with
  | nothing h | refused h =>
    rw [h] at hclient
    cases hclient
  | @accepted present rest _ _ =>
    generalize hlog : Packet.connack present .accepted :: rest ++ ps = log' at hp'
    cases hp' with
    | nothing => cases hlog
    | refused _ _ hcode =>
      obtain ⟨hhead, -⟩ := List.cons.inj hlog
      exact absurd (Packet.connack.inj hhead).2.symm hcode
    | accepted hsome => exact hsome

/-- A packet that is refused tells its sender nothing, or why its CONNECT was turned down. -/
theorem closeOn (hp : p.Heard log) (hopen : p.isClosed = false) {r : Refusal}
    (hr : p.handle b now packet = .error r) : (p.closeOn r).Heard (log ++ r.reply.toList) := by
  unfold Peer.closeOn
  cases hq : r.reply with
  | none =>
    rw [Option.toList_none, List.append_nil]
    exact hp.congr rfl fun _ => rfl
  | some q =>
    have hnone := client_of_refused hr hq
    obtain ⟨code, hcode, rfl⟩ := handle_reply hr hq
    rw [hp.nil_of_open hnone hopen]
    exact .refused hnone rfl hcode

/-- A packet that is accepted tells its sender that it was, if it is a CONNECT, and otherwise no such thing. -/
theorem handled (hp : p.Heard log) (hopen : p.isClosed = false) (hh : p.handle b now packet = .ok h) :
    h.peer.Heard (log ++ Hub.packetsFor p.token h.output) ∧
      ∀ d ∈ h.output, d.token ≠ p.token → h.broker.Due d := by
  have hplain {ds : List Delivery} (hds : ∀ d ∈ ds, d.packet.type ≠ .connack) :
      ∀ q ∈ Hub.packetsFor p.token ds, q.type ≠ .connack := by
    intro q hq
    obtain ⟨d, hd, rfl⟩ := List.mem_map.1 hq
    exact hds d (List.mem_filter.1 hd).1
  rcases (handle_ok hh).2.due with ⟨hnone, hsome, present, ds, houtput, hds⟩ | ⟨hsome, hsome', houtput⟩
  · have hfirst : Hub.packetsFor p.token h.output = .connack present .accepted :: Hub.packetsFor p.token ds := by
      rw [houtput, Hub.packetsFor, List.filter_cons, if_pos (by simp [reply])]
      rfl
    rw [hfirst, hp.nil_of_open hnone hopen, List.nil_append, houtput]
    refine ⟨.accepted hsome (hplain fun d hd => (hds d hd).plain), fun d hd hother => ?_⟩
    rcases List.mem_cons.1 hd with rfl | hd
    · exact absurd rfl hother
    · exact hds d hd
  · have hsame : h.peer.Heard log := hp.congr (hsome'.trans hsome.symm) fun hclosed => by
      rw [hopen] at hclosed
      cases hclosed
    refine ⟨hsame.append hsome' (hplain fun d hd => ?_), fun d hd hother => ?_⟩
    · rcases houtput d hd with ⟨q, rfl, hq⟩ | hdue
      · exact hq
      · exact hdue.plain
    · rcases houtput d hd with ⟨q, rfl, -⟩ | hdue
      · exact absurd rfl hother
      · exact hdue

end Heard

end Peer

/-! ### Bytes of one connection -/

/-- A delivery that is no answer to a CONNECT, for a connection that is accepted and not torn down. -/
def Standing.Awaits (who : Nat → Option Standing) (d : Delivery) : Prop :=
  d.packet.type ≠ .connack ∧ ∃ s client, who d.token = some s ∧ s.Serves client

namespace Connection

variable {who : Nat → Option Standing} {b : Broker} {c : Connection}

/-- The owner of a session, if it is not the connection itself, is another one that is accepted. -/
theorem Settled.awaits (hset : c.Settled who b) {d : Delivery} (hdue : b.Due d) (hother : d.token ≠ c.peer.token) :
    Standing.Awaits who d := by
  obtain ⟨hplain, client, howner⟩ := hdue
  obtain ⟨s, hs, hserves⟩ := (hset.owned.owner client d.token).1 howner
  rw [Broker.seat_of_ne _ hother] at hs
  exact ⟨hplain, s, client, hs, hserves⟩

/-- Bytes of a client tell it no more than they may, and make deliveries only for connections that are
accepted. -/
theorem Settled.receive_heard {max : Nat} (now : Nat) (bytes : List UInt8) (ds : Array Delivery) {s : Decoder.State}
    {p : Peer} {log : List Packet} (hset : Settled who ⟨p, ⟨max, s⟩⟩ b) (hp : p.Heard log) :
    (receive now max s p b ds bytes).connection.peer.Heard
        (log ++ Hub.packetsFor p.token (output now max s p b bytes)) ∧
      ∀ d ∈ output now max s p b bytes, d.token ≠ p.token → Standing.Awaits who d := by
  have hnothing (token : Nat) (log : List Packet) : log ++ Hub.packetsFor token [] = log := List.append_nil log
  have hsound (byte : UInt8) {s : Decoder.State} {p : Peer} {b : Broker} (hset : Settled who ⟨p, ⟨max, s⟩⟩ b) :
      (s.step max byte).1.Sound := (Decoder.State.step_sound hset.proper.sound byte).1
  induction s, p, b, bytes using bytes_induction now max generalizing ds log with
  | nil s p b =>
    rw [output_nil, hnothing]
    exact ⟨hp, List.forall_mem_nil _⟩
  | closed s p b bytes hclosed =>
    rw [receive_of_closed hclosed, output_of_closed hclosed, hnothing]
    exact ⟨hp, List.forall_mem_nil _⟩
  | broken s p b byte bytes s' e hopen hstep =>
    rw [receive_cons_error hopen hstep, output_cons_error hopen hstep, hnothing]
    exact ⟨hp.congr rfl fun _ => rfl, List.forall_mem_nil _⟩
  | more s p b byte bytes s' hopen hstep ih =>
    have hsound := hsound byte hset
    rw [hstep] at hsound
    rw [receive_cons_none hopen hstep, output_cons_none hopen hstep]
    exact ih ds (hset.congr rfl id hsound) hp
  | refused s p b byte bytes s' packet r hopen hstep hh =>
    have hp' : Peer.Heard { p with keepAlive := p.keepAlive.restart now } log := hp.congr rfl id
    rw [receive_cons_refused hopen hstep hh, output_cons_refused hopen hstep hh, p.packetsFor_reply]
    refine ⟨hp'.closeOn hopen hh, fun d hd hother => ?_⟩
    obtain ⟨q, -, rfl⟩ := List.mem_map.1 hd
    exact absurd rfl hother
  | handled s p b byte bytes s' packet h hopen hstep hh ih =>
    have hsound := hsound byte hset
    rw [hstep] at hsound
    have hset' : Settled who ⟨{ p with keepAlive := p.keepAlive.restart now }, ⟨max, s'⟩⟩ b :=
      hset.congr rfl id hsound
    have hp' : Peer.Heard { p with keepAlive := p.keepAlive.restart now } log := hp.congr rfl id
    obtain ⟨hhandled, htoken⟩ := Peer.handle_settled hset' hh
    obtain ⟨hheard, hdue⟩ := hp'.handled hopen hh
    have hafter : (h.peer.distribute #[] h.output).1.token = p.token := (h.peer.token_distribute _ _).trans htoken
    rw [receive_cons_handled hopen hstep hh, output_cons_handled hopen hstep hh]
    obtain ⟨hthen, hothers⟩ := ih (ds ++ (Hub.othersThan h.peer.token h.output).toArray)
      (hhandled.distribute #[] h.output) (hheard.distribute #[] h.output)
    rw [hafter] at hthen hothers
    rw [Hub.packetsFor_append, ← List.append_assoc]
    refine ⟨hthen, List.forall_mem_append.2 ⟨fun d hd hother => ?_, hothers⟩⟩
    exact hhandled.awaits (hdue d hd hother) (htoken ▸ hother)

theorem tornDown_teardown (c : Connection) (b : Broker) (reason : CloseReason) :
    (c.teardown b reason).1.peer.tornDown = true := by
  rw [fst_teardown]
  split
  · next htorn => exact htorn
  · rfl

/-- The end of a connection takes nothing back that its client was told. -/
theorem heard_teardown {log : List Packet} (hc : c.peer.Heard log) (b : Broker) (reason : CloseReason) :
    (c.teardown b reason).1.peer.Heard log := by
  rw [fst_teardown]
  split
  · exact hc
  · exact hc.congr (by rw [client_ended, Option.isSome_map]) fun _ => rfl

theorem teardown_due (c : Connection) (b : Broker) (reason : CloseReason) :
    ∀ d ∈ (c.teardown b reason).2.2, (c.teardown b reason).2.1.Due d := by
  rw [← output_farewell, ← foldl_farewell]
  rcases c.farewell_cases reason with hnone | ⟨client, -, hrelease | ⟨will, -, hpublish⟩⟩
  · rw [hnone]
    exact List.forall_mem_nil _
  · rw [hrelease]
    exact List.forall_mem_nil _
  · rw [hpublish]
    simp only [Broker.moments, List.flatMap_cons, List.flatMap_nil, List.append_nil, Broker.Moment.output,
      List.nil_append, List.foldl_cons, List.foldl_nil, Broker.operate]
    exact Broker.publish_due _ _ _

/-- A will is delivered only to connections that are accepted, and not to the one that ended. -/
theorem Settled.teardown_awaits (hset : c.Settled who b) (reason : CloseReason) :
    ∀ d ∈ (c.teardown b reason).2.2, d.token ≠ c.peer.token ∧ Standing.Awaits who d := by
  intro d hd
  obtain ⟨hafter, htoken⟩ := teardown_settled hset reason
  have hdue := teardown_due c b reason d hd
  have hother : d.token ≠ (c.teardown b reason).1.peer.token := by
    intro hmine
    obtain ⟨-, client, howner⟩ := hdue
    obtain ⟨s, hs, hserves⟩ := (hafter.owned.owner client d.token).1 howner
    rw [hmine, Broker.seat_self] at hs
    cases hs
    have hdown := hserves.2
    rw [show (c.teardown b reason).1.peer.standing.tornDown = true from tornDown_teardown c b reason] at hdown
    cases hdown
  exact ⟨htoken ▸ hother, hafter.awaits hdue hother⟩

end Connection

/-! ### The switchboard -/

namespace Switchboard

/-- The deliveries that are made for connections. -/
def made (w : Switchboard) : Action → List Delivery
  | .receive token now bytes =>
    (w.hub.connections[token]?).elim [] fun c => (c.handleBytes w.hub.broker now bytes).deliveries.toList
  | .teardown token reason => (w.hub.connections[token]?).elim [] fun c => (c.teardown w.hub.broker reason).2.2
  | .accept _ _ _ | .written _ _ | .dispatch _ => []

/-- Every client was told what it may be, and what waits may be told to those it waits for. -/
structure Greeted (w : Switchboard) : Prop where
  owned : w.hub.Owned
  heard : ∀ (t : Nat) (c : Connection), w.hub.connections[t]? = some c → c.peer.Heard (Hub.packetsFor t w.sent)
  strangers : ∀ t : Nat, w.hub.connections[t]? = none → Hub.packetsFor t w.sent = []
  waiting : ∀ d ∈ w.waiting, d.packet.type ≠ .connack ∧
    ∃ c, w.hub.connections[d.token]? = some c ∧ c.peer.client.isSome = true

variable {w : Switchboard} {token : Nat} {c c' : Connection} {b : Broker} {queued waiting : List Delivery}

theorem greeted_around (hb : b.Initial) : (around b).Greeted :=
  ⟨owned_around hb, fun t c hc => by simp [around, Hub.start] at hc, fun t _ => rfl, List.forall_mem_nil _⟩

/-- A delivery that a connection awaits may be told to it. -/
theorem accepted_of_awaits {h : Hub} {d : Delivery} (hd : Standing.Awaits h.standing? d) :
    d.packet.type ≠ .connack ∧
      ∃ c, h.connections[d.token]? = some c ∧ c.peer.client.isSome = true ∧ c.peer.tornDown = false := by
  obtain ⟨hplain, s, client, hs, hclient, hup⟩ := hd
  obtain ⟨c, hc, rfl⟩ := Option.map_eq_some_iff.1 hs
  refine ⟨hplain, c, hc, ?_, hup⟩
  rw [Peer.client_of_clientId hclient]
  rfl

/-- Deliveries are made only for connections that are accepted and not torn down, and do not change these. -/
theorem Greeted.made_awaits (hw : w.Greeted) {a : Action} {d : Delivery} (hd : d ∈ w.made a) :
    Standing.Awaits w.hub.standing? d ∧
      (w.step a).hub.connections[d.token]? = w.hub.connections[d.token]? := by
  cases a with
  | accept | written | dispatch => cases hd
  | receive token now bytes =>
    rw [made] at hd
    unfold step receive
    dsimp only
    cases hc : w.hub.connections[token]? with
    | none =>
      rw [hc] at hd
      cases hd
    | some c =>
      rw [hc, Option.elim_some] at hd
      obtain ⟨htoken, hset⟩ := hw.owned.settled hc
      obtain ⟨hlisted, -⟩ := Connection.receive_output now c.decoder.maxPacketSize bytes c.decoder.state c.peer
        w.hub.broker #[]
      obtain ⟨-, hothers⟩ := hset.receive_heard now bytes #[] (hw.heard token c hc)
      rw [Connection.handleBytes, hlisted] at hd
      obtain ⟨hd, hother⟩ := List.mem_filter.1 hd
      have hother : d.token ≠ c.peer.token := by simpa using hother
      exact ⟨hothers d hd hother, connections_change_of_ne (htoken ▸ hother)⟩
  | teardown token reason =>
    rw [made] at hd
    unfold step teardown
    dsimp only
    cases hc : w.hub.connections[token]? with
    | none =>
      rw [hc] at hd
      cases hd
    | some c =>
      rw [hc, Option.elim_some] at hd
      obtain ⟨htoken, hset⟩ := hw.owned.settled hc
      obtain ⟨hother, hawaits⟩ := hset.teardown_awaits reason d hd
      exact ⟨hawaits, connections_change_of_ne (htoken ▸ hother)⟩

namespace Greeted

/-- A connection changes and is told what it may be; what waits is for it, if it goes on being accepted, and for
others that are. -/
theorem change (hw : w.Greeted) (ho : (w.change token c b queued waiting).hub.Owned)
    (hqueued : ∀ d ∈ queued, d.token = token)
    (hheard : c.peer.Heard (Hub.packetsFor token w.sent ++ Hub.packetsFor token queued))
    (hwaiting : ∀ d ∈ waiting, d ∈ w.waiting ∨ Standing.Awaits w.hub.standing? d) :
    (w.change token c b queued waiting).Greeted := by
  refine ⟨ho, fun t c₁ hc₁ => ?_, fun t ht => ?_, fun d hd => ?_⟩
  · by_cases ht : t = token
    · subst ht
      rw [connections_change_self] at hc₁
      cases hc₁
      rw [packetsFor_change]
      exact hheard
    · rw [connections_change_of_ne ht] at hc₁
      rw [packetsFor_change_of_ne hqueued ht]
      exact hw.heard t c₁ hc₁
  · by_cases htoken : t = token
    · rw [htoken, connections_change_self] at ht
      cases ht
    · rw [connections_change_of_ne htoken] at ht
      rw [packetsFor_change_of_ne hqueued htoken]
      exact hw.strangers t ht
  · have hbefore : d.packet.type ≠ .connack ∧
        ∃ c, w.hub.connections[d.token]? = some c ∧ c.peer.client.isSome = true := by
      rcases hwaiting d hd with hd | hd
      · exact hw.waiting d hd
      · obtain ⟨hplain, c, hc, hsome, -⟩ := accepted_of_awaits hd
        exact ⟨hplain, c, hc, hsome⟩
    obtain ⟨hplain, c₁, hc₁, hsome⟩ := hbefore
    refine ⟨hplain, ?_⟩
    by_cases ht : d.token = token
    · rw [ht] at hc₁ ⊢
      exact ⟨c, connections_change_self, (hw.heard token c₁ hc₁).isSome_of_append hsome hheard⟩
    · exact ⟨c₁, (connections_change_of_ne ht).trans hc₁, hsome⟩

/-- A connection changes and is told nothing. -/
theorem change_nil (hw : w.Greeted) (ho : (w.change token c b [] waiting).hub.Owned)
    (hheard : c.peer.Heard (Hub.packetsFor token w.sent))
    (hwaiting : ∀ d ∈ waiting, d ∈ w.waiting ∨ Standing.Awaits w.hub.standing? d) :
    (w.change token c b [] waiting).Greeted :=
  hw.change ho (List.forall_mem_nil _) (by simpa [Hub.packetsFor] using hheard) hwaiting

theorem accept (hw : w.Greeted) (token : Nat) (limits : ConnectionLimits) (now : Nat) :
    (w.accept token limits now).Greeted := by
  have ho : (w.accept token limits now).hub.Owned := owned_step hw.owned (.accept token limits now)
  unfold Switchboard.accept at ho ⊢
  cases hc : w.hub.connections[token]? with
  | some c => exact hw
  | none =>
    rw [hc] at ho
    refine hw.change_nil ho ?_ fun d hd => .inl hd
    rw [hw.strangers token hc]
    exact .nothing rfl

theorem receive (hw : w.Greeted) (token now : Nat) (bytes : List UInt8) :
    (w.receive token now bytes).Greeted := by
  have ho : (w.receive token now bytes).hub.Owned := owned_step hw.owned (.receive token now bytes)
  unfold Switchboard.receive at ho ⊢
  cases hc : w.hub.connections[token]? with
  | none => exact hw
  | some c =>
    rw [hc] at ho
    obtain ⟨htoken, hset⟩ := hw.owned.settled hc
    obtain ⟨hlisted, -⟩ := Connection.receive_output now c.decoder.maxPacketSize bytes c.decoder.state c.peer
      w.hub.broker #[]
    obtain ⟨hheard, hothers⟩ := hset.receive_heard now bytes #[] (hw.heard token c hc)
    refine hw.change ho (fun d hd => by simpa using (List.mem_filter.1 hd).2) ?_ fun d hd => ?_
    · rw [packetsFor_filter, if_pos rfl]
      rw [htoken] at hheard
      exact hheard
    · rw [Connection.handleBytes, hlisted] at hd
      rcases List.mem_append.1 hd with hd | hd
      · exact .inl hd
      · obtain ⟨hd, hother⟩ := List.mem_filter.1 hd
        exact .inr (hothers d hd (by simpa using hother))

theorem teardown (hw : w.Greeted) (token : Nat) (reason : CloseReason) : (w.teardown token reason).Greeted := by
  have ho : (w.teardown token reason).hub.Owned := owned_step hw.owned (.teardown token reason)
  unfold Switchboard.teardown at ho ⊢
  cases hc : w.hub.connections[token]? with
  | none => exact hw
  | some c =>
    rw [hc] at ho
    obtain ⟨-, hset⟩ := hw.owned.settled hc
    have hheard := Connection.heard_teardown (hw.heard token c hc) w.hub.broker reason
    exact hw.change_nil ho hheard
      fun d hd => (List.mem_append.1 hd).imp_right fun hd => (hset.teardown_awaits reason d hd).2

theorem written (hw : w.Greeted) (token count : Nat) : (w.written token count).Greeted := by
  have ho : (w.written token count).hub.Owned := owned_step hw.owned (.written token count)
  unfold Switchboard.written at ho ⊢
  cases hc : w.hub.connections[token]? with
  | none => exact hw
  | some c =>
    rw [hc] at ho
    have hheard : (c.consume count).peer.Heard (Hub.packetsFor token w.sent) := (hw.heard token c hc).congr rfl id
    have hsame := hw.change_nil ho hheard fun d hd => .inl hd
    exact ⟨hsame.owned, hsame.heard, hsame.strangers, hsame.waiting⟩

theorem dispatch (hw : w.Greeted) (i : Nat) : (w.dispatch i).Greeted := by
  have ho : (w.dispatch i).hub.Owned := owned_step hw.owned (.dispatch i)
  have hrest (d : Delivery) (hd : d ∈ w.waiting.eraseIdx i) : d ∈ w.waiting := List.mem_of_mem_eraseIdx hd
  have hdropped : ({ w with waiting := w.waiting.eraseIdx i } : Switchboard).Greeted :=
    ⟨hw.owned, hw.heard, hw.strangers, fun d hd => hw.waiting d (hrest d hd)⟩
  unfold Switchboard.dispatch at ho ⊢
  cases hd : w.waiting[i]? with
  | none => exact hw
  | some d =>
    rw [hd] at ho
    dsimp only at ho ⊢
    cases hc : w.hub.connections[d.token]? with
    | none => exact hdropped
    | some c =>
      rw [hc] at ho
      dsimp only at ho ⊢
      by_cases hup : c.peer.tornDown = true
      · rw [if_pos hup]
        exact hdropped
      rw [if_neg hup] at ho ⊢
      -- what waits is for connections that are accepted, so it may be told to this one
      obtain ⟨hplain, c₁, hc₁, hsome⟩ := hw.waiting d (List.mem_of_getElem? hd)
      rw [hc] at hc₁
      cases hc₁
      have hone : Hub.packetsFor d.token [d] = [d.packet] := by simp [Hub.packetsFor]
      have hmore := (hw.heard d.token c hc).append hsome (List.forall_mem_singleton.2 hplain)
      rw [← hone] at hmore
      exact hw.change ho (fun d' hd' => by rw [List.mem_singleton.1 hd']) (hmore.congr rfl id)
        fun d' hd' => .inl (hrest d' hd')

/-- One action tells no client what it may not be told. -/
theorem step (hw : w.Greeted) (a : Action) : (w.step a).Greeted := by
  cases a with
  | accept token limits now => exact hw.accept token limits now
  | receive token now bytes => exact hw.receive token now bytes
  | teardown token reason => exact hw.teardown token reason
  | written token count => exact hw.written token count
  | dispatch i => exact hw.dispatch i

theorem run (hw : w.Greeted) (actions : List Action) : (w.run actions).Greeted := by
  induction actions generalizing w with
  | nil => exact hw
  | cons a actions ih => exact ih (hw.step a)

end Greeted

/-- **A client is greeted first, and once.** At a broker that is new or restored, whatever connections do, and
whenever deliveries are brought to them, the bytes of each are those of no packet, or of a refusal alone, or of an
acceptance and of packets that answer no CONNECT; and whatever delivery an action makes, it is for a connection
that is accepted and not torn down, before the action and after it. -/
theorem run_greets (hb : b.Initial) (actions : List Action) :
    (∀ t, ∃ packets : List Packet,
        ((around b).run actions).drained t ++ ((around b).run actions).pending t =
          packets.flatMap Packet.encode ∧
        packets = Hub.packetsFor t ((around b).run actions).sent ∧
        (packets = [] ∨ (∃ code, code ≠ .accepted ∧ packets = [.connack false code]) ∨
          ∃ present rest, packets = .connack present .accepted :: rest ∧ ∀ q ∈ rest, q.type ≠ .connack)) ∧
      ∀ a, ∀ d ∈ ((around b).run actions).made a,
        ∃ c, ((around b).run actions).hub.connections[d.token]? = some c ∧
          (((around b).run actions).step a).hub.connections[d.token]? = some c ∧
          c.peer.client.isSome = true ∧ c.peer.tornDown = false := by
  have hw := (greeted_around hb).run actions
  refine ⟨fun t => ⟨_, run_logged hb actions t, rfl, ?_⟩, fun a d hd => ?_⟩
  · cases hc : ((around b).run actions).hub.connections[t]? with
    | none => exact .inl (hw.strangers t hc)
    | some c =>
      have hheard := hw.heard t c hc
      generalize Hub.packetsFor t ((around b).run actions).sent = packets at hheard ⊢
      cases hheard with
      | nothing => exact .inl rfl
      | refused _ _ hcode => exact .inr (.inl ⟨_, hcode, rfl⟩)
      | accepted _ hrest => exact .inr (.inr ⟨_, _, rfl, hrest⟩)
  · obtain ⟨hawaits, hstays⟩ := hw.made_awaits hd
    obtain ⟨-, c, hc, hsome, hup⟩ := accepted_of_awaits hawaits
    exact ⟨c, hc, hstays.trans hc, hsome, hup⟩

/-- A store that holds an empty session of "c". -/
def rememberedJson : Json := .obj [("session_store", .obj [("c", .obj [])])]

def remembered : SessionStore := (SessionStore.ofJson? 3 rememberedJson).getD .empty

/-- The client of a session that was restored comes back and asks for an echo. -/
def comeback : List Action :=
  [.accept 1 {} 0,
    .receive 1 0 [0x10, 13, 0, 4, 77, 81, 84, 84, 4, 0, 0, 0, 0, 1, 99],
    .receive 1 0 [0xC0, 0]]

/-- It is told that its session is there, and then it is answered. -/
theorem run_greets_comeback :
    (Broker.restore {} remembered).Initial ∧
      ∃ packets, packets = [.connack true .accepted, .pingresp] ∧
        ((around (.restore {} remembered)).run comeback).drained 1
          ++ ((around (.restore {} remembered)).run comeback).pending 1 = packets.flatMap Packet.encode := by
  have hsome : (SessionStore.ofJson? 3 rememberedJson).isSome = true := by decide +kernel
  have hread : SessionStore.ofJson? 3 rememberedJson = some remembered := by
    obtain ⟨store, hstore⟩ := Option.isSome_iff_exists.1 hsome
    rw [remembered, hstore]
    rfl
  have hb : (Broker.restore {} remembered).Initial := .restored {} hread
  obtain ⟨packets, hbytes, hsent, -⟩ := (run_greets hb comeback).1 1
  have hpackets : Hub.packetsFor 1 ((around (.restore {} remembered)).run comeback).sent
      = [.connack true .accepted, .pingresp] := by
    decide +kernel
  exact ⟨hb, packets, hsent.trans hpackets, hbytes⟩

end Switchboard

end Mqtt
