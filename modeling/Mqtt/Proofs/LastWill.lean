import Mqtt.Proofs.Greeting

/-!
# The last will of a client: `Connection::teardown`

A client leaves a will with its CONNECT. It is published if the first end of the connection is an ungraceful one and
the client has not said goodbye before, after the client's session is released, and never again. Whether that holds
is told by the packets that were accepted (`lastWill`); a connection keeps the will as long as it is due
(`Peer.Recounts`). What a run tells of a connection is written down action by action (`Hub.Story`): each packet that
`Connection::handle_packet` handles and each end by `Connection::teardown`, with all that is given to the broker to
publish meanwhile. `Hub.run_lastWill` says how the end of a connection follows from its packets and the reason of its
end, and that packets bring nothing but what PUBLISH carries.
-/

namespace Mqtt

/-- The packet that is handled at a moment, if it is accepted. -/
def Broker.Moment.acceptedPacket? (m : Moment) : Option Packet :=
  match m.operation with
  | .packet p now packet =>
    match p.handle m.broker now packet with
    | .ok _ => some packet
    | .error _ => none
  | .release _ _ | .publish _ _ | .restart _ => none

/-- The packet that is handled at a moment, be it accepted or refused, with what it gave the broker to publish. -/
def Broker.Moment.brought? (m : Moment) : Option (Packet × List Peer.Publication) :=
  match m.operation with
  | .packet p now packet =>
    match p.handle m.broker now packet with
    | .ok h => some (packet, h.published)
    | .error r => some (packet, r.handled.published)
  | .release _ _ | .publish _ _ | .restart _ => none

/-- The will that is left with some packets: that of the CONNECT, until the client says goodbye. -/
def lastWill : List Packet → Option Message
  | .connect c :: rest => if .disconnect ∈ rest then none else c.will.map Will.message
  | _ => none

theorem lastWill_connect (c : Connect) : lastWill [.connect c] = c.will.map Will.message := by simp [lastWill]

theorem lastWill_concat (c : Connect) (rest : List Packet) (q : Packet) :
    lastWill (.connect c :: rest ++ [q]) = if q = .disconnect then none else lastWill (.connect c :: rest) := by
  rw [List.cons_append, lastWill, lastWill]
  by_cases hq : q = .disconnect
  · simp [hq]
  · simp [hq, Ne.symm hq]

theorem lastWill_eq_some {log : List Packet} {m : Message} (h : lastWill log = some m) :
    ∃ c w, .connect c ∈ log ∧ c.will = some w ∧ .disconnect ∉ log ∧ m = w.message := by
  cases log with
  | nil => cases h
  | cons first rest =>
    cases first with
    | connect c =>
      rw [lastWill] at h
      split at h
      · cases h
      · next hstays =>
        obtain ⟨w, hw, rfl⟩ := Option.map_eq_some_iff.1 h
        exact ⟨c, w, .head _, hw, by simpa using hstays, rfl⟩
    | _ => cases h

namespace Peer

variable {p p' : Peer} {b : Broker} {now : Nat} {packet : Packet} {h : Handled} {log : List Packet}

/-- An accepted packet is a CONNECT that leaves a will, or no CONNECT, and then the will stays until the client says
goodbye. -/
theorem Accepts.client_after (ha : Accepts p b now packet h) :
    h.peer.tornDown = p.tornDown ∧
      ((∃ c id, packet = .connect c ∧ p.client = none ∧ h.peer.client = some ⟨id, c.will.map Will.message⟩) ∨
        ∃ client, p.client = some client ∧ (∀ c, packet ≠ .connect c) ∧
          h.peer.client = some { client with will := if packet = .disconnect then none else client.will }) := by
  have hplain {q : Packet} (hq : q.type ≠ .connect) : ∀ c, q ≠ .connect c := fun c hc => hq (hc ▸ rfl)
  cases ha with
  | @fresh c id n hp => exact ⟨rfl, .inl ⟨c, id, rfl, hp, rfl⟩⟩
  | @resumed c s hp => exact ⟨rfl, .inl ⟨c, c.clientId, rfl, hp, rfl⟩⟩
  | @routed client s publish reply inflight hp => exact ⟨rfl, .inr ⟨client, hp, hplain PacketType.noConfusion, hp⟩⟩
  | @repeated client s publish reply inflight hp => exact ⟨rfl, .inr ⟨client, hp, hplain PacketType.noConfusion, hp⟩⟩
  | @acknowledged client s packet reply inflight hp hs hacks =>
    refine ⟨rfl, .inr ⟨client, hp, ?_, ?_⟩⟩
    · cases hacks <;> exact hplain PacketType.noConfusion
    · cases hacks <;> exact hp
  | @subscribed client id topics hp => exact ⟨rfl, .inr ⟨client, hp, hplain PacketType.noConfusion, hp⟩⟩
  | @unsubscribed client id filters hp => exact ⟨rfl, .inr ⟨client, hp, hplain PacketType.noConfusion, hp⟩⟩
  | @pinged client hp => exact ⟨rfl, .inr ⟨client, hp, hplain PacketType.noConfusion, hp⟩⟩
  | @left client hp =>
    refine ⟨rfl, .inr ⟨client, hp, hplain PacketType.noConfusion, ?_⟩⟩
    exact client_of_clientId (p := p.handleDisconnect) (Peer.clientId_of_client (p := p) hp)

/-- The packets of a client that were accepted: none before its CONNECT, and no other CONNECT after it. A will is kept
as long as it is due. -/
structure Recounts (p : Peer) (log : List Packet) : Prop where
  silent : p.client = none → log = []
  greeted : p.client.isSome = true → ∃ c rest, log = .connect c :: rest ∧ ∀ c', .connect c' ∉ rest
  will : p.tornDown = false → p.client.bind (·.will) = lastWill log

/-- A will is due if it was left and not taken back. -/
theorem Recounts.isSome_lastWill_iff (hp : p.Recounts log) :
    (lastWill log).isSome = true ↔ ∃ c w, .connect c ∈ log ∧ c.will = some w ∧ .disconnect ∉ log := by
  constructor
  · intro hsome
    obtain ⟨m, hm⟩ := Option.isSome_iff_exists.1 hsome
    obtain ⟨c, w, hc, hw, hstays, -⟩ := lastWill_eq_some hm
    exact ⟨c, w, hc, hw, hstays⟩
  · rintro ⟨c, w, hc, hw, hstays⟩
    have hclient : p.client.isSome = true := by
      by_contra hnone
      rw [hp.silent (by simpa using hnone)] at hc
      cases hc
    obtain ⟨c', rest, rfl, hrest⟩ := hp.greeted hclient
    rcases List.mem_cons.1 hc with hfirst | hlater
    · cases hfirst
      rw [lastWill, if_neg fun hmem => hstays (List.mem_cons_of_mem _ hmem), hw]
      rfl
    · exact absurd hlater (hrest c)

theorem Recounts.congr (hp : p.Recounts log) (hclient : p'.client = p.client) (hdown : p'.tornDown = p.tornDown) :
    p'.Recounts log := by
  refine ⟨?_, ?_, ?_⟩
  · rw [hclient]
    exact hp.silent
  · rw [hclient]
    exact hp.greeted
  · rw [hclient, hdown]
    exact hp.will

theorem Recounts.closeOn (hp : p.Recounts log) (r : Refusal) : (p.closeOn r).Recounts log := by
  unfold Peer.closeOn
  split <;> exact hp.congr rfl rfl

theorem Recounts.handled (hp : p.Recounts log) (ha : Accepts p b now packet h) : h.peer.Recounts (log ++ [packet]) := by
  obtain ⟨hdown, ⟨c, id, rfl, hnone, hafter⟩ | ⟨client, hclient, hplain, hafter⟩⟩ := ha.client_after
  · rw [hp.silent hnone, List.nil_append]
    refine ⟨?_, ?_, ?_⟩
    · rw [hafter]
      nofun
    · exact fun _ => ⟨c, [], rfl, nofun⟩
    · rw [hafter, lastWill_connect]
      exact fun _ => rfl
  · obtain ⟨c, rest, rfl, hrest⟩ := hp.greeted (by rw [hclient]; rfl)
    refine ⟨?_, ?_, ?_⟩
    · rw [hafter]
      nofun
    · refine fun _ => ⟨c, rest ++ [packet], rfl, fun c' hc' => ?_⟩
      rcases List.mem_append.1 hc' with hc' | hc'
      · exact hrest c' hc'
      · exact hplain c' (List.mem_singleton.1 hc').symm
    · intro hup
      have hwill := hp.will (hdown ▸ hup)
      rw [hclient, Option.bind_some] at hwill
      rw [hafter, lastWill_concat, ← hwill]
      rfl

end Peer

/-- A packet that is refused brings nothing. -/
theorem Broker.Moment.brought?_cases {m : Moment} {a : Packet × List Peer.Publication} (ha : m.brought? = some a) :
    a.2 = [] ∨ ∃ publish given client, a = (.publish publish, [given]) ∧
      m.acceptedPacket? = some (.publish publish) ∧ given.origin = some client ∧ given.message = publish.message := by
  obtain ⟨b, op⟩ := m
  unfold brought? at ha
  cases op with
  | packet p now packet =>
    dsimp only at ha
    split at ha
    · next h hh =>
      obtain rfl := Option.some.inj ha
      have haccepts := (Peer.handle_ok hh).2
      rcases haccepts.published with hnothing | ⟨publish, given, client, rfl, hone, -, horigin, hmessage⟩
      · exact .inl hnothing
      · refine .inr ⟨publish, given, client, by rw [hone], ?_, horigin, hmessage⟩
        simp [acceptedPacket?, hh]
    · next r hh =>
      obtain rfl := Option.some.inj ha
      exact .inl (Peer.handled_of_refused hh).2.1
  | release | publish | restart => cases ha

namespace Connection

variable {c : Connection} {b : Broker} {log : List Packet}

/-- The packets among a client's bytes that are accepted. -/
def accepted (now max : Nat) (s : Decoder.State) (p : Peer) (b : Broker) (bytes : List UInt8) : List Packet :=
  (b.moments (operations now max s p b bytes)).filterMap Broker.Moment.acceptedPacket?

/-- Bytes of a client make it leave or take back its will. -/
theorem recounts_receive {now max : Nat} {s : Decoder.State} {p : Peer} (bytes : List UInt8) (ds : Array Delivery)
    (hp : p.Recounts log) :
    (receive now max s p b ds bytes).connection.peer.Recounts (log ++ accepted now max s p b bytes) ∧
      (receive now max s p b ds bytes).connection.peer.tornDown = p.tornDown := by
  have hnothing (log : List Packet) (b : Broker) :
      log ++ (b.moments []).filterMap Broker.Moment.acceptedPacket? = log := List.append_nil log
  induction s, p, b, bytes using bytes_induction now max generalizing ds log with
  | nil s p b =>
    rw [accepted, operations, hnothing]
    exact ⟨hp, rfl⟩
  | closed s p b bytes hclosed =>
    rw [accepted, operations_of_closed hclosed, receive_of_closed hclosed, hnothing]
    exact ⟨hp, rfl⟩
  | broken s p b byte bytes s' e hopen hstep =>
    rw [accepted, operations_cons_error hopen hstep, receive_cons_error hopen hstep, hnothing]
    exact ⟨hp.congr rfl rfl, rfl⟩
  | more s p b byte bytes s' hopen hstep ih =>
    rw [accepted, operations_cons_none hopen hstep, receive_cons_none hopen hstep]
    exact ih ds hp
  | refused s p b byte bytes s' packet r hopen hstep hh =>
    have hnothing : accepted now max s p b (byte :: bytes) = [] := by
      rw [accepted, operations_cons_refused hopen hstep hh]
      simp [Broker.moments, Broker.Moment.acceptedPacket?, hh]
    rw [hnothing, List.append_nil, receive_cons_refused hopen hstep hh]
    have hp' : Peer.Recounts { p with keepAlive := p.keepAlive.restart now } log := hp.congr rfl rfl
    exact ⟨hp'.closeOn r, congrArg Standing.tornDown (Peer.closeOn_standing _ r)⟩
  | handled s p b byte bytes s' packet h hopen hstep hh ih =>
    have hone : accepted now max s p b (byte :: bytes) =
        packet :: accepted now max s' (h.peer.distribute #[] h.output).1 h.broker bytes := by
      rw [accepted, operations_cons_handled hopen hstep hh, accepted, Broker.moments, Broker.operate, hh]
      simp [Broker.Moment.acceptedPacket?, hh]
    have ha := (Peer.handle_ok hh).2
    have hp' : Peer.Recounts { p with keepAlive := p.keepAlive.restart now } log := hp.congr rfl rfl
    have hdistributed : (h.peer.distribute #[] h.output).1.Recounts (log ++ [packet]) := by
      rw [Peer.distribute_eq]
      exact (hp'.handled ha).congr rfl rfl
    have hthen := ih (ds ++ (Hub.othersThan h.peer.token h.output).toArray) hdistributed
    rw [List.append_assoc, List.singleton_append] at hthen
    rw [hone, receive_cons_handled hopen hstep hh]
    refine ⟨hthen.1, hthen.2.trans ?_⟩
    rw [Peer.distribute_eq]
    exact ha.client_after.1

/-- The end of a connection publishes its will if it is an ungraceful one, and nothing otherwise. -/
theorem published_departure (c : Connection) (b : Broker) (reason : CloseReason) (hup : c.peer.tornDown = false) :
    ((c.departure b reason).published = [] ∧
        ¬ (reason = .ungraceful ∧ (c.peer.client.bind (·.will)).isSome = true)) ∨
      ∃ client will, c.peer.client = some client ∧ client.will = some will ∧ reason = .ungraceful ∧
        (c.departure b reason).published = [⟨b.releaseSession client.id c.peer.token, some client.id, will⟩] := by
  rw [departure_eq, if_neg (by simp [hup])]
  cases hclient : c.peer.client with
  | none => exact .inl ⟨rfl, fun h => nomatch h.2⟩
  | some client =>
    rw [Option.bind_some]
    cases hwill : client.will with
    | none => exact .inl ⟨by simp only [hwill]; rfl, fun h => nomatch h.2⟩
    | some will =>
      by_cases hreason : reason = .ungraceful
      · exact .inr ⟨client, will, rfl, hwill, hreason, by simp only [hwill, if_pos hreason]⟩
      · exact .inl ⟨by simp only [hwill, if_neg hreason]; rfl, fun h => hreason h.1⟩

theorem published_departure_of_tornDown {c : Connection} (hdown : c.peer.tornDown = true) (b : Broker)
    (reason : CloseReason) : (c.departure b reason).published = [] := by
  rw [departure_eq, if_pos hdown]
  rfl

theorem recounts_ended {c : Connection} (hc : c.peer.Recounts log) : c.ended.peer.Recounts log := by
  refine ⟨?_, ?_, nofun⟩
  · intro hnone
    rw [client_ended] at hnone
    exact hc.silent (Option.map_eq_none_iff.1 hnone)
  · intro hsome
    rw [client_ended] at hsome
    exact hc.greeted (Option.isSome_map.symm.trans hsome)

end Connection

namespace Hub

/-! ### What is told of a connection -/

/-- The packets of a client that were accepted, all that were handled with what each of them gave the broker to
publish, the reason of the first end of its connection, and what the ends of it gave the broker to publish. -/
structure Story where
  accepted : List Packet := []
  brought : List (Packet × List Peer.Publication) := []
  ended : Option CloseReason := none
  words : List Peer.Publication := []

/-- What an action adds to the story of a connection. -/
def tell (token : Nat) (h : Hub) (r : Story) : Action → Story
  | .receive t now bytes =>
    if t = token then
      let moments := h.broker.moments (h.operations (.act (.receive t now bytes)))
      { r with
        accepted := r.accepted ++ moments.filterMap Broker.Moment.acceptedPacket?
        brought := r.brought ++ moments.filterMap Broker.Moment.brought? }
    else r
  | .teardown t reason =>
    match h.connections[t]? with
    | none => r
    | some c =>
      if t = token then
        { r with
          ended := r.ended.or (some reason)
          words := r.words ++ (c.departure h.broker reason).published }
      else r
  | .accept _ _ _ | .written _ _ | .publish _ _ => r

/-- The story of a connection, which goes on with some actions. -/
def story (token : Nat) (h : Hub) (r : Story) : List Action → Story
  | [] => r
  | a :: actions => (h.step a).story token (h.tell token r a) actions

namespace Story

/-- What is told of a connection agrees with what it knows itself. -/
structure Of (r : Story) (p : Peer) : Prop where
  recounts : p.Recounts r.accepted
  up : p.tornDown = false → r.ended = none ∧ r.words = []
  down : p.tornDown = true → ∃ reason, r.ended = some reason ∧ r.words.length ≤ 1 ∧
    (r.words ≠ [] ↔ reason = .ungraceful ∧ (lastWill r.accepted).isSome = true)

/-- Nothing is told of a connection that was not made. -/
structure Fits (r : Story) (token : Nat) (h : Hub) : Prop where
  unmade : h.connections[token]? = none → r = {}
  made : ∀ c, h.connections[token]? = some c → r.Of c.peer

variable {r : Story} {p p' : Peer} {token : Nat} {h : Hub} {c : Connection}

theorem Of.congr (hr : r.Of p) (hclient : p'.client = p.client) (hdown : p'.tornDown = p.tornDown) : r.Of p' := by
  refine ⟨hr.recounts.congr hclient hdown, ?_, ?_⟩
  · rw [hdown]
    exact hr.up
  · rw [hdown]
    exact hr.down

/-- What is queued at connections adds nothing to their stories. -/
theorem Fits.dispatch (hr : r.Fits token h) (ds : List Delivery) : r.Fits token (h.dispatch ds) := by
  refine ⟨?_, ?_⟩
  · intro hnone
    rw [connections_dispatch, Option.map_eq_none_iff] at hnone
    exact hr.unmade hnone
  · intro c hc
    rw [connections_dispatch, Option.map_eq_some_iff] at hc
    obtain ⟨c', hc', rfl⟩ := hc
    rw [Connection.foldl_send]
    exact (hr.made c' hc').congr rfl rfl

theorem Fits.setConnection {b : Broker} (hr : r.Of c.peer) :
    r.Fits token (({ h with broker := b } : Hub).setConnection token c) := by
  refine ⟨?_, ?_⟩
  · intro hnone
    simp at hnone
  · intro c' hc'
    rw [connections_setConnection, if_pos rfl] at hc'
    cases hc'
    exact hr

theorem Fits.setConnection_of_ne {b : Broker} {t : Nat} (hr : r.Fits token h) (hne : t ≠ token) :
    r.Fits token (({ h with broker := b } : Hub).setConnection t c) := by
  refine ⟨?_, ?_⟩
  · intro hnone
    rw [connections_setConnection, if_neg hne] at hnone
    exact hr.unmade hnone
  · intro c' hc'
    rw [connections_setConnection, if_neg hne] at hc'
    exact hr.made c' hc'

theorem of_new (token : Nat) (limits : ConnectionLimits) (now : Nat) :
    ({} : Story).Of (Connection.new token limits now).peer :=
  ⟨⟨fun _ => rfl, nofun, fun _ => rfl⟩, fun _ => ⟨rfl, rfl⟩, nofun⟩

theorem Fits.accept (hr : r.Fits token h) (t : Nat) (limits : ConnectionLimits) (now : Nat) :
    r.Fits token (h.accept t limits now) := by
  unfold Hub.accept
  cases hc : h.connections[t]? with
  | some c => exact hr
  | none =>
    by_cases ht : t = token
    · subst ht
      rw [hr.unmade hc]
      exact Fits.setConnection (b := h.broker) (of_new t limits now)
    · exact Fits.setConnection_of_ne (b := h.broker) hr ht

/-- Bytes of the client add the packets that are accepted; a connection that has ended accepts none. -/
theorem Of.receive (hr : r.Of c.peer) (hc : c.Proper) (now : Nat) (bytes : List UInt8) (b : Broker) :
    Of { r with
        accepted := r.accepted ++ Connection.accepted now c.decoder.maxPacketSize c.decoder.state c.peer b bytes
        brought := r.brought ++
          (b.moments (Connection.operations now c.decoder.maxPacketSize c.decoder.state c.peer b bytes)).filterMap
            Broker.Moment.brought? }
      (c.handleBytes b now bytes).connection.peer := by
  obtain ⟨hrecounts, hdown⟩ := Connection.recounts_receive (b := b) bytes #[] hr.recounts
  refine ⟨hrecounts, ?_, ?_⟩
  · intro hup
    exact hr.up (hdown.symm.trans hup)
  · intro htorn
    have htorn' : c.peer.tornDown = true := hdown.symm.trans htorn
    have hnothing : Connection.accepted now c.decoder.maxPacketSize c.decoder.state c.peer b bytes = [] := by
      rw [Connection.accepted, Connection.operations_of_closed (hc.closed htorn')]
      rfl
    rw [hnothing, List.append_nil]
    exact hr.down htorn'

theorem Fits.receive (hr : r.Fits token h) (ho : h.Owned) (t now : Nat) (bytes : List UInt8) :
    (h.tell token r (.receive t now bytes)).Fits token (h.receive t now bytes) := by
  rw [Hub.receive, tell, operations]
  cases hc : h.connections[t]? with
  | none =>
    have hsame : r.accepted ++ (h.broker.moments []).filterMap Broker.Moment.acceptedPacket? = r.accepted ∧
        r.brought ++ (h.broker.moments []).filterMap Broker.Moment.brought? = r.brought :=
      ⟨List.append_nil _, List.append_nil _⟩
    dsimp only
    rw [hsame.1, hsame.2, ite_self]
    exact hr
  | some c =>
    by_cases ht : t = token
    · subst ht
      rw [if_pos rfl]
      have hafter := (hr.made c hc).receive (ho.proper t c hc) now bytes h.broker
      exact (Fits.setConnection hafter).dispatch _
    · rw [if_neg ht]
      exact (hr.setConnection_of_ne ht).dispatch _

/-- The first end of a connection publishes its will if it is an ungraceful one, and none of the later ones does. -/
theorem Of.teardown (hr : r.Of c.peer) (b : Broker) (reason : CloseReason) :
    Of { r with
        ended := r.ended.or (some reason)
        words := r.words ++ (c.departure b reason).published }
      (c.teardown b reason).1.peer := by
  rw [Connection.fst_teardown]
  by_cases htorn : c.peer.tornDown = true
  · obtain ⟨reason', hended, hwords⟩ := hr.down htorn
    have hsame : r.words ++ (c.departure b reason).published = r.words := by
      rw [Connection.published_departure_of_tornDown htorn, List.append_nil]
    have hsame' : r.ended.or (some reason) = r.ended := by rw [hended, Option.some_or]
    rw [if_pos htorn, hsame, hsame']
    exact hr
  · have hup : c.peer.tornDown = false := by simpa using htorn
    obtain ⟨hended, hwords⟩ := hr.up hup
    have hwill := hr.recounts.will hup
    rw [if_neg htorn, hended, hwords, Option.none_or, List.nil_append]
    refine ⟨Connection.recounts_ended hr.recounts, nofun, fun _ => ⟨reason, rfl, ?_⟩⟩
    dsimp only
    rw [← hwill]
    rcases Connection.published_departure c b reason hup with
      ⟨hnothing, hnot⟩ | ⟨client, will, hclient, hleft, hreason, hone⟩
    · rw [hnothing]
      exact ⟨Nat.zero_le 1, fun h => absurd rfl h, fun h => absurd h hnot⟩
    · rw [hone, hclient, Option.bind_some, hleft]
      exact ⟨Nat.le_refl 1, fun _ => ⟨hreason, rfl⟩, fun _ => List.cons_ne_nil _ _⟩

theorem Fits.teardown (hr : r.Fits token h) (t : Nat) (reason : CloseReason) :
    (h.tell token r (.teardown t reason)).Fits token (h.teardown t reason) := by
  rw [Hub.teardown, tell]
  cases hc : h.connections[t]? with
  | none => exact hr
  | some c =>
    dsimp only
    by_cases ht : t = token
    · subst ht
      rw [if_pos rfl]
      exact (Fits.setConnection ((hr.made c hc).teardown h.broker reason)).dispatch _
    · rw [if_neg ht]
      exact (hr.setConnection_of_ne ht).dispatch _

theorem Fits.written (hr : r.Fits token h) (t count : Nat) : r.Fits token (h.written t count) := by
  unfold Hub.written
  cases hc : h.connections[t]? with
  | none => exact hr
  | some c =>
    by_cases ht : t = token
    · subst ht
      exact Fits.setConnection (b := h.broker) ((hr.made c hc).congr rfl rfl)
    · exact Fits.setConnection_of_ne (b := h.broker) hr ht

/-- Whether something was published follows from the packets and the reason of the first end. -/
theorem Of.words_iff (hr : r.Of p) : r.words.length ≤ 1 ∧
    (r.words ≠ [] ↔ ∃ c w, .connect c ∈ r.accepted ∧ c.will = some w ∧ .disconnect ∉ r.accepted ∧
      r.ended = some .ungraceful) := by
  by_cases htorn : p.tornDown = true
  · obtain ⟨reason, hended, hlength, hwords⟩ := hr.down htorn
    refine ⟨hlength, hwords.trans ?_⟩
    rw [hr.recounts.isSome_lastWill_iff, hended]
    constructor
    · rintro ⟨rfl, c, w, hc, hw, hstays⟩
      exact ⟨c, w, hc, hw, hstays, rfl⟩
    · rintro ⟨c, w, hc, hw, hstays, hreason⟩
      exact ⟨Option.some.inj hreason, c, w, hc, hw, hstays⟩
  · obtain ⟨hended, hwords⟩ := hr.up (by simpa using htorn)
    rw [hwords, hended]
    exact ⟨Nat.zero_le 1, fun h => absurd rfl h, fun ⟨_, _, _, _, _, h⟩ => nomatch h⟩

/-- What an action adds to the story of a connection it has done to the connection. -/
theorem Fits.step (hr : r.Fits token h) (ho : h.Owned) (a : Action) :
    (h.tell token r a).Fits token (h.step a) := by
  cases a with
  | accept t limits now => exact hr.accept t limits now
  | receive t now bytes => exact hr.receive ho t now bytes
  | teardown t reason => exact hr.teardown t reason
  | written t count => exact hr.written t count
  | publish origin m =>
    have hafter : r.Fits token { h with broker := (h.broker.publish origin m).2 } := ⟨hr.unmade, hr.made⟩
    exact hafter.dispatch _

theorem Fits.run (hr : r.Fits token h) (ho : h.Owned) (actions : List Action) :
    (h.story token r actions).Fits token (h.run actions) := by
  induction actions generalizing h r with
  | nil => exact hr
  | cons a actions ih => exact ih (hr.step ho a) (ho.step a)

end Story

/-! ### Where a message of an end comes from -/

variable {token : Nat} {h : Hub} {r : Story}

theorem accepted_tell (token : Nat) (h : Hub) (r : Story) (a : Action) :
    ∃ more, (h.tell token r a).accepted = r.accepted ++ more := by
  have hnothing : ∃ more, r.accepted = r.accepted ++ more := ⟨[], (List.append_nil _).symm⟩
  unfold tell
  split
  · split
    · exact ⟨_, rfl⟩
    · exact hnothing
  · split
    · exact hnothing
    · split <;> exact hnothing
  all_goals exact hnothing

/-- Nothing that was accepted is forgotten. -/
theorem accepted_story (token : Nat) (h : Hub) (r : Story) (actions : List Action) :
    ∃ more, (h.story token r actions).accepted = r.accepted ++ more := by
  induction actions generalizing h r with
  | nil => exact ⟨[], (List.append_nil _).symm⟩
  | cons a actions ih =>
    obtain ⟨more, hmore⟩ := accepted_tell token h r a
    obtain ⟨rest, hrest⟩ := ih (h.step a) (h.tell token r a)
    exact ⟨more ++ rest, by rw [story, hrest, hmore, List.append_assoc]⟩

theorem story_append (token : Nat) (h : Hub) (r : Story) (earlier later : List Action) :
    h.story token r (earlier ++ later) = (h.run earlier).story token (h.story token r earlier) later := by
  induction earlier generalizing h r with
  | nil => rfl
  | cons a earlier ih => exact ih (h.step a) (h.tell token r a)

theorem mem_words_tell {a : Action} {given : Peer.Publication} (hm : given ∈ (h.tell token r a).words) :
    given ∈ r.words ∨ ∃ reason c, a = .teardown token reason ∧ h.connections[token]? = some c ∧
      given ∈ (c.departure h.broker reason).published := by
  unfold tell at hm
  split at hm
  · split at hm <;> exact .inl hm
  · next t reason =>
    split at hm
    · exact .inl hm
    · next c hc =>
      split at hm
      · next hmine =>
        obtain rfl := hmine
        exact (List.mem_append.1 hm).imp_right fun hm => ⟨reason, c, rfl, hc, hm⟩
      · exact .inl hm
  all_goals exact .inl hm

/-- A message that is told of was published at the end of the connection. -/
theorem mem_words_story {actions : List Action} {given : Peer.Publication}
    (hm : given ∈ (h.story token r actions).words) :
    given ∈ r.words ∨ ∃ earlier reason later c, actions = earlier ++ .teardown token reason :: later ∧
      (h.run earlier).connections[token]? = some c ∧
      given ∈ (c.departure (h.run earlier).broker reason).published := by
  induction actions generalizing h r with
  | nil => exact .inl hm
  | cons a actions ih =>
    rcases ih hm with hnow | ⟨earlier, reason, later, c, rfl, hlater⟩
    · rcases mem_words_tell hnow with hbefore | ⟨reason, c, rfl, hthere⟩
      · exact .inl hbefore
      · exact .inr ⟨[], reason, actions, c, rfl, hthere⟩
    · exact .inr ⟨a :: earlier, reason, later, c, rfl, hlater⟩

/-- A message is published at the end of a connection: on behalf of the client, whose session the connection owned and
has given back before, so that it is gone with its subscriptions if it was clean and has no owner otherwise. -/
structure Bequeaths (h : Hub) (token : Nat) (client : String) (message : Message) (given : Peer.Publication) :
    Prop where
  publication : given = ⟨h.broker.releaseSession client token, some client, message⟩
  released : ∃ s, h.broker.session? client = some s ∧ s.owner = some token ∧
    given.broker.session? client = (if s.cleanSession then none else some s.retain) ∧
    (s.cleanSession = true → ¬ given.broker.subscriptions.Mentions client)
  effect : ∃ c, h.connections[token]? = some c ∧ h.teardown token .ungraceful =
    (({ h with broker := (given.broker.publish (some client) message).2 } : Hub).setConnection token c.ended).dispatch
      (given.broker.publish (some client) message).1

/-- The will of a connection that is torn down is published behind the release of its session. -/
theorem Owned.bequeaths (ho : h.Owned) {c : Connection} {client : AcceptedClient} {will : Message}
    (hc : h.connections[token]? = some c) (hup : c.peer.tornDown = false) (hclient : c.peer.client = some client)
    (hwill : client.will = some will) :
    h.Bequeaths token client.id will
      ⟨h.broker.releaseSession client.id c.peer.token, some client.id, will⟩ := by
  obtain ⟨htoken, hset⟩ := ho.settled hc
  have hserves : c.peer.standing.Serves client.id := ⟨Peer.clientId_of_client hclient, hup⟩
  obtain ⟨clean, hhold⟩ := (hset.owned.owner client.id c.peer.token).2 ⟨_, Broker.seat_self _ _ _, hserves⟩
  obtain ⟨s, hs, howner, hclean⟩ := Broker.hold?_eq_some_iff.1 hhold
  rw [htoken] at howner
  have hteardown : c.teardown h.broker .ungraceful =
      (c.ended, ((h.broker.releaseSession client.id c.peer.token).publish (some client.id) will).2,
        ((h.broker.releaseSession client.id c.peer.token).publish (some client.id) will).1) := by
    rw [Connection.teardown_eq]
    simp [hup, hclient, hwill]
  refine ⟨by rw [htoken], ⟨s, hs, howner, ?_, ?_⟩, c, hc, ?_⟩
  · rcases Broker.releaseSession_cases hhold with ⟨rfl, hreleased⟩ | ⟨rfl, hreleased⟩
    · rw [hreleased, hclean]
      simp
    · rw [hreleased, hclean]
      simp [Broker.retainSession, hs]
  · intro hforgotten
    rcases Broker.releaseSession_cases hhold with ⟨rfl, hreleased⟩ | ⟨rfl, hreleased⟩
    · rw [hreleased]
      exact fun hmentions => (Broker.mentions_deleteSession hmentions).2 rfl
    · rw [hclean] at hforgotten
      cases hforgotten
  · rw [Hub.teardown, hc]
    dsimp only
    rw [hteardown]

/-- What the end of a connection publishes is the will that is due of its packets. -/
theorem Story.Fits.bequeaths (hr : r.Fits token h) (ho : h.Owned) {c : Connection} {reason : CloseReason}
    {given : Peer.Publication} (hc : h.connections[token]? = some c)
    (hm : given ∈ (c.departure h.broker reason).published) :
    reason = .ungraceful ∧ ∃ client cn w, .connect cn ∈ r.accepted ∧ cn.will = some w ∧
      h.Bequeaths token client w.message given := by
  have hup : c.peer.tornDown = false := by
    by_contra hdown
    rw [Connection.published_departure_of_tornDown (by simpa using hdown)] at hm
    cases hm
  rcases Connection.published_departure c h.broker reason hup with
    ⟨hnothing, -⟩ | ⟨client, will, hclient, hwill, hreason, hone⟩
  · rw [hnothing] at hm
    cases hm
  · rw [hone] at hm
    obtain rfl := List.mem_singleton.1 hm
    have hdue := (hr.made c hc).recounts.will hup
    rw [hclient, Option.bind_some, hwill] at hdue
    obtain ⟨cn, w, hconnect, hw, -, rfl⟩ := lastWill_eq_some hdue.symm
    exact ⟨hreason, client.id, cn, w, hconnect, hw, ho.bequeaths hc hup hclient hwill⟩

/-! ### What packets bring -/

/-- Packets bring nothing but the messages of those PUBLISH that were accepted, each of them once at most. -/
def Story.Plain (r : Story) : Prop :=
  ∀ a ∈ r.brought, a.2 = [] ∨ ∃ publish given client, a = (.publish publish, [given]) ∧
    .publish publish ∈ r.accepted ∧ given.origin = some client ∧ given.message = publish.message

theorem Story.Plain.tell (hr : r.Plain) (a : Action) : (h.tell token r a).Plain := by
  cases a with
  | accept | written | publish => exact hr
  | teardown t reason =>
    rw [Hub.tell]
    split
    · exact hr
    · split <;> exact hr
  | receive t now bytes =>
    rw [Hub.tell]
    split
    · intro a ha
      rcases List.mem_append.1 ha with ha | ha
      · exact (hr a ha).imp_right fun ⟨publish, given, client, hone, hmem, hgiven⟩ =>
          ⟨publish, given, client, hone, List.mem_append_left _ hmem, hgiven⟩
      · obtain ⟨m, hm, hbrought⟩ := List.mem_filterMap.1 ha
        exact (Broker.Moment.brought?_cases hbrought).imp_right fun ⟨publish, given, client, hone, hmem, hgiven⟩ =>
          ⟨publish, given, client, hone, List.mem_append_right _ (List.mem_filterMap.2 ⟨m, hm, hmem⟩), hgiven⟩
    · exact hr

theorem Story.Plain.story (hr : r.Plain) (actions : List Action) : (h.story token r actions).Plain := by
  induction actions generalizing h r with
  | nil => exact hr
  | cons a actions ih => exact ih (hr.tell a)

/-! ### What a run tells -/

/-- A connection that has ended is not changed by another end. -/
theorem teardown_of_tornDown {c : Connection} (hc : h.connections[token]? = some c) (hdown : c.peer.tornDown = true)
    (reason : CloseReason) : h.teardown token reason = h := by
  have hnothing : c.teardown h.broker reason = (c, h.broker, []) := by rw [Connection.teardown_eq, if_pos hdown]
  have hsame : h.connections.insert token c = h.connections := by
    refine Std.ExtTreeMap.ext_getElem? fun other => ?_
    by_cases hother : token = other
    · simp [← hother, hc]
    · simp [Std.ExtTreeMap.getElem?_insert, hother]
  rw [Hub.teardown, hc]
  dsimp only
  rw [hnothing]
  dsimp only [dispatch, List.foldl_nil, setConnection]
  rw [hsame]

/-- **The will of a client is published when it is due, and once.** However bytes, ends and whatever else happens to
a broker and its connections follow each other: the packets of a connection that are accepted are a CONNECT and others
that are none. Whatever is handled of its bytes, nothing is given to the broker to publish but the message of each
PUBLISH that is accepted, once at most; a DISCONNECT, a CONNECT or a packet that is refused publishes no will. The ends
of the connection publish one message at most. They publish one if and only if the CONNECT left a will, the client did
not say goodbye and the first end of the connection is an ungraceful one. It is the will that was left, and its session
is released when it is published. An end that follows another changes nothing. -/
theorem run_lastWill {b : Broker} (hb : b.Initial) (token : Nat) (actions : List Action) :
    let r := (start b).story token {} actions
    (r.accepted = [] ∨ ∃ c rest, r.accepted = .connect c :: rest ∧ ∀ c', .connect c' ∉ rest) ∧
    (∀ a ∈ r.brought, a.2 = [] ∨ ∃ publish given client, a = (.publish publish, [given]) ∧
      .publish publish ∈ r.accepted ∧ given.origin = some client ∧ given.message = publish.message) ∧
    r.words.length ≤ 1 ∧
    (r.words ≠ [] ↔ ∃ c w, .connect c ∈ r.accepted ∧ c.will = some w ∧ .disconnect ∉ r.accepted ∧
      r.ended = some .ungraceful) ∧
    (∀ given ∈ r.words, ∃ earlier later client c w, actions = earlier ++ .teardown token .ungraceful :: later ∧
      .connect c ∈ r.accepted ∧ c.will = some w ∧
      ((start b).run earlier).Bequeaths token client ⟨w.topic, w.payload, w.qos, w.retain⟩ given) ∧
    (r.ended.isSome = true → ∀ reason, ((start b).run actions).teardown token reason = (start b).run actions) := by
  intro r
  have ho : (start b).Owned := hb.owned
  have hstart : ({} : Story).Fits token (start b) := ⟨fun _ => rfl, fun c hc => by simp [start] at hc⟩
  have hr : r.Fits token ((start b).run actions) := hstart.run ho actions
  have hplain : r.Plain := Story.Plain.story (r := {}) (List.forall_mem_nil _) actions
  have hwords : ∀ given ∈ r.words, ∃ earlier later client c w,
      actions = earlier ++ .teardown token .ungraceful :: later ∧ .connect c ∈ r.accepted ∧ c.will = some w ∧
      ((start b).run earlier).Bequeaths token client ⟨w.topic, w.payload, w.qos, w.retain⟩ given := by
    intro given hm
    rcases mem_words_story hm with hnone | ⟨earlier, reason, later, c, hactions, hc, hlast⟩
    · cases hnone
    obtain ⟨rfl, client, cn, w, hcn, hw, hbequeaths⟩ := (hstart.run ho earlier).bequeaths (ho.run earlier) hc hlast
    obtain ⟨more, hmore⟩ := accepted_story token ((start b).run earlier) ((start b).story token {} earlier)
      (.teardown token .ungraceful :: later)
    refine ⟨earlier, later, client, cn, w, hactions, ?_, hw, hbequeaths⟩
    have hsplit : r.accepted = ((start b).story token {} earlier).accepted ++ more := by
      rw [← hmore, ← story_append, ← hactions]
    rw [hsplit]
    exact List.mem_append_left _ hcn
  cases hc : ((start b).run actions).connections[token]? with
  | none =>
    -- no connection was made under the token
    have hempty : r = {} := hr.unmade hc
    refine ⟨.inl (by rw [hempty]), hplain, by simp [hempty], by simp [hempty], hwords, by simp [hempty]⟩
  | some c =>
    have hof := hr.made c hc
    obtain ⟨hlength, hiff⟩ := hof.words_iff
    refine ⟨?_, hplain, hlength, hiff, hwords, ?_⟩
    · cases hclient : c.peer.client with
      | none => exact .inl (hof.recounts.silent hclient)
      | some client => exact .inr (hof.recounts.greeted (by rw [hclient]; rfl))
    · intro hended reason
      refine teardown_of_tornDown hc ?_ reason
      by_contra hup
      rw [(hof.up (by simpa using hup)).1] at hended
      cases hended

/-- A client connects as "c" with a will, publishes a message of its own, and its connection breaks, and breaks
again. -/
def mourned : List Action :=
  [.accept 2 {} 0, .receive 2 0 [0x10, 19, 0, 4, 77, 81, 84, 84, 4, 6, 0, 0, 0, 1, 99, 0, 1, 119, 0, 1, 120],
    .receive 2 0 [0x30, 4, 0, 1, 97, 121], .teardown 2 .ungraceful, .teardown 2 .ungraceful]

/-- Its will is published once, and so is the message. -/
theorem run_lastWill_mourned :
    (Broker.new {}).Initial ∧
      (∃ a ∈ ((start (.new {})).story 2 {} mourned).brought, ∃ given, a.2 = [given] ∧
        given.message = ⟨"a", "y".toUTF8, .atMostOnce, false⟩) ∧
      ∃ given client, ((start (.new {})).story 2 {} mourned).words = [given] ∧ given.origin = some client ∧
        given.message = ⟨"w", "x".toUTF8, .atMostOnce, false⟩ := by
  have hstart : (Broker.new {}).Initial := .new {}
  let will : Will := ⟨"w", "x".toUTF8, .atMostOnce, false⟩
  let cn : Connect := ⟨"MQTT", 4, true, 0, "c", some will, none, none⟩
  let message : Publish := ⟨false, .atMostOnce, false, "a", none, "y".toUTF8⟩
  have haccepted : ((start (.new {})).story 2 {} mourned).accepted = [.connect cn, .publish message] := by
    decide +kernel
  have hended : ((start (.new {})).story 2 {} mourned).ended = some .ungraceful := by decide +kernel
  have hbrought : (((start (.new {})).story 2 {} mourned).brought.map fun a => (a.1, a.2.isEmpty)) =
      [(.connect cn, true), (.publish message, false)] := by decide +kernel
  obtain ⟨-, hplain, hlength, hiff, hwords, -⟩ := run_lastWill hstart 2 mourned
  refine ⟨hstart, ?_, ?_⟩
  · obtain ⟨a, ha, hlast⟩ := List.mem_map.1 (hbrought ▸ List.mem_cons_of_mem _ (List.mem_singleton_self _))
    obtain ⟨hpacket, hsome⟩ := Prod.mk.inj hlast
    rcases hplain a ha with hnothing | ⟨publish, given, client, rfl, -, -, hgiven⟩
    · rw [hnothing] at hsome
      cases hsome
    · refine ⟨_, ha, given, rfl, hgiven.trans ?_⟩
      rw [Packet.publish.inj hpacket]
      rfl
  · have hpublished : ((start (.new {})).story 2 {} mourned).words ≠ [] :=
      hiff.2 ⟨cn, will, by rw [haccepted]; exact .head _, rfl, by rw [haccepted]; simp, hended⟩
    obtain ⟨given, rest, hm⟩ := List.exists_cons_of_ne_nil hpublished
    rw [hm, List.length_cons] at hlength
    obtain rfl : rest = [] := List.eq_nil_of_length_eq_zero (by omega)
    obtain ⟨earlier, later, client, c, w, -, hc, hw, hbequeaths⟩ := hwords given (by rw [hm]; exact .head _)
    rw [haccepted] at hc
    obtain hc := (List.mem_cons.1 hc).resolve_right (by simp)
    have hleft : some will = some w := by rwa [Packet.connect.inj hc] at hw
    rw [← Option.some.inj hleft] at hbequeaths
    exact ⟨given, client, hm, by rw [hbequeaths.publication], by rw [hbequeaths.publication]⟩

end Hub

end Mqtt
