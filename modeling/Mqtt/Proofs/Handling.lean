import Mqtt.Connection
import Mqtt.Proofs.Handshakes
import Mqtt.Proofs.Reading
import Mqtt.Proofs.Sessions

/-!
# What a connection may do with a packet: `Connection::handle_packet`

The handlers of `Mqtt.Connection` change peer and broker step by step, and each has a `run_…` lemma that says where
it may fail and what it has done by then. Of whole packets, `Peer.Accepts p b now packet h` lists the ways in which
one can be accepted, each with all its consequences. `handle_ok` says that there are no others, so what holds of every
run of a connection is shown by one case for each, and no proof about runs opens the handlers. `Peer.Rejects p b r`
and `handle_rejects` do the same for the packets that are refused: whatever a handler did before it failed, peer and
broker are as they were, and nothing is to be sent but a CONNACK to the client itself.
-/

namespace Mqtt

/-- The client of a CONNECT that was accepted, with its will. -/
structure AcceptedClient where
  id : String
  will : Option Message

namespace Broker

/-- The name asks for a session that is to be kept without telling whose, or its session is owned. -/
def Unwelcome (b : Broker) (c : Connect) : Prop :=
  (c.clientId = "" ∧ c.cleanSession = false) ∨
    (c.clientId ≠ "" ∧ ∃ s token, b.session? c.clientId = some s ∧ s.owner = some token)

/-- Nobody owns the session of a client that is welcome. -/
theorem owner_of_welcome {b : Broker} {c : Connect} (h : ¬ b.Unwelcome c) {s : Session}
    (hs : b.session? (b.nameFor c) = some s) : c.clientId ≠ "" ∧ s.owner = none := by
  by_cases hempty : c.clientId = ""
  · rw [nameFor, if_pos hempty, session?_assignClientId] at hs
    cases hs
  · rw [nameFor, if_neg hempty] at hs
    refine ⟨hempty, ?_⟩
    cases howner : s.owner with
    | none => rfl
    | some token => exact absurd (.inr ⟨hempty, s, token, hs, howner⟩) h

end Broker

namespace Peer

open Broker

/-- The client, once its CONNECT is accepted. -/
def client (p : Peer) : Option AcceptedClient := p.clientId.map (⟨·, p.will⟩)

theorem client_eq_some_iff {p : Peer} {client : AcceptedClient} :
    p.client = some client ↔ p.clientId = some client.id ∧ p.will = client.will := by
  obtain ⟨id, will⟩ := client
  unfold Peer.client
  cases p.clientId <;> simp

theorem client_of_clientId {p : Peer} {id : String} (h : p.clientId = some id) : p.client = some ⟨id, p.will⟩ := by
  rw [client, h]
  rfl

theorem clientId_of_client {p : Peer} {client : AcceptedClient} (h : p.client = some client) :
    p.clientId = some client.id := (client_eq_some_iff.1 h).1

theorem isSome_client (p : Peer) : p.client.isSome = p.clientId.isSome := Option.isSome_map

/-- A client that says goodbye is still known. -/
@[simp] theorem isSome_client_handleDisconnect (p : Peer) : p.handleDisconnect.client.isSome = p.client.isSome :=
  (isSome_client _).trans (isSome_client p).symm

theorem client_eq_none_iff {p : Peer} : p.client = none ↔ p.clientId = none := Option.map_eq_none_iff

/-- The peer once its CONNECT is accepted under an identifier. -/
def introduce (p : Peer) (now : Nat) (c : Connect) (id : String) : Peer :=
  { p with
    clientId := some id
    will := c.will.map Will.message
    keepAlive := .new (KeepAlive.effective p.limits.maxKeepAlive c.keepAlive) now }

theorem state_eq_connected_iff {p : Peer} : p.state = .connected ↔ p.isClosed = false ∧ p.client.isSome = true := by
  unfold state client
  cases p.isClosed <;> cases p.clientId <;> simp

theorem state_eq_awaitingConnect_iff {p : Peer} :
    p.state = .awaitingConnect ↔ p.isClosed = false ∧ p.client = none := by
  unfold state client
  cases p.isClosed <;> cases p.clientId <;> simp

/-- The ways in which a packet is accepted. -/
inductive Accepts (p : Peer) (b : Broker) (now : Nat) : Packet → Handled → Prop
  /-- A session without history begins; one that is there had no owner and is given up. -/
  | fresh {c : Connect} {id : String} {n : Nat} :
      p.client = none → (c.clientId = "" → c.cleanSession = true) → (c.clientId ≠ "" → id = c.clientId) →
      (∀ s, b.session? id = some s → s.owner = none ∧ c.cleanSession = true) →
      Accepts p b now (.connect c)
        ⟨p.introduce now c id,
          (({ b with assigned := n } : Broker).deleteSession id).newSession id p.token c.cleanSession,
          [p.reply (.connack false .accepted)], []⟩
  /-- A session that was kept is taken up again. -/
  | resumed {c : Connect} {s : Session} :
      p.client = none → c.cleanSession = false → c.clientId ≠ "" →
      b.session? c.clientId = some s → s.owner = none →
      Accepts p b now (.connect c)
        ⟨p.introduce now c c.clientId,
          ((b.setSession c.clientId (s.renew p.token)).restartSession c.clientId).2,
          p.reply (.connack true .accepted)
            :: ((b.setSession c.clientId (s.renew p.token)).restartSession c.clientId).1, []⟩
  /-- A new message is answered and routed. -/
  | routed {client : AcceptedClient} {s : Session} {publish : Publish} {reply : Option Packet}
      {inflight : Inflight} :
      p.client = some client → b.session? client.id = some s →
      s.inflight.Takes publish ⟨true, reply⟩ inflight →
      Accepts p b now (.publish publish)
        ⟨p, ((b.setSession client.id { s with inflight }).publish (some client.id) publish.message).2,
          reply.toList.map p.reply
            ++ ((b.setSession client.id { s with inflight }).publish (some client.id) publish.message).1,
          [⟨b.setSession client.id { s with inflight }, some client.id, publish.message⟩]⟩
  /-- A message that came before is answered again. -/
  | repeated {client : AcceptedClient} {s : Session} {publish : Publish} {reply : Option Packet}
      {inflight : Inflight} :
      p.client = some client → b.session? client.id = some s →
      s.inflight.Takes publish ⟨false, reply⟩ inflight →
      Accepts p b now (.publish publish)
        ⟨p, b.setSession client.id { s with inflight }, reply.toList.map p.reply, []⟩
  | acknowledged {client : AcceptedClient} {s : Session} {packet : Packet} {reply : Option Packet}
      {inflight : Inflight} :
      p.client = some client → b.session? client.id = some s → s.inflight.Acks packet reply inflight →
      Accepts p b now packet
        ⟨p, b.setSession client.id { s with inflight }, reply.toList.map p.reply, []⟩
  | subscribed {client : AcceptedClient} {id : UInt16} {topics : List TopicRequest} :
      p.client = some client → id ≠ 0 →
      Accepts p b now (.subscribe id topics)
        ⟨p, (subscribeAll b client.id topics).2.2,
          p.reply (.suback id (subscribeAll b client.id topics).1)
            :: (subscribeAll b client.id topics).2.1, []⟩
  | unsubscribed {client : AcceptedClient} {id : UInt16} {filters : List String} :
      p.client = some client → id ≠ 0 →
      Accepts p b now (.unsubscribe id filters)
        ⟨p, filters.foldl (fun b filter => b.unsubscribe client.id filter) b,
          [p.reply (.unsuback id)], []⟩
  | pinged {client : AcceptedClient} : p.client = some client →
      Accepts p b now .pingreq ⟨p, b, [p.reply .pingresp], []⟩
  | left {client : AcceptedClient} : p.client = some client →
      Accepts p b now .disconnect ⟨p.handleDisconnect, b, [], []⟩

/-- How a packet is refused. Peer and broker are as they were, and the client is told nothing, or why its CONNECT is
turned down. Only a client without a session ever fails for having none. -/
inductive Rejects (p : Peer) (b : Broker) : Refusal → Prop
  | silently {e : ProtocolError} :
      ((∀ client, p.client = some client → (b.session? client.id).isSome) → e.OfBytes) → Rejects p b ⟨e, .start p b⟩
  | turnedDown {code : ConnackCode} {e : ProtocolError} :
      p.client = none → code ≠ .accepted → e.OfBytes →
      Rejects p b ⟨e, (Handled.start p b).reply (.connack false code)⟩

variable {p : Peer} {b : Broker} {now : Nat} {client : AcceptedClient} {h h' : Handled} {r : Refusal} {c : Connect}

theorem outcome_eq_ok {x : Handling Unit} : x.outcome p b = .ok h ↔ x.run (.start p b) = .ok () h := by
  unfold Handling.outcome
  cases x.run (.start p b) <;> simp

theorem outcome_eq_error {x : Handling Unit} :
    x.outcome p b = .error r ↔ x.run (.start p b) = .error r.error r.handled := by
  obtain ⟨e, h⟩ := r
  unfold Handling.outcome
  cases x.run (.start p b) <;> simp

/-! ### CONNECT -/

theorem run_chooseId (c : Connect) (h : Handled) : (chooseId c).run h =
    if c.clientId = "" then
      if c.cleanSession = true then .ok h.broker.assignClientId.1 { h with broker := h.broker.assignClientId.2 }
      else .error (.identifierRejected c.clientId) (h.reply (.connack false .identifierRejected))
    else .ok c.clientId h := by
  unfold chooseId
  by_cases hempty : c.clientId = ""
  · cases hclean : c.cleanSession with
    | true => simp [hempty, Handled.ask]
    | false => simp [hempty, turnDown]
  · simp [hempty]

theorem run_openSession (now : Nat) (c : Connect) (id : String) (p : Peer) (b : Broker) :
    (openSession now c id).run (.start p b) =
      if (b.hasRetainedSession id && !c.cleanSession) = true then
        .ok () ⟨p.introduce now c id, ((b.renewSession id p.token).restartSession id).2,
          p.reply (.connack true .accepted) :: ((b.renewSession id p.token).restartSession id).1, []⟩
      else
        .ok () ⟨p.introduce now c id, (b.deleteSession id).newSession id p.token c.cleanSession,
          [p.reply (.connack false .accepted)], []⟩ := by
  by_cases hpresent : (b.hasRetainedSession id && !c.cleanSession) = true
  · rw [if_pos hpresent]
    simp only [openSession, EStateM.run_bind, EStateM.run_modify, EStateM.run_get, Handled.start, Handled.onPeer,
      hpresent, if_true]
    rfl
  · rw [if_neg hpresent]
    simp only [openSession, EStateM.run_bind, EStateM.run_modify, EStateM.run_get, Handled.start, Handled.onPeer,
      hpresent]
    rfl

theorem run_handleConnect (now : Nat) (c : Connect) (h : Handled) : (handleConnect now c).run h =
    if c.protocolName ≠ protocolName then .error (.invalidProtocolName c.protocolName) h
    else if c.protocolLevel ≠ protocolLevel then
      .error (.unsupportedProtocolVersion c.protocolLevel) (h.reply (.connack false .unacceptableProtocolVersion))
    else match (chooseId c).run h with
      | .error e h => .error e h
      | .ok id h =>
        if h.broker.hasActiveSession id = true then
          .error (.identifierRejected id) (h.reply (.connack false .identifierRejected))
        else (openSession now c id).run h := by
  unfold handleConnect
  by_cases hname : c.protocolName ≠ protocolName
  · rw [if_pos hname, if_pos hname]
    rfl
  by_cases hlevel : c.protocolLevel ≠ protocolLevel
  · rw [if_neg hname, if_neg hname, if_pos hlevel, if_pos hlevel]
    rfl
  rw [if_neg hname, if_neg hname, if_neg hlevel, if_neg hlevel, EStateM.run_bind]
  rcases (chooseId c).run h with ⟨id, h'⟩ | ⟨e, h'⟩
  · by_cases hactive : h'.broker.hasActiveSession id = true
    · simp only [EStateM.run_bind, EStateM.run_get, hactive, if_true]
      rfl
    · simp only [EStateM.run_bind, EStateM.run_get, hactive]
      rfl
  · rfl

/-! The table of a CONNECT: its protocol, its level and its name are checked, in this order. -/

theorem handleConnect_name (hname : c.protocolName ≠ protocolName) :
    (handleConnect now c).outcome p b = .error ⟨.invalidProtocolName c.protocolName, .start p b⟩ := by
  rw [outcome_eq_error, run_handleConnect, if_pos hname]

theorem handleConnect_level (hname : c.protocolName = protocolName) (hlevel : c.protocolLevel ≠ protocolLevel) :
    (handleConnect now c).outcome p b = .error ⟨.unsupportedProtocolVersion c.protocolLevel,
      (Handled.start p b).reply (.connack false .unacceptableProtocolVersion)⟩ := by
  rw [outcome_eq_error, run_handleConnect, if_neg (not_not.2 hname), if_pos hlevel]

/-- The identifier is all that is left to be checked. -/
theorem run_handleConnect_of_chooseId (hname : c.protocolName = protocolName) (hlevel : c.protocolLevel = protocolLevel)
    {id : String} (hid : (chooseId c).run h = .ok id h') :
    (handleConnect now c).run h =
      if h'.broker.hasActiveSession id = true then
        .error (.identifierRejected id) (h'.reply (.connack false .identifierRejected))
      else (openSession now c id).run h' := by
  rw [run_handleConnect, if_neg (not_not.2 hname), if_neg (not_not.2 hlevel), hid]

theorem run_chooseId_named (hne : c.clientId ≠ "") : (chooseId c).run h = .ok c.clientId h := by
  rw [run_chooseId, if_neg hne]

theorem run_chooseId_start (h : c.clientId = "" → c.cleanSession = true) :
    ∃ n, (chooseId c).run (.start p b) = .ok (b.nameFor c) (.start p { b with assigned := n }) := by
  rw [run_chooseId]
  by_cases hempty : c.clientId = ""
  · exact ⟨_, by rw [if_pos hempty, if_pos (h hempty), nameFor, if_pos hempty]; rfl⟩
  · exact ⟨b.assigned, by rw [if_neg hempty, nameFor, if_neg hempty]⟩

theorem handleConnect_unwelcome (hname : c.protocolName = protocolName) (hlevel : c.protocolLevel = protocolLevel)
    (h : b.Unwelcome c) :
    (handleConnect now c).outcome p b = .error ⟨.identifierRejected c.clientId,
      (Handled.start p b).reply (.connack false .identifierRejected)⟩ := by
  rw [outcome_eq_error]
  rcases h with ⟨hempty, hkept⟩ | ⟨hne, s, token, hs, howner⟩
  · rw [run_handleConnect, if_neg (not_not.2 hname), if_neg (not_not.2 hlevel), run_chooseId, if_pos hempty,
      if_neg (by simp [hkept])]
  · have hactive : b.hasActiveSession c.clientId = true := by
      simp [hasActiveSession, hs, Session.isActive, howner]
    rw [run_handleConnect_of_chooseId hname hlevel (run_chooseId_named hne)]
    exact if_pos hactive

/-- A session that is kept is taken up again. -/
theorem handleConnect_resumed {s : Session} (hname : c.protocolName = protocolName)
    (hlevel : c.protocolLevel = protocolLevel) (hne : c.clientId ≠ "") (hkept : c.cleanSession = false)
    (hs : b.session? c.clientId = some s) (howner : s.owner = none) :
    (handleConnect now c).outcome p b =
      .ok ⟨p.introduce now c c.clientId,
        ((b.setSession c.clientId (s.renew p.token)).restartSession c.clientId).2,
        p.reply (.connack true .accepted)
          :: ((b.setSession c.clientId (s.renew p.token)).restartSession c.clientId).1, []⟩ := by
  have hactive : ¬ (Handled.start p b).broker.hasActiveSession c.clientId = true := by
    simp [Handled.start, hasActiveSession, hs, Session.isActive, howner]
  have hpresent : (b.hasRetainedSession c.clientId && !c.cleanSession) = true := by
    simp [hasRetainedSession, hs, Session.isActive, howner, hkept]
  have hrenew : b.renewSession c.clientId p.token = b.setSession c.clientId (s.renew p.token) :=
    modifySession_eq_of_some _ hs
  rw [outcome_eq_ok, run_handleConnect_of_chooseId hname hlevel (run_chooseId_named hne), if_neg hactive,
    run_openSession, if_pos hpresent, hrenew]

/-- A session begins anew. -/
theorem handleConnect_fresh (hname : c.protocolName = protocolName) (hlevel : c.protocolLevel = protocolLevel)
    (hnamed : c.clientId = "" → c.cleanSession = true)
    (hfree : ∀ s, b.session? (b.nameFor c) = some s → s.owner = none ∧ c.cleanSession = true) :
    ∃ n, (handleConnect now c).outcome p b =
      .ok ⟨p.introduce now c (b.nameFor c),
        (({ b with assigned := n } : Broker).deleteSession (b.nameFor c)).newSession (b.nameFor c) p.token
          c.cleanSession,
        [p.reply (.connack false .accepted)], []⟩ := by
  obtain ⟨n, hid⟩ := run_chooseId_start (p := p) (b := b) hnamed
  refine ⟨n, ?_⟩
  have hactive : ({ b with assigned := n } : Broker).hasActiveSession (b.nameFor c) = false :=
    (hasActiveSession_eq_false_iff _ _).2 fun s hs => (hfree s hs).1
  have hpresent : ¬ (({ b with assigned := n } : Broker).hasRetainedSession (b.nameFor c) && !c.cleanSession) =
      true := by
    intro hpresent
    rw [Bool.and_eq_true] at hpresent
    obtain ⟨s, hs, -⟩ := (hasRetainedSession_iff _ _).1 hpresent.1
    rw [(hfree s hs).2] at hpresent
    exact nomatch hpresent.2
  rw [outcome_eq_ok, run_handleConnect_of_chooseId hname hlevel hid, if_neg (by simp [Handled.start, hactive]),
    run_openSession, if_neg hpresent]

/-- There is nothing else that a CONNECT may come to. -/
theorem handleConnect_cases (hp : p.client = none) (now : Nat) (b : Broker) (c : Connect) :
    (∃ h, (handleConnect now c).outcome p b = .ok h ∧ Accepts p b now (.connect c) h) ∨
      ∃ r, (handleConnect now c).outcome p b = .error r ∧ p.Rejects b r := by
  by_cases hname : c.protocolName = protocolName
  swap
  · exact .inr ⟨_, handleConnect_name hname, .silently fun _ => by simp [ProtocolError.OfBytes]⟩
  by_cases hlevel : c.protocolLevel = protocolLevel
  swap
  · exact .inr ⟨_, handleConnect_level hname hlevel, .turnedDown hp (by decide) (by simp [ProtocolError.OfBytes])⟩
  by_cases hunwelcome : b.Unwelcome c
  · exact .inr ⟨_, handleConnect_unwelcome hname hlevel hunwelcome,
      .turnedDown hp (by decide) (by simp [ProtocolError.OfBytes])⟩
  refine .inl ?_
  by_cases hpresent : ∃ s, b.session? (b.nameFor c) = some s ∧ c.cleanSession = false
  · obtain ⟨s, hs, hkept⟩ := hpresent
    obtain ⟨hne, howner⟩ := owner_of_welcome hunwelcome hs
    rw [nameFor, if_neg hne] at hs
    exact ⟨_, handleConnect_resumed hname hlevel hne hkept hs howner, .resumed hp hkept hne hs howner⟩
  · have hfree : ∀ s, b.session? (b.nameFor c) = some s → s.owner = none ∧ c.cleanSession = true := by
      intro s hs
      refine ⟨(owner_of_welcome hunwelcome hs).2, ?_⟩
      by_contra hkept
      exact hpresent ⟨s, hs, by simpa using hkept⟩
    have hnamed : c.clientId = "" → c.cleanSession = true := by
      intro hempty
      by_contra hkept
      exact hunwelcome (.inl ⟨hempty, by simpa using hkept⟩)
    obtain ⟨n, hfresh⟩ := @handleConnect_fresh p b now c hname hlevel hnamed hfree
    exact ⟨_, hfresh, .fresh hp hnamed (fun hne => if_neg hne) hfree⟩

/-! ### Packets of a connected client -/

theorem run_withInflight {α : Type} (id : String) (f : Inflight.Handshaking α) (h : Handled) :
    (withInflight id f).run h =
      match h.broker.session? id with
      | none => .error (.malformedPacket (.noSession id)) h
      | some s =>
        match f.run s.inflight with
        | .ok a inflight => .ok a (h.onBroker (·.setSession id { s with inflight }))
        | .error e inflight => .error e (h.onBroker (·.setSession id { s with inflight })) := by
  unfold withInflight
  rw [EStateM.run_bind, EStateM.run_get]
  dsimp only
  cases h.broker.session? id with
  | none => rfl
  | some s =>
    dsimp only
    cases f.run s.inflight <;> rfl

theorem withInflight_ok {α : Type} {id : String} {a : α} {f : Inflight.Handshaking α}
    (hrun : (withInflight id f).run h = .ok a h') :
    ∃ s inflight, h.broker.session? id = some s ∧ f.run s.inflight = .ok a inflight ∧
      h' = h.onBroker (·.setSession id { s with inflight }) := by
  rw [run_withInflight] at hrun
  split at hrun
  · cases hrun
  · next s hs =>
    split at hrun
    · next inflight hf =>
      cases hrun
      exact ⟨s, inflight, hs, hf, rfl⟩
    · cases hrun

/-- A step that fails without a change to the handshakes changes nothing, and a client with a session is told only
what its own packet brought about. -/
theorem withInflight_error {α : Type} {id : String} {e e' : ProtocolError} {f : Inflight.Handshaking α}
    (hfails : ∀ s e' s', f.run s = .error e' s' → e' = e ∧ s' = s)
    (hrun : (withInflight id f).run h = .error e' h') :
    h' = h ∧ ((h.broker.session? id).isSome → e' = e) := by
  rw [run_withInflight] at hrun
  split at hrun
  · next hs =>
    cases hrun
    exact ⟨rfl, fun hsome => by rw [hs] at hsome; cases hsome⟩
  · next s hs =>
    split at hrun
    · cases hrun
    · next e' inflight hf =>
      cases hrun
      obtain ⟨rfl, rfl⟩ := hfails _ _ _ hf
      refine ⟨?_, fun _ => rfl⟩
      show { h with broker := h.broker.setSession id s } = h
      rw [setSession_self hs]

/-- Answer if there is an answer. -/
def Handled.answer (h : Handled) : Option Packet → Handled
  | some packet => h.reply packet
  | none => h

theorem answer_eq (h : Handled) (reply : Option Packet) :
    h.answer reply = h.route (reply.toList.map h.peer.reply) := by
  cases reply with
  | none => simp [Handled.answer, Handled.route]
  | some packet => rfl

/-- A message is published, and its copies are listed to be delivered. -/
def Handled.publishing (h : Handled) (origin : Option String) (m : Message) : Handled :=
  ⟨h.peer, (h.broker.publish origin m).2, h.output ++ (h.broker.publish origin m).1,
    h.published ++ [⟨h.broker, origin, m⟩]⟩

theorem publish_eq (h : Handled) (origin : Option String) (m : Message) : h.publish origin m =
    ((h.broker.publish origin m).1, ⟨h.peer, (h.broker.publish origin m).2, h.output,
      h.published ++ [⟨h.broker, origin, m⟩]⟩) := by
  unfold Handled.publish
  rcases h.broker.publish origin m with ⟨ds, b⟩
  rfl

theorem run_handlePublish (id : String) (publish : Publish) (h : Handled) : (handlePublish id publish).run h =
    if !Topic.isValidName publish.topic || publish.topic.utf8ByteSize > h.peer.limits.maxTopicLength then
      .error (.invalidTopicName publish.topic) h
    else match (withInflight id (Inflight.onPublish publish)).run h with
      | .error e h => .error e h
      | .ok arrival h =>
        .ok () (if arrival.deliver then (h.answer arrival.reply).publishing (some id) publish.message
          else h.answer arrival.reply) := by
  unfold handlePublish
  by_cases hvalid : Topic.isValidName publish.topic = true
  swap
  · simp [hvalid]
  by_cases hlong : publish.topic.utf8ByteSize > h.peer.limits.maxTopicLength
  · simp [hvalid, hlong]
  simp only [hvalid, hlong, Bool.not_true, Bool.false_eq_true, if_false, EStateM.run_bind, EStateM.run_get,
    decide_false, Bool.or_self]
  rcases (withInflight id (Inflight.onPublish publish)).run h with ⟨⟨deliver, reply⟩, h'⟩ | ⟨e, h'⟩
  · cases deliver with
    | false => cases reply <;> rfl
    | true =>
      cases reply with
      | none => simp [publish_eq, Handled.answer, Handled.publishing, Handled.route]
      | some packet => simp [publish_eq, Handled.answer, Handled.publishing, Handled.route]
  · rfl

theorem handlePublish_ok {publish : Publish} (hp : p.client = some client)
    (hh : (handlePublish client.id publish).run (.start p b) = .ok () h) : Accepts p b now (.publish publish) h := by
  rw [run_handlePublish] at hh
  split at hh
  · cases hh
  split at hh
  · cases hh
  · next arrival h' hf =>
    obtain ⟨s, inflight, hs, htakes, rfl⟩ := withInflight_ok hf
    have htakes := Inflight.onPublish_ok htakes
    cases hh
    obtain ⟨deliver, reply⟩ := arrival
    rw [answer_eq]
    cases deliver with
    | true => exact .routed hp hs htakes
    | false => exact .repeated hp hs htakes

theorem handlePublish_error {publish : Publish} {id : String} {e : ProtocolError}
    (hr : (handlePublish id publish).run h = .error e h') :
    h' = h ∧ ((h.broker.session? id).isSome → e.OfBytes) := by
  rw [run_handlePublish] at hr
  split at hr
  · cases hr
    exact ⟨rfl, fun _ => by simp [ProtocolError.OfBytes]⟩
  split at hr
  · next e' h₁ hf =>
    cases hr
    obtain ⟨rfl, herror⟩ := withInflight_error (fun _ _ _ => Inflight.onPublish_error) hf
    exact ⟨rfl, fun hsome => by rw [herror hsome]; simp [ProtocolError.OfBytes]⟩
  · cases hr

/-- An acknowledgement is handled by the handshakes of the client's session alone, and may be answered. -/
theorem handleConnected_ack (id : String) {packet : Packet} (hack : packet.isAck = true) :
    ∃ (α : Type) (f : Inflight.Handshaking α) (reply : α → Option Packet),
      (∀ s a s', f.run s = .ok a s' → s.Acks packet (reply a) s') ∧
      (∀ s e s', f.run s = .error e s' → e = .missingPacketId packet.type ∧ s' = s) ∧
      ∀ h, (handleConnected id packet).run h =
        match (withInflight id f).run h with
        | .ok a h => .ok () (h.answer (reply a))
        | .error e h => .error e h := by
  cases packet with
  | puback k =>
    refine ⟨_, Inflight.onPuback k, fun _ => none, fun s a s' h => (Inflight.onPuback_ok h).2, fun s e s' h => ?_,
      fun h => ?_⟩
    · rw [Inflight.run_onPuback] at h
      exact Inflight.eq_of_error h
    · rw [handleConnected, EStateM.run_bind]
      cases (withInflight id _).run h <;> rfl
  | pubrec k =>
    refine ⟨_, Inflight.onPubrec k, some, fun s a s' h => Inflight.onPubrec_ok h, fun s e s' h => ?_, fun h => ?_⟩
    · rw [Inflight.run_onPubrec] at h
      exact Inflight.eq_of_error h
    · rw [handleConnected, EStateM.run_bind]
      cases (withInflight id _).run h <;> rfl
  | pubrel k =>
    refine ⟨_, Inflight.onPubrel k, some, fun s a s' h => Inflight.onPubrel_ok h, fun s e s' h => ?_, fun h => ?_⟩
    · rw [Inflight.run_onPubrel] at h
      exact Inflight.eq_of_error h
    · rw [handleConnected, EStateM.run_bind]
      cases (withInflight id _).run h <;> rfl
  | pubcomp k =>
    refine ⟨_, Inflight.onPubcomp k, fun _ => none, fun s a s' h => (Inflight.onPubcomp_ok h).2, fun s e s' h => ?_,
      fun h => ?_⟩
    · rw [Inflight.run_onPubcomp] at h
      exact Inflight.eq_of_error h
    · rw [handleConnected, EStateM.run_bind]
      cases (withInflight id _).run h <;> rfl
  | connect | connack | publish | subscribe | suback | unsubscribe | unsuback | pingreq | pingresp
  | disconnect => cases hack

theorem handleConnected_ack_ok {packet : Packet} (hack : packet.isAck = true) (hp : p.client = some client)
    (hh : (handleConnected client.id packet).run (.start p b) = .ok () h) : Accepts p b now packet h := by
  obtain ⟨α, f, reply, hacks, -, hhandle⟩ := handleConnected_ack client.id hack
  rw [hhandle] at hh
  split at hh
  · next a h' hf =>
    obtain ⟨s, inflight, hs, hok, rfl⟩ := withInflight_ok hf
    cases hh
    rw [answer_eq]
    exact .acknowledged hp hs (hacks _ _ _ hok)
  · cases hh

/-- A client with a session is told of an acknowledgement only that its identifier is missing. -/
theorem handleConnected_ack_error {packet : Packet} (hack : packet.isAck = true) {id : String} {e : ProtocolError}
    (hr : (handleConnected id packet).run h = .error e h') :
    h' = h ∧ ((h.broker.session? id).isSome → e = .missingPacketId packet.type) := by
  obtain ⟨α, f, reply, -, hfails, hhandle⟩ := handleConnected_ack id hack
  rw [hhandle] at hr
  split at hr
  · cases hr
  · next e' h₁ hf =>
    cases hr
    exact withInflight_error hfails hf

theorem run_handleSubscribe (client : String) (id : UInt16) (topics : List TopicRequest) (h : Handled) :
    (handleSubscribe client id topics).run h =
      if id = 0 then .error (.missingPacketId .subscribe) h
      else .ok () ⟨h.peer, (subscribeAll h.broker client topics).2.2,
        h.output ++ [h.peer.reply (.suback id (subscribeAll h.broker client topics).1)]
          ++ (subscribeAll h.broker client topics).2.1, h.published⟩ := by
  unfold handleSubscribe
  split <;> rfl

theorem run_handleUnsubscribe (client : String) (id : UInt16) (filters : List String) (h : Handled) :
    (handleUnsubscribe client id filters).run h =
      if id = 0 then .error (.missingPacketId .unsubscribe) h
      else .ok () ⟨h.peer, filters.foldl (fun b filter => b.unsubscribe client filter) h.broker,
        h.output ++ [h.peer.reply (.unsuback id)], h.published⟩ := by
  unfold handleUnsubscribe
  split <;> rfl

theorem handleConnected_ok {packet : Packet} (hp : p.client = some client)
    (hh : (handleConnected client.id packet).run (.start p b) = .ok () h) : Accepts p b now packet h := by
  cases packet with
  | publish publish => exact handlePublish_ok hp hh
  | puback | pubrec | pubrel | pubcomp => exact handleConnected_ack_ok rfl hp hh
  | subscribe id topics =>
    rw [handleConnected, run_handleSubscribe] at hh
    split at hh
    · cases hh
    · next hid =>
      cases hh
      exact .subscribed hp hid
  | unsubscribe id filters =>
    rw [handleConnected, run_handleUnsubscribe] at hh
    split at hh
    · cases hh
    · next hid =>
      cases hh
      exact .unsubscribed hp hid
  | pingreq => cases hh; exact .pinged hp
  | disconnect => cases hh; exact .left hp
  | connect | connack | suback | unsuback | pingresp => cases hh

/-- What a client that is connected is refused changes nothing, and a client with a session never misses it. -/
theorem handleConnected_error {packet : Packet} {id : String} {e : ProtocolError}
    (hr : (handleConnected id packet).run h = .error e h') :
    h' = h ∧ ((h.broker.session? id).isSome → e.OfBytes) := by
  cases packet with
  | publish publish => exact handlePublish_error hr
  | puback | pubrec | pubrel | pubcomp =>
    obtain ⟨hsame, herror⟩ := handleConnected_ack_error rfl hr
    refine ⟨hsame, fun hsession => ?_⟩
    rw [herror hsession]
    simp [ProtocolError.OfBytes]
  | subscribe id topics =>
    rw [handleConnected, run_handleSubscribe] at hr
    split at hr
    · cases hr
      simp [ProtocolError.OfBytes]
    · cases hr
  | unsubscribe id filters =>
    rw [handleConnected, run_handleUnsubscribe] at hr
    split at hr
    · cases hr
      simp [ProtocolError.OfBytes]
    · cases hr
  | pingreq | disconnect => cases hr
  | connect | connack | suback | unsuback | pingresp =>
    cases hr
    simp [ProtocolError.OfBytes]

/-! ### All packets -/

theorem run_handlePacket (now : Nat) (packet : Packet) (h : Handled) : (handlePacket now packet).run h =
    if h.peer.isClosed = true then .error (.unexpectedPacket packet.type) h
    else match h.peer.clientId with
      | some client => (handleConnected client packet).run h
      | none =>
        match packet with
        | .connect c => (handleConnect now c).run h
        | _ => .error .firstPacketNotConnect h := by
  unfold handlePacket
  rw [EStateM.run_bind, EStateM.run_get]
  dsimp only
  split
  · rfl
  · cases h.peer.clientId with
    | some client => rfl
    | none => cases packet <;> rfl

/-- There is no other way to accept a packet. -/
theorem handle_ok {packet : Packet} (hh : p.handle b now packet = .ok h) :
    p.isClosed = false ∧ Accepts p b now packet h := by
  rw [handle, outcome_eq_ok, run_handlePacket] at hh
  split at hh
  · cases hh
  · next hclosed =>
    refine ⟨by simpa [Handled.start] using hclosed, ?_⟩
    split at hh
    · next id hid => exact handleConnected_ok (client_of_clientId hid) hh
    · next hid =>
      split at hh
      · next c =>
        rcases handleConnect_cases (client_eq_none_iff.2 hid) now b c with ⟨h', hok, haccepts⟩ | ⟨r, herror, -⟩
        · cases (outcome_eq_ok.2 hh).symm.trans hok
          exact haccepts
        · cases (outcome_eq_ok.2 hh).symm.trans herror
      · cases hh

/-- A packet gives the broker nothing to publish but the message of a PUBLISH, and this once. -/
theorem Accepts.published {packet : Packet} (ha : Accepts p b now packet h) : h.published = [] ∨
    ∃ publish given client, packet = .publish publish ∧ h.published = [given] ∧ p.clientId = some client ∧
      given.origin = some client ∧ given.message = publish.message := by
  cases ha with
  | routed hp => exact .inr ⟨_, _, _, rfl, rfl, clientId_of_client hp, rfl, rfl⟩
  | fresh | resumed | repeated | acknowledged | subscribed | unsubscribed | pinged | left => exact .inl rfl

/-- There is no other way to refuse one. -/
theorem handle_rejects {packet : Packet} (hr : p.handle b now packet = .error r) : p.Rejects b r := by
  obtain ⟨e, h⟩ := r
  rw [handle, outcome_eq_error, run_handlePacket] at hr
  split at hr
  · cases hr
    exact .silently fun _ => by simp [ProtocolError.OfBytes]
  · split at hr
    · next id hid =>
      obtain ⟨rfl, herror⟩ := handleConnected_error hr
      exact .silently fun hsession => herror (hsession _ (client_of_clientId hid))
    · next hid =>
      split at hr
      · next c =>
        rcases handleConnect_cases (client_eq_none_iff.2 hid) now b c with ⟨h', hok, -⟩ | ⟨r, herror, hrejects⟩
        · cases (outcome_eq_error (r := ⟨e, h⟩).2 hr).symm.trans hok
        · cases (outcome_eq_error (r := ⟨e, h⟩).2 hr).symm.trans herror
          exact hrejects
      · cases hr
        exact .silently fun _ => by simp [ProtocolError.OfBytes]

/-- A connection whose client has a session never misses it. -/
theorem handle_error {packet : Packet}
    (hsession : ∀ client, p.client = some client → (b.session? client.id).isSome)
    (hr : p.handle b now packet = .error r) : r.error.OfBytes := by
  cases handle_rejects hr with
  | silently herror => exact herror hsession
  | turnedDown _ _ herror => exact herror

/-! ### What is left of a packet that is refused -/

/-- What the client is told. -/
def Refusal.reply (r : Refusal) : Option Packet := r.handled.output.head?.map (·.packet)

/-- A refusal says nothing to the client, or why its CONNECT was turned down. -/
theorem handle_reply {packet : Packet} (hr : p.handle b now packet = .error r) {q : Packet}
    (hq : r.reply = some q) : ∃ code, code ≠ .accepted ∧ q = .connack false code := by
  cases handle_rejects hr with
  | silently => cases hq
  | turnedDown _ hcode => exact ⟨_, hcode, (Option.some.inj hq).symm⟩

/-- The peer, closed after the client is told what there is to tell. -/
def closeOn (p : Peer) (r : Refusal) : Peer :=
  match r.reply with
  | some packet => { p.send packet with isClosed := true }
  | none => { p with isClosed := true }

theorem client_closeOn (p : Peer) (r : Refusal) : (p.closeOn r).client = p.client := by
  unfold closeOn
  split <;> rfl

theorem output_of_refused {packet : Packet} (hr : p.handle b now packet = .error r) :
    r.handled.output = r.reply.toList.map p.reply := by
  cases handle_rejects hr <;> rfl

/-- The broker is as it was, nothing is for others, and nothing was published. -/
theorem handled_of_refused {packet : Packet} (hr : p.handle b now packet = .error r) :
    r.handled.broker = b ∧ r.handled.published = [] ∧ ∀ ds : Array Delivery,
      ({ (r.handled.peer.distribute ds r.handled.output).1 with isClosed := true } : Peer) = p.closeOn r ∧
        (r.handled.peer.distribute ds r.handled.output).2 = ds := by
  cases handle_rejects hr with
  | silently => exact ⟨rfl, rfl, fun _ => ⟨rfl, rfl⟩⟩
  | turnedDown =>
    refine ⟨rfl, rfl, fun ds => ?_⟩
    simp [Handled.start, Handled.reply, Handled.route, distribute, Peer.reply, closeOn, Refusal.reply]

end Peer

/-! ### The end of a connection -/

namespace Connection

/-- A connection that is over: its will is void. -/
def ended (c : Connection) : Connection :=
  { c with
    peer := { c.peer with
      will := if c.peer.clientId.isSome then none else c.peer.will
      isClosed := true
      tornDown := true } }

theorem client_ended (c : Connection) :
    c.ended.peer.client = c.peer.client.map fun client => { client with will := none } := by
  unfold ended Peer.client
  cases c.peer.clientId <;> rfl

theorem departure_eq (c : Connection) (b : Broker) (reason : CloseReason) : c.departure b reason =
    if c.peer.tornDown then .start c.peer b
    else match c.peer.client with
      | none => .start c.ended.peer b
      | some client =>
        let b := b.releaseSession client.id c.peer.token
        match client.will with
        | some will =>
          if reason = .ungraceful then
            ⟨c.ended.peer, (b.publish (some client.id) will).2, (b.publish (some client.id) will).1,
              [⟨b, some client.id, will⟩]⟩
          else .start c.ended.peer b
        | none => .start c.ended.peer b := by
  obtain ⟨⟨token, limits, clientId, will, isClosed, tornDown, keepAlive, outbound⟩, decoder⟩ := c
  cases tornDown with
  | true => rfl
  | false =>
    cases clientId with
    | none => rfl
    | some id =>
      cases will with
      | none => cases reason <;> rfl
      | some will =>
        cases reason with
        | ungraceful =>
          simp [departure, Peer.depart, Peer.Handled.start, Peer.publish_eq, Peer.client, ended, Peer.Handled.onPeer,
            Peer.Handled.onBroker, Peer.Handled.route]
          rfl
        | graceful | shutdown => rfl

theorem teardown_eq (c : Connection) (b : Broker) (reason : CloseReason) : c.teardown b reason =
    if c.peer.tornDown then (c, b, [])
    else match c.peer.client with
      | none => (c.ended, b, [])
      | some client =>
        let b := b.releaseSession client.id c.peer.token
        match client.will with
        | some will =>
          if reason = .ungraceful then
            (c.ended, (b.publish (some client.id) will).2, (b.publish (some client.id) will).1)
          else (c.ended, b, [])
        | none => (c.ended, b, []) := by
  rw [teardown, departure_eq]
  split
  · rfl
  · split
    · rfl
    · dsimp only
      split
      · split
        · dsimp only
          rfl
        · rfl
      · rfl

end Connection

end Mqtt
