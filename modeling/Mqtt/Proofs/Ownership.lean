import Mqtt.Proofs.Handling
import Mqtt.Proofs.Reception
import Mqtt.Proofs.Restoring

/-!
# Who owns a session: `Session::owner`

A session is owned by the one connection that was accepted for its client and is not torn down. The
connections, the sessions and the subscriptions of a hub are three structures that say this in three
ways; `Hub.Owned` states how they agree, and every action keeps it.
-/

namespace Mqtt

/-! ### Connections as the sessions see them -/

/-- What is known of a connection where sessions are concerned. -/
structure Standing where
  token : Nat
  client : Option String
  tornDown : Bool

def Peer.standing (p : Peer) : Standing := ⟨p.token, p.clientId, p.tornDown⟩

/-- The connection was accepted for the client and is not torn down. -/
def Standing.Serves (s : Standing) (client : String) : Prop := s.client = some client ∧ s.tornDown = false

/-- A connection that takes bytes only as long as it is not torn down, and whose decoder can bring
only what bytes allow. -/
structure Connection.Proper (c : Connection) : Prop where
  closed : c.peer.tornDown = true → c.peer.isClosed = true
  sound : c.decoder.state.Sound

namespace Broker

/-- The broker and its connections agree about who owns what. -/
structure Owned (b : Broker) (who : Nat → Option Standing) : Prop where
  token : ∀ t s, who t = some s → s.token = t
  owner : ∀ client t, (∃ clean, b.hold? client = some (some t, clean)) ↔
    ∃ s, who t = some s ∧ s.Serves client
  subscribed : b.subscriptions.Only fun client => (b.hold? client).isSome
  kept : ∀ client clean, b.hold? client = some (none, clean) → clean = false

/-- The connections once one of them has changed. -/
def seat (who : Nat → Option Standing) (t : Nat) (s : Standing) : Nat → Option Standing :=
  fun x => if x = t then some s else who x

@[simp] theorem seat_self (who : Nat → Option Standing) (t : Nat) (s : Standing) :
    seat who t s t = some s := if_pos rfl

theorem seat_of_ne {who : Nat → Option Standing} {t x : Nat} (s : Standing) (h : x ≠ t) :
    seat who t s x = who x := if_neg h

theorem seat_seat (who : Nat → Option Standing) (t : Nat) (s s' : Standing) :
    seat (seat who t s) t s' = seat who t s' := by
  funext x
  unfold seat
  split <;> rfl

theorem seat_eq {who : Nat → Option Standing} {t : Nat} {s : Standing} (h : who t = some s) :
    seat who t s = who := by
  funext x
  unfold seat
  split
  · next hx => rw [hx, h]
  · rfl

variable {b b' : Broker} {who : Nat → Option Standing} {t : Nat}

/-- The client of a connection that is not torn down has a session. -/
theorem Owned.session_isSome (ho : Owned b who) {s : Standing} (hs : who t = some s) {client : String}
    (hserves : s.Serves client) : (b.session? client).isSome := by
  obtain ⟨clean, hhold⟩ := (ho.owner client t).2 ⟨s, hs, hserves⟩
  rw [← hold?_isSome, hhold]
  rfl

/-! ### What an accepted packet does to the sessions -/

/-- Serving a client leaves alone whose each session is, and which other clients subscribe. -/
structure Serving (client : String) (b b' : Broker) : Prop where
  hold : ∀ other, b'.hold? other = b.hold? other
  subscribed : ∀ P : String → Prop, P client → b.subscriptions.Only P → b'.subscriptions.Only P

theorem Serving.refl (client : String) (b : Broker) : Serving client b b := ⟨fun _ => rfl, fun _ _ h => h⟩

theorem Serving.trans {client : String} {b₁ b₂ b₃ : Broker} (h : Serving client b₁ b₂)
    (h' : Serving client b₂ b₃) : Serving client b₁ b₃ :=
  ⟨fun other => (h'.hold other).trans (h.hold other),
    fun P hP hb => h'.subscribed P hP (h.subscribed P hP hb)⟩

theorem Frame.serving (h : Frame b b') (client : String) : Serving client b b' :=
  ⟨h.hold, fun _ _ hb => h.subscriptions ▸ hb⟩

theorem subscribe_serving (b : Broker) (client filter : String) (q : QoS) :
    Serving client b (b.subscribe client filter q).2.2 := by
  unfold subscribe
  split
  · exact .refl client b
  · let b₁ : Broker :=
      { b with subscriptions := (b.subscriptions.subscribe filter client (min q b.options.maxQoS)).2 }
    have hadd : Serving client b b₁ := ⟨fun _ => rfl, fun P hP hb => hb.subscribe hP filter _⟩
    have hsends := replayRetained_sends (b := b₁) (M := fun _ => True)
      (RetainTree.only_of_forall fun _ => trivial) client filter (min q b.options.maxQoS)
    exact hadd.trans (hsends.frame.serving client)

theorem subscribeAll_serving (client : String) (topics : List TopicRequest) (b : Broker) :
    Serving client b (Peer.subscribeAll b client topics).2.2 := by
  induction topics generalizing b with
  | nil => exact .refl client b
  | cons t ts ih => exact (subscribe_serving b client t.filter t.qos).trans (ih _)

theorem unsubscribe_foldl_serving (client : String) (filters : List String) (b : Broker) :
    Serving client b (filters.foldl (fun b filter => b.unsubscribe client filter) b) := by
  induction filters generalizing b with
  | nil => exact .refl client b
  | cons filter filters ih =>
    have hdrop : Serving client b (b.unsubscribe client filter) :=
      ⟨fun _ => rfl, fun P _ hb => SubscriptionTree.Only.unsubscribe hb filter client⟩
    exact hdrop.trans (ih (b.unsubscribe client filter))

/-- A connection takes a session that no connection owns. -/
structure Claiming (client : String) (t : Nat) (b b' : Broker) : Prop where
  free : ∀ t' clean, b.hold? client ≠ some (some t', clean)
  mine : ∃ clean, b'.hold? client = some (some t, clean)
  others : ∀ other, client ≠ other → b'.hold? other = b.hold? other
  subscribed : ∀ P : String → Prop, b.subscriptions.Only P → b'.subscriptions.Only P

end Broker

open Broker

/-- Who is forgotten subscribes to nothing, and all others go on as before. -/
theorem Broker.mentions_deleteSession {b : Broker} {client other : String}
    (h : (b.deleteSession client).subscriptions.Mentions other) :
    b.subscriptions.Mentions other ∧ client ≠ other := by
  have hleft := SubscriptionTree.only_iff.1 (SubscriptionTree.only_filterClients b.subscriptions (· ≠ client))
  obtain ⟨hmentions, hkept⟩ := hleft other h
  exact ⟨hmentions, fun heq => of_decide_eq_true hkept heq.symm⟩

/-- A session that begins anew was nobody's, and is the connection's from then on. -/
theorem Broker.claiming_newSession {b : Broker} {client : String} {t : Nat} {clean : Bool}
    (hfree : ∀ s, b.session? client = some s → s.owner = none) :
    Claiming client t b ((b.deleteSession client).newSession client t clean) := by
  refine ⟨fun t' clean' hhold => ?_, ⟨clean, ?_⟩, fun other hne => ?_, fun P hb => ?_⟩
  · obtain ⟨s, hs, howner, -⟩ := hold?_eq_some_iff.1 hhold
    rw [hfree s hs] at howner
    cases howner
  · simp [hold?, Session.hold, Session.new]
  · simp [hold?, hne]
  · exact (SubscriptionTree.only_filterClients b.subscriptions _).imp
      fun other hother => SubscriptionTree.only_iff.1 hb other hother.1

/-- A session that was kept was nobody's, and is the connection's from then on. -/
theorem Broker.claiming_restartSession {b : Broker} {client : String} {t : Nat} {s : Session}
    (hs : b.session? client = some s) (howner : s.owner = none) :
    Claiming client t b ((b.setSession client (s.renew t)).restartSession client).2 := by
  have hrenewed : (b.setSession client (s.renew t)).session? client = some (s.renew t) := by simp
  have hframe := restartSession_frame hrenewed rfl
  refine ⟨fun t' clean' hhold => ?_, ⟨s.cleanSession, ?_⟩, fun other hne => ?_, fun P hb => ?_⟩
  · obtain ⟨s', hs', howner', -⟩ := hold?_eq_some_iff.1 hhold
    rw [hs] at hs'
    cases hs'
    rw [howner] at howner'
    cases howner'
  · rw [hframe.hold, hold?_setSession, if_pos rfl]
    rfl
  · rw [hframe.hold, hold?_setSession, if_neg hne]
  · rw [hframe.subscriptions]
    exact hb

/-- An accepted packet is a CONNECT that claims a session, or serves the client of the connection. -/
theorem Peer.Accepts.ownership {p : Peer} {b : Broker} {now : Nat} {packet : Packet} {h : Handled}
    (ha : Accepts p b now packet h) :
    (∃ client, p.clientId = none ∧ h.peer.standing = ⟨p.token, some client, p.tornDown⟩ ∧
      Claiming client p.token b h.broker) ∨
    (∃ client, p.clientId = some client ∧ h.peer.standing = p.standing ∧
      Serving client b h.broker) := by
  cases ha with
  | @fresh c id n hp hclean hid hfree =>
    refine .inl ⟨id, client_eq_none_iff.1 hp, rfl, ?_⟩
    have hclaim := @claiming_newSession { b with assigned := n } id p.token c.cleanSession
      fun s hs => (hfree s hs).1
    exact ⟨hclaim.free, hclaim.mine, hclaim.others, hclaim.subscribed⟩
  | @resumed c s hp hclean hne hs howner =>
    exact .inl ⟨c.clientId, client_eq_none_iff.1 hp, rfl, claiming_restartSession hs howner⟩
  | @routed client s publish reply inflight hp hs htakes =>
    have hkeep : Frame b (b.setSession client.id { s with inflight }) := setSession_frame hs rfl
    have hroute := publish_frame (b.setSession client.id { s with inflight }) (some client.id)
      publish.message
    refine .inr ⟨client.id, clientId_of_client hp, rfl, ?_⟩
    dsimp only
    exact (hkeep.trans hroute).serving client.id
  | @repeated client s publish reply inflight hp hs htakes =>
    have hkeep : Frame b (b.setSession client.id { s with inflight }) := setSession_frame hs rfl
    exact .inr ⟨client.id, clientId_of_client hp, rfl, hkeep.serving client.id⟩
  | @acknowledged client s packet reply inflight hp hs hacks =>
    have hkeep : Frame b (b.setSession client.id { s with inflight }) := setSession_frame hs rfl
    exact .inr ⟨client.id, clientId_of_client hp, rfl, hkeep.serving client.id⟩
  | @subscribed client id topics hp hid =>
    exact .inr ⟨client.id, clientId_of_client hp, rfl, subscribeAll_serving client.id topics b⟩
  | @unsubscribed client id filters hp hid =>
    exact .inr ⟨client.id, clientId_of_client hp, rfl, unsubscribe_foldl_serving client.id filters b⟩
  | @pinged client hp => exact .inr ⟨client.id, clientId_of_client hp, rfl, .refl client.id b⟩
  | @left client hp =>
    exact .inr ⟨client.id, clientId_of_client hp, rfl, .refl client.id b⟩

/-! ### Steps of the agreement -/

namespace Broker

variable {b b' : Broker} {who : Nat → Option Standing} {t : Nat} {client : String}

/-- Routing keeps the agreement. -/
theorem Owned.frame (ho : Owned b who) (h : Frame b b') : Owned b' who where
  token := ho.token
  owner other t' := by
    rw [h.hold]
    exact ho.owner other t'
  subscribed := by
    rw [h.subscriptions]
    exact ho.subscribed.imp fun other hother => by rw [h.hold]; exact hother
  kept other clean hhold := by
    rw [h.hold] at hhold
    exact ho.kept other clean hhold

theorem Owned.serving (ho : Owned b who) {s : Standing} (hs : who t = some s) (hserves : s.Serves client)
    (h : Serving client b b') : Owned b' who where
  token := ho.token
  owner other t' := by
    rw [h.hold]
    exact ho.owner other t'
  subscribed := by
    have hclient : (b.hold? client).isSome := by
      rw [hold?_isSome]
      exact ho.session_isSome hs hserves
    exact (h.subscribed _ hclient ho.subscribed).imp fun other hother => by rw [h.hold]; exact hother
  kept other clean hhold := by
    rw [h.hold] at hhold
    exact ho.kept other clean hhold

/-- The session of one client passes between a connection and nobody, and nothing else changes. -/
theorem Owned.passing (ho : Owned b who) {s s' : Standing} (hs : who t = some s) (htoken : s'.token = t)
    (hothers : ∀ other, client ≠ other →
      b'.hold? other = b.hold? other ∧ (s'.Serves other ↔ s.Serves other))
    (hbefore : ∀ t' clean, b.hold? client = some (some t', clean) → t' = t)
    (hafter : ∀ t', (∃ clean, b'.hold? client = some (some t', clean)) ↔ t' = t ∧ s'.Serves client)
    (hsubscribed : b'.subscriptions.Only fun client => (b'.hold? client).isSome)
    (hkept : ∀ clean, b'.hold? client = some (none, clean) → clean = false) :
    Owned b' (seat who t s') where
  token t' r hr := by
    by_cases ht : t' = t
    · rw [ht, seat_self] at hr
      cases hr
      rw [ht, htoken]
    · rw [seat_of_ne s' ht] at hr
      exact ho.token t' r hr
  owner other t' := by
    by_cases hother : client = other
    · subst hother
      rw [hafter t']
      by_cases ht : t' = t
      · simp [ht]
      · rw [seat_of_ne s' ht, ← ho.owner client t']
        constructor
        · exact fun h => absurd h.1 ht
        · rintro ⟨clean, hclean⟩
          exact absurd (hbefore t' clean hclean) ht
    · rw [(hothers other hother).1, ho.owner other t']
      by_cases ht : t' = t
      · simp [ht, hs, (hothers other hother).2]
      · rw [seat_of_ne s' ht]
  subscribed := hsubscribed
  kept other clean hclean := by
    by_cases hother : client = other
    · subst hother
      exact hkept clean hclean
    · rw [(hothers other hother).1] at hclean
      exact ho.kept other clean hclean

/-- A connection that serves nobody may change to another that serves nobody. -/
theorem Owned.idle (ho : Owned b who) (hold : ∀ s, who t = some s → ∀ client, ¬ s.Serves client)
    {s : Standing} (htoken : s.token = t) (hnew : ∀ client, ¬ s.Serves client) :
    Owned b (seat who t s) where
  token t' s' hs' := by
    by_cases ht : t' = t
    · rw [ht, seat_self] at hs'
      cases hs'
      rw [ht, htoken]
    · rw [seat_of_ne s ht] at hs'
      exact ho.token t' s' hs'
  owner client t' := by
    rw [ho.owner client t']
    by_cases ht : t' = t
    · rw [ht, seat_self]
      constructor
      · rintro ⟨s', hs', hserves⟩
        exact absurd hserves (hold s' hs' client)
      · rintro ⟨s', hs', hserves⟩
        cases hs'
        exact absurd hserves (hnew client)
    · rw [seat_of_ne s ht]
  subscribed := ho.subscribed
  kept := ho.kept

theorem Owned.claiming (ho : Owned b who) (hold : who t = some ⟨t, none, false⟩)
    (h : Claiming client t b b') : Owned b' (seat who t ⟨t, some client, false⟩) := by
  obtain ⟨clean, hmine⟩ := h.mine
  refine ho.passing hold rfl (fun other hother => ⟨h.others other hother, ?_⟩) ?_ ?_ ?_ ?_
  · simp [Standing.Serves, hother]
  · exact fun t' clean' hclean' => absurd hclean' (h.free t' clean')
  · intro t'
    simp [hmine, Standing.Serves, eq_comm]
  · refine (h.subscribed _ ho.subscribed).imp fun other hsome => ?_
    by_cases hother : client = other
    · rw [← hother, hmine]
      rfl
    · rw [h.others other hother]
      exact hsome
  · intro clean' hclean'
    rw [hmine] at hclean'
    cases hclean'

/-- Releasing a session that is owned forgets it with its client, or leaves it without an owner. -/
theorem releaseSession_cases {clean : Bool} (h : b.hold? client = some (some t, clean)) :
    (clean = true ∧ b.releaseSession client t = b.deleteSession client) ∨
      (clean = false ∧ b.releaseSession client t = b.retainSession client) := by
  obtain ⟨s, hs, howner, hclean⟩ := hold?_eq_some_iff.1 h
  have hmine : s.isOwnedBy t = true := by simp [Session.isOwnedBy, howner]
  unfold releaseSession
  rw [hs]
  simp only [hmine, if_true, hclean]
  cases clean <;> simp

theorem hold?_releaseSession {clean : Bool} (h : b.hold? client = some (some t, clean))
    (other : String) :
    (b.releaseSession client t).hold? other =
      if client = other then (if clean then none else some (none, false)) else b.hold? other := by
  obtain ⟨s, hs, -, hclean⟩ := hold?_eq_some_iff.1 h
  rcases releaseSession_cases h with ⟨rfl, hr⟩ | ⟨rfl, hr⟩
  · rw [hr, hold?, session?_deleteSession]
    split <;> rfl
  · rw [hr, hold?, retainSession, session?_modifySession]
    split
    · next hother => simp [← hother, hs, Session.hold, Session.retain, hclean]
    · rfl

/-- Who keeps a subscription when a session is released keeps a session as well. -/
theorem Owned.released_subscribed (ho : Owned b who) {clean : Bool}
    (h : b.hold? client = some (some t, clean)) :
    (b.releaseSession client t).subscriptions.Only
      fun other => ((b.releaseSession client t).hold? other).isSome := by
  rcases releaseSession_cases h with ⟨rfl, hr⟩ | ⟨rfl, hr⟩
  · rw [hr]
    refine (SubscriptionTree.only_filterClients b.subscriptions _).imp fun other hother => ?_
    have hne : client ≠ other := by
      intro heq
      have hkept := hother.2
      simp [heq] at hkept
    rw [← hr, hold?_releaseSession h, if_neg hne]
    exact SubscriptionTree.only_iff.1 ho.subscribed other hother.1
  · have hsub : (b.releaseSession client t).subscriptions = b.subscriptions := by
      rw [hr, retainSession, modifySession_subscriptions]
    rw [hsub]
    refine ho.subscribed.imp fun other hsome => ?_
    rw [hold?_releaseSession h]
    split
    · rfl
    · exact hsome

theorem Owned.released (ho : Owned b who) (hold : who t = some ⟨t, some client, false⟩) :
    Owned (b.releaseSession client t) (seat who t ⟨t, some client, true⟩) := by
  obtain ⟨clean, hmine⟩ := (ho.owner client t).2 ⟨_, hold, rfl, rfl⟩
  refine ho.passing hold rfl (fun other (hother : client ≠ other) => ⟨?_, ?_⟩) ?_ ?_
    (ho.released_subscribed hmine) ?_
  · rw [hold?_releaseSession hmine, if_neg hother]
  · simp [Standing.Serves, hother]
  · intro t' clean' hclean'
    rw [hmine] at hclean'
    cases hclean'
    rfl
  · intro t'
    rw [hold?_releaseSession hmine]
    cases clean <;> simp [Standing.Serves]
  · intro clean' hclean'
    rw [hold?_releaseSession hmine, if_pos rfl] at hclean'
    cases clean with
    | true => cases hclean'
    | false => cases hclean'; rfl

end Broker

/-! ### Bytes of one connection -/

/-- The agreement of a broker with its connections, one of which is `c`. -/
structure Connection.Settled (who : Nat → Option Standing) (c : Connection) (b : Broker) : Prop where
  owned : b.Owned (seat who c.peer.token c.peer.standing)
  proper : c.Proper

variable {who : Nat → Option Standing} {b : Broker}

theorem Connection.Settled.congr {c c' : Connection} (hset : c.Settled who b)
    (hstanding : c'.peer.standing = c.peer.standing)
    (hclosed : c.peer.isClosed = true → c'.peer.isClosed = true) (hsound : c'.decoder.state.Sound) :
    c'.Settled who b := by
  have htoken : c'.peer.token = c.peer.token := congrArg Standing.token hstanding
  have htorn : c'.peer.tornDown = c.peer.tornDown := congrArg Standing.tornDown hstanding
  refine ⟨?_, ⟨fun h => ?_, hsound⟩⟩
  · rw [htoken, hstanding]
    exact hset.owned
  · rw [htorn] at h
    exact hclosed (hset.proper.closed h)

/-- A connection that is open is not torn down. -/
theorem Connection.Proper.up {c : Connection} (hc : c.Proper) (hopen : c.peer.isClosed = false) :
    c.peer.tornDown = false := by
  cases htorn : c.peer.tornDown with
  | false => rfl
  | true => rw [hc.closed htorn] at hopen; cases hopen

theorem Peer.closeOn_standing (p : Peer) (r : Refusal) : (p.closeOn r).standing = p.standing := by
  unfold closeOn
  split <;> rfl

theorem Peer.closeOn_isClosed (p : Peer) (r : Refusal) : (p.closeOn r).isClosed = true := by
  unfold closeOn
  split <;> rfl

theorem Peer.handle_settled {p : Peer} {now max : Nat} {s : Decoder.State} {packet : Packet}
    {h : Handled} (hset : Connection.Settled who ⟨p, ⟨max, s⟩⟩ b) (hh : p.handle b now packet = .ok h) :
    Connection.Settled who ⟨h.peer, ⟨max, s⟩⟩ h.broker ∧ h.peer.token = p.token := by
  obtain ⟨hclosed, ha⟩ := handle_ok hh
  have hup : p.tornDown = false := hset.proper.up hclosed
  have hproper (hdown : h.peer.tornDown = false) :
      Connection.Proper ⟨h.peer, ⟨max, s⟩⟩ := by
    refine ⟨fun htorn => ?_, hset.proper.sound⟩
    rw [hdown] at htorn
    cases htorn
  rcases ha.ownership with ⟨client, hnone, hstanding, hclaim⟩ | ⟨client, hclient, hstanding, hserving⟩
  · have hself : seat who p.token p.standing p.token = some ⟨p.token, none, false⟩ := by
      rw [seat_self, standing, hnone, hup]
    have howned := hset.owned.claiming hself hclaim
    rw [seat_seat] at howned
    rw [hup] at hstanding
    have htoken : h.peer.token = p.token := congrArg Standing.token hstanding
    refine ⟨⟨?_, hproper (congrArg Standing.tornDown hstanding)⟩, htoken⟩
    dsimp only
    rw [hstanding, htoken]
    exact howned
  · have howned := hset.owned.serving (seat_self who p.token p.standing) ⟨hclient, hup⟩ hserving
    have htoken : h.peer.token = p.token := congrArg Standing.token hstanding
    refine ⟨⟨?_, hproper ((congrArg Standing.tornDown hstanding).trans hup)⟩, htoken⟩
    dsimp only
    rw [hstanding, htoken]
    exact howned

/-- The client of an open connection has a session. -/
theorem Connection.Settled.session {c : Connection} (hset : c.Settled who b)
    (hopen : c.peer.isClosed = false) (client : AcceptedClient) (hclient : c.peer.client = some client) :
    (b.session? client.id).isSome := by
  exact hset.owned.session_isSome (seat_self who _ _) ⟨Peer.clientId_of_client hclient, hset.proper.up hopen⟩

/-- What is queued at a connection does not concern the agreement. -/
theorem Connection.Settled.distribute {p : Peer} {d : Decoder} (hset : Settled who ⟨p, d⟩ b)
    (others : Array Delivery) (output : List Delivery) : Settled who ⟨(p.distribute others output).1, d⟩ b := by
  rw [Peer.distribute_eq]
  exact hset.congr rfl id hset.proper.sound

/-- Bytes of a client keep the agreement and miss no session. -/
theorem Connection.receive_settled {max : Nat} (now : Nat) (ds : Array Delivery) (bytes : List UInt8)
    {s : Decoder.State} {p : Peer} (hset : Settled who ⟨p, ⟨max, s⟩⟩ b) :
    (receive now max s p b ds bytes).connection.Settled who (receive now max s p b ds bytes).broker ∧
      (receive now max s p b ds bytes).connection.peer.token = p.token ∧
      ∀ e, (receive now max s p b ds bytes).error = some e → e.OfBytes := by
  have hsound (byte : UInt8) {s : Decoder.State} {p : Peer} {b : Broker} (hset : Settled who ⟨p, ⟨max, s⟩⟩ b) :
      (s.step max byte).1.Sound ∧ (s.step max byte).2.Sound :=
    Decoder.State.step_sound hset.proper.sound byte
  induction s, p, b, bytes using bytes_induction now max generalizing ds with
  | nil s p b => exact ⟨hset, rfl, fun e he => by cases he⟩
  | closed s p b bytes hclosed =>
    rw [receive_of_closed hclosed]
    exact ⟨hset, rfl, fun e he => by cases he⟩
  | broken s p b byte bytes s' e hopen hstep =>
    have hsound := hsound byte hset
    rw [hstep] at hsound
    rw [receive_cons_error hopen hstep]
    refine ⟨hset.congr rfl (fun _ => rfl) hsound.1, rfl, fun e' he => ?_⟩
    cases he
    exact hsound.2
  | more s p b byte bytes s' hopen hstep ih =>
    have hsound := hsound byte hset
    rw [hstep] at hsound
    rw [receive_cons_none hopen hstep]
    exact ih ds (hset.congr rfl id hsound.1)
  | refused s p b byte bytes s' packet r hopen hstep hh =>
    have hsound := hsound byte hset
    rw [hstep] at hsound
    have hset' : Settled who ⟨{ p with keepAlive := p.keepAlive.restart now }, ⟨max, s'⟩⟩ b :=
      hset.congr rfl id hsound.1
    rw [receive_cons_refused hopen hstep hh]
    refine ⟨hset'.congr (Peer.closeOn_standing _ r) (fun _ => Peer.closeOn_isClosed _ r) hsound.1,
      congrArg Standing.token (Peer.closeOn_standing _ r), fun e he => ?_⟩
    cases he
    exact Peer.handle_error (hset'.session hopen) hh
  | handled s p b byte bytes s' packet h hopen hstep hh ih =>
    have hsound := hsound byte hset
    rw [hstep] at hsound
    have hset' : Settled who ⟨{ p with keepAlive := p.keepAlive.restart now }, ⟨max, s'⟩⟩ b :=
      hset.congr rfl id hsound.1
    obtain ⟨hhandled, htoken⟩ := Peer.handle_settled hset' hh
    rw [receive_cons_handled hopen hstep hh]
    obtain ⟨hthen, htoken', herror⟩ := ih (ds ++ (Hub.othersThan h.peer.token h.output).toArray)
      (hhandled.distribute #[] h.output)
    exact ⟨hthen, htoken'.trans ((h.peer.token_distribute _ _).trans htoken), herror⟩

/-- The end of a connection keeps the agreement. -/
theorem Connection.teardown_settled {c : Connection} (hset : c.Settled who b) (reason : CloseReason) :
    (c.teardown b reason).1.Settled who (c.teardown b reason).2.1 ∧
      (c.teardown b reason).1.peer.token = c.peer.token := by
  rw [teardown_eq]
  cases htorn : c.peer.tornDown with
  | true => exact ⟨hset, rfl⟩
  | false =>
    simp only [Bool.false_eq_true, if_false]
    have hself := seat_self who c.peer.token c.peer.standing
    cases hclient : c.peer.client with
    | none =>
      have hidle := hset.owned.idle (s := ⟨c.peer.token, none, true⟩) (fun s hs client hserves => ?_) rfl
        (fun client hserves => nomatch hserves.1)
      · rw [seat_seat] at hidle
        refine ⟨⟨?_, ⟨fun _ => rfl, hset.proper.sound⟩⟩, rfl⟩
        rw [← Peer.client_eq_none_iff.1 hclient] at hidle
        exact hidle
      · rw [hself] at hs
        cases hs
        cases (Peer.client_eq_none_iff.1 hclient).symm.trans hserves.1
    | some client =>
      have hstanding : c.peer.standing = ⟨c.peer.token, some client.id, false⟩ := by
        rw [Peer.standing, Peer.clientId_of_client hclient, htorn]
      have hreleased := hset.owned.released (hself.trans (congrArg some hstanding))
      rw [seat_seat] at hreleased
      have hdown (b' : Broker) (hb' : Owned b' (seat who c.peer.token ⟨c.peer.token, some client.id, true⟩)) :
          Settled who c.ended b' := by
        rw [← Peer.clientId_of_client hclient] at hb'
        exact ⟨hb', ⟨fun _ => rfl, hset.proper.sound⟩⟩
      cases hwill : client.will with
      | none =>
        simp only [hwill]
        exact ⟨hdown _ hreleased, rfl⟩
      | some will =>
        by_cases hreason : reason = .ungraceful
        · simp only [hwill, hreason, if_true]
          exact ⟨hdown _ (hreleased.frame (publish_frame _ (some client.id) will)), rfl⟩
        · simp only [hwill, hreason, if_false]
          exact ⟨hdown _ hreleased, rfl⟩

/-! ### The hub -/

namespace Hub

/-- What is known of the connections of a hub. -/
def standing? (h : Hub) (t : Nat) : Option Standing := (h.connections[t]?).map (·.peer.standing)

/-- The broker agrees with its connections, and each of these is in order. -/
structure Owned (h : Hub) : Prop where
  agreed : h.broker.Owned h.standing?
  proper : ∀ (t : Nat) (c : Connection), h.connections[t]? = some c → c.Proper

theorem standing?_setConnection (h : Hub) (t : Nat) (c : Connection) :
    (h.setConnection t c).standing? = seat h.standing? t c.peer.standing := by
  funext x
  unfold standing? seat
  rw [connections_setConnection]
  by_cases hx : x = t
  · simp [hx]
  · rw [if_neg (fun ht => hx ht.symm), if_neg hx]

theorem Owned.setConnection {h : Hub} {b : Broker} {t : Nat} {c : Connection}
    (hagreed : b.Owned (seat h.standing? t c.peer.standing)) (hc : c.Proper)
    (hproper : ∀ (t : Nat) (c : Connection), h.connections[t]? = some c → c.Proper) :
    (({ h with broker := b } : Hub).setConnection t c).Owned := by
  refine ⟨?_, fun t' c' hc' => ?_⟩
  · rw [standing?_setConnection]
    exact hagreed
  · rw [connections_setConnection] at hc'
    split at hc'
    · cases hc'
      exact hc
    · exact hproper t' c' hc'

theorem Owned.dispatch {h : Hub} (ho : h.Owned) (ds : List Delivery) : (h.dispatch ds).Owned := by
  refine ⟨?_, fun t c hc => ?_⟩
  · have hsame : (h.dispatch ds).standing? = h.standing? := by
      funext t
      unfold standing?
      rw [connections_dispatch, Option.map_map]
      congr 1
      funext c
      simp only [Function.comp_apply, Connection.foldl_send]
      rfl
    rw [broker_dispatch, hsame]
    exact ho.agreed
  · rw [connections_dispatch, Option.map_eq_some_iff] at hc
    obtain ⟨c₀, hc₀, rfl⟩ := hc
    rw [Connection.foldl_send]
    exact ⟨(ho.proper t c₀ hc₀).closed, (ho.proper t c₀ hc₀).sound⟩

/-- A connection of an owned hub, as the bytes of its client find it. -/
theorem Owned.settled {h : Hub} (ho : h.Owned) {t : Nat} {c : Connection}
    (hc : h.connections[t]? = some c) : c.peer.token = t ∧ c.Settled h.standing? h.broker := by
  have hstanding : h.standing? t = some c.peer.standing := by simp [standing?, hc]
  have htoken : c.peer.token = t := ho.agreed.token t _ hstanding
  refine ⟨htoken, ?_, ho.proper t c hc⟩
  rw [htoken, seat_eq hstanding]
  exact ho.agreed

theorem Owned.accept {h : Hub} (ho : h.Owned) (t : Nat) (limits : ConnectionLimits) (now : Nat) :
    (h.accept t limits now).Owned := by
  unfold Hub.accept
  cases hc : h.connections[t]? with
  | some c => exact ho
  | none =>
    refine Owned.setConnection (ho.agreed.idle ?_ rfl ?_) ⟨fun htorn => ?_, trivial⟩ ho.proper
    · simp [standing?, hc]
    · exact fun client hserves => nomatch hserves.1
    · cases htorn

/-- A connection has taken in bytes, and nothing of what it lists for others is queued yet. -/
theorem Owned.handled {h : Hub} (ho : h.Owned) {t : Nat} {c : Connection} (hc : h.connections[t]? = some c)
    (now : Nat) (bytes : List UInt8) :
    (({ h with broker := (c.handleBytes h.broker now bytes).broker } : Hub).setConnection t
      (c.handleBytes h.broker now bytes).connection).Owned := by
  obtain ⟨htoken, hset⟩ := ho.settled hc
  obtain ⟨hafter, hsame, -⟩ := Connection.receive_settled now #[] bytes hset
  refine Owned.setConnection ?_ hafter.proper ho.proper
  have hagreed := hafter.owned
  rw [hsame, htoken] at hagreed
  exact hagreed

theorem Owned.receive {h : Hub} (ho : h.Owned) (t now : Nat) (bytes : List UInt8) :
    (h.receive t now bytes).Owned := by
  unfold Hub.receive
  cases hc : h.connections[t]? with
  | none => exact ho
  | some c => exact (ho.handled hc now bytes).dispatch _

/-- A connection has ended, and nothing of its will is queued yet. -/
theorem Owned.ended {h : Hub} (ho : h.Owned) {t : Nat} {c : Connection} (hc : h.connections[t]? = some c)
    (reason : CloseReason) :
    (({ h with broker := (c.teardown h.broker reason).2.1 } : Hub).setConnection t
      (c.teardown h.broker reason).1).Owned := by
  obtain ⟨htoken, hset⟩ := ho.settled hc
  obtain ⟨hafter, hsame⟩ := Connection.teardown_settled hset reason
  refine Owned.setConnection ?_ hafter.proper ho.proper
  have hagreed := hafter.owned
  rw [hsame, htoken] at hagreed
  exact hagreed

theorem Owned.teardown {h : Hub} (ho : h.Owned) (t : Nat) (reason : CloseReason) :
    (h.teardown t reason).Owned := by
  unfold Hub.teardown
  cases hc : h.connections[t]? with
  | none => exact ho
  | some c => exact (ho.ended hc reason).dispatch _

theorem Owned.written {h : Hub} (ho : h.Owned) (t count : Nat) : (h.written t count).Owned := by
  unfold Hub.written
  cases hc : h.connections[t]? with
  | none => exact ho
  | some c =>
    refine Owned.setConnection ?_ ⟨(ho.proper t c hc).closed, (ho.proper t c hc).sound⟩ ho.proper
    have hstanding : h.standing? t = some (c.consume count).peer.standing := by simp [standing?, hc]; rfl
    rw [seat_eq hstanding]
    exact ho.agreed

theorem Owned.publish {h : Hub} (ho : h.Owned) (origin : Option String) (m : Message) :
    (h.publish origin m).Owned := by
  have hframe := publish_frame h.broker origin m
  unfold Hub.publish
  generalize h.broker.publish origin m = r at hframe
  obtain ⟨ds, b⟩ := r
  have hafter : Owned { h with broker := b } := ⟨ho.agreed.frame hframe, ho.proper⟩
  exact hafter.dispatch ds

/-- One action keeps the agreement. -/
theorem Owned.step {h : Hub} (ho : h.Owned) (a : Action) : (h.step a).Owned := by
  cases a with
  | accept t limits now => exact ho.accept t limits now
  | receive t now bytes => exact ho.receive t now bytes
  | teardown t reason => exact ho.teardown t reason
  | written t count => exact ho.written t count
  | publish origin m => exact ho.publish origin m

theorem Owned.run {h : Hub} (ho : h.Owned) (actions : List Action) : (h.run actions).Owned := by
  induction actions generalizing h with
  | nil => exact ho
  | cons a actions ih => exact ih (ho.step a)

end Hub

/-! ### Runs -/

/-- What a run may start from: nothing, or a store that was read. -/
inductive Broker.Initial : Broker → Prop
  | new (options : BrokerOptions) : Initial (.new options)
  | restored (options : BrokerOptions) {store : SessionStore} {depth : Nat} {j : Json} :
      SessionStore.ofJson? depth j = some store → Initial (.restore options store)

theorem Broker.session?_restore (options : BrokerOptions) (store : SessionStore) (client : String) :
    (restore options store).session? client =
      (store.sessions[client]?).map fun s =>
        { s.retain with maxQueued := options.maxQueuedMessages } := by
  simp [session?, restore]

/-- At the start nobody is connected, and no session has an owner or is clean. -/
theorem Broker.Initial.owned {b : Broker} (hb : b.Initial) : (Hub.start b).Owned := by
  have hnobody (t : Nat) : (Hub.start b).standing? t = none := by simp [Hub.standing?, Hub.start]
  suffices hsessions : (∀ client s, b.session? client = some s →
      s.owner = none ∧ s.cleanSession = false) ∧
      b.subscriptions.Only fun client => (b.hold? client).isSome by
    refine ⟨⟨fun t s hs => ?_, fun client t => ?_, hsessions.2, fun client clean hhold => ?_⟩, ?_⟩
    · rw [hnobody] at hs
      cases hs
    · rw [hnobody]
      constructor
      · rintro ⟨clean, hhold⟩
        obtain ⟨s, hs, howner, -⟩ := hold?_eq_some_iff.1 hhold
        rw [(hsessions.1 client s hs).1] at howner
        cases howner
      · rintro ⟨s, hs, -⟩
        cases hs
    · obtain ⟨s, hs, -, rfl⟩ := hold?_eq_some_iff.1 hhold
      exact (hsessions.1 client s hs).2
    · intro t c hc
      simp [Hub.start] at hc
  cases hb with
  | new options =>
    refine ⟨fun client s hs => ?_, SubscriptionTree.only_empty⟩
    simp [session?, Broker.new] at hs
  | @restored options store depth j hread =>
    refine ⟨fun client s hs => ?_, ?_⟩
    · rw [session?_restore, Option.map_eq_some_iff] at hs
      obtain ⟨s₀, hs₀, rfl⟩ := hs
      exact ⟨rfl, SessionStore.ofJson?_clean hread client s₀ hs₀⟩
    · refine (SubscriptionTree.only_filterClients store.subscriptions _).imp fun client hclient => ?_
      rw [hold?_isSome, session?_restore]
      have hkept := hclient.2
      rw [Std.ExtTreeMap.contains_eq_isSome_getElem?] at hkept
      simpa using hkept

/-- **Session ownership over whole runs.** However many connections come and go, whatever bytes they
bring and in whatever order, after every run: a session is owned by exactly the connection that was
accepted for its client and is not torn down; no two such connections have the same client; every
client with a subscription has a session; and a session without an owner is not a clean one. So no
connection ever misses the session of its client. -/
theorem Hub.run_ownership {b : Broker} (hb : b.Initial) (actions : List Action) :
    (∀ client t, (∃ s, ((start b).run actions).broker.session? client = some s ∧ s.owner = some t) ↔
      ∃ c, ((start b).run actions).connections[t]? = some c ∧ c.peer.clientId = some client ∧
        c.peer.tornDown = false) ∧
    (∀ (client : String) (t t' : Nat) (c c' : Connection),
      ((start b).run actions).connections[t]? = some c →
      ((start b).run actions).connections[t']? = some c' →
      c.peer.tornDown = false → c'.peer.tornDown = false →
      c.peer.clientId = some client → c'.peer.clientId = some client → t = t') ∧
    (∀ client, ((start b).run actions).broker.subscriptions.Mentions client →
      ((start b).run actions).broker.hasSession client = true) ∧
    (∀ client s, ((start b).run actions).broker.session? client = some s → s.owner = none →
      s.cleanSession = false) ∧
    ∀ (t : Nat) (c : Connection) (now : Nat) (bytes : List UInt8) (client : String),
      ((start b).run actions).connections[t]? = some c →
      (c.handleBytes ((start b).run actions).broker now bytes).error
        ≠ some (.malformedPacket (.noSession client)) := by
  have ho : ((start b).run actions).Owned := hb.owned.run actions
  generalize (start b).run actions = h at ho
  have howner (client : String) (t : Nat) :
      (∃ s, h.broker.session? client = some s ∧ s.owner = some t) ↔
        ∃ c, h.connections[t]? = some c ∧ c.peer.clientId = some client ∧ c.peer.tornDown = false := by
    have hagreed := ho.agreed.owner client t
    simp only [hold?_eq_some_iff, standing?, Option.map_eq_some_iff, Standing.Serves] at hagreed
    constructor
    · rintro ⟨s, hs, hmine⟩
      obtain ⟨_, ⟨c, hc, rfl⟩, hserves⟩ := hagreed.1 ⟨_, s, hs, hmine, rfl⟩
      exact ⟨c, hc, hserves⟩
    · rintro ⟨c, hc, hserves⟩
      obtain ⟨_, s, hs, hmine, -⟩ := hagreed.2 ⟨_, ⟨c, hc, rfl⟩, hserves⟩
      exact ⟨s, hs, hmine⟩
  refine ⟨howner, ?_, ?_, ?_, ?_⟩
  · intro client t t' c c' hc hc' hup hup' hclient hclient'
    obtain ⟨s, hs, hmine⟩ := (howner client t).2 ⟨c, hc, hclient, hup⟩
    obtain ⟨s', hs', hmine'⟩ := (howner client t').2 ⟨c', hc', hclient', hup'⟩
    rw [hs] at hs'
    cases hs'
    rw [hmine] at hmine'
    exact Option.some.inj hmine'
  · intro client hclient
    have hsome := SubscriptionTree.only_iff.1 ho.agreed.subscribed client hclient
    rw [hasSession_eq_isSome, ← hold?_isSome]
    exact hsome
  · intro client s hs hfree
    exact ho.agreed.kept client s.cleanSession (hold?_eq_some_iff.2 ⟨s, hs, hfree, rfl⟩)
  · intro t c now bytes client hc herror
    obtain ⟨-, hset⟩ := ho.settled hc
    obtain ⟨-, -, hbytes⟩ := Connection.receive_settled now #[] bytes hset
    exact hbytes _ herror client rfl

/-- Two connections call themselves "c", one after the other. -/
def Hub.twoCallers : List Action :=
  let connect := [0x10, 13, 0, 4, 77, 81, 84, 84, 4, 0, 0, 0, 0, 1, 99]
  [.accept 2 {} 0, .receive 2 0 connect, .accept 3 {} 0, .receive 3 0 connect]

/-- Of two callers with one name the first owns the session. -/
theorem Hub.run_ownership_twoCallers :
    (Broker.new {}).Initial ∧
      ∃ s, ((start (.new {})).run twoCallers).broker.session? "c" = some s ∧ s.owner = some 2 := by
  have hstart : (Broker.new {}).Initial := .new {}
  have hfirst : ((((start (.new {})).run twoCallers).connections[2]?).map
      fun c => (c.peer.clientId, c.peer.tornDown)) = some (some "c", false) := by decide +kernel
  obtain ⟨c, hc, hpeer⟩ := Option.map_eq_some_iff.1 hfirst
  have howner := (run_ownership hstart twoCallers).1 "c" 2
  exact ⟨hstart, howner.2 ⟨c, hc, congrArg Prod.fst hpeer, congrArg Prod.snd hpeer⟩⟩

end Mqtt
