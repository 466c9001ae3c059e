import Mqtt.Proofs.Accounting

/-!
# A message for exactly-once delivery is published once: `InflightState::on_publish`, `on_pubrel`

A client that hears no PUBREC sends its PUBLISH again, on this connection or on a later one, and possibly to a
broker that was restarted in between. The session remembers each identifier from the first such PUBLISH to the
PUBREL that releases it. Main statement: from one PUBREL to the next, the first PUBLISH under an identifier is
published and all others are only answered, whatever they carry and whatever happens in between, as long as the
client does not give its session up (`Hub.course_exactly_once`).
-/

namespace Mqtt

/-! ### What a session has received -/

/-- Whether the session is clean, and the identifiers that wait for PUBREL. -/
def Session.receipts (s : Session) : Bool × Std.ExtTreeSet UInt16 := (s.cleanSession, s.inflight.received)

/-- Sending is no matter of what was received. -/
theorem Session.send_receipts (s : Session) (m : Message) (q : QoS) (retain : Bool) :
    (s.send m q retain).2.receipts = s.receipts := by
  have h := s.send_outcome m q retain
  generalize (s.send m q retain).1 = d at h
  generalize (s.send m q retain).2 = s' at h
  cases h with
  | absent =>
    unfold superseded
    split <;> rfl
  | exhausted | tracked | passed => rfl

theorem Session.sendAll_receipts (s : Session) (xs : List Sending) : (s.sendAll xs).2.receipts = s.receipts := by
  induction xs generalizing s with
  | nil => rfl
  | cons x xs ih => rw [sendAll_cons, ih, send_receipts]

namespace Broker

/-- The session of a client, if it has one, is kept when its connection is gone. -/
def Keeps (b : Broker) (client : String) : Prop := ∀ s, b.session? client = some s → s.cleanSession = false

/-- An identifier of a client waits for PUBREL. -/
def awaits (b : Broker) (client : String) (k : UInt16) : Bool :=
  (b.session? client).any fun s => s.inflight.received.contains k

def receipts? (b : Broker) (client : String) : Option (Bool × Std.ExtTreeSet UInt16) :=
  (b.session? client).map Session.receipts

theorem keeps_iff {b : Broker} {client : String} :
    b.Keeps client ↔ ∀ r, b.receipts? client = some r → r.1 = false := by
  simp [Keeps, receipts?, Session.receipts]

theorem awaits_eq (b : Broker) (client : String) (k : UInt16) :
    b.awaits client k = (b.receipts? client).any (·.2.contains k) := by
  rw [awaits, receipts?, Option.any_map]
  rfl

theorem receipts?_setSession (b : Broker) (client other : String) (s : Session) :
    (b.setSession client s).receipts? other = if client = other then some s.receipts else b.receipts? other := by
  rw [receipts?, session?_setSession]
  split <;> rfl

theorem receipts?_of_sendAll {b b' : Broker} {client : String} {xs : List Sending}
    (h : b'.session? client = (b.session? client).map fun s => (s.sendAll xs).2) :
    b'.receipts? client = b.receipts? client := by
  rw [receipts?, h, Option.map_map, receipts?]
  congr 1
  funext s
  exact s.sendAll_receipts xs

theorem receipts?_publish (b : Broker) (origin : Option String) (m : Message) (client : String) :
    (b.publish origin m).2.receipts? client = b.receipts? client :=
  receipts?_of_sendAll (session?_publish b origin m client)

theorem receipts?_subscribeAll (b : Broker) (client : String) (topics : List TopicRequest) (other : String) :
    (Peer.subscribeAll b client topics).2.2.receipts? other = b.receipts? other := by
  have h := session?_subscribeAll b client topics other
  split at h
  · exact receipts?_of_sendAll h
  · rw [receipts?, h, receipts?]

theorem receipts?_restartSession {b : Broker} {client : String} {s : Session} {token : Nat}
    (hs : b.session? client = some s) (howner : s.owner = some token) (other : String) :
    (b.restartSession client).2.receipts? other = b.receipts? other := by
  rw [restartSession_eq hs howner, receipts?_setSession]
  split
  · next heq =>
    rw [← heq, receipts?, hs, Session.sendAll_receipts]
    rfl
  · rfl

end Broker

/-! ### What is accepted of a client -/

/-- A PUBLISH for exactly-once delivery under the identifier. -/
def Packet.brings (k : UInt16) : Packet → Bool
  | .publish p => p.qos = .exactlyOnce && p.packetId = some k
  | _ => false

/-- A PUBREL that names the identifier. -/
def Packet.releases (k : UInt16) : Packet → Bool
  | .pubrel id => id = k
  | _ => false

theorem Packet.eq_publish_of_brings {packet : Packet} {k : UInt16} (h : packet.brings k = true) :
    ∃ p, packet = .publish p ∧ p.qos = .exactlyOnce ∧ p.packetId = some k := by
  cases packet with
  | publish p =>
    obtain ⟨hqos, hid⟩ := Bool.and_eq_true_iff.1 h
    exact ⟨p, rfl, of_decide_eq_true hqos, of_decide_eq_true hid⟩
  | _ => cases h

theorem Packet.eq_pubrel_of_releases {packet : Packet} {k : UInt16} (h : packet.releases k = true) :
    packet = .pubrel k := by
  cases packet with
  | pubrel id => rw [of_decide_eq_true (show decide (id = k) = true from h)]
  | _ => cases h

namespace Broker

/-- A packet that was accepted: who sent it, and what came of it. -/
structure Acceptance where
  peer : Peer
  packet : Packet
  handled : Peer.Handled

namespace Moment

/-- What is accepted of a client at a moment. -/
def accepted? (client : String) (m : Moment) : Option Acceptance :=
  match m.operation with
  | .packet p now packet =>
    match p.handle m.broker now packet with
    | .ok h => if h.peer.clientId = some client then some ⟨p, packet, h⟩ else none
    | .error _ => none
  | _ => none

/-- A message for exactly-once delivery is accepted under the identifier. -/
def brings (client : String) (k : UInt16) (m : Moment) : Bool := (m.accepted? client).any (·.packet.brings k)

/-- The release of the identifier is accepted. -/
def releases (client : String) (k : UInt16) (m : Moment) : Bool := (m.accepted? client).any (·.packet.releases k)

/-- The message is noted and answered, and then it is published; nothing else is done. -/
def Routes (client : String) (k : UInt16) (m : Moment) : Prop :=
  ∃ p publish h s, m.accepted? client = some ⟨p, .publish publish, h⟩ ∧ m.broker.session? client = some s ∧
    let inflight := { s.inflight with received := s.inflight.received.insert k }
    let published := (m.broker.setSession client { s with inflight }).publish (some client) publish.message
    h.broker = published.2 ∧ h.output = p.reply (.pubrec k) :: published.1 ∧
      ∀ d ∈ published.1, d.packet.type = .publish

/-- The message is answered, and nothing else is done. -/
def Repeats (client : String) (k : UInt16) (m : Moment) : Prop :=
  ∃ p publish h, m.accepted? client = some ⟨p, .publish publish, h⟩ ∧ h.broker = m.broker ∧
    h.output = [p.reply (.pubrec k)]

/-- The release is answered. -/
def Completes (client : String) (k : UInt16) (m : Moment) : Prop :=
  ∃ p h, m.accepted? client = some ⟨p, .pubrel k, h⟩ ∧ h.output = [p.reply (.pubcomp k)]

variable {client : String} {k : UInt16} {m : Moment}

theorem accepted?_eq_some {p : Peer} {packet : Packet} {h : Peer.Handled}
    (ha : m.accepted? client = some ⟨p, packet, h⟩) :
    ∃ now, Peer.Accepts p m.broker now packet h ∧ h.peer.clientId = some client := by
  unfold accepted? at ha
  split at ha
  · next p' now packet' _ =>
    split at ha
    · next h' hh =>
      split at ha
      · next hclient =>
        cases ha
        exact ⟨now, (Peer.handle_ok hh).2, hclient⟩
      · cases ha
    · cases ha
  · cases ha

theorem accepted?_of_brings (h : m.brings client k = true) :
    ∃ p publish h, m.accepted? client = some ⟨p, .publish publish, h⟩ ∧ publish.qos = .exactlyOnce ∧
      publish.packetId = some k := by
  obtain ⟨⟨p, packet, h'⟩, ha, hpacket⟩ := (Option.any_eq_true _ _).1 h
  obtain ⟨publish, rfl, hqos, hid⟩ := Packet.eq_publish_of_brings hpacket
  exact ⟨p, publish, h', ha, hqos, hid⟩

theorem accepted?_of_releases (h : m.releases client k = true) :
    ∃ p h, m.accepted? client = some ⟨p, .pubrel k, h⟩ := by
  obtain ⟨⟨p, packet, h'⟩, ha, hpacket⟩ := (Option.any_eq_true _ _).1 h
  obtain rfl := Packet.eq_pubrel_of_releases hpacket
  exact ⟨p, h', ha⟩

/-- No packet is both. -/
theorem brings_of_releases (h : m.releases client k = true) : m.brings client k = false := by
  obtain ⟨p, h', ha⟩ := accepted?_of_releases h
  rw [brings, ha]
  rfl

/-- A message whose identifier does not wait for PUBREL is published. -/
theorem routes_of_brings (hm : m.brings client k = true) (hk : m.broker.awaits client k = false) :
    m.Routes client k := by
  obtain ⟨p, publish, h, ha, hqos, hid⟩ := accepted?_of_brings hm
  obtain ⟨now, haccepts, hclient⟩ := accepted?_eq_some ha
  cases haccepts with
  | @routed sender s publish reply inflight hp hs htakes =>
    obtain rfl : sender.id = client := Option.some.inj ((Peer.clientId_of_client hp).symm.trans hclient)
    obtain ⟨-, hreply, rfl⟩ := htakes.exactlyOnce_eq hqos hid
    obtain rfl : reply = some (.pubrec k) := hreply
    refine ⟨p, publish, _, s, ha, hs, ?_⟩
    dsimp only
    refine ⟨rfl, rfl, fun d hd => ?_⟩
    cases (publish_sends (M := fun _ => True) _ _ trivial).delivered d hd
    rfl
  | @repeated sender s publish reply inflight hp hs htakes =>
    obtain rfl : sender.id = client := Option.some.inj ((Peer.clientId_of_client hp).symm.trans hclient)
    obtain ⟨hold, -, -⟩ := htakes.exactlyOnce_eq hqos hid
    rw [awaits, hs, Option.any_some] at hk
    rw [hk] at hold
    cases hold
  | acknowledged _ _ hacks => cases hacks

/-- A message whose identifier waits for PUBREL is only answered. -/
theorem repeats_of_brings (hm : m.brings client k = true) (hk : m.broker.awaits client k = true) :
    m.Repeats client k := by
  obtain ⟨p, publish, h, ha, hqos, hid⟩ := accepted?_of_brings hm
  obtain ⟨now, haccepts, hclient⟩ := accepted?_eq_some ha
  cases haccepts with
  | @routed sender s publish reply inflight hp hs htakes =>
    obtain rfl : sender.id = client := Option.some.inj ((Peer.clientId_of_client hp).symm.trans hclient)
    obtain ⟨hnew, -, -⟩ := htakes.exactlyOnce_eq hqos hid
    rw [awaits, hs, Option.any_some] at hk
    rw [hk] at hnew
    cases hnew
  | @repeated sender s publish reply inflight hp hs htakes =>
    obtain rfl : sender.id = client := Option.some.inj ((Peer.clientId_of_client hp).symm.trans hclient)
    obtain ⟨-, hreply, rfl⟩ := htakes.exactlyOnce_eq hqos hid
    obtain rfl : reply = some (.pubrec k) := hreply
    rw [awaits, hs, Option.any_some] at hk
    have hsame : s.inflight.received.insert k = s.inflight.received := by
      apply Std.ExtTreeSet.ext_mem
      intro id
      rw [Std.ExtTreeSet.mem_insert]
      refine ⟨fun h => ?_, .inr⟩
      rcases h with h | h
      · rw [← Std.LawfulEqCmp.eq_of_compare h]
        exact hk
      · exact h
    refine ⟨p, publish, _, ha, ?_, rfl⟩
    dsimp only
    rw [hsame]
    exact setSession_session? hs
  | acknowledged _ _ hacks => cases hacks

/-- Every release is answered, whether its identifier waited for it or not. -/
theorem completes_of_releases (hm : m.releases client k = true) : m.Completes client k := by
  obtain ⟨p, h, ha⟩ := accepted?_of_releases hm
  obtain ⟨now, haccepts, -⟩ := accepted?_eq_some ha
  cases haccepts with
  | acknowledged hp hs hacks =>
    cases hacks
    exact ⟨p, _, ha, rfl⟩

end Moment

/-! ### Steps -/

section Steps

variable {b b' : Broker} {client : String} {k : UInt16} {s : Session} {inflight : Inflight}

theorem keeps_of_receipts? (h : b'.receipts? client = b.receipts? client) (hkeeps : b.Keeps client) :
    b'.Keeps client := by
  rw [keeps_iff, h]
  exact keeps_iff.1 hkeeps

theorem awaits_of_receipts? (h : b'.receipts? client = b.receipts? client) :
    b'.awaits client k = b.awaits client k := by
  rw [awaits_eq, h, awaits_eq]

/-- Handshakes of a session change, whoever's it is. -/
theorem keeps_setSession {sender : String} (hs : b.session? sender = some s) (hkeeps : b.Keeps client) :
    (b.setSession sender { s with inflight }).Keeps client := by
  intro t ht
  rw [session?_setSession] at ht
  split at ht
  · next heq =>
    cases ht
    exact hkeeps s (heq ▸ hs)
  · exact hkeeps t ht

theorem awaits_setSession {sender : String} :
    (b.setSession sender { s with inflight }).awaits client k =
      if sender = client then inflight.received.contains k else b.awaits client k := by
  rw [awaits, session?_setSession]
  split <;> rfl

/-- From the message to its release an identifier waits. -/
theorem contains_received_of_takes {publish : Publish} {arrival : Inflight.Arrival}
    (h : s.inflight.Takes publish arrival inflight) :
    inflight.received.contains k = ((Packet.publish publish).brings k || s.inflight.received.contains k) := by
  cases h with
  | atMostOnce hq | atLeastOnce hq => simp [Packet.brings, hq]
  | @exactlyOnce id hq hid hne =>
    have hid : publish.packetId = some id := by
      cases hp : publish.packetId with
      | none => exact absurd (by simpa [hp] using hid.symm) hne
      | some id' => simpa [hp] using hid
    rw [Bool.eq_iff_iff]
    simp [Packet.brings, hq, hid]

/-- An identifier that is released does not wait. -/
theorem contains_received_of_acks {packet : Packet} {reply : Option Packet}
    (h : s.inflight.Acks packet reply inflight) :
    inflight.received.contains k = (s.inflight.received.contains k && !packet.releases k) := by
  cases h with
  | puback | pubrec | pubcomp => simp [Packet.releases]
  | @pubrel id hne =>
    rw [Bool.eq_iff_iff]
    simp [Packet.releases, and_comm]

end Steps

namespace Moment

variable {p : Peer} {b : Broker} {now : Nat} {packet : Packet} {h : Peer.Handled} {client : String} {k : UInt16}

theorem brings_packet (hh : p.handle b now packet = .ok h) :
    (⟨b, .packet p now packet⟩ : Moment).brings client k =
      (decide (h.peer.clientId = some client) && packet.brings k) := by
  simp only [brings, accepted?, hh]
  split <;> simp [*]

theorem releases_packet (hh : p.handle b now packet = .ok h) :
    (⟨b, .packet p now packet⟩ : Moment).releases client k =
      (decide (h.peer.clientId = some client) && packet.releases k) := by
  simp only [releases, accepted?, hh]
  split <;> simp [*]

end Moment

/-- What an operation leaves a session that is kept with: an identifier waits from its message to its release. -/
structure Moment.Keeping (m : Moment) (client : String) (k : UInt16) (b' : Broker) : Prop where
  keeps : b'.Keeps client
  awaits : b'.awaits client k = (m.brings client k || m.broker.awaits client k && !m.releases client k)

namespace Moment.Keeping

variable {m : Moment} {client : String} {k : UInt16} {b b' : Broker}

/-- What was received is left alone, and nothing of it is brought or released. -/
theorem same (hkeeps : m.broker.Keeps client) (h : b'.receipts? client = m.broker.receipts? client)
    (hbrings : m.brings client k = false) (hreleases : m.releases client k = false) : m.Keeping client k b' :=
  ⟨keeps_of_receipts? h hkeeps, by simp [awaits_of_receipts? h, hbrings, hreleases]⟩

/-- What follows leaves alone what was received. -/
theorem congr (h : m.Keeping client k b) (h' : b'.receipts? client = b.receipts? client) : m.Keeping client k b' :=
  ⟨keeps_of_receipts? h' h.keeps, (awaits_of_receipts? h').trans h.awaits⟩

/-- An accepted packet carries a handshake of its sender on. -/
theorem handshake {p : Peer} {now : Nat} {packet : Packet} {h : Peer.Handled} {sender : AcceptedClient} {s : Session}
    {inflight : Inflight} (hh : p.handle b now packet = .ok h) (hsender : h.peer.clientId = some sender.id)
    (hkeeps : b.Keeps client) (hs : b.session? sender.id = some s)
    (hreceived : inflight.received.contains k =
      (packet.brings k || s.inflight.received.contains k && !packet.releases k)) :
    Keeping ⟨b, .packet p now packet⟩ client k (b.setSession sender.id { s with inflight }) := by
  refine ⟨keeps_setSession hs hkeeps, ?_⟩
  rw [awaits_setSession, brings_packet hh, releases_packet hh, hsender]
  by_cases hclient : sender.id = client
  · have hawaits : b.awaits client k = s.inflight.received.contains k := by
      rw [Broker.awaits, ← hclient, hs, Option.any_some]
    simp [hclient, hreceived, hawaits]
  · simp [hclient]

/-- An accepted packet keeps track of what its sender brings and releases. -/
theorem accepted {p : Peer} {now : Nat} {packet : Packet} {h : Peer.Handled} (hh : p.handle b now packet = .ok h)
    (hkeeps : b.Keeps client) (hgiven : givesUp client ⟨b, .packet p now packet⟩ = false) :
    Keeping ⟨b, .packet p now packet⟩ client k h.broker := by
  have hother (hbrings : packet.brings k = false) (hreleases : packet.releases k = false)
      (hsame : h.broker.receipts? client = b.receipts? client) :
      Keeping ⟨b, .packet p now packet⟩ client k h.broker :=
    same hkeeps hsame (by simp [brings_packet hh, hbrings]) (by simp [releases_packet hh, hreleases])
  have hmine {sender : AcceptedClient} (hp : p.client = some sender) := Peer.clientId_of_client hp
  cases (Peer.handle_ok hh).2 with
  | @fresh c id n _ _ _ hfree =>
    by_cases hid : id = client
    · subst hid
      have hclean : c.cleanSession = false := by simpa [givesUp, hh, Peer.introduce] using hgiven
      have hnone : b.session? id = none := by
        cases hs : b.session? id with
        | none => rfl
        | some s => rw [(hfree s hs).2] at hclean; cases hclean
      refine ⟨fun s hs => ?_, ?_⟩
      · rw [session?_newSession, if_pos rfl] at hs
        cases hs
        exact hclean
      · rw [brings_packet hh, Broker.awaits, session?_newSession, if_pos rfl, Broker.awaits, hnone]
        simp [Packet.brings, Session.new, Inflight.empty]
    · refine hother rfl rfl ?_
      rw [receipts?, session?_newSession, if_neg hid, session?_deleteSession, if_neg hid]
      rfl
  | @resumed c s _ _ _ hs _ =>
    refine hother rfl rfl ?_
    have hrenewed : (b.setSession c.clientId (s.renew p.token)).session? c.clientId = some (s.renew p.token) := by
      simp
    rw [receipts?_restartSession hrenewed rfl, receipts?_setSession]
    split
    · next heq =>
      rw [← heq, receipts?, hs]
      rfl
    · rfl
  | @routed sender s publish reply inflight hp hs htakes =>
    have hnoted : Keeping ⟨b, .packet p now (.publish publish)⟩ client k
        (b.setSession sender.id { s with inflight }) :=
      handshake hh (hmine hp) hkeeps hs (by simp [contains_received_of_takes htakes, Packet.releases])
    have hpublished := receipts?_publish (b.setSession sender.id { s with inflight }) (some sender.id) publish.message
      client
    dsimp only
    exact hnoted.congr hpublished
  | repeated hp hs htakes =>
    refine handshake hh (hmine hp) hkeeps hs ?_
    simp [contains_received_of_takes htakes, Packet.releases]
  | acknowledged hp hs hacks =>
    refine handshake hh (hmine hp) hkeeps hs ?_
    have hbrings : packet.brings k = false := by cases hacks <;> rfl
    simp [contains_received_of_acks hacks, hbrings]
  | @subscribed sender id topics => exact hother rfl rfl (receipts?_subscribeAll b sender.id topics client)
  | @unsubscribed sender id filters =>
    refine hother rfl rfl ?_
    rw [receipts?, session?_unsubscribe_foldl, receipts?]
  | pinged | left => exact hother rfl rfl rfl

/-- The session is given back, and stays. -/
theorem released (hkeeps : b.Keeps client) (id : String) (token : Nat) :
    Keeping ⟨b, .release id token⟩ client k (b.releaseSession id token) := by
  refine same hkeeps ?_ rfl rfl
  unfold releaseSession
  cases hs : b.session? id with
  | none => rfl
  | some s =>
    dsimp only
    split
    · rw [receipts?, receipts?]
      split
      · next hclean =>
        rw [session?_deleteSession]
        split
        · next heq =>
          subst heq
          rw [hkeeps s hs] at hclean
          cases hclean
        · rfl
      · rw [retainSession, session?_modifySession]
        split
        · rw [Option.map_map]
          rfl
        · rfl
    · rfl

/-- The next run has the session. -/
theorem restarted {options options' : BrokerOptions} (hb : Edits (.new options) b) (hkeeps : b.Keeps client) :
    Keeping ⟨b, .restart options'⟩ client k (b.restart options') := by
  refine same hkeeps ?_ rfl rfl
  rw [receipts?, restart, reread_eq hb, session?_restore_store, receipts?]
  cases hs : b.session? client with
  | none => rfl
  | some s =>
    simp [Option.filter_some, hkeeps s hs, revived, Session.receipts]

end Moment.Keeping

/-- **An identifier waits from its message to its release**, through every operation that does not give the
session up. -/
theorem Moment.keeping {options : BrokerOptions} {m : Moment} {client : String} (k : UInt16)
    (hb : Edits (.new options) m.broker) (hkeeps : m.broker.Keeps client) (hgiven : m.givesUp client = false) :
    m.Keeping client k (m.broker.operate m.operation) := by
  obtain ⟨b, op⟩ := m
  cases op with
  | packet p now packet =>
    dsimp only [operate]
    rcases hh : p.handle b now packet with r | h
    · exact .same hkeeps (congrArg (·.receipts? client) (Peer.handled_of_refused hh).1)
        (by simp [brings, accepted?, hh]) (by simp [releases, accepted?, hh])
    · exact .accepted hh hkeeps hgiven
  | release id token => exact .released hkeeps id token
  | publish origin message => exact .same hkeeps (receipts?_publish b origin message client) rfl rfl
  | restart options' => exact .restarted hb hkeeps

/-! ### From one release to the next -/

namespace Moment

variable {client : String} {k : UInt16}

/-- Whether an identifier waits after a moment. -/
def await (client : String) (k : UInt16) (waits : Bool) (m : Moment) : Bool :=
  m.brings client k || waits && !m.releases client k

/-- Nothing waits at the start, nor right after the release. -/
theorem foldl_await_of_getLast? {earlier : List Moment}
    (h : ∀ m, earlier.getLast? = some m → m.releases client k = true) :
    earlier.foldl (await client k) false = false := by
  rcases List.eq_nil_or_concat earlier with rfl | ⟨earlier, last, rfl⟩
  · rfl
  · have hlast := h last (by simp)
    rw [List.concat_eq_append, List.foldl_append, List.foldl_cons, List.foldl_nil, await,
      brings_of_releases hlast, hlast, Bool.not_true, Bool.and_false, Bool.or_false]

/-- Until its release an identifier waits once its message has come. -/
theorem foldl_await {round : List Moment} (h : ∀ m ∈ round, m.releases client k = false) (waits : Bool) :
    round.foldl (await client k) waits = (waits || round.any (brings client k)) := by
  induction round generalizing waits with
  | nil => simp
  | cons m round ih =>
    rw [List.foldl_cons, ih (fun m hm => h m (.tail _ hm)), await, h m (.head _), List.any_cons, Bool.not_false,
      Bool.and_true, Bool.or_comm (m.brings client k), Bool.or_assoc]

end Moment

end Broker

namespace Hub

open Broker

variable (options : BrokerOptions) {client : String} {k : UInt16}

/-- What waits at a moment is what was brought and not released before. -/
theorem course_awaits {h : Hub} (hb : Edits (.new options) h.broker) (hkeeps : h.broker.Keeps client)
    (hbegin : h.broker.awaits client k = false) {events : List Event}
    (hkept : ∀ m ∈ h.moments events, m.givesUp client = false) {earlier later : List Moment} {m : Moment}
    (hm : h.moments events = earlier ++ m :: later) :
    m.broker.awaits client k = earlier.foldl (Moment.await client k) false := by
  let P (b : Broker) (waits : Bool) : Prop :=
    Edits (.new options) b ∧ b.Keeps client ∧ b.awaits client k = waits
  have hstart : P h.broker false := ⟨hb, hkeeps, hbegin⟩
  refine (course_induction_at (P := P) hstart (fun m hm waits hP => ?_) hm).2.2
  obtain ⟨hb, hkeeps, hwaits⟩ := hP
  have hkeeping := m.keeping k hb hkeeps (hkept m hm)
  exact ⟨operate_edits hb m.operation, hkeeping.keeps, by rw [hkeeping.awaits, hwaits, Moment.await]⟩

/-- **A message for exactly-once delivery is published once.** Take any course of events after which a client
has no session, or one that is kept and in which the identifier does not wait for PUBREL, and any further events
in which the client does not give its session up: it may come and go, and the broker be restarted. From the
start or a release of the identifier to the next one or the end, either no message is brought under the
identifier, or the first one is answered by one PUBREC and published once, and all that follow are answered by
one PUBREC each and nothing else is done. And each release is answered by one PUBCOMP. -/
theorem course_exactly_once (before after : List Event)
    (hbegin : ∀ s, ((start (.new options)).course before).broker.session? client = some s →
      s.cleanSession = false ∧ s.inflight.received.contains k = false)
    (hkept : ∀ m ∈ ((start (.new options)).course before).moments after, m.givesUp client = false) :
    (∀ earlier round later,
      ((start (.new options)).course before).moments after = earlier ++ round ++ later →
      (∀ m, earlier.getLast? = some m → m.releases client k = true) →
      (∀ m ∈ round, m.releases client k = false) →
      round.filter (·.brings client k) = [] ∨
        ∃ first again, round.filter (·.brings client k) = first :: again ∧ first.Routes client k ∧
          ∀ m ∈ again, m.Repeats client k) ∧
    ∀ m ∈ ((start (.new options)).course before).moments after, m.releases client k = true →
      m.Completes client k := by
  refine ⟨fun earlier round later hsplit hlast hround => ?_, fun m _ => Moment.completes_of_releases⟩
  have hedits := (course_accounted options client before).1
  generalize (start (.new options)).course before = h at hbegin hkept hsplit hedits
  have hawaits : h.broker.awaits client k = false := by
    rw [awaits]
    cases hs : h.broker.session? client with
    | none => rfl
    | some s => exact (hbegin s hs).2
  -- what waits at a moment of the round is what came before it in the round
  have hwaits {pre post : List Moment} {m : Moment} (hm : round = pre ++ m :: post) :
      m.broker.awaits client k = pre.any (Moment.brings client k) := by
    have hmoments : h.moments after = (earlier ++ pre) ++ m :: (post ++ later) := by simp [hsplit, hm]
    rw [course_awaits options hedits (fun s hs => (hbegin s hs).1) hawaits hkept hmoments, List.foldl_append,
      Moment.foldl_await_of_getLast? hlast,
      Moment.foldl_await fun m' hm' => hround m' (by rw [hm]; exact List.mem_append_left _ hm'), Bool.false_or]
  rcases hbrought : round.filter (·.brings client k) with _ | ⟨first, again⟩
  · exact .inl hbrought
  obtain ⟨pre, post, hfirst, hpre, hbrings, hagain⟩ := List.filter_eq_cons_iff.1 hbrought
  refine .inr ⟨first, again, hbrought, Moment.routes_of_brings hbrings ?_, fun m hm => ?_⟩
  · rw [hwaits hfirst, List.any_eq_false]
    exact hpre
  · rw [← hagain, List.mem_filter] at hm
    obtain ⟨between, rest, rfl⟩ := List.append_of_mem hm.1
    refine Moment.repeats_of_brings hm.2 ?_
    rw [@hwaits (pre ++ first :: between) rest m (by simp [hfirst]), List.any_eq_true]
    exact ⟨first, by simp, hbrings⟩

/-- A client sends a message under identifier 7, misses the answer, comes back to a restarted broker, sends the
message again, marked as a duplicate, releases the identifier, and uses it for another message. -/
def retransmission : List Event :=
  let connect := [0x10, 13, 0, 4, 77, 81, 84, 84, 4, 0, 0, 0, 0, 1, 99]
  [.act (.accept 1 {} 0), .act (.receive 1 0 connect),
    .act (.receive 1 0 [0x34, 6, 0, 1, 97, 0, 7, 120]), .act (.teardown 1 .ungraceful), .restart {},
    .act (.accept 1 {} 0), .act (.receive 1 0 connect),
    .act (.receive 1 0 [0x3c, 6, 0, 1, 97, 0, 7, 120]), .act (.receive 1 0 [0x62, 2, 0, 7]),
    .act (.receive 1 0 [0x34, 6, 0, 1, 97, 0, 7, 121])]

/-- Of the two messages before the release the first is published, and the second is only answered. -/
theorem course_exactly_once_retransmission :
    ∃ first second, (((start (.new {})).moments retransmission).takeWhile (!·.releases "c" 7)).filter
        (·.brings "c" 7) = [first, second] ∧ first.Routes "c" 7 ∧ second.Repeats "c" 7 := by
  have hbegin : ∀ s, ((start (.new {})).course []).broker.session? "c" = some s →
      s.cleanSession = false ∧ s.inflight.received.contains 7 = false := fun s hs => by
    have hnone : ((start (.new {})).course []).broker.session? "c" = none := by decide +kernel
    rw [hnone] at hs
    cases hs
  have hkept : ∀ m ∈ ((start (.new {})).course []).moments retransmission, m.givesUp "c" = false := by
    decide +kernel
  have hlength : ((((start (.new {})).moments retransmission).takeWhile (!·.releases "c" 7)).filter
      (·.brings "c" 7)).length = 2 := by decide +kernel
  have honce := (course_exactly_once {} (k := 7) [] retransmission hbegin hkept).1 []
    (((start (.new {})).moments retransmission).takeWhile (!·.releases "c" 7))
    (((start (.new {})).moments retransmission).dropWhile (!·.releases "c" 7))
    (List.takeWhile_append_dropWhile).symm (fun m hm => nomatch hm)
    fun m hm => by simpa using List.all_eq_true.1 List.all_takeWhile m hm
  rcases honce with hnone | ⟨first, again, hbrought, hroutes, hrepeats⟩
  · rw [hnone] at hlength
    cases hlength
  · rw [hbrought] at hlength
    obtain ⟨second, rfl⟩ := List.length_eq_one_iff.1 (Nat.succ.inj hlength)
    exact ⟨first, second, hbrought, hroutes, hrepeats second (.head _)⟩

end Hub

end Mqtt
