import Mqtt.Proofs.Ledger
import Mqtt.Proofs.Operations

/-!
# No acknowledged message is lost: `Session::send_publish`, `enqueue`, `take_queue`

A message that is to be acknowledged moves between the queue of a session, the handshakes and the wire: it
waits, it goes out, it waits again while its client is away or all identifiers are in use, it is written to
the store and read from it. Main statement: once it was handed to a session that is kept, and until the
client gives that session up, it waits, or it is kept under the identifier it was sent with, or the client
acknowledged that identifier, or it was dropped from the queue by one of the two rules for queues
(`Hub.course_accounts`). What was handed over and what became of it is written in the ledger of the session,
operation by operation (`Ledger.record`).
-/

namespace Mqtt

/-! ### Subscribing -/

namespace Broker

/-- What subscribing to a filter hands to the client. -/
def subscribed (b : Broker) (t : TopicRequest) : List Sending :=
  if t.filter.utf8ByteSize > b.options.maxTopicLength || !Topic.isValidFilter t.filter then []
  else b.replayed t.filter (min t.qos b.options.maxQoS)

theorem session?_subscribe (b : Broker) (client : String) (t : TopicRequest) (other : String) :
    (b.subscribe client t.filter t.qos).2.2.session? other =
      if client = other then (b.session? other).map fun s => (s.sendAll (b.subscribed t)).2
      else b.session? other := by
  unfold subscribe subscribed
  by_cases hrefused : (t.filter.utf8ByteSize > b.options.maxTopicLength || !Topic.isValidFilter t.filter) = true
  · rw [if_pos hrefused, if_pos hrefused]
    simp [Session.sendAll]
  · rw [if_neg hrefused, if_neg hrefused]
    exact session?_replayRetained _ client t.filter (min t.qos b.options.maxQoS) other

theorem subscribed_subscribe (b : Broker) (client : String) (t t' : TopicRequest) :
    (b.subscribe client t.filter t.qos).2.2.subscribed t' = b.subscribed t' := by
  have hsame : ((b.subscribe client t.filter t.qos).2.2.options, (b.subscribe client t.filter t.qos).2.2.retained) =
      (b.options, b.retained) := by
    unfold subscribe
    split
    · rfl
    · have hsends := replayRetained_sends (M := fun _ => True)
        (b := { b with subscriptions := (b.subscriptions.subscribe t.filter client (min t.qos b.options.maxQoS)).2 })
        (RetainTree.only_of_forall fun _ => trivial) client t.filter (min t.qos b.options.maxQoS)
      exact Prod.ext hsends.frame.options hsends.retained
  obtain ⟨hoptions, hretained⟩ := Prod.mk.inj hsame
  simp only [subscribed, replayed, hoptions, hretained]

theorem session?_subscribeAll (b : Broker) (client : String) (topics : List TopicRequest) (other : String) :
    (Peer.subscribeAll b client topics).2.2.session? other =
      if client = other then (b.session? other).map fun s => (s.sendAll (topics.flatMap b.subscribed)).2
      else b.session? other := by
  induction topics generalizing b with
  | nil => simp [Peer.subscribeAll, Session.sendAll]
  | cons t ts ih =>
    have hrest : ts.flatMap (b.subscribe client t.filter t.qos).2.2.subscribed = ts.flatMap b.subscribed := by
      congr 1
      funext t'
      exact subscribed_subscribe b client t t'
    have hstep : (Peer.subscribeAll b client (t :: ts)).2.2 =
        (Peer.subscribeAll (b.subscribe client t.filter t.qos).2.2 client ts).2.2 := rfl
    rw [hstep, ih, session?_subscribe, hrest]
    by_cases hother : client = other
    · simp only [hother, if_true, Option.map_map]
      congr 1
      funext s
      rw [List.flatMap_cons, Session.sendAll_append]
      rfl
    · simp only [hother, if_false]

theorem session?_unsubscribe_foldl (b : Broker) (client : String) (filters : List String) (other : String) :
    (filters.foldl (fun b filter => b.unsubscribe client filter) b).session? other = b.session? other := by
  induction filters generalizing b with
  | nil => rfl
  | cons filter filters ih => exact ih (b.unsubscribe client filter)

end Broker

/-! ### Keeping the ledger -/

/-- The broker and the publisher's name once a PUBLISH is answered, if it is new and is to be routed. -/
def Peer.toRoute? (p : Peer) (b : Broker) (publish : Publish) : Option (String × Broker) :=
  match p.client with
  | none => none
  | some sender =>
    match b.session? sender.id with
    | none => none
    | some s =>
      match (Inflight.onPublish publish).run s.inflight with
      | .ok arrival inflight =>
        if arrival.deliver then some (sender.id, b.setSession sender.id { s with inflight }) else none
      | .error _ _ => none

namespace Ledger

/-- Messages are handed to the session of a client, if it has one. -/
def handTo (l : Ledger) (b : Broker) (client : String) (xs : List Sending) : Ledger :=
  match b.session? client with
  | some s => l.hand s xs
  | none => l

/-- A CONNECT of the client is accepted: its session is taken up again, or one without history begins. -/
def connect (l : Ledger) (b : Broker) (client : String) (c : Connect) (token : Nat) : Ledger :=
  match b.session? client with
  | some s =>
    if c.cleanSession then {}
    else l.resume (s.renew token) (b.replayedAll (b.subscriptions.subscriptions client))
  | none => {}

/-- The client acknowledges an identifier. -/
def acknowledge (l : Ledger) (b : Broker) (client : String) (id : UInt16) : Ledger :=
  match b.session? client with
  | some s => l.settle s id
  | none => l

/-- What an accepted packet means for the ledger of a client; `sender` is the client that sent it. -/
def recordPacket (client : String) (l : Ledger) (b : Broker) (p : Peer) (sender : Option String) : Packet → Ledger
  | .connect c => if sender = some client then l.connect b client c p.token else l
  | .publish publish =>
    match p.toRoute? b publish with
    | some (origin, b) => l.handTo b client (b.published (some origin) publish.message client)
    | none => l
  | .subscribe _ topics => if sender = some client then l.handTo b client (topics.flatMap b.subscribed) else l
  | .puback id | .pubrec id | .pubcomp id => if sender = some client then l.acknowledge b client id else l
  | _ => l

/-- What an operation means for the ledger of a client. A packet that is not accepted means nothing. -/
def record (client : String) (l : Ledger) (m : Broker.Moment) : Ledger :=
  match m.operation with
  | .packet p now packet =>
    match p.handle m.broker now packet with
    | .ok h => l.recordPacket client m.broker p h.peer.clientId packet
    | .error _ => l
  | .publish origin message => l.handTo m.broker client (m.broker.published origin message client)
  | .release _ _ | .restart _ => l

end Ledger

/-- A CONNECT is accepted with which the client gives its session up. -/
def Broker.Moment.givesUp (client : String) (m : Broker.Moment) : Bool :=
  match m.operation with
  | .packet p now (.connect c) =>
    c.cleanSession &&
      match p.handle m.broker now (.connect c) with
      | .ok h => h.peer.clientId = some client
      | .error _ => false
  | _ => false

/-! ### What an operation does to a session and its ledger -/

/-- The ways of a session through an operation, with its ledger. -/
inductive Passage (client : String) (m : Broker.Moment) (l : Ledger) : Option Session → Ledger → Prop
  /-- There is none, and if there was one it was clean. -/
  | gone {l' : Ledger} : (∀ s, m.broker.session? client = some s → s.cleanSession = true) →
      Passage client m l none l'
  /-- One without history begins; if there was one the client gave it up. -/
  | begun {token : Nat} {clean : Bool} {maxQueued : Nat} :
      (∀ s, m.broker.session? client = some s → m.givesUp client = true) →
      Passage client m l (some (.new token clean maxQueued)) {}
  /-- It goes on, and the ledger with it. -/
  | continued {s s' : Session} {l' : Ledger} : m.broker.session? client = some s →
      s'.cleanSession = s.cleanSession → l.Extends l' → (l.Accounts s → l'.Accounts s') →
      Passage client m l (some s') l'

/-- What a ledger is about, and whether the session is clean. -/
def Session.holdings (s : Session) : Bool × List Message × Std.ExtTreeMap UInt16 Message :=
  (s.cleanSession, s.queue, s.inflight.publishes)

/-- Handshakes in the other direction are not what a ledger is about. -/
theorem Broker.holdings_setSession {b : Broker} {id : String} {s : Session} {inflight : Inflight}
    (hs : b.session? id = some s) (hpublishes : inflight.publishes = s.inflight.publishes) (client : String) :
    ((b.setSession id { s with inflight }).session? client).map Session.holdings =
      (b.session? client).map Session.holdings := by
  rw [session?_setSession]
  split
  · next h => rw [← h, hs, Option.map_some, Option.map_some, Session.holdings, hpublishes]; rfl
  · rfl

namespace Passage

variable {client : String} {m : Broker.Moment} {l : Ledger}

/-- Messages are handed over, to a session that may have been changed in other respects before. -/
theorem handed {b : Broker} {s' : Option Session} (xs : List Sending)
    (hsame : (b.session? client).map Session.holdings = (m.broker.session? client).map Session.holdings)
    (h : s' = (b.session? client).map fun s => (s.sendAll xs).2) :
    Passage client m l s' (l.handTo b client xs) := by
  rw [h, Ledger.handTo]
  cases ht : b.session? client with
  | none =>
    rw [ht] at hsame
    refine .gone fun s hs => ?_
    rw [hs] at hsame
    cases hsame
  | some t =>
    rw [ht] at hsame
    obtain ⟨s, hs, hholdings⟩ := Option.map_eq_some_iff.1 hsame.symm
    obtain ⟨hclean, hrest⟩ := Prod.mk.inj hholdings
    obtain ⟨hqueue, hpublishes⟩ := Prod.mk.inj hrest
    have hhold : (t.sendAll xs).2.cleanSession = t.cleanSession := congrArg Prod.snd (t.sendAll_hold xs)
    exact .continued hs (hhold.trans hclean.symm) (l.extends_enter _ _ _) fun haccounts =>
      (haccounts.congr hqueue.symm hpublishes.symm).hand xs

/-- Nothing that the ledger is about changes. -/
theorem unchanged {s' : Option Session}
    (hsame : s'.map Session.holdings = (m.broker.session? client).map Session.holdings) :
    Passage client m l s' l := by
  cases s' with
  | none =>
    refine .gone fun s hs => ?_
    rw [hs] at hsame
    cases hsame
  | some t =>
    obtain ⟨s, hs, hholdings⟩ := Option.map_eq_some_iff.1 hsame.symm
    obtain ⟨hclean, hrest⟩ := Prod.mk.inj hholdings
    obtain ⟨hqueue, hpublishes⟩ := Prod.mk.inj hrest
    exact .continued hs hclean.symm (.refl l) fun h => h.congr hqueue.symm hpublishes.symm

theorem same {s' : Option Session} (h : s' = m.broker.session? client) : Passage client m l s' l :=
  unchanged (congrArg _ h)

end Passage

namespace Peer

variable {p : Peer} {b : Broker} {now : Nat} {packet : Packet} {h : Handled}

theorem toRoute?_eq {sender : AcceptedClient} {s : Session} {publish : Publish} {arrival : Inflight.Arrival}
    {inflight : Inflight} (hp : p.client = some sender) (hs : b.session? sender.id = some s)
    (htakes : s.inflight.Takes publish arrival inflight) :
    p.toRoute? b publish =
      if arrival.deliver then some (sender.id, b.setSession sender.id { s with inflight }) else none := by
  simp only [toRoute?, hp, hs, htakes.onPublish]

/-- A session without history begins for the sender of a CONNECT. -/
theorem passage_fresh {c : Connect} {id : String} {n : Nat} (hh : p.handle b now (.connect c) = .ok h)
    (hsender : h.peer.clientId = some id)
    (hfree : ∀ s, b.session? id = some s → s.owner = none ∧ c.cleanSession = true) (client : String) (l : Ledger) :
    Passage client ⟨b, .packet p now (.connect c)⟩ l
      (((({ b with assigned := n } : Broker).deleteSession id).newSession id p.token c.cleanSession).session? client)
      (if some id = some client then l.connect b client c p.token else l) := by
  by_cases hid : id = client
  · subst hid
    have hledger : l.connect b id c p.token = {} := by
      unfold Ledger.connect
      split
      · next s hs => rw [(hfree s hs).2, if_pos rfl]
      · rfl
    rw [if_pos rfl, hledger, Broker.session?_newSession, if_pos rfl]
    refine .begun fun s hs => ?_
    simp [Broker.Moment.givesUp, hh, hsender, (hfree s hs).2]
  · rw [if_neg fun heq => hid (Option.some.inj heq)]
    refine .same ?_
    rw [Broker.session?_newSession, if_neg hid, Broker.session?_deleteSession, if_neg hid]
    rfl

/-- The sender of a CONNECT takes up its session again, and is sent what waits in it. -/
theorem passage_resumed {c : Connect} {s : Session} (hs : b.session? c.clientId = some s)
    (hclean : c.cleanSession = false) (client : String) (l : Ledger) :
    Passage client ⟨b, .packet p now (.connect c)⟩ l
      (((b.setSession c.clientId (s.renew p.token)).restartSession c.clientId).2.session? client)
      (if some c.clientId = some client then l.connect b client c p.token else l) := by
  have hrenewed : (b.setSession c.clientId (s.renew p.token)).session? c.clientId = some (s.renew p.token) := by
    simp
  rw [Broker.restartSession_eq hrenewed rfl]
  by_cases hid : c.clientId = client
  · subst hid
    have hledger : l.connect b c.clientId c p.token =
        l.resume (s.renew p.token) (b.replayedAll (b.subscriptions.subscriptions c.clientId)) := by
      simp [Ledger.connect, hs, hclean]
    rw [if_pos rfl, hledger, Broker.session?_setSession, if_pos rfl]
    refine .continued hs ?_ (l.extends_enter _ _ _) fun haccounts => ?_
    · exact congrArg Prod.snd ((s.renew p.token).dropQueue.sendAll_hold _)
    · have hrenewed : l.Accounts (s.renew p.token) := haccounts.congr rfl rfl
      exact hrenewed.resume _
  · rw [if_neg fun heq => hid (Option.some.inj heq)]
    refine .same ?_
    rw [Broker.session?_setSession, if_neg hid, Broker.session?_setSession, if_neg hid]

/-- An identifier is acknowledged, by the client itself or by another one. -/
theorem passage_acknowledge {m : Broker.Moment} {sender : String} {s : Session} {id : UInt16} {inflight : Inflight}
    (hs : m.broker.session? sender = some s) (hpublishes : inflight.publishes = s.inflight.publishes.erase id)
    (client : String) (l : Ledger) :
    Passage client m l ((m.broker.setSession sender { s with inflight }).session? client)
      (if some sender = some client then l.acknowledge m.broker client id else l) := by
  rw [Broker.session?_setSession]
  by_cases hclient : sender = client
  · subst hclient
    have hledger : l.acknowledge m.broker sender id = l.settle s id := by rw [Ledger.acknowledge, hs]
    rw [if_pos rfl, if_pos rfl, hledger]
    exact .continued hs rfl (l.extends_settle s id) fun h => h.settle rfl hpublishes
  · rw [if_neg hclient, if_neg fun heq => hclient (Option.some.inj heq)]
    exact .same rfl

/-- An accepted packet leaves the ledger of every client in agreement with its session. -/
theorem Accepts.passage (ha : Accepts p b now packet h) (hh : p.handle b now packet = .ok h) (client : String)
    (l : Ledger) : Passage client ⟨b, .packet p now packet⟩ l (h.broker.session? client)
      (l.recordPacket client b p h.peer.clientId packet) := by
  cases ha with
  | fresh _ _ _ hfree => exact passage_fresh hh rfl hfree client l
  | resumed _ hclean _ hs _ => exact passage_resumed hs hclean client l
  | @routed sender s publish reply inflight hp hs htakes =>
    dsimp only [Ledger.recordPacket]
    rw [toRoute?_eq hp hs htakes]
    exact .handed _ (Broker.holdings_setSession hs htakes.publishes client)
      (Broker.session?_publish _ (some sender.id) publish.message client)
  | @repeated sender s publish reply inflight hp hs htakes =>
    dsimp only [Ledger.recordPacket]
    rw [toRoute?_eq hp hs htakes]
    exact .unchanged (Broker.holdings_setSession hs htakes.publishes client)
  | @acknowledged sender s packet reply inflight hp hs hacks =>
    dsimp only
    rw [clientId_of_client hp]
    cases hacks with
    | puback | pubrec | pubcomp => exact passage_acknowledge hs rfl client l
    | @pubrel id =>
      have hpublishes : ({ s.inflight with received := s.inflight.received.erase id } : Inflight).publishes =
          s.inflight.publishes := rfl
      exact .unchanged (Broker.holdings_setSession hs hpublishes client)
  | @subscribed sender id topics hp hid =>
    dsimp only [Ledger.recordPacket]
    rw [clientId_of_client hp, Broker.session?_subscribeAll]
    by_cases hclient : sender.id = client
    · rw [if_pos hclient, if_pos (congrArg some hclient)]
      exact .handed _ rfl rfl
    · rw [if_neg hclient, if_neg fun heq => hclient (Option.some.inj heq)]
      exact .same rfl
  | @unsubscribed sender id filters => exact .same (Broker.session?_unsubscribe_foldl b sender.id filters client)
  | pinged | left => exact .same rfl

end Peer

theorem Broker.passage_release (b : Broker) (id : String) (token : Nat) {client : String} {l : Ledger} :
    Passage client ⟨b, .release id token⟩ l ((b.releaseSession id token).session? client) l := by
  unfold releaseSession
  cases hs : b.session? id with
  | none => exact .same rfl
  | some s =>
    dsimp only
    by_cases howned : s.isOwnedBy token = true
    · rw [if_pos howned]
      cases hclean : s.cleanSession with
      | true =>
        rw [if_pos rfl, session?_deleteSession]
        by_cases hid : id = client
        · rw [if_pos hid]
          refine .gone fun s' hs' => ?_
          rw [← hid, hs] at hs'
          cases hs'
          exact hclean
        · rw [if_neg hid]
          exact .same rfl
      | false =>
        rw [if_neg Bool.false_ne_true, retainSession, session?_modifySession]
        split
        · refine .unchanged ?_
          rw [Option.map_map]
          rfl
        · exact .same rfl
    · rw [if_neg howned]
      exact .same rfl

/-- The next run has every session that was not clean, and no other. -/
theorem Broker.passage_restart {options options' : BrokerOptions} {b : Broker} (hb : Edits (.new options) b)
    {client : String} {l : Ledger} :
    Passage client ⟨b, .restart options'⟩ l ((b.restart options').session? client) l := by
  rw [restart, reread_eq hb, session?_restore_store]
  cases hs : b.session? client with
  | none => exact .same hs.symm
  | some s =>
    cases hclean : s.cleanSession with
    | true =>
      rw [Option.filter_some, if_neg (by simp [hclean])]
      refine .gone fun s' hs' => ?_
      rw [hs] at hs'
      cases hs'
      exact hclean
    | false =>
      rw [Option.filter_some, if_pos (by simp [hclean])]
      refine .unchanged ?_
      rw [hs, Option.map_some, Option.map_some, Option.map_some, Session.holdings, Session.holdings, hclean]
      rfl

/-- **An operation leaves the ledger of every client in agreement with its session.** -/
theorem Broker.Moment.passage {options : BrokerOptions} {m : Moment} (hb : Edits (.new options) m.broker)
    (client : String) (l : Ledger) :
    Passage client m l ((m.broker.operate m.operation).session? client) (l.record client m) := by
  obtain ⟨b, op⟩ := m
  cases op with
  | packet p now packet =>
    dsimp only [operate, Ledger.record]
    rcases hh : p.handle b now packet with r | h
    · exact .same (congrArg (·.session? client) (Peer.handled_of_refused hh).1)
    · exact (Peer.handle_ok hh).2.passage hh client l
  | release id token => exact b.passage_release id token
  | publish origin message => exact .handed _ rfl (session?_publish b origin message client)
  | restart options' => exact passage_restart hb

/-! ### Courses of events -/

/-- The ledger of a client after a course of events. -/
def Hub.ledger (h : Hub) (client : String) (events : List Event) : Ledger :=
  (h.moments events).foldl (Ledger.record client) {}

namespace Passage

variable {client : String} {m : Broker.Moment} {l l' : Ledger} {s' : Option Session}

/-- A ledger that accounts for a session goes on to do so. -/
theorem accounts (h : Passage client m l s' l') (hl : ∀ s, m.broker.session? client = some s → l.Accounts s) :
    ∀ t, s' = some t → l'.Accounts t := by
  intro t ht
  cases h with
  | gone => cases ht
  | @begun token clean maxQueued =>
    cases ht
    exact Ledger.accounts_new token clean maxQueued
  | continued hs _ _ haccounts =>
    cases ht
    exact haccounts (hl _ hs)

/-- A session that is kept and not given up goes on. -/
theorem goesOn (h : Passage client m l s' l') {s : Session} (hs : m.broker.session? client = some s)
    (hkept : s.cleanSession = false) (hm : m.givesUp client = false) :
    ∃ t, s' = some t ∧ t.cleanSession = false ∧ l.Extends l' := by
  cases h with
  | gone hgone =>
    rw [hgone s hs] at hkept
    cases hkept
  | begun hgiven =>
    rw [hgiven s hs] at hm
    cases hm
  | @continued s₁ t _ hs₁ hclean hextends _ =>
    obtain rfl : s = s₁ := Option.some.inj (hs.symm.trans hs₁)
    exact ⟨t, rfl, hclean.trans hkept, hextends⟩

end Passage

namespace Hub

variable (options : BrokerOptions) (client : String)

/-- Every course of events edits the trees, and leaves the ledger in agreement with the session. -/
theorem course_accounted (events : List Event) :
    let h := start (.new options)
    Broker.Edits (.new options) (h.course events).broker ∧
      ∀ s, (h.course events).broker.session? client = some s → (h.ledger client events).Accounts s := by
  intro h
  let P (b : Broker) (l : Ledger) : Prop :=
    Broker.Edits (.new options) b ∧ ∀ s, b.session? client = some s → l.Accounts s
  have hstart : P h.broker {} :=
    ⟨Broker.edits_of_eq rfl rfl, fun s hs => by
      rw [Broker.session?, show h.broker.sessions = ∅ from rfl, Std.ExtTreeMap.getElem?_empty] at hs
      cases hs⟩
  exact course_induction (P := P) hstart fun m _ l hm =>
    ⟨Broker.operate_edits hm.1 m.operation, (m.passage hm.1 client l).accounts hm.2⟩

/-- A session that is kept goes on through every course of events in which the client does not give it up,
and its ledger with it. -/
theorem course_goesOn {h : Hub} (hb : Broker.Edits (.new options) h.broker) {l : Ledger} {s : Session}
    (hs : h.broker.session? client = some s) (hkept : s.cleanSession = false) {events : List Event}
    (hevents : ∀ m ∈ h.moments events, m.givesUp client = false) :
    ∃ t, (h.course events).broker.session? client = some t ∧ t.cleanSession = false ∧
      l.Extends ((h.moments events).foldl (Ledger.record client) l) := by
  let P (b : Broker) (l' : Ledger) : Prop :=
    Broker.Edits (.new options) b ∧ ∃ t, b.session? client = some t ∧ t.cleanSession = false ∧ l.Extends l'
  have hstart : P h.broker l := ⟨hb, s, hs, hkept, .refl l⟩
  refine (course_induction (P := P) hstart fun m hm l' hl' => ⟨Broker.operate_edits hl'.1 m.operation, ?_⟩).2
  obtain ⟨hb, t, ht, hclean, hextends⟩ := hl'
  obtain ⟨t', ht', hclean', hextends'⟩ := (m.passage hb client l').goesOn ht hclean (hevents m hm)
  exact ⟨t', ht', hclean', hextends.trans hextends'⟩

/-- **No acknowledged message is lost.** Take any course of events after which a client has a session that
is kept, and any further events in which the client does not give it up. The session is still there and
still kept; everything that stood in its ledger stands there still; and the ledger accounts for the session:
what was ever handed to it waits, is kept under the identifier it was sent with, was acknowledged by the client
under that identifier, or was dropped from the queue by a rule for queues, and nothing is counted twice. -/
theorem course_accounts (before after : List Event) {s : Session}
    (hs : ((start (.new options)).course before).broker.session? client = some s)
    (hkept : s.cleanSession = false)
    (hafter : ∀ m ∈ ((start (.new options)).course before).moments after, m.givesUp client = false) :
    ∃ t, ((start (.new options)).course (before ++ after)).broker.session? client = some t ∧
      t.cleanSession = false ∧
      ((start (.new options)).ledger client before).Extends
        ((start (.new options)).ledger client (before ++ after)) ∧
      ((start (.new options)).ledger client (before ++ after)).Accounts t := by
  have hedits := (course_accounted options client before).1
  have haccounts := (course_accounted options client (before ++ after)).2
  obtain ⟨t, ht, hclean, hextends⟩ := course_goesOn options client hedits
    (l := (start (.new options)).ledger client before) hs hkept hafter
  have hcourse : ((start (.new options)).course (before ++ after)).broker.session? client = some t := by
    rw [course_append]
    exact ht
  refine ⟨t, hcourse, hclean, ?_, haccounts t hcourse⟩
  rw [ledger, ledger, moments_append, List.foldl_append]
  exact hextends

/-- A client is away when a message for it comes. -/
def missed : List Event := Broker.awaited.map .act

/-- The broker is restarted; then the client comes back, is sent what waited, and acknowledges it. -/
def comeback : List Event :=
  [.restart {}, .act (.accept 1 {} 0),
    .act (.receive 1 0 [0x10, 13, 0, 4, 77, 81, 84, 84, 4, 0, 0, 0, 0, 1, 99]),
    .act (.receive 1 0 [0x40, 2, 0, 1])]

/-- The message is handed over before the restart and accounted for after it. -/
theorem course_accounts_comeback :
    ∃ t, ((start (.new {})).course (missed ++ comeback)).broker.session? "c" = some t ∧
      ((start (.new {})).ledger "c" missed).handed = [⟨"a", "x".toUTF8, .atLeastOnce, false⟩] ∧
      ((start (.new {})).ledger "c" (missed ++ comeback)).acknowledged =
        [(1, ⟨"a", "x".toUTF8, .atLeastOnce, false⟩)] ∧
      ((start (.new {})).ledger "c" (missed ++ comeback)).Accounts t := by
  have hthere : (((start (.new {})).course missed).broker.session? "c").map (·.cleanSession) = some false := by
    decide +kernel
  obtain ⟨s, hs, hkept⟩ := Option.map_eq_some_iff.1 hthere
  have hafter : ∀ m ∈ ((start (.new {})).course missed).moments comeback, m.givesUp "c" = false := by
    decide +kernel
  obtain ⟨t, ht, -, -, haccounts⟩ := course_accounts {} "c" missed comeback hs hkept hafter
  exact ⟨t, ht, by decide +kernel, by decide +kernel, haccounts⟩

end Hub

end Mqtt
