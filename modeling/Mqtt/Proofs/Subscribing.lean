import Mqtt.Proofs.Accounting
import Mqtt.Proofs.Admission
import Mqtt.Proofs.Isolation

/-!
# What a SUBSCRIBE does: `Connection::handle_subscribe`

A SUBSCRIBE has many topics, and one decision is made for each of them (`Broker.grant?`): the code of the answer, the
subscription and the retained messages that are replayed all follow it. `Broker.subscribeAllWalking_eq` puts the loop
over the topics (`Connection::handle_subscribe`, `Broker::subscribe`) into one equation, in whatever order the retained
messages of a filter are met (`Broker.Walk`), and `Connection.handleBytes_subscribe` says what the client is told, what
it has subscribed to afterwards, and what is left alone.
-/

namespace Mqtt

/-! ### What waits -/

namespace Session

variable {s s' : Session}

/-- What comes to a queue depends on nothing but the queue and its bound. -/
theorem queue_foldl_enqueue (hqueue : s.queue = s'.queue) (hmax : s.maxQueued = s'.maxQueued) (ms : List Message) :
    (ms.foldl enqueue s).queue = (ms.foldl enqueue s').queue := by
  induction ms generalizing s s' with
  | nil => exact hqueue
  | cons m ms ih =>
    apply ih
    · simp [enqueue, hqueue, hmax]
    · exact hmax

/-- Of messages that are sent to the owner of a session those come to the queue that find no identifier. -/
theorem queue_sendAll {token : Nat} (howner : s.owner = some token) (xs : List Sending) :
    (s.sendAll xs).2.queue =
      (((due (xs.map Sending.outgoing)).drop s.freeIds.card).foldl enqueue s).queue := by
  induction xs generalizing s with
  | nil => simp [sendAll, due]
  | cons x xs ih =>
    have hfirst := sendAll_first howner x xs
    rw [List.map_cons, due_cons]
    generalize s.sendAll (x :: xs) = r at hfirst ⊢
    cases hfirst with
    | @exhausted packetIds hq hall =>
      -- No identifier comes free on the way, so all that come after this one and need one wait too.
      have hnone : ({ s with packetIds }.enqueue x.outgoing).freeIds.card = 0 := card_freeIds_of_exhausted hall
      have hrest := ih (s := { s with packetIds }.enqueue x.outgoing) howner
      rw [hnone, List.drop_zero] at hrest
      rw [if_pos hq, card_freeIds_of_exhausted hall, List.drop_zero, List.foldl_cons]
      exact hrest.trans (queue_foldl_enqueue (by rfl) (by rfl) _)
    | @tracked id packetIds after hafter hq hid hfree =>
      subst hafter
      have hcard : ({ s with packetIds, inflight := s.inflight.track id x.outgoing } : Session).freeIds.card + 1 =
          s.freeIds.card := card_freeIds_track rfl hid hfree
      have hrest := ih (s := { s with packetIds, inflight := s.inflight.track id x.outgoing }) howner
      rw [if_pos hq, ← hcard, List.drop_succ_cons]
      exact hrest.trans (queue_foldl_enqueue (by rfl) (by rfl) _)
    | passed hq =>
      rw [if_neg (by rw [hq]; exact Bool.false_ne_true)]
      exact ih howner

end Session

/-! ### What is granted -/

theorem SubscriptionTree.granted?_subscribe (t : SubscriptionTree) (filter filter' client client' : String) (q : QoS) :
    (t.subscribe filter client q).2.granted? filter' client' =
      if filter = filter' ∧ client = client' then some q else t.granted? filter' client' := by
  rw [granted?, get_subscribe]
  by_cases hfilter : filter = filter'
  · subst hfilter
    rw [if_pos rfl, getElem?_insert]
    simp [granted?]
  · have hlevels : Topic.levels filter' ≠ Topic.levels filter := by
      intro heq
      exact hfilter (Topic.levels_injective heq).symm
    rw [if_neg hlevels, if_neg fun hboth => hfilter hboth.1]
    rfl

namespace Broker

/-- What is granted for a topic; nothing if the filter is not valid or too long. -/
def grant? (b : Broker) (t : TopicRequest) : Option QoS :=
  if t.filter.utf8ByteSize > b.options.maxTopicLength || !Topic.isValidFilter t.filter then none
  else some (min t.qos b.options.maxQoS)

/-- The code that answers a topic. -/
def subackCode (b : Broker) (t : TopicRequest) : UInt8 := (b.grant? t).elim subackFailure QoS.toByte

/-- What some topics are granted for a filter: of several the last one counts. -/
def lastGrant? (b : Broker) (topics : List TopicRequest) (filter : String) : Option QoS :=
  (topics.filter (·.filter = filter)).reverse.findSome? b.grant?

/-- The retained messages that a topic makes due, as they are to go out, in the order of a walk. -/
def retainedFor (b : Broker) (walk : Walk) (t : TopicRequest) : List Message :=
  (b.grant? t).elim [] fun q => (walk t.filter).map fun m => { m with qos := min m.qos q, retain := true }

/-- The subscriptions once a topic is answered. -/
def enrol (b : Broker) (client : String) (tree : SubscriptionTree) (t : TopicRequest) : SubscriptionTree :=
  (b.grant? t).elim tree fun q => (tree.subscribe t.filter client q).2

variable {b : Broker} {client : String} {s : Session}

theorem grant?_eq_none_iff {t : TopicRequest} :
    b.grant? t = none ↔ Topic.isValidFilter t.filter = false ∨ b.options.maxTopicLength < t.filter.utf8ByteSize := by
  rw [grant?]
  split
  · next hrefused =>
    simp only [Bool.or_eq_true, decide_eq_true_eq, Bool.not_eq_true'] at hrefused
    simpa using hrefused.symm
  · next hgranted =>
    simp only [Bool.or_eq_true, decide_eq_true_eq, Bool.not_eq_true', not_or] at hgranted
    simpa using hgranted.symm

/-- One decision is made for a topic, and its code tells which. -/
structure Decides (b : Broker) (t : TopicRequest) : Prop where
  refused : b.subackCode t = 0x80 ↔
    Topic.isValidFilter t.filter = false ∨ b.options.maxTopicLength < t.filter.utf8ByteSize
  /-- A filter that is refused is granted nothing, -/
  nothing : b.subackCode t = 0x80 → b.grant? t = none
  /-- and any other one what the code says. -/
  granted : b.subackCode t ≠ 0x80 → b.grant? t = some (min t.qos b.options.maxQoS) ∧
    b.subackCode t = (min t.qos b.options.maxQoS).toByte

theorem grant?_eq_some {t : TopicRequest} {q : QoS} (h : b.grant? t = some q) : q = min t.qos b.options.maxQoS := by
  rw [grant?] at h
  split at h
  · cases h
  · exact (Option.some.inj h).symm

theorem decides (b : Broker) (t : TopicRequest) : b.Decides t := by
  rcases hgrant : b.grant? t with _ | q
  · have hcode : b.subackCode t = 0x80 := by rw [subackCode, hgrant]; rfl
    exact ⟨iff_of_true hcode (grant?_eq_none_iff.1 hgrant), fun _ => hgrant, fun hne => absurd hcode hne⟩
  · have hcode : b.subackCode t = q.toByte := by rw [subackCode, hgrant]; rfl
    have hne : b.subackCode t ≠ 0x80 := by
      rw [hcode]
      cases q <;> decide
    have hsome : ¬ b.grant? t = none := by simp [hgrant]
    rw [grant?_eq_none_iff] at hsome
    refine ⟨iff_of_false hne hsome, fun h => absurd h hne, fun _ => ?_⟩
    rw [← grant?_eq_some hgrant]
    exact ⟨hgrant, hcode⟩

/-- What subscribing to a filter hands to the client, in the order of a walk. -/
def subscribedFor (b : Broker) (walk : Walk) (t : TopicRequest) : List Sending :=
  (b.grant? t).elim [] fun q => (walk t.filter).map fun m => ⟨m, q, true⟩

theorem outgoing_subscribedFor (b : Broker) (walk : Walk) (topics : List TopicRequest) :
    (topics.flatMap (b.subscribedFor walk)).map Sending.outgoing = topics.flatMap (b.retainedFor walk) := by
  rw [List.map_flatMap]
  refine congrArg (List.flatMap · topics) (funext fun t => ?_)
  unfold subscribedFor retainedFor
  cases b.grant? t with
  | none => rfl
  | some q =>
    rw [Option.elim_some, Option.elim_some, List.map_map]
    rfl

/-- Another walk makes the same messages due. -/
theorem Walks.retainedFor_perm {walk : Walk} (h : b.Walks walk) (topics : List TopicRequest) :
    (topics.flatMap (b.retainedFor walk)).Perm (topics.flatMap (b.retainedFor b.retained.matching)) := by
  refine List.Perm.flatMap_left _ fun t _ => ?_
  unfold retainedFor
  cases b.grant? t with
  | none => exact .refl _
  | some q => exact (h t.filter).map _

/-- The last topic for a filter decides, and a topic leaves all other filters and clients alone. -/
theorem granted?_foldl_enrol (b : Broker) (client : String) (topics : List TopicRequest) (tree : SubscriptionTree)
    (filter other : String) :
    (topics.foldl (b.enrol client) tree).granted? filter other =
      if client = other then (b.lastGrant? topics filter).or (tree.granted? filter other)
      else tree.granted? filter other := by
  induction topics generalizing tree with
  | nil => simp [lastGrant?]
  | cons t ts ih =>
    have hfirst : (b.enrol client tree t).granted? filter other =
        if client = other ∧ t.filter = filter then (b.grant? t).or (tree.granted? filter other)
        else tree.granted? filter other := by
      unfold enrol
      cases b.grant? t with
      | none => simp
      | some q => simp [SubscriptionTree.granted?_subscribe, and_comm]
    rw [List.foldl_cons, ih, hfirst]
    by_cases hother : client = other
    · by_cases hfilter : t.filter = filter
      · simp [lastGrant?, hother, hfilter, List.findSome?_append, Option.or_assoc]
      · simp [lastGrant?, hother, hfilter]
    · simp [hother]

/-! ### The loop over the topics -/

/-- Subscribe a client to a filter, and replay the retained messages in the order of a walk. -/
def subscribeWalking (walk : Walk) (b : Broker) (client filter : String) (q : QoS) :
    UInt8 × List Delivery × Broker :=
  if filter.utf8ByteSize > b.options.maxTopicLength || !Topic.isValidFilter filter then (subackFailure, [], b)
  else
    let granted := min q b.options.maxQoS
    let b := { b with subscriptions := (b.subscriptions.subscribe filter client granted).2 }
    (granted.toByte, b.each (fun b m => b.sendTo client m granted true) (walk filter))

/-- Subscribe to one filter after the other, in the order of a walk. -/
def subscribeAllWalking (walk : Walk) (b : Broker) (client : String) :
    List TopicRequest → List UInt8 × List Delivery × Broker
  | [] => ([], [], b)
  | t :: ts =>
    let (code, ds, b) := b.subscribeWalking walk client t.filter t.qos
    let (codes, more, b) := b.subscribeAllWalking walk client ts
    (code :: codes, ds ++ more, b)

theorem retained_subscribe (b : Broker) (client filter : String) (q : QoS) :
    (b.subscribe client filter q).2.2.retained = b.retained := by
  unfold subscribe
  split
  · rfl
  · exact (replayRetained_sends (M := fun _ => True) (RetainTree.only_of_forall fun _ => trivial) client filter
      (min q b.options.maxQoS)).retained

/-- The broker itself walks in one of the orders. -/
theorem subscribeAll_eq_walking (client : String) (topics : List TopicRequest) (b : Broker) :
    Peer.subscribeAll b client topics = b.subscribeAllWalking b.retained.matching client topics := by
  induction topics generalizing b with
  | nil => rfl
  | cons t ts ih =>
    have hone : b.subscribeWalking b.retained.matching client t.filter t.qos = b.subscribe client t.filter t.qos := rfl
    rw [Peer.subscribeAll, subscribeAllWalking, hone]
    dsimp only
    rw [ih, retained_subscribe]

variable (walk : Walk)

/-- One topic: the session of the client is sent what is due, and nothing else changes but the subscription. -/
theorem subscribeWalking_eq (hs : b.session? client = some s) (t : TopicRequest) :
    b.subscribeWalking walk client t.filter t.qos =
      (b.subackCode t, (s.sendAll (b.subscribedFor walk t)).1,
        { b.setSession client (s.sendAll (b.subscribedFor walk t)).2 with
          subscriptions := b.enrol client b.subscriptions t }) := by
  unfold subscribeWalking subackCode subscribedFor enrol grant?
  split
  · have hsame := setSession_session? hs
    simp only [Session.sendAll, Option.elim_none, hsame]
  · have hs' : ({ b with subscriptions := (b.subscriptions.subscribe t.filter client (min t.qos b.options.maxQoS)).2 } :
        Broker).session? client = some s := hs
    have hsent := each_sendTo hs' (fun m => ⟨m, min t.qos b.options.maxQoS, true⟩) (walk t.filter)
    dsimp only at hsent ⊢
    rw [hsent]
    rfl

/-- **All topics.** The answer has a code for each, and the client's session is sent what is due, topic by topic. -/
theorem subscribeAllWalking_eq (hs : b.session? client = some s) (topics : List TopicRequest) :
    b.subscribeAllWalking walk client topics =
      (topics.map b.subackCode, (s.sendAll (topics.flatMap (b.subscribedFor walk))).1,
        { b.setSession client (s.sendAll (topics.flatMap (b.subscribedFor walk))).2 with
          subscriptions := topics.foldl (b.enrol client) b.subscriptions }) := by
  induction topics generalizing b s with
  | nil =>
    have hsame := setSession_session? hs
    simp [subscribeAllWalking, Session.sendAll, hsame]
  | cons t ts ih =>
    rw [subscribeAllWalking, subscribeWalking_eq walk hs]
    dsimp only
    have hafter : ({ b.setSession client (s.sendAll (b.subscribedFor walk t)).2 with
        subscriptions := b.enrol client b.subscriptions t } : Broker).session? client =
        some (s.sendAll (b.subscribedFor walk t)).2 := by
      have hset := session?_setSession b client client (s.sendAll (b.subscribedFor walk t)).2
      rw [if_pos rfl] at hset
      exact hset
    -- The first topic changes no options, so it decides nothing for the others.
    rw [ih hafter, List.map_cons, List.flatMap_cons, Session.sendAll_append, List.foldl_cons]
    have htwice := setSession_setSession b client (s.sendAll (b.subscribedFor walk t)).2
      ((s.sendAll (b.subscribedFor walk t)).2.sendAll (ts.flatMap (b.subscribedFor walk))).2
    refine Prod.ext rfl (Prod.ext rfl ?_)
    exact congrArg (fun r : Broker =>
      { r with subscriptions := ts.foldl (b.enrol client) (b.enrol client b.subscriptions t) }) htwice

/-! ### What a broker in use holds -/

/-- The broker came about by a course of events, restarts among them. -/
def Reachable (b : Broker) : Prop :=
  ∃ options events, b = ((Hub.start (.new options)).course events).broker

theorem Reachable.edits (hb : b.Reachable) : ∃ options, Edits (.new options) b := by
  obtain ⟨options, events, rfl⟩ := hb
  -- For which client the ledger is kept makes no difference to the trees.
  exact ⟨options, (Hub.course_accounted options "" events).1⟩

theorem Edits.orderly_of_new {options : BrokerOptions} (hb : Edits (.new options) b) : b.Orderly :=
  hb.orderly trivial

/-- The listing of a client has what it was granted. -/
theorem Edits.mem_subscriptions {options : BrokerOptions} (hb : Edits (.new options) b) {filter : String} {q : QoS} :
    (filter, q) ∈ b.subscriptions.subscriptions client ↔ b.subscriptions.granted? filter client = some q := by
  obtain ⟨lines, -, hlines, -⟩ := hb.files
  rw [hlines.mem_subscriptions, hlines.lookup]

/-- A filter finds each message once that is retained and matches it. -/
theorem Edits.mem_matching {options : BrokerOptions} (hb : Edits (.new options) b) (filter : String) :
    (b.retained.matching filter).Nodup ∧
      ∀ m, m ∈ b.retained.matching filter ↔ m ∈ b.retained.messages ∧ Topic.isMatch m.topic filter = true := by
  obtain ⟨-, held, -, hheld⟩ := hb.files
  exact ⟨hheld.nodup_matching filter, fun m => hheld.mem_matching_iff⟩

/-! ### The whole packet -/

/-- What the topics of a SUBSCRIBE do to a broker that replays the retained messages in the order of a walk. -/
structure Subscribes (b : Broker) (walk : Walk) (client : String) (s : Session) (topics : List TopicRequest)
    (sent : List (UInt16 × Message)) (s' : Session) (after : Broker) : Prop where
  /-- What is granted for a filter takes the place of what was granted before, -/
  granted : ∀ filter, after.subscriptions.granted? filter client =
    (b.lastGrant? topics filter).or (b.subscriptions.granted? filter client)
  /-- and the listing of the client says the same; -/
  listed : ∀ filter q, (filter, q) ∈ after.subscriptions.subscriptions client ↔
    b.lastGrant? topics filter = some q ∨
      b.lastGrant? topics filter = none ∧ (filter, q) ∈ b.subscriptions.subscriptions client
  /-- nobody else's subscriptions or session change, -/
  others : ∀ other, client ≠ other →
    b.subscriptions.Alike other after.subscriptions ∧ after.session? other = b.session? other
  /-- nor does what is retained. -/
  retained : after.retained = b.retained
  options : after.options = b.options
  session : after.session? client = some s'
  /-- Topic by topic the retained messages go out, as far as there are identifiers for them, -/
  goes : sent.map (·.2) = going s.freeIds.card (topics.flatMap (b.retainedFor walk))
  /-- the others wait, -/
  waits : s'.queue = (((due (topics.flatMap (b.retainedFor walk))).drop s.freeIds.card).foldl Session.enqueue s).queue
  /-- and what went out is kept. -/
  keeps : s.Keeps sent s'

theorem subscribeAllWalking_subscribes {options : BrokerOptions} {token : Nat} (hb : Edits (.new options) b)
    (hs : b.session? client = some s) (howner : s.owner = some token) (topics : List TopicRequest) :
    ∃ sent s' after, b.subscribeAllWalking walk client topics =
        (topics.map b.subackCode, sent.map (Delivery.carrying token), after) ∧
      b.Subscribes walk client s topics sent s' after := by
  obtain ⟨sent, hsent, hserved⟩ := Session.sendAll_served howner (topics.flatMap (b.subscribedFor walk))
  have hwaits := Session.queue_sendAll howner (topics.flatMap (b.subscribedFor walk))
  rw [outgoing_subscribedFor] at hserved hwaits
  -- The subscriptions are those that the broker itself makes, whatever the walk.
  have hown := subscribeAllWalking_eq b.retained.matching hs topics
  rw [← subscribeAll_eq_walking] at hown
  have hedits := subscribeAll_edits client topics b
  have hapart := apart_subscribeAll hb.orderly_of_new client topics
  rw [hown] at hedits hapart
  have hgranted := granted?_foldl_enrol b client topics b.subscriptions
  refine ⟨sent, (s.sendAll (topics.flatMap (b.subscribedFor walk))).2, _,
    (subscribeAllWalking_eq walk hs topics).trans (Prod.ext rfl (Prod.ext hsent rfl)), ?_⟩
  refine ⟨fun filter => ?_, fun filter q => ?_, fun other hother => ⟨?_, ?_⟩, rfl, rfl, ?_, hserved.goes, hwaits,
    hserved.keeps⟩
  · exact (hgranted filter client).trans (if_pos rfl)
  · have hlisted : (filter, q) ∈ (topics.foldl (b.enrol client) b.subscriptions).subscriptions client ↔
        (topics.foldl (b.enrol client) b.subscriptions).granted? filter client = some q :=
      (hb.trans hedits).mem_subscriptions
    dsimp only
    rw [hlisted, hb.mem_subscriptions, hgranted, if_pos rfl, Option.or_eq_some_iff]
  · exact hapart.alike other fun h => hother (Option.some.inj h)
  · exact (session?_setSession b client other _).trans (if_neg hother)
  · exact (session?_setSession b client client _).trans (if_pos rfl)

end Broker

open Broker

variable {b : Broker} {client : AcceptedClient} {s : Session} {id : UInt16}

/-- The packet itself: it is answered first. -/
theorem Peer.handle_subscribe {options : BrokerOptions} {p : Peer} (hb : Edits (.new options) b)
    (hp : p.state = .connected) (hclient : p.client = some client) (hs : b.session? client.id = some s)
    (howner : s.owner = some p.token) (hid : id ≠ 0) (topics : List TopicRequest) (now : Nat) :
    ∃ sent s' after, p.handle b now (.subscribe id topics) =
        .ok ⟨p, after, p.reply (.suback id (topics.map b.subackCode)) :: sent.map (Delivery.carrying p.token), []⟩ ∧
      b.Subscribes b.retained.matching client.id s topics sent s' after := by
  have hrun : (handlePacket now (.subscribe id topics)).run (.start p b) =
      (handleSubscribe client.id id topics).run (.start p b) := by
    have hstart : (Handled.start p b).peer.isClosed = false := (state_eq_connected_iff.1 hp).1
    have hname : (Handled.start p b).peer.clientId = some client.id := clientId_of_client hclient
    rw [run_handlePacket, if_neg (by simp [hstart]), hname]
    rfl
  obtain ⟨sent, s', after, hall, hsubscribes⟩ :=
    subscribeAllWalking_subscribes b.retained.matching hb hs howner topics
  rw [← subscribeAll_eq_walking] at hall
  refine ⟨sent, s', after, ?_, hsubscribes⟩
  rw [handle, outcome_eq_ok, hrun, run_handleSubscribe, if_neg hid]
  exact congrArg (fun r : List UInt8 × List Delivery × Broker =>
    EStateM.Result.ok () (⟨p, r.2.2, [p.reply (.suback id r.1)] ++ r.2.1, []⟩ : Handled)) hall

namespace Connection

variable {c : Connection}

/-- **What a SUBSCRIBE does.** A client sends a SUBSCRIBE with any topics on the connection that owns its session, to a
broker that came about in any way. There is one code for each topic, a failure if and only if the filter is not valid or
too long, and the quality of service that is granted otherwise. Afterwards the client has subscribed to what it had
subscribed to before, but for the filters that were granted, where the last topic counts; nobody else's subscriptions or
session change, nor does what is retained. The client is written the answer first and then, topic by topic, each
retained message once that matches a filter that was granted, at no more than the quality of service granted; a message
that is to be acknowledged waits if no identifier is free for it. All this holds in whatever order the retained messages
of a filter are met, and the same messages are due. -/
theorem handleBytes_subscribe (hb : b.Reachable) (hc : c.peer.state = .connected)
    (hclient : c.peer.client = some client) (hs : b.session? client.id = some s)
    (howner : s.owner = some c.peer.token) (hid : id ≠ 0) (topics : List TopicRequest) (now : Nat) :
    (∃ sent s' after,
      (c.attentive now).handle b now (.subscribe id topics) = .ok ⟨c.attentive now, after,
        c.peer.reply (.suback id (topics.map b.subackCode)) :: sent.map (Delivery.carrying c.peer.token), []⟩ ∧
      b.Subscribes b.retained.matching client.id s topics sent s' after ∧
      ∀ bs d, c.decoder.next bs = (d, .ok (some (.subscribe id topics)), []) →
        ∃ p : Peer, c.handleBytes b now bs = ⟨⟨p, d⟩, after, #[], none⟩ ∧ p.state = .connected ∧
          p.client = c.peer.client ∧
          p.outbound.data.toList = c.peer.outbound.data.toList ++
            ((Packet.suback id (topics.map b.subackCode)).encode ++
              sent.flatMap fun e => (Packet.publish (e.2.toPublish e.1 false)).encode)) ∧
    (∀ walk, b.Walks walk →
      (topics.flatMap (b.retainedFor walk)).Perm (topics.flatMap (b.retainedFor b.retained.matching)) ∧
      ∃ sent s' after, b.subscribeAllWalking walk client.id topics =
          (topics.map b.subackCode, sent.map (Delivery.carrying c.peer.token), after) ∧
        b.Subscribes walk client.id s topics sent s' after) ∧
    Peer.subscribeAll b client.id topics = b.subscribeAllWalking b.retained.matching client.id topics ∧
    (∀ t, b.Decides t) ∧
    (∀ filter q, (filter, q) ∈ b.subscriptions.subscriptions client.id ↔
      b.subscriptions.granted? filter client.id = some q) ∧
    ∀ filter, (b.retained.matching filter).Nodup ∧
      ∀ m, m ∈ b.retained.matching filter ↔ m ∈ b.retained.messages ∧ Topic.isMatch m.topic filter = true := by
  obtain ⟨options, hedits⟩ := hb.edits
  have hp : (c.attentive now).state = .connected := hc
  obtain ⟨sent, s', after, hhandle, hsubscribes⟩ :=
    Peer.handle_subscribe hedits hp hclient hs howner hid topics now
  refine ⟨⟨sent, s', after, hhandle, hsubscribes, ?_⟩,
    fun walk hwalk => ⟨hwalk.retainedFor_perm topics, subscribeAllWalking_subscribes walk hedits hs howner topics⟩,
    subscribeAll_eq_walking client.id topics b, b.decides, fun filter q => hedits.mem_subscriptions,
    hedits.mem_matching⟩
  intro bs d hnext
  have hopen : c.isClosed = false := (Peer.state_eq_connected_iff.1 hc).1
  have hown : ∀ t ∈ (c.peer.reply (.suback id (topics.map b.subackCode)) :: sent.map (Delivery.carrying c.peer.token)),
      t.token = c.peer.token := by
    refine List.forall_mem_cons.2 ⟨rfl, fun t ht => ?_⟩
    obtain ⟨e, -, rfl⟩ := List.mem_map.1 ht
    rfl
  obtain ⟨p, hafter, hstate, hclient', hwritten⟩ := handleBytes_of_own hopen hnext hhandle hown
  refine ⟨p, hafter, hstate.trans hp, hclient', hwritten.trans ?_⟩
  rw [List.flatMap_cons, List.flatMap_map]
  rfl

/-- The CONNECT of "c". -/
def introduction : List UInt8 := [0x10, 13, 0, 4, 77, 81, 84, 84, 4, 2, 0, 0, 0, 1, 99]

/-- A message on "t" is retained, and "c" is let in. -/
def furnished : Broker :=
  ((Hub.start (.new {})).course [.act (.publish none ⟨"t", "x".toUTF8, .atLeastOnce, true⟩), .act (.accept 1 {} 0),
    .act (.receive 1 0 introduction)]).broker

/-- The connection that "c" was let in on. -/
def guest : Connection := ((Connection.new 1 {} 0).handleBytes (.new {}) 0 introduction).connection

/-- A filter that is asked for twice, and one that is not valid. -/
def demands : List TopicRequest := [⟨"t", .atLeastOnce⟩, ⟨"#x", .exactlyOnce⟩, ⟨"t", .atMostOnce⟩]

/-- The message is sent for each of the two topics, and the second one counts from then on. -/
theorem handleBytes_subscribe_demands :
    furnished.Reachable ∧ guest.peer.state = .connected ∧ ∃ s, furnished.session? "c" = some s ∧ s.owner = some 1 ∧
      demands.map furnished.subackCode = [1, 0x80, 0] ∧ ∃ sent s' after,
        furnished.Subscribes furnished.retained.matching "c" s demands sent s' after ∧
        sent.map (·.2) = [⟨"t", "x".toUTF8, .atLeastOnce, true⟩, ⟨"t", "x".toUTF8, .atMostOnce, true⟩] ∧
        after.subscriptions.granted? "t" "c" = some .atMostOnce ∧
        ∃ p d, guest.handleBytes furnished 0
          [0x82, 15, 0, 5, 0, 1, 116, 1, 0, 2, 35, 120, 2, 0, 1, 116, 0] = ⟨⟨p, d⟩, after, #[], none⟩ := by
  have hb : furnished.Reachable := ⟨_, _, rfl⟩
  have hc : guest.peer.state = .connected := by decide +kernel
  have hname : guest.peer.client.map (·.id) = some "c" := by decide +kernel
  obtain ⟨client, hclient, hid⟩ := Option.map_eq_some_iff.1 hname
  have hsession : (furnished.session? "c").map (fun s => (s.owner, s.inflight.isInUse 1)) = some (some 1, false) := by
    decide +kernel
  obtain ⟨s, hs, hholds⟩ := Option.map_eq_some_iff.1 hsession
  obtain ⟨howner, hfree⟩ := Prod.mk.inj hholds
  have htoken : guest.peer.token = 1 := by decide +kernel
  have howned : s.owner = some guest.peer.token := by rw [htoken, howner]
  have hne : (5 : UInt16) ≠ 0 := by decide
  rw [← hid] at hs
  obtain ⟨⟨sent, s', after, -, hsubscribes, hbytes⟩, -⟩ :=
    handleBytes_subscribe hb hc hclient hs howned hne demands 0
  rw [hid] at hs hsubscribes
  have hdue : demands.flatMap (furnished.retainedFor furnished.retained.matching) =
      [⟨"t", "x".toUTF8, .atLeastOnce, true⟩, ⟨"t", "x".toUTF8, .atMostOnce, true⟩] := by decide +kernel
  have henough :
      (due (demands.flatMap (furnished.retainedFor furnished.retained.matching))).length ≤ s.freeIds.card := by
    rw [hdue]
    exact Finset.card_pos.2 ⟨1, Session.mem_freeIds.2 ⟨by decide, hfree⟩⟩
  have hsent : sent.map (·.2) = demands.flatMap (furnished.retainedFor furnished.retained.matching) :=
    hsubscribes.goes.trans (going_of_le henough)
  have hlast : furnished.lastGrant? demands "t" = some .atMostOnce := by decide +kernel
  have hpacket : (guest.decoder.next [0x82, 15, 0, 5, 0, 1, 116, 1, 0, 2, 35, 120, 2, 0, 1, 116, 0]).2 =
      (.ok (some (.subscribe 5 demands)), []) := by decide +kernel
  obtain ⟨p, hafter, -⟩ := hbytes _ _ (Prod.ext rfl hpacket)
  refine ⟨hb, hc, s, hs, howner, by decide +kernel, sent, s', after, hsubscribes, hsent.trans hdue, ?_, p, _, hafter⟩
  rw [hsubscribes.granted, hlast]
  rfl

end Connection

end Mqtt
