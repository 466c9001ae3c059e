import Mqtt.Connection
import Mqtt.Proofs.Conversation
import Mqtt.Proofs.Framing
import Mqtt.Proofs.Outcomes
import Mqtt.Proofs.Sessions

/-!
# What a session sends: `Session::send_publish`

A message that is sent to a session waits, or goes out under an identifier that was free, or goes out
without one. `Session.Sends` is any number of such sendings, one after the other; `Broker.Feeds` says
that a broker does nothing but send to the session of one client, and it holds of publishing, of
subscribing and of bringing the client up to date. So the conversation with the client stays linked
whatever the broker has to say.
-/

namespace Mqtt

/-- The topic can be written behind a 16-bit length, as the writer of a text trusts it to be. -/
def Message.Fits (m : Message) : Prop := m.topic.utf8ByteSize ≤ 65535

instance (m : Message) : Decidable m.Fits := inferInstanceAs (Decidable (m.topic.utf8ByteSize ≤ 65535))

theorem Message.toPublish_writable {m : Message} (hm : m.Fits) (id : UInt16) (dup : Bool) :
    (Packet.publish (m.toPublish id dup)).Writable := by
  refine ⟨hm, ?_⟩
  simp only [toPublish]
  cases m.qos.isAcknowledged <;> rfl

namespace Session

/-- What may be stored: nothing that could not be written, and no session that ends with its
connection. -/
structure Sound (s : Session) : Prop where
  kept : s.cleanSession = false
  queue : ∀ m ∈ s.queue, m.Fits
  inflight : ∀ (id : UInt16) (m : Message), s.inflight.publishes[id]? = some m → m.Fits

/-- What sending a message does. -/
inductive Sent (s : Session) (m : Message) : Option Delivery → Session → Prop
  /-- The message waits. -/
  | queued {s' : Session} : s'.hold = s.hold → s'.inflight = s.inflight →
      (∀ m' ∈ s'.queue, m' ∈ s.queue ∨ m' = m) → Sent s m none s'
  /-- The message is kept until it is acknowledged. -/
  | tracked {token : Nat} {id : UInt16} {packetIds : PacketIds} : s.owner = some token →
      m.qos.isAcknowledged = true → s.inflight.isInUse id = false →
      Sent s m (some ⟨token, .publish (m.toPublish id false)⟩)
        { s with packetIds, inflight := s.inflight.track id m }
  /-- The message is not to be acknowledged. -/
  | passed {token : Nat} : s.owner = some token → m.qos.isAcknowledged = false →
      Sent s m (some ⟨token, .publish (m.toPublish 0 false)⟩) s

theorem mem_queue_enqueue {s : Session} {m m' : Message} (h : m' ∈ (s.enqueue m).queue) :
    m' ∈ s.queue ∨ m' = m := by
  unfold enqueue at h
  rcases List.mem_append.1 h with h | h
  · split at h
    · exact .inl (List.mem_of_mem_tail h)
    · exact .inl h
  · exact .inr (List.mem_singleton.1 h)

theorem send_sent (s : Session) (m : Message) (q : QoS) (retain : Bool) :
    Sent s (outgoing m q retain) (s.send m q retain).1 (s.send m q retain).2 := by
  have houtcome := s.send_outcome m q retain
  generalize s.send m q retain = sent at houtcome
  obtain ⟨d, s'⟩ := sent
  cases houtcome with
  | absent =>
    unfold superseded
    split
    · refine .queued rfl rfl fun m' hm' => ?_
      rcases mem_queue_enqueue hm' with hm' | hm'
      · cases hm'
      · exact .inr hm'
    · exact .queued rfl rfl fun m' hm' => mem_queue_enqueue hm'
  | exhausted => exact .queued rfl rfl fun m' hm' => mem_queue_enqueue hm'
  | tracked howner hq _ hfree => exact .tracked howner hq hfree
  | passed howner hq => exact .passed howner hq

/-- One sending after the other. -/
inductive Sends : Session → List Delivery → Session → Prop
  | nil (s : Session) : Sends s [] s
  | cons {m : Message} {d : Option Delivery} {s s' s'' : Session} {ds : List Delivery} : m.Fits →
      Sent s m d s' → Sends s' ds s'' → Sends s (d.toList ++ ds) s''

variable {s s' : Session} {ds : List Delivery}

theorem Sends.trans {s'' : Session} {es : List Delivery} (h : Sends s ds s') (h' : Sends s' es s'') :
    Sends s (ds ++ es) s'' := by
  induction h with
  | nil => exact h'
  | cons hm hsent _ ih =>
    rw [List.append_assoc]
    exact .cons hm hsent (ih h')

theorem Sends.hold (h : Sends s ds s') : s'.hold = s.hold := by
  induction h with
  | nil => rfl
  | cons _ hsent _ ih =>
    rw [ih]
    cases hsent with
    | queued hhold => exact hhold
    | tracked | passed => rfl

theorem Sends.sound (h : Sends s ds s') (hs : s.Sound) : s'.Sound := by
  induction h with
  | nil => exact hs
  | cons hm hsent _ ih =>
    refine ih ?_
    cases hsent with
    | queued hhold hinflight hqueue =>
      refine ⟨(congrArg Prod.snd hhold).trans hs.kept, fun m' hm' => ?_, hinflight ▸ hs.inflight⟩
      rcases hqueue m' hm' with hm' | rfl
      · exact hs.queue m' hm'
      · exact hm
    | @tracked token id packetIds =>
      refine ⟨hs.kept, hs.queue, fun id' m' hm' => ?_⟩
      rw [Inflight.track, Std.ExtTreeMap.getElem?_insert] at hm'
      split at hm'
      · cases hm'
        exact hm
      · exact hs.inflight id' m' hm'
    | passed => exact hs

/-- What is sent goes to the owner of the session, and can be written. -/
theorem Sends.mem (h : Sends s ds s') {d : Delivery} (hd : d ∈ ds) :
    s.owner = some d.token ∧ d.packet.Writable ∧ ∃ p, d.packet = .publish p := by
  induction h with
  | nil => cases hd
  | @cons m d' s s₁ s₂ ds hm hsent hrest ih =>
    have howner : s₁.owner = s.owner := by
      cases hsent with
      | queued hhold => exact congrArg Prod.fst hhold
      | tracked | passed => rfl
    rcases List.mem_append.1 hd with hd | hd
    · cases hsent with
      | queued => cases hd
      | tracked htoken =>
        cases List.mem_singleton.1 hd
        exact ⟨htoken, Message.toPublish_writable hm _ _, _, rfl⟩
      | passed htoken =>
        cases List.mem_singleton.1 hd
        exact ⟨htoken, Message.toPublish_writable hm _ _, _, rfl⟩
    · rw [← howner]
      exact ih hd

end Session

/-- The messages that deliveries bring for the first time. -/
def Delivery.taken (ds : List Delivery) : Log := ds.filterMap (·.packet.taken?)

/-- Sending to a session keeps the conversation with its client linked. -/
theorem Session.Sends.linked {s s' : Session} {ds : List Delivery} (h : Sends s ds s') {other : Inflight}
    {incoming outgoing : List Packet} {mine theirs : Log}
    (hlinked : Linked s.inflight other incoming outgoing mine theirs) :
    Linked s'.inflight other incoming (outgoing ++ ds.map (·.packet)) (mine ++ Delivery.taken ds)
      theirs := by
  induction h generalizing outgoing mine with
  | nil =>
    rw [List.map_nil, show Delivery.taken [] = [] from rfl, List.append_nil, List.append_nil]
    exact hlinked
  | @cons m d s s₁ s₂ ds hm hsent _ ih =>
    have htaken : Delivery.taken (d.toList ++ ds) = Delivery.taken d.toList ++ Delivery.taken ds :=
      List.filterMap_append
    rw [htaken, List.map_append, ← List.append_assoc, ← List.append_assoc]
    refine ih ?_
    cases hsent with
    | queued _ hinflight =>
      rw [hinflight, Option.toList_none, List.map_nil, show Delivery.taken [] = [] from rfl,
        List.append_nil, List.append_nil]
      exact hlinked
    | @tracked token id _ _ hq hfree =>
      have hmark : Delivery.taken [⟨token, .publish (m.toPublish id false)⟩] = [.taken id m] := by
        simp [Delivery.taken, Packet.taken?, Message.toPublish, hq, Publish.message]
      rw [Option.toList_some, hmark]
      exact hlinked.track hq hfree
    | @passed token _ hq =>
      have hmark : Delivery.taken [⟨token, .publish (m.toPublish 0 false)⟩] = [] := by
        simp [Delivery.taken, Packet.taken?, Message.toPublish, hq]
      rw [Option.toList_some, hmark, List.append_nil]
      refine hlinked.within (fun _ => ⟨.refl _, .refl _⟩) fun id => ?_
      simp [Message.toPublish, hq]

/-! ### Brokers that serve one client -/

namespace Broker

/-- Nobody but the client has a session, and all that is stored may be. -/
structure Sole (id : String) (b : Broker) : Prop where
  others : ∀ other, other ≠ id → b.session? other = none
  session : ∀ s, b.session? id = some s → s.Sound
  retained : b.retained.Only Message.Fits

/-- The handshakes that are open with the client. -/
def inflightOf (b : Broker) (id : String) : Inflight :=
  match b.session? id with
  | some s => s.inflight
  | none => .empty

/-- The connection that owns the client's session. -/
def ownerOf (b : Broker) (id : String) : Option Nat := (b.session? id).bind (·.owner)

theorem inflightOf_eq {b : Broker} {id : String} {s : Session} (h : b.session? id = some s) :
    b.inflightOf id = s.inflight := by
  rw [inflightOf, h]

theorem ownerOf_eq {b : Broker} {id : String} {s : Session} (h : b.session? id = some s) :
    b.ownerOf id = s.owner := by
  rw [ownerOf, h]
  rfl

/-- The broker does nothing but send to the session of the client. -/
structure Feeds (id : String) (b : Broker) (ds : List Delivery) (b' : Broker) : Prop where
  others : ∀ other, other ≠ id → b'.session? other = b.session? other
  session : (b.session? id = none ∧ ds = [] ∧ b'.session? id = none) ∨
    ∃ s s', b.session? id = some s ∧ b'.session? id = some s' ∧ s.Sends ds s'
  retained : b.retained.Only Message.Fits → b'.retained.Only Message.Fits

variable {id : String} {b b' b'' : Broker} {ds es : List Delivery}

/-- Nothing happens to the sessions. -/
theorem Feeds.of_sessions (hsessions : b'.sessions = b.sessions)
    (hretained : b.retained.Only Message.Fits → b'.retained.Only Message.Fits) : Feeds id b [] b' := by
  have hsame (client : String) : b'.session? client = b.session? client := by rw [session?, hsessions]; rfl
  refine ⟨fun other _ => hsame other, ?_, hretained⟩
  rw [hsame]
  cases hs : b.session? id with
  | none => exact .inl ⟨rfl, rfl, rfl⟩
  | some s => exact .inr ⟨s, s, rfl, rfl, .nil s⟩

theorem Feeds.refl (b : Broker) : Feeds id b [] b := .of_sessions rfl fun h => h

theorem Feeds.trans (h : Feeds id b ds b') (h' : Feeds id b' es b'') : Feeds id b (ds ++ es) b'' := by
  refine ⟨fun other hother => (h'.others other hother).trans (h.others other hother), ?_,
    fun hb => h'.retained (h.retained hb)⟩
  rcases h.session with ⟨hnone, rfl, hnone'⟩ | ⟨s, s', hs, hs', hsends⟩
  · rcases h'.session with ⟨-, rfl, hnone''⟩ | ⟨s', -, hs', -⟩
    · exact .inl ⟨hnone, rfl, hnone''⟩
    · rw [hnone'] at hs'
      cases hs'
  · rcases h'.session with ⟨hnone, -, -⟩ | ⟨s₁, s'', hs₁, hs'', hsends'⟩
    · rw [hs'] at hnone
      cases hnone
    · rw [hs'] at hs₁
      cases hs₁
      exact .inr ⟨s, s'', hs, hs'', hsends.trans hsends'⟩

theorem Feeds.sole (h : Feeds id b ds b') (hb : b.Sole id) : b'.Sole id := by
  refine ⟨fun other hother => (h.others other hother).trans (hb.others other hother), fun s' hs' => ?_,
    h.retained hb.retained⟩
  rcases h.session with ⟨-, -, hnone⟩ | ⟨s, s₁, hs, hs₁, hsends⟩
  · rw [hnone] at hs'
    cases hs'
  · rw [hs₁] at hs'
    cases hs'
    exact hsends.sound (hb.session s hs)

theorem Feeds.ownerOf (h : Feeds id b ds b') : b'.ownerOf id = b.ownerOf id := by
  rcases h.session with ⟨hnone, -, hnone'⟩ | ⟨s, s', hs, hs', hsends⟩
  · rw [Broker.ownerOf, Broker.ownerOf, hnone, hnone']
  · rw [ownerOf_eq hs, ownerOf_eq hs']
    exact congrArg Prod.fst hsends.hold

/-- What the client is sent goes to the connection that owns its session. -/
theorem Feeds.mem (h : Feeds id b ds b') {d : Delivery} (hd : d ∈ ds) :
    b.ownerOf id = some d.token ∧ d.packet.Writable ∧ ∃ p, d.packet = .publish p := by
  rcases h.session with ⟨-, rfl, -⟩ | ⟨s, s', hs, -, hsends⟩
  · cases hd
  · rw [ownerOf_eq hs]
    exact hsends.mem hd

theorem Feeds.linked (h : Feeds id b ds b') {other : Inflight} {incoming outgoing : List Packet}
    {mine theirs : Log} (hlinked : Linked (b.inflightOf id) other incoming outgoing mine theirs) :
    Linked (b'.inflightOf id) other incoming (outgoing ++ ds.map (·.packet)) (mine ++ Delivery.taken ds)
      theirs := by
  rcases h.session with ⟨hnone, rfl, hnone'⟩ | ⟨s, s', hs, hs', hsends⟩
  · have hsame : b'.inflightOf id = b.inflightOf id := by rw [inflightOf, inflightOf, hnone, hnone']
    rw [hsame, List.map_nil, show Delivery.taken [] = [] from rfl, List.append_nil, List.append_nil]
    exact hlinked
  · rw [inflightOf_eq hs] at hlinked
    rw [inflightOf_eq hs']
    exact hsends.linked hlinked

/-! ### What feeds the client -/

theorem sendTo_feeds (hothers : ∀ other, other ≠ id → b.session? other = none) (client : String)
    {m : Message} (hm : m.Fits) (q : QoS) (retain : Bool) :
    Feeds id b (b.sendTo client m q retain).1.toList (b.sendTo client m q retain).2 := by
  unfold sendTo
  cases hs : b.session? client with
  | none => exact .refl b
  | some s =>
    have hclient : client = id := Classical.not_not.1 fun hne => by
      rw [hothers client hne] at hs
      cases hs
    subst hclient
    have hsent := s.send_sent m q retain
    refine ⟨fun other hother => ?_, .inr ⟨s, (s.send m q retain).2, hs, ?_, ?_⟩, fun h => h⟩
    · rw [session?_setSession, if_neg (Ne.symm hother)]
    · rw [session?_setSession, if_pos rfl]
    · rw [← List.append_nil (Option.toList _)]
      exact .cons (m := { m with qos := min m.qos q, retain }) hm hsent (.nil _)

theorem Sends.feeds (h : Sends Message.Fits b ds b')
    (hothers : ∀ other, other ≠ id → b.session? other = none) : Feeds id b ds b' := by
  induction h with
  | nil b => exact .refl b
  | @cons m hm client q retain b b' ds _ ih =>
    have hfirst := sendTo_feeds hothers client hm q retain
    exact hfirst.trans (ih fun other hother => (hfirst.others other hother).trans (hothers other hother))

/-- Publishing feeds the client. -/
theorem publish_feeds (hothers : ∀ other, other ≠ id → b.session? other = none) (origin : Option String)
    {m : Message} (hm : m.Fits) : Feeds id b (b.publish origin m).1 (b.publish origin m).2 := by
  have hretain : Feeds id b [] (b.afterRetain m) := by
    unfold afterRetain
    split
    · exact .of_sessions rfl fun hb => hb.retain hm
    · exact .refl b
  have hsends := b.publish_sends origin hm
  generalize b.publish origin m = r at hsends
  exact hretain.trans (hsends.feeds fun other hother =>
    (hretain.others other hother).trans (hothers other hother))

theorem subscribe_feeds (hb : b.Sole id) (client filter : String) (q : QoS) :
    Feeds id b (b.subscribe client filter q).2.1 (b.subscribe client filter q).2.2 := by
  unfold subscribe
  split
  · exact .refl b
  · have hadd : Feeds id b []
        { b with subscriptions := (b.subscriptions.subscribe filter client (min q b.options.maxQoS)).2 } :=
      .of_sessions rfl fun h => h
    exact hadd.trans ((replayRetained_sends (hadd.sole hb).retained client filter _).feeds
      (hadd.sole hb).others)

/-- Subscribing feeds the client. -/
theorem subscribeAll_feeds (client : String) (topics : List TopicRequest) {b : Broker} (hb : b.Sole id) :
    Feeds id b (Peer.subscribeAll b client topics).2.1 (Peer.subscribeAll b client topics).2.2 := by
  induction topics generalizing b with
  | nil => exact .refl b
  | cons t ts ih =>
    have hfirst := subscribe_feeds hb client t.filter t.qos
    exact hfirst.trans (ih (hfirst.sole hb))

theorem unsubscribe_feeds (client : String) (filters : List String) (b : Broker) :
    Feeds id b [] (filters.foldl (fun b filter => b.unsubscribe client filter) b) := by
  induction filters generalizing b with
  | nil => exact .refl b
  | cons filter filters ih =>
    have hfirst : Feeds id b [] (b.unsubscribe client filter) := .of_sessions rfl fun h => h
    exact hfirst.trans (ih (b.unsubscribe client filter))

end Broker

end Mqtt
