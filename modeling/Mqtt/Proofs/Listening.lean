import Mqtt.Proofs.Hearing
import Mqtt.Proofs.Serving

/-!
# What a client hears and says: `ClientProtocol::handle_packet`

The client's side of the conversation. What a client reports of a packet that it accepts are the marks of the
histories, its own and that of the other direction, and what it answers keeps both.
-/

namespace Mqtt.Client

/-! ### What events say of the histories -/

/-- What an event says of the client's own messages. -/
def Event.settlement? : Event → Option Mark
  | .acknowledged id => some (.acknowledged id)
  | .completed id => some (.completed id)
  | _ => none

/-- What an event says of the message that a packet brought. -/
def Event.arrival? (packet : Packet) : Event → Option Mark
  | .message topic payload qos retain =>
    match packet with
    | .publish p => p.packetId.map (.arrived · ⟨topic, payload, qos, retain⟩)
    | _ => none
  | _ => none

/-- What the result of publishing a message says: under an identifier the client keeps it. -/
def keeps (m : Message) : Except Error (Option UInt16) → Log
  | .ok (some id) => [.taken id m]
  | _ => []

namespace Link

variable {l l' : Link} {packet : Packet}

/-! ### The conversation -/

variable {replies : List Packet} {events : List Event} {inflight : Inflight}

theorem Hears.settlements (h : l.Hears packet replies events inflight) :
    events.filterMap Event.settlement? = l.inflight.settlements packet := by
  cases h with
  | @message p deliver => cases deliver <;> rfl
  | @puback id =>
    rw [Inflight.settlements]
    split <;> rfl
  | @pubcomp id =>
    rw [Inflight.settlements]
    split <;> rfl
  | pubrec | pubrel | subscribed | unsubscribed | ponged => rfl

theorem Hears.arrivals (h : l.Hears packet replies events inflight) :
    events.filterMap (Event.arrival? packet) = l.inflight.arrivals packet := by
  cases h with
  | @message p deliver reply _ htakes =>
    cases hp : p.packetId with
    | none =>
      rw [Inflight.arrivals_of_none hp]
      cases deliver <;> simp [Event.arrival?, hp]
    | some id =>
      rw [htakes.arrivals hp]
      cases deliver <;> simp [Event.arrival?, hp, Publish.message]
  | @puback id => split <;> rfl
  | @pubcomp id => split <;> rfl
  | pubrec | pubrel | subscribed | unsubscribed | ponged => rfl

/-- What a connected client says when it hears a packet keeps the conversation. -/
theorem Hears.linked (h : l.Hears packet replies events inflight) {other : Inflight}
    {incoming outgoing : List Packet} {mine theirs : Log}
    (hlinked : Linked l.inflight other (packet :: incoming) outgoing mine theirs) :
    Linked inflight other incoming (outgoing ++ replies) (mine ++ events.filterMap Event.settlement?)
      (theirs ++ events.filterMap (Event.arrival? packet)) := by
  have hacked {packet : Packet} {reply : Option Packet} (hacks : l.inflight.Acks packet reply inflight)
      (hlinked : Linked l.inflight other (packet :: incoming) outgoing mine theirs) :
      Linked inflight other incoming (outgoing ++ reply.toList) (mine ++ l.inflight.settlements packet)
        (theirs ++ l.inflight.arrivals packet) := by
    have harrivals : l.inflight.arrivals packet = [] := by cases hacks <;> rfl
    rw [harrivals, List.append_nil]
    exact hlinked.acks hacks
  rw [h.settlements, h.arrivals]
  cases h with
  | @message p deliver reply _ htakes =>
    rw [show l.inflight.settlements (.publish p) = [] from rfl, List.append_nil]
    exact hlinked.takes htakes
  | puback hacks => exact hacked hacks hlinked
  | pubrec hacks => exact hacked hacks hlinked
  | pubrel hacks => exact hacked hacks hlinked
  | pubcomp hacks => exact hacked hacks hlinked
  | subscribed | unsubscribed | ponged =>
    simpa [Inflight.settlements, Inflight.arrivals] using hlinked.dropped

/-- What a client may say that is heard under the identifier. -/
def Speaks (id : String) (q : Packet) : Prop := q.Writable ∧ q.Announces id

theorem Hears.speaks (h : l.Hears packet replies events inflight) (id : String) :
    ∀ q ∈ replies, Speaks id q := by
  have hspeaks {q : Packet} (hq : packet.Replies q) (hannounces : q.Announces id) : Speaks id q :=
    ⟨hq.1, hannounces⟩
  intro q hq
  cases h with
  | message htakes =>
    refine hspeaks (htakes.replies q hq) ?_
    cases htakes with
    | atMostOnce => cases hq
    | atLeastOnce | exactlyOnce =>
      cases List.mem_singleton.1 hq
      trivial
  | pubrec hacks | pubrel hacks =>
    refine hspeaks (hacks.replies q hq) ?_
    cases hacks
    cases List.mem_singleton.1 hq
    trivial
  | puback | pubcomp | subscribed | unsubscribed | ponged => cases hq

/-- What the client keeps can be written. -/
def Fits (l : Link) : Prop := ∀ (k : UInt16) (m : Message), l.inflight.publishes[k]? = some m → m.Fits

theorem Fits.resend (hl : l.Fits) (id : String) : ∀ q ∈ l.inflight.resend, Speaks id q := by
  intro q hq
  refine ⟨(Inflight.resend_replies hl hq .pingreq).1, ?_⟩
  rcases Exchange.mem_resend hq with ⟨k, m, -, rfl⟩ | ⟨k, -, rfl⟩ <;> trivial

theorem Hears.fits (h : l.Hears packet replies events inflight) (hl : l.Fits) {k : UInt16} {m : Message}
    (hm : inflight.publishes[k]? = some m) : m.Fits := by
  cases h with
  | message htakes => exact hl k m (htakes.publishes ▸ hm)
  | puback hacks | pubrec hacks | pubrel hacks | pubcomp hacks => exact hl k m (hacks.publishes hm)
  | subscribed | unsubscribed | ponged => exact hl k m hm

/-! ### Calls -/

/-- What a call does: nothing that concerns the conversation, a packet that belongs to no handshake, or a
message that is kept. -/
inductive Calls (l : Link) : List Packet → Log → Link → Prop
  | idle {l' : Link} : l'.state = l.state ∨ l'.state = .disconnected → l'.inflight = l.inflight →
      l'.outbound = l.outbound → Calls l [] [] l'
  | asks {l' : Link} {q : Packet} : l'.state = l.state ∨ l'.state = .disconnected →
      l'.inflight = l.inflight → l'.outbound = l.outbound ++ q.toBytes → q.Plain → (∀ id, Speaks id q) →
      Calls l [q] [] l'
  | keeps {l' : Link} {k : UInt16} {m : Message} : l.state = .connected → l'.state = .connected →
      m.qos.isAcknowledged = true → l.inflight.isInUse k = false → m.Fits →
      l'.inflight = l.inflight.track k m →
      l'.outbound = l.outbound ++ (Packet.publish (m.toPublish k false)).toBytes →
      Calls l [.publish (m.toPublish k false)] [.taken k m] l'

theorem allocateId_cases (l : Link) : ∃ packetIds, (l.allocateId).2 = { l with packetIds } ∧
    ((∃ k, (l.allocateId).1 = .ok k ∧ k ≠ 0 ∧ l.inflight.isInUse k = false) ∨ ∃ e, (l.allocateId).1 = .error e) := by
  unfold allocateId
  rcases halloc : l.packetIds.allocate l.inflight.isInUse with ⟨k | k, packetIds⟩
  · exact ⟨packetIds, rfl, .inr ⟨_, rfl⟩⟩
  · exact ⟨packetIds, rfl, .inl ⟨k, rfl, PacketIds.search_free halloc⟩⟩

/-- A call that needs an identifier does nothing, or goes on with one that is free. -/
theorem withId_cases {α : Type} (l : Link) (f : UInt16 → Link → α × Link) :
    ∃ packetIds, ((∃ e, l.withId f = (.error e, { l with packetIds })) ∨
      ∃ k, k ≠ 0 ∧ l.inflight.isInUse k = false ∧
        l.withId f = (.ok (f k { l with packetIds }).1, (f k { l with packetIds }).2)) := by
  obtain ⟨packetIds, hlink, hid⟩ := l.allocateId_cases
  refine ⟨packetIds, ?_⟩
  unfold withId
  generalize l.allocateId = r at hlink hid
  obtain ⟨id, l'⟩ := r
  obtain rfl : l' = { l with packetIds } := hlink
  rcases hid with ⟨k, rfl, hk, hfree⟩ | ⟨e, rfl⟩
  · exact .inr ⟨k, hk, hfree, rfl⟩
  · exact .inl ⟨e, rfl⟩

theorem publish_calls (l : Link) {m : Message} (hm : m.Fits) :
    ∃ qs, l.Calls qs (Client.keeps m (l.publish m).1) (l.publish m).2 := by
  unfold publish
  split
  · exact ⟨[], .idle (.inl rfl) rfl rfl⟩
  · next hstate =>
    split
    · exact ⟨[], .idle (.inl rfl) rfl rfl⟩
    · split
      · next hq =>
        have hconnected := Classical.not_not.1 hstate
        obtain ⟨packetIds, ⟨e, hid⟩ | ⟨k, -, hfree, hid⟩⟩ := l.withId_cases fun k l =>
          (some k, { l with inflight := l.inflight.track k m }.send (.publish (m.toPublish k false)))
        · rw [hid]
          exact ⟨[], .idle (.inl rfl) rfl rfl⟩
        · rw [hid]
          exact ⟨_, .keeps hconnected hconnected hq hfree hm rfl rfl⟩
      · next hq =>
        refine ⟨_, .asks (.inl rfl) rfl rfl (fun k => ?_) fun id =>
          ⟨Message.toPublish_writable hm 0 false, trivial⟩⟩
        simp [Message.toPublish, hq]

/-- SUBSCRIBE and UNSUBSCRIBE ask for something under an identifier. -/
theorem withId_calls (l : Link) {make : UInt16 → Packet} (hplain : ∀ k, (make k).Plain)
    (hspeaks : ∀ k id, Speaks id (make k)) :
    ∃ qs, l.Calls qs [] (l.withId fun k l => (k, l.send (make k))).2 := by
  obtain ⟨packetIds, ⟨e, hid⟩ | ⟨k, -, -, hid⟩⟩ := l.withId_cases fun k l => (k, l.send (make k))
  · rw [hid]
    exact ⟨[], .idle (.inl rfl) rfl rfl⟩
  · rw [hid]
    exact ⟨_, .asks (.inl rfl) rfl rfl (hplain k) (hspeaks k)⟩

theorem subscribe_calls (l : Link) (topics : List TopicRequest) :
    ∃ qs, l.Calls qs [] (l.subscribe topics).2 := by
  unfold subscribe
  split
  · exact ⟨[], .idle (.inl rfl) rfl rfl⟩
  · split
    · exact ⟨[], .idle (.inl rfl) rfl rfl⟩
    · exact l.withId_calls (fun _ _ => ⟨rfl, rfl⟩) fun _ _ => ⟨trivial, trivial⟩

theorem unsubscribe_calls (l : Link) (filters : List String) :
    ∃ qs, l.Calls qs [] (l.unsubscribe filters).2 := by
  unfold unsubscribe
  split
  · exact ⟨[], .idle (.inl rfl) rfl rfl⟩
  · split
    · exact ⟨[], .idle (.inl rfl) rfl rfl⟩
    · exact l.withId_calls (fun _ _ => ⟨rfl, rfl⟩) fun _ _ => ⟨trivial, trivial⟩

theorem pollTimers_calls (l : Link) (now : Nat) : ∃ qs, l.Calls qs [] (l.pollTimers now).2 := by
  unfold pollTimers
  split
  · exact ⟨[], .idle (.inl rfl) rfl rfl⟩
  · split
    · exact ⟨[], .idle (.inr rfl) rfl rfl⟩
    · dsimp only
      split
      · exact ⟨_, .asks (.inl rfl) rfl rfl (fun _ => ⟨rfl, rfl⟩) fun _ => ⟨trivial, trivial⟩⟩
      · exact ⟨[], .idle (.inl rfl) rfl rfl⟩

theorem disconnect_calls (l : Link) : ∃ qs, l.Calls qs [] l.disconnect := by
  unfold disconnect
  split
  · exact ⟨[], .idle (.inl rfl) rfl rfl⟩
  · exact ⟨_, .asks (.inr rfl) rfl rfl (fun _ => ⟨rfl, rfl⟩) fun _ => ⟨trivial, trivial⟩⟩

theorem connectionLost_calls (l : Link) (reason : String) : l.Calls [] [] (l.connectionLost reason) := by
  unfold connectionLost
  split
  · exact .idle (.inl rfl) rfl rfl
  · exact .idle (.inr rfl) rfl rfl

variable {qs : List Packet} {mark : Log}

/-- What a call queues. -/
theorem Calls.outbound (h : l.Calls qs mark l') :
    l'.outbound.data.toList = l.outbound.data.toList ++ qs.flatMap Packet.encode := by
  cases h with
  | idle _ _ hout => rw [hout, List.flatMap_nil, List.append_nil]
  | asks _ _ hout | keeps _ _ _ _ _ _ hout =>
    rw [hout, ByteArray.toList_data_append, Packet.toBytes, List.toList_data_toByteArray]
    simp

theorem Calls.speaks (h : l.Calls qs mark l') (id : String) : ∀ q ∈ qs, Speaks id q := by
  intro q hq
  cases h with
  | idle => cases hq
  | asks _ _ _ _ hspeaks =>
    cases List.mem_singleton.1 hq
    exact hspeaks id
  | keeps _ _ _ _ hm =>
    cases List.mem_singleton.1 hq
    exact ⟨Message.toPublish_writable hm _ false, trivial⟩

theorem Calls.fits (h : l.Calls qs mark l') (hl : l.Fits) : l'.Fits := by
  intro k m hk
  cases h with
  | idle _ hinflight => exact hl k m (hinflight ▸ hk)
  | asks _ hinflight => exact hl k m (hinflight ▸ hk)
  | keeps _ _ _ _ hm hinflight =>
    rw [hinflight, Inflight.track, Std.ExtTreeMap.getElem?_insert] at hk
    split at hk
    · cases hk
      exact hm
    · exact hl k m hk

/-- A call keeps the conversation. -/
theorem Calls.linked (h : l.Calls qs mark l') {other : Inflight} {incoming outgoing : List Packet}
    {mine theirs : Log} (hlinked : Linked l.inflight other incoming outgoing mine theirs) :
    Linked l'.inflight other incoming (outgoing ++ qs) (mine ++ mark) theirs := by
  cases h with
  | idle _ hinflight =>
    rw [hinflight, List.append_nil, List.append_nil]
    exact hlinked
  | asks _ hinflight _ hplain =>
    rw [hinflight, List.append_nil]
    have hwithin := Exchange.within_append_cons hplain outgoing []
    rw [List.append_nil] at hwithin
    exact hlinked.within (.refl incoming) hwithin
  | keeps _ _ hq hfree _ hinflight =>
    rw [hinflight]
    exact hlinked.track hq hfree

end Link

end Mqtt.Client
