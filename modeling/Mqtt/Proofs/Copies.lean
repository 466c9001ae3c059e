import Mqtt.Proofs.Handing
import Mqtt.Proofs.Subscriptions

/-!
# What publishing does: `Broker::publish`

A message that is published is retained if it asks for that, and each client that is to receive it gets one copy,
however many of its filters match. `Broker.Published` says what becomes of the retained messages, of the session of
every client and of every delivery, and `Broker.publish_published` that publishing does just this, whatever the broker
holds. A copy is a sending like any other, so what happens to it is one of the outcomes of `Session.Outcome`.
-/

namespace Mqtt

/-- The client was granted the quality of service for a filter that leads to the topic. -/
def SubscriptionTree.Covers (t : SubscriptionTree) (client topic : String) (q : QoS) : Prop :=
  ∃ filter, t.granted? filter client = some q ∧ Topic.Walks true (Topic.levels filter) (Topic.levels topic)

/-- A subscriber gets the greatest of what it was granted. -/
theorem SubscriptionTree.getElem?_subscribers_iff {t : SubscriptionTree} {client topic : String} {q : QoS} :
    (t.subscribers topic)[client]? = some q ↔ Greatest (t.Covers client topic) q := by
  rw [getElem?_subscribers]
  refine greatest_congr (fun q => ?_) q
  constructor
  · rintro ⟨path, hwalks, hq⟩
    obtain ⟨hlevels, -⟩ := Topic.isMatch_of_walks hwalks
    refine ⟨"/".intercalate path, ?_, ?_⟩
    · rw [granted?, hlevels]
      exact hq
    · rw [hlevels]
      exact hwalks
  · rintro ⟨filter, hq, hwalks⟩
    exact ⟨Topic.levels filter, hwalks, hq⟩

/-- One client's copy of a message, with the packet that it leads to at once. -/
structure Copy where
  client : String
  /-- What the client was granted. -/
  qos : QoS
  delivery? : Option Delivery

namespace Broker

/-- The client has a session and a filter that leads to the topic, and the message may go to it. -/
def Receives (b : Broker) (origin : Option String) (topic client : String) : Prop :=
  (b.session? client).isSome = true ∧ (b.options.reflect = true ∨ origin ≠ some client) ∧
    ∃ q, b.subscriptions.Covers client topic q

/-- What publishing a message does, with what is delivered. -/
structure Published (b : Broker) (origin : Option String) (m : Message) (ds : List Delivery) (b' : Broker) :
    Prop where
  retained : b'.retained = if m.retain && b.options.retainAvailable then b.retained.retain m else b.retained
  subscriptions : b'.subscriptions = b.subscriptions
  options : b'.options = b.options
  /-- There is one copy for each client that receives the message. It is sent at no more than the greatest quality of
  service that the client was granted, and without a retain flag. No other session changes, and nothing else is
  delivered. -/
  copies : ∃ copies : List Copy,
    (copies.map (·.client)).Nodup ∧
    (∀ client, client ∈ copies.map (·.client) ↔ b.Receives origin m.topic client) ∧
    ds = copies.filterMap (·.delivery?) ∧
    (∀ c ∈ copies, SubscriptionTree.Greatest (b.subscriptions.Covers c.client m.topic) c.qos ∧
      ∃ s s', b.session? c.client = some s ∧ b'.session? c.client = some s' ∧
        s.Outcome m c.qos false c.delivery? s') ∧
    ∀ client, client ∉ copies.map (·.client) → b'.session? client = b.session? client

variable {b : Broker} {origin : Option String} {m : Message} {client : String}

theorem mem_receivers {topic : String} {q : QoS} :
    (client, q) ∈ b.receivers origin topic ↔
      SubscriptionTree.Greatest (b.subscriptions.Covers client topic) q ∧
        (b.options.reflect = true ∨ origin ≠ some client) := by
  rw [receivers, List.mem_filter, Std.ExtTreeMap.mem_toList_iff_getElem?_eq_some,
    SubscriptionTree.getElem?_subscribers_iff]
  simp

/-- Who is covered at all is covered at a greatest quality of service. -/
theorem receives_iff {topic : String} :
    b.Receives origin topic client ↔
      (b.session? client).isSome = true ∧ ∃ q, (client, q) ∈ b.receivers origin topic := by
  simp only [Receives, mem_receivers]
  refine and_congr_right fun _ => ?_
  constructor
  · rintro ⟨horigin, q, hq⟩
    obtain ⟨best, hbest⟩ := SubscriptionTree.exists_greatest hq
    exact ⟨best, hbest, horigin⟩
  · rintro ⟨q, hq, horigin⟩
    exact ⟨horigin, q, hq.1⟩

/-- Clients that are all different get in their turn what each would get alone. -/
theorem route_fst {receivers : List (String × QoS)} (hnodup : (receivers.map (·.1)).Nodup) :
    (b.route m receivers).1 =
      receivers.filterMap fun r => (b.session? r.1).bind fun s => (s.send m r.2 false).1 := by
  induction receivers generalizing b with
  | nil => rfl
  | cons r receivers ih =>
    obtain ⟨hr, hrest⟩ := List.nodup_cons.1 hnodup
    have hfirst : (b.sendTo r.1 m r.2 false).1 = (b.session? r.1).bind fun s => (s.send m r.2 false).1 := by
      rw [sendTo]
      cases b.session? r.1 <;> rfl
    have hothers : ∀ r' ∈ receivers, (b.sendTo r.1 m r.2 false).2.session? r'.1 = b.session? r'.1 := by
      intro r' hr'
      have hne : r.1 ≠ r'.1 := fun heq => hr (List.mem_map.2 ⟨r', hr', heq.symm⟩)
      rw [session?_sendTo, if_neg hne]
    have hroute : (b.route m (r :: receivers)).1 =
        (b.sendTo r.1 m r.2 false).1.toList ++ ((b.sendTo r.1 m r.2 false).2.route m receivers).1 :=
      congrArg Prod.fst (each_cons _ b r receivers)
    rw [hroute, ih hrest, hfirst, List.filterMap_congr fun r' hr' => by rw [hothers r' hr']]
    rw [List.filterMap_cons]
    cases (b.session? r.1).bind fun s => (s.send m r.2 false).1 <;> rfl

/-- The copies that are made of a message. -/
def copies (b : Broker) (origin : Option String) (m : Message) : List Copy :=
  ((b.receivers origin m.topic).filter fun r => (b.session? r.1).isSome).map fun r =>
    ⟨r.1, r.2, (b.session? r.1).bind fun s => (s.send m r.2 false).1⟩

theorem mem_copies {c : Copy} :
    c ∈ b.copies origin m ↔ (c.client, c.qos) ∈ b.receivers origin m.topic ∧
      ∃ s, b.session? c.client = some s ∧ c.delivery? = (s.send m c.qos false).1 := by
  obtain ⟨client, q, delivery?⟩ := c
  simp only [copies, List.mem_map, List.mem_filter, Option.isSome_iff_exists]
  constructor
  · rintro ⟨r, ⟨hr, s, hs⟩, heq⟩
    cases heq
    exact ⟨hr, s, hs, by rw [hs]; rfl⟩
  · rintro ⟨hr, s, hs, rfl⟩
    exact ⟨(client, q), ⟨hr, s, hs⟩, by rw [hs]; rfl⟩

theorem mem_clients_copies : client ∈ (b.copies origin m).map (·.client) ↔ b.Receives origin m.topic client := by
  rw [receives_iff, List.mem_map]
  constructor
  · rintro ⟨c, hc, rfl⟩
    obtain ⟨hr, s, hs, -⟩ := mem_copies.1 hc
    exact ⟨Option.isSome_iff_exists.2 ⟨s, hs⟩, c.qos, hr⟩
  · rintro ⟨hsession, q, hr⟩
    obtain ⟨s, hs⟩ := Option.isSome_iff_exists.1 hsession
    exact ⟨⟨client, q, (s.send m q false).1⟩, mem_copies.2 ⟨hr, s, hs, rfl⟩, rfl⟩

theorem nodup_clients_copies (b : Broker) (origin : Option String) (m : Message) :
    ((b.copies origin m).map (·.client)).Nodup := by
  have hclients : (b.copies origin m).map (·.client) =
      ((b.receivers origin m.topic).filter fun r => (b.session? r.1).isSome).map (·.1) := List.map_map
  rw [hclients]
  exact (b.nodup_receivers origin m.topic).sublist (List.filter_sublist.map _)

theorem deliveries_copies (b : Broker) (origin : Option String) (m : Message) :
    (b.publish origin m).1 = (b.copies origin m).filterMap (·.delivery?) := by
  rw [publish_eq, route_fst (b.nodup_receivers origin m.topic), copies, List.filterMap_map, List.filterMap_filter]
  refine List.filterMap_congr fun r _ => ?_
  rw [session?_afterRetain]
  cases hs : b.session? r.1 <;> simp [hs]

/-- **What publishing does**, whatever the broker holds. A filter that is valid leads to the topics that match it. -/
theorem publish_published (b : Broker) (origin : Option String) (m : Message) :
    b.Published origin m (b.publish origin m).1 (b.publish origin m).2 ∧
      ∀ filter, Topic.isValidFilter filter = true →
        (Topic.Walks true (Topic.levels filter) (Topic.levels m.topic) ↔ Topic.isMatch m.topic filter = true) := by
  have hframe := b.publish_frame origin m
  refine ⟨⟨?_, hframe.subscriptions, hframe.options, b.copies origin m, b.nodup_clients_copies origin m, fun client =>
    mem_clients_copies, b.deliveries_copies origin m, ?_, ?_⟩, fun filter hvalid =>
    Topic.walks_iff_isMatch hvalid m.topic⟩
  · rw [(publish_sends b origin (M := fun _ => True) trivial).retained, afterRetain]
    split <;> rfl
  · intro c hc
    obtain ⟨hr, s, hs, hdelivery⟩ := mem_copies.1 hc
    refine ⟨(mem_receivers.1 hr).1, s, (s.send m c.qos false).2, hs, ?_, hdelivery ▸ s.send_outcome m c.qos false⟩
    rw [session?_publish, published_of_mem hr, hs]
    rfl
  · intro client hclient
    rw [session?_publish]
    cases hs : b.session? client with
    | none => rfl
    | some s =>
      rw [published_of_notMem]
      · rfl
      · intro q hr
        exact hclient (mem_clients_copies.2 (receives_iff.2 ⟨by rw [hs]; rfl, q, hr⟩))

end Broker

end Mqtt
