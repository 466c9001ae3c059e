import Mqtt.Proofs.Handling
import Mqtt.Proofs.Sending

/-!
# Serving one client: `Connection::handle_packet`

What a packet does to the conversation with the client, for a broker that nobody else uses. Every reply
goes to the connection that brought the packet, and the conversation stays linked: an accepted CONNECT
sends everything again, which it may since nothing is on its way on a connection that was not accepted.
-/

namespace Mqtt

/-- The packet belongs to no handshake. -/
def Packet.Plain (p : Packet) : Prop := ∀ id, p.requests id = false ∧ p.answers id = false

namespace Exchange

/-- Packets that belong to no handshake are not missed. -/
theorem within_of_plain {ps : List Packet} (hps : ∀ p ∈ ps, p.Plain) (qs : List Packet) :
    Within ps qs := by
  intro id
  have hrequests : ps.filter (·.requests id) = [] :=
    List.filter_eq_nil_iff.2 fun p hp => by simp [(hps p hp id).1]
  have hanswers : ps.filter (·.answers id) = [] :=
    List.filter_eq_nil_iff.2 fun p hp => by simp [(hps p hp id).2]
  rw [hrequests, hanswers]
  exact ⟨List.nil_sublist _, List.nil_sublist _⟩

theorem Within.refl (ps : List Packet) : Within ps ps := .of_sublist (.refl ps)

theorem within_append_cons {p : Packet} (hp : p.Plain) (ps qs : List Packet) :
    Within (ps ++ p :: qs) (ps ++ qs) := by
  intro id
  simp [List.filter_append, hp id]

end Exchange

namespace Inflight

theorem Acks.publishes {s s' : Inflight} {p : Packet} {reply : Option Packet} (h : s.Acks p reply s')
    {id : UInt16} {m : Message} (hm : s'.publishes[id]? = some m) : s.publishes[id]? = some m := by
  have herase {id' : UInt16} (hm : (s.publishes.erase id')[id]? = some m) : s.publishes[id]? = some m := by
    rw [Std.ExtTreeMap.getElem?_erase] at hm
    split at hm
    · cases hm
    · exact hm
  cases h with
  | puback | pubrec | pubcomp => exact herase hm
  | pubrel => exact hm

end Inflight

/-- A reply can be written, is no new message, and answers only what was requested. -/
def Packet.Replies (packet q : Packet) : Prop :=
  q.Writable ∧ q.taken? = none ∧ ∀ id, q.answers id = true → packet.requests id = true

namespace Inflight

theorem Takes.replies {s s' : Inflight} {p : Publish} {deliver : Bool} {reply : Option Packet}
    (h : s.Takes p ⟨deliver, reply⟩ s') : ∀ q ∈ reply.toList, (Packet.publish p).Replies q := by
  have hasked {id id' : UInt16} (hid : p.packetId.getD 0 = id) (hne : id ≠ 0)
      (hanswers : decide (id = id') = true) : (Packet.publish p).requests id' = true := by
    have hsame : id = id' := of_decide_eq_true hanswers
    cases hp : p.packetId with
    | none =>
      rw [hp, Option.getD_none] at hid
      exact absurd hid.symm hne
    | some k =>
      rw [hp, Option.getD_some] at hid
      simp [hp, hid, hsame]
  intro q hq
  cases h with
  | atMostOnce => cases hq
  | atLeastOnce _ hid hne =>
    cases List.mem_singleton.1 hq
    exact ⟨trivial, rfl, fun id' => hasked hid hne⟩
  | exactlyOnce _ hid hne =>
    cases List.mem_singleton.1 hq
    exact ⟨trivial, rfl, fun id' => hasked hid hne⟩

theorem Acks.replies {s s' : Inflight} {packet : Packet} {reply : Option Packet}
    (h : s.Acks packet reply s') : ∀ q ∈ reply.toList, packet.Replies q := by
  intro q hq
  cases h with
  | puback | pubcomp => cases hq
  | pubrec =>
    cases List.mem_singleton.1 hq
    exact ⟨trivial, rfl, fun id' hanswers => by cases hanswers⟩
  | pubrel =>
    cases List.mem_singleton.1 hq
    exact ⟨trivial, rfl, fun id' hanswers => hanswers⟩

end Inflight

namespace Broker

theorem Sole.setSession {id : String} {b : Broker} (hb : b.Sole id) {s : Session} (hs : s.Sound) :
    (b.setSession id s).Sole id := by
  refine ⟨fun other hother => ?_, fun s' hs' => ?_, hb.retained⟩
  · rw [session?_setSession, if_neg (Ne.symm hother)]
    exact hb.others other hother
  · rw [session?_setSession, if_pos rfl] at hs'
    cases hs'
    exact hs

theorem Sole.setInflight {id : String} {b : Broker} (hb : b.Sole id) {s : Session}
    (hs : b.session? id = some s) {inflight : Inflight}
    (hinflight : ∀ (k : UInt16) (m : Message), inflight.publishes[k]? = some m →
      s.inflight.publishes[k]? = some m) : (b.setSession id { s with inflight }).Sole id := by
  have hsound := hb.session s hs
  exact hb.setSession ⟨hsound.kept, hsound.queue, fun k m hm => hsound.inflight k m (hinflight k m hm)⟩

@[simp] theorem inflightOf_setSession (b : Broker) (id : String) (s : Session) :
    (b.setSession id s).inflightOf id = s.inflight := inflightOf_eq (by simp)

@[simp] theorem ownerOf_setSession (b : Broker) (id : String) (s : Session) :
    (b.setSession id s).ownerOf id = s.owner := ownerOf_eq (by simp)

/-- A session that is released is kept. -/
theorem Sole.released {id : String} {b : Broker} (hb : b.Sole id) {t : Nat} (howner : b.ownerOf id = some t) :
    (b.releaseSession id t).Sole id ∧ (b.releaseSession id t).ownerOf id = none ∧
      (b.releaseSession id t).inflightOf id = b.inflightOf id := by
  unfold releaseSession
  cases hs : b.session? id with
  | none =>
    rw [ownerOf, hs] at howner
    cases howner
  | some s =>
    rw [ownerOf_eq hs] at howner
    have hsound := hb.session s hs
    have hmine : s.isOwnedBy t = true := by simp [Session.isOwnedBy, howner]
    have hretain : b.retainSession id = b.setSession id s.retain := modifySession_eq_of_some _ hs
    dsimp only
    rw [if_pos hmine, if_neg (by simp [hsound.kept]), hretain]
    refine ⟨hb.setSession ⟨hsound.kept, hsound.queue, hsound.inflight⟩, ownerOf_setSession _ _ _, ?_⟩
    rw [inflightOf_setSession, inflightOf_eq hs]
    rfl

end Broker

namespace Peer

open Broker

/-- The peer of a connection that was accepted for the client. -/
def Introduced (id : String) (p : Peer) : Prop :=
  ∃ client, p.client = some client ∧ client.id = id ∧ ∀ m, client.will = some m → m.Fits

/-- What an accepted packet does, apart from the conversation. -/
structure Serves (id : String) (p : Peer) (packet : Packet) (h : Handled) : Prop where
  sole : h.broker.Sole id
  owner : h.broker.ownerOf id = some p.token
  token : h.peer.token = p.token
  outbound : h.peer.outbound = p.outbound
  introduced : h.peer.Introduced id
  /-- Everything that is sent is for the client. -/
  output : ∀ d ∈ h.output, d.token = p.token ∧ d.packet.Writable
  /-- Only requests are answered. -/
  answers : (∀ k, packet.requests k = false) → ∀ d ∈ h.output, ∀ k, d.packet.answers k = false

variable {id : String} {p : Peer} {b : Broker} {now : Nat} {packet : Packet} {h : Handled}

/-- Replies to the client, and then what the broker has to say. -/
theorem serves_of_feeds {b' : Broker} {ds : List Delivery} {replies : List Packet} {published : List Publication}
    (hb : b.Sole id)
    (howner : b.ownerOf id = some p.token) (hp : p.Introduced id) (hfeeds : Feeds id b ds b')
    (hreplies : ∀ q ∈ replies, packet.Replies q) :
    Serves id p packet ⟨p, b', replies.map p.reply ++ ds, published⟩ where
  sole := hfeeds.sole hb
  owner := hfeeds.ownerOf.trans howner
  token := rfl
  outbound := rfl
  introduced := hp
  output d hd := by
    rcases List.mem_append.1 hd with hd | hd
    · obtain ⟨q, hq, rfl⟩ := List.mem_map.1 hd
      exact ⟨rfl, (hreplies q hq).1⟩
    · obtain ⟨htoken, hwritable, -⟩ := hfeeds.mem hd
      rw [howner] at htoken
      exact ⟨(Option.some.inj htoken).symm, hwritable⟩
  answers hplain d hd k := by
    rcases List.mem_append.1 hd with hd | hd
    · obtain ⟨q, hq, rfl⟩ := List.mem_map.1 hd
      refine Bool.eq_false_iff.2 fun hanswers => ?_
      have hrequests := (hreplies q hq).2.2 k hanswers
      rw [hplain k] at hrequests
      cases hrequests
    · obtain ⟨-, -, q, hq⟩ := hfeeds.mem hd
      rw [hq]
      rfl

theorem replies_of_plain {q : Packet} (hwritable : q.Writable) (htaken : q.taken? = none) (hq : q.Plain) :
    packet.Replies q := by
  refine ⟨hwritable, htaken, fun k hanswers => ?_⟩
  rw [(hq k).2] at hanswers
  cases hanswers

/-- One reply to the client, and then what the broker has to say. -/
theorem serves_of_reply {b' : Broker} {ds : List Delivery} {q : Packet} (hb : b.Sole id)
    (howner : b.ownerOf id = some p.token) (hp : p.Introduced id) (hfeeds : Feeds id b ds b')
    (hq : packet.Replies q) : Serves id p packet ⟨p, b', p.reply q :: ds, []⟩ := by
  have hreplies : ∀ q' ∈ [q], packet.Replies q' := List.forall_mem_singleton.2 hq
  exact serves_of_feeds hb howner hp hfeeds hreplies

/-- What an accepted packet does on a connection that was accepted before. -/
theorem Accepts.serves (ha : Accepts p b now packet h) (hb : b.Sole id)
    (howner : b.ownerOf id = some p.token) (hp : p.Introduced id) (htopics : packet.TopicsFit) :
    Serves id p packet h := by
  obtain ⟨client, hclient, rfl, hwill⟩ := hp
  have hp : p.Introduced client.id := ⟨client, hclient, rfl, hwill⟩
  cases ha with
  | fresh hnone => rw [hnone] at hclient; cases hclient
  | resumed hnone => rw [hnone] at hclient; cases hclient
  | @routed client' s publish reply inflight hclient' hs htakes =>
    rw [hclient] at hclient'
    cases hclient'
    have hsole := hb.setInflight hs fun k m hm => htakes.publishes ▸ hm
    rw [ownerOf_eq hs] at howner
    have hfeeds := publish_feeds hsole.others (some client.id) (m := publish.message) htopics
    exact serves_of_feeds hsole (by simpa using howner) hp hfeeds htakes.replies
  | @repeated client' s publish reply inflight hclient' hs htakes =>
    rw [hclient] at hclient'
    cases hclient'
    have hsole := hb.setInflight hs fun k m hm => htakes.publishes ▸ hm
    rw [ownerOf_eq hs] at howner
    rw [← List.append_nil (List.map _ _)]
    exact serves_of_feeds hsole (by simpa using howner) hp (.refl _) htakes.replies
  | @acknowledged client' s packet reply inflight hclient' hs hacks =>
    rw [hclient] at hclient'
    cases hclient'
    have hsole := hb.setInflight hs fun k m hm => hacks.publishes hm
    rw [ownerOf_eq hs] at howner
    rw [← List.append_nil (List.map _ _)]
    exact serves_of_feeds hsole (by simpa using howner) hp (.refl _) hacks.replies
  | @subscribed client' id topics hclient' hid =>
    exact serves_of_reply hb howner hp (subscribeAll_feeds client'.id topics hb)
      (replies_of_plain trivial rfl fun k => ⟨rfl, rfl⟩)
  | @unsubscribed client' id filters hclient' hid =>
    exact serves_of_reply hb howner hp (unsubscribe_feeds client'.id filters b)
      (replies_of_plain trivial rfl fun k => ⟨rfl, rfl⟩)
  | pinged hclient' =>
    exact serves_of_reply hb howner hp (.refl b) (replies_of_plain trivial rfl fun k => ⟨rfl, rfl⟩)
  | left hclient' =>
    refine ⟨hb, howner, rfl, rfl, ⟨{ client with will := none }, ?_, rfl, fun m hm => ?_⟩, ?_, ?_⟩
    · exact client_eq_some_iff.2 ⟨(client_eq_some_iff.1 hclient).1, rfl⟩
    · cases hm
    · intro d hd
      cases hd
    · intro _ d hd
      cases hd

/-- What the handling of a packet says of the messages of the client that sent it: what it gave the broker to
publish has arrived. -/
def Handled.arrivals (h : Handled) (packet : Packet) : Log :=
  packet.handshake?.toList.flatMap fun id => h.published.map (.arrived id ·.message)

theorem Handled.arrivals_of_nothing (hnothing : h.published = []) : h.arrivals packet = [] := by
  rw [arrivals, hnothing]
  exact List.flatMap_eq_nil_iff.2 fun _ _ => rfl

/-- An accepted packet gives the broker to publish what the session has not received before. -/
theorem Accepts.arrivals {client : AcceptedClient} (ha : Accepts p b now packet h) (hp : p.client = some client) :
    h.arrivals packet = (b.inflightOf client.id).arrivals packet := by
  cases ha with
  | fresh hnone => rw [hnone] at hp; cases hp
  | resumed hnone => rw [hnone] at hp; cases hp
  | @routed client' s publish reply inflight hclient hs htakes =>
    obtain rfl : client' = client := Option.some.inj (hclient.symm.trans hp)
    rw [inflightOf_eq hs]
    cases hid : publish.packetId with
    | none => rw [Inflight.arrivals_of_none hid, Handled.arrivals, Packet.handshake?, hid]; rfl
    | some k => rw [htakes.arrivals hid, if_pos rfl, Handled.arrivals, Packet.handshake?, hid]; rfl
  | @repeated client' s publish reply inflight hclient hs htakes =>
    obtain rfl : client' = client := Option.some.inj (hclient.symm.trans hp)
    rw [inflightOf_eq hs, Handled.arrivals_of_nothing rfl]
    cases hid : publish.packetId with
    | none => rw [Inflight.arrivals_of_none hid]
    | some k => rw [htakes.arrivals hid, if_neg Bool.false_ne_true]
  | acknowledged _ _ hacks =>
    rw [Handled.arrivals_of_nothing rfl]
    cases hacks <;> rfl
  | subscribed | unsubscribed | pinged | left => rfl

/-! ### The conversation -/

variable {other : Inflight} {incoming outgoing : List Packet} {mine theirs : Log}

theorem map_packet_reply (replies : List Packet) : (replies.map p.reply).map (·.packet) = replies := by
  rw [List.map_map]
  exact List.map_id replies

theorem taken_replies {replies : List Packet} (hreplies : ∀ q ∈ replies, packet.Replies q)
    (ds : List Delivery) : Delivery.taken (replies.map p.reply ++ ds) = Delivery.taken ds := by
  have hnone : Delivery.taken (replies.map p.reply) = [] := by
    refine List.filterMap_eq_nil_iff.2 fun d hd => ?_
    obtain ⟨q, hq, rfl⟩ := List.mem_map.1 hd
    exact (hreplies q hq).2.1
  rw [Delivery.taken, List.filterMap_append]
  exact congrArg (· ++ Delivery.taken ds) hnone

/-- Replies to the client, and then what the broker has to say. -/
theorem linked_of_feeds (packet : Packet) {b' : Broker} {ds : List Delivery} (replies : List Packet)
    (hfeeds : Feeds id b ds b') (hreplies : ∀ q ∈ replies, packet.Replies q)
    (hlinked : Linked (b.inflightOf id) other incoming (outgoing ++ replies) mine theirs) :
    Linked (b'.inflightOf id) other incoming
      (outgoing ++ (replies.map p.reply ++ ds).map (·.packet))
      (mine ++ Delivery.taken (replies.map p.reply ++ ds)) theirs := by
  rw [taken_replies hreplies, List.map_append, map_packet_reply, ← List.append_assoc]
  exact hfeeds.linked hlinked

/-- A packet that belongs to no handshake, and a reply that does not either. -/
theorem linked_of_plain {b' : Broker} {ds : List Delivery} {q : Packet} (hfeeds : Feeds id b ds b')
    (hq : packet.Replies q) (hplain : q.Plain) (hsettlements : (b.inflightOf id).settlements packet = [])
    (harrivals : (b.inflightOf id).arrivals packet = [])
    (hlinked : Linked (b.inflightOf id) other (packet :: incoming) outgoing mine theirs) :
    Linked (b'.inflightOf id) other incoming (outgoing ++ (p.reply q :: ds).map (·.packet))
      (mine ++ (b.inflightOf id).settlements packet ++ Delivery.taken (p.reply q :: ds))
      (theirs ++ (b.inflightOf id).arrivals packet) := by
  have hwithin := Exchange.within_append_cons hplain outgoing []
  rw [List.append_nil] at hwithin
  rw [hsettlements, harrivals, List.append_nil, List.append_nil]
  refine linked_of_feeds packet [q] hfeeds (fun q' hq' => ?_)
    (hlinked.dropped.within (.refl incoming) hwithin)
  cases List.mem_singleton.1 hq'
  exact hq

/-- What an accepted packet says to the client on a connection that was accepted before. -/
theorem Accepts.linked (ha : Accepts p b now packet h) (hb : b.Sole id) (hp : p.Introduced id)
    (htopics : packet.TopicsFit)
    (hlinked : Linked (b.inflightOf id) other (packet :: incoming) outgoing mine theirs) :
    Linked (h.broker.inflightOf id) other incoming (outgoing ++ h.output.map (·.packet))
      (mine ++ (b.inflightOf id).settlements packet ++ Delivery.taken h.output)
      (theirs ++ (b.inflightOf id).arrivals packet) := by
  obtain ⟨client, hclient, rfl, hwill⟩ := hp
  cases ha with
  | fresh hnone => rw [hnone] at hclient; cases hclient
  | resumed hnone => rw [hnone] at hclient; cases hclient
  | @routed client' s publish reply inflight hclient' hs htakes =>
    rw [hclient] at hclient'
    cases hclient'
    have hsole := hb.setInflight hs fun k m hm => htakes.publishes ▸ hm
    rw [inflightOf_eq hs] at hlinked ⊢
    have hfeeds := publish_feeds hsole.others (some client.id) (m := publish.message) htopics
    have htaken := hlinked.takes htakes
    rw [show s.inflight.settlements (.publish publish) = [] from rfl, List.append_nil]
    generalize (b.setSession client.id { s with inflight }).publish _ _ = r at hfeeds
    exact linked_of_feeds _ _ hfeeds htakes.replies (by simpa using htaken)
  | @repeated client' s publish reply inflight hclient' hs htakes =>
    rw [hclient] at hclient'
    cases hclient'
    rw [inflightOf_eq hs] at hlinked ⊢
    have htaken := hlinked.takes htakes
    rw [show s.inflight.settlements (.publish publish) = [] from rfl, List.append_nil]
    dsimp only
    rw [← List.append_nil (List.map _ reply.toList)]
    exact linked_of_feeds _ _ (.refl _) htakes.replies (by simpa using htaken)
  | @acknowledged client' s packet reply inflight hclient' hs hacks =>
    rw [hclient] at hclient'
    cases hclient'
    rw [inflightOf_eq hs] at hlinked ⊢
    have harrivals : s.inflight.arrivals packet = [] := by cases hacks <;> rfl
    have hacked := hlinked.acks hacks
    rw [harrivals, List.append_nil]
    dsimp only
    rw [← List.append_nil (List.map _ reply.toList)]
    exact linked_of_feeds _ _ (.refl _) hacks.replies (by simpa using hacked)
  | @subscribed client' id topics hclient' hid =>
    have hplain : (Packet.suback id (subscribeAll b client'.id topics).1).Plain := fun k => ⟨rfl, rfl⟩
    exact linked_of_plain (subscribeAll_feeds client'.id topics hb) (replies_of_plain trivial rfl hplain)
      hplain rfl rfl hlinked
  | @unsubscribed client' id filters hclient' hid =>
    have hplain : (Packet.unsuback id).Plain := fun k => ⟨rfl, rfl⟩
    exact linked_of_plain (unsubscribe_feeds client'.id filters b) (replies_of_plain trivial rfl hplain)
      hplain rfl rfl hlinked
  | pinged hclient' =>
    have hplain : Packet.pingresp.Plain := fun k => ⟨rfl, rfl⟩
    exact linked_of_plain (.refl b) (replies_of_plain trivial rfl hplain) hplain rfl rfl hlinked
  | left hclient' =>
    have hdropped := hlinked.dropped
    rw [show (b.inflightOf client.id).settlements .disconnect = [] from rfl,
      show (b.inflightOf client.id).arrivals .disconnect = [] from rfl]
    simpa [handleDisconnect, Delivery.taken] using hdropped

end Peer

/-! ### A new connection -/

/-- A CONNECT asks for the session that is kept for the client. -/
def Packet.Greets (id : String) : Packet → Prop
  | .connect c => c.clientId = id ∧ c.cleanSession = false
  | _ => True

/-- A CONNECT that is written will ask for it. The client may name itself in more letters than are read. -/
def Packet.Announces (id : String) : Packet → Prop
  | .connect c => Wire.readBack c.clientId = id ∧ c.cleanSession = false
  | _ => True

theorem Packet.Becomes.greets {id : String} {p q : Packet} (h : p.Becomes q) (hp : p.Announces id) :
    q.Greets id := by
  cases p with
  | connect c =>
    obtain ⟨c', rfl, hid, hclean⟩ := h
    exact ⟨hid.trans hp.1, hclean.trans hp.2⟩
  | publish | connack | puback | pubrec | pubrel | pubcomp => exact h ▸ trivial
  | suback | subscribe | unsubscribe | unsuback | pingreq | pingresp | disconnect =>
    have htype : q.type = _ := h
    cases q <;> trivial

/-- What is sent again can be written, is no new message, and answers nothing. -/
theorem Inflight.resend_replies {s : Inflight}
    (hs : ∀ (k : UInt16) (m : Message), s.publishes[k]? = some m → m.Fits) {q : Packet}
    (hq : q ∈ s.resend) (packet : Packet) : packet.Replies q := by
  rcases Exchange.mem_resend hq with ⟨k, m, hm, rfl⟩ | ⟨k, -, rfl⟩
  · refine ⟨Message.toPublish_writable (hs k m hm) k true, by simp [Packet.taken?, Message.toPublish],
      fun _ hanswers => ?_⟩
    cases hanswers
  · refine ⟨trivial, rfl, fun _ hanswers => ?_⟩
    cases hanswers

theorem Broker.Sole.inflightOf_fits {id : String} {b : Broker} (hb : b.Sole id) {k : UInt16} {m : Message}
    (hm : (b.inflightOf id).publishes[k]? = some m) : m.Fits := by
  cases hs : b.session? id with
  | none => simp [inflightOf, hs, Inflight.empty] at hm
  | some s =>
    rw [inflightOf_eq hs] at hm
    exact (hb.session s hs).inflight k m hm

namespace Peer

open Broker

/-- What an accepted CONNECT does. `b₁` is the broker that has taken the session up, and `ds` is what it
has to say before it sends everything again. -/
structure Welcomed (id : String) (p : Peer) (b b₁ : Broker) (ds : List Delivery) (h : Handled) : Prop where
  free : b.ownerOf id = none
  sole : b₁.Sole id
  owner : b₁.ownerOf id = some p.token
  inflight : b₁.inflightOf id = b.inflightOf id
  feeds : Feeds id b₁ ds h.broker
  output : ∃ present, h.output = p.reply (.connack present .accepted)
    :: (ds ++ (b.inflightOf id).resend.map (Delivery.mk p.token))
  token : h.peer.token = p.token
  outbound : h.peer.outbound = p.outbound
  introduced : h.peer.Introduced id

variable {id : String} {p : Peer} {b b₁ : Broker} {now : Nat} {packet : Packet} {h : Handled}
  {ds : List Delivery}

theorem introduce_introduced {c : Connect} (hid : c.clientId = id)
    (htopics : (Packet.connect c).TopicsFit) : (p.introduce now c c.clientId).Introduced id := by
  refine ⟨_, rfl, hid, fun m hm => ?_⟩
  obtain ⟨w, hw, rfl⟩ := Option.map_eq_some_iff.1 hm
  exact htopics w hw

/-- Nothing but a CONNECT is accepted on a new connection. -/
theorem Accepts.connect (ha : Accepts p b now packet h) (hnone : p.client = none) :
    ∃ c, packet = .connect c := by
  cases ha with
  | fresh | resumed => exact ⟨_, rfl⟩
  | routed hclient | repeated hclient | acknowledged hclient | subscribed hclient
  | unsubscribed hclient | pinged hclient | left hclient =>
    rw [hnone] at hclient
    cases hclient

/-- A client that has no session is given a new one. -/
theorem welcomed_fresh {c : Connect} {n : Nat} (hb : b.Sole c.clientId) (hs : b.session? c.clientId = none)
    (hkept : c.cleanSession = false) (htopics : (Packet.connect c).TopicsFit) :
    Welcomed c.clientId p b
      ((({ b with assigned := n } : Broker).deleteSession c.clientId).newSession c.clientId p.token c.cleanSession) []
      ⟨p.introduce now c c.clientId,
        (({ b with assigned := n } : Broker).deleteSession c.clientId).newSession c.clientId p.token c.cleanSession,
        [p.reply (.connack false .accepted)], []⟩ where
  free := by
    rw [ownerOf, hs]
    rfl
  sole :=
    { others := fun other hother => by
        have hdeleted : ({ b with assigned := n } : Broker).session? other = none := hb.others other hother
        simp [Ne.symm hother, hdeleted]
      session := fun s hs => by
        rw [session?_newSession, if_pos rfl] at hs
        cases hs
        exact ⟨hkept, List.forall_mem_nil _, fun k m hm => by simp [Session.new, Inflight.empty] at hm⟩
      retained := hb.retained }
  owner := ownerOf_setSession _ _ _
  inflight := by
    refine (inflightOf_setSession _ _ _).trans ?_
    rw [inflightOf, hs]
    rfl
  feeds := .refl _
  output := ⟨false, by simp [inflightOf, hs, Inflight.resend, Inflight.empty]⟩
  token := rfl
  outbound := rfl
  introduced := introduce_introduced rfl htopics

/-- A client whose session has no owner is given it back. -/
theorem welcomed_resumed {c : Connect} {s : Session} (hb : b.Sole c.clientId) (hs : b.session? c.clientId = some s)
    (howner : s.owner = none) (htopics : (Packet.connect c).TopicsFit) :
    ∃ b₁ ds, Welcomed c.clientId p b b₁ ds
      ⟨p.introduce now c c.clientId, ((b.setSession c.clientId (s.renew p.token)).restartSession c.clientId).2,
        p.reply (.connack true .accepted)
          :: ((b.setSession c.clientId (s.renew p.token)).restartSession c.clientId).1, []⟩ := by
  have hsound := hb.session s hs
  have hrenewed : (b.setSession c.clientId (s.renew p.token)).session? c.clientId
      = some (s.renew p.token) := by simp
  have hretained : (b.setSession c.clientId (s.renew p.token)).retained.Only Message.Fits := hb.retained
  obtain ⟨ds, hds, hsends⟩ := restartSession_sends hretained hrenewed rfl hsound.queue
  have hothers : ∀ other, other ≠ c.clientId → ((b.setSession c.clientId (s.renew p.token)).setSession
      c.clientId { s.renew p.token with queue := [] }).session? other = none := by
    intro other hother
    simp [Ne.symm hother, hb.others other hother]
  refine ⟨_, ds, ?_, ⟨hothers, fun s' hs' => ?_, hretained⟩, ?_, ?_, hsends.feeds hothers, ⟨true, ?_⟩, rfl,
    rfl, introduce_introduced rfl htopics⟩
  · rw [ownerOf_eq hs, howner]
  · rw [session?_setSession, if_pos rfl] at hs'
    cases hs'
    exact ⟨hsound.kept, List.forall_mem_nil _, hsound.inflight⟩
  · exact ownerOf_setSession _ _ _
  · rw [inflightOf_setSession, inflightOf_eq hs]
    rfl
  · dsimp only
    rw [hds, inflightOf_eq hs]
    rfl

/-- An accepted CONNECT takes the session up that no connection owns, or a new one. -/
theorem Accepts.welcomed (ha : Accepts p b now packet h) (hnone : p.client = none) (hb : b.Sole id)
    (hgreets : packet.Greets id) (htopics : packet.TopicsFit) :
    ∃ b₁ ds, Welcomed id p b b₁ ds h := by
  obtain ⟨c, rfl⟩ := ha.connect hnone
  obtain ⟨rfl, hkept⟩ := hgreets
  cases ha with
  | @fresh _ id' n _ hclean hid hfree =>
    have hname : c.clientId ≠ "" := fun hempty => by
      rw [hkept] at hclean
      cases hclean hempty
    obtain rfl : id' = c.clientId := hid hname
    have hs : b.session? c.clientId = none := by
      cases hs : b.session? c.clientId with
      | none => rfl
      | some s => cases hkept.symm.trans (hfree s hs).2
    exact ⟨_, _, welcomed_fresh hb hs hkept htopics⟩
  | resumed _ _ _ hs howner => exact welcomed_resumed hb hs howner htopics
  | acknowledged hclient =>
    rw [hnone] at hclient
    cases hclient

theorem replies_of_resend (packet : Packet) (hb : b.Sole id) {d : Delivery} {token : Nat}
    (hd : d ∈ (b.inflightOf id).resend.map (Delivery.mk token)) : d.token = token ∧ packet.Replies d.packet := by
  obtain ⟨q, hq, rfl⟩ := List.mem_map.1 hd
  exact ⟨rfl, Inflight.resend_replies (fun k m hm => hb.inflightOf_fits hm) hq packet⟩

theorem connack_replies (packet : Packet) {present : Bool} : packet.Replies (.connack present .accepted) :=
  replies_of_plain trivial rfl fun _ => ⟨rfl, rfl⟩

/-- What an accepted CONNECT does, apart from the conversation. -/
theorem Welcomed.serves (hw : Welcomed id p b b₁ ds h) (hb : b.Sole id) : Serves id p packet h where
  sole := hw.feeds.sole hw.sole
  owner := hw.feeds.ownerOf.trans hw.owner
  token := hw.token
  outbound := hw.outbound
  introduced := hw.introduced
  output d hd := by
    obtain ⟨present, houtput⟩ := hw.output
    rw [houtput, List.mem_cons, List.mem_append] at hd
    rcases hd with rfl | hd | hd
    · exact ⟨rfl, (connack_replies packet).1⟩
    · obtain ⟨htoken, hwritable, -⟩ := hw.feeds.mem hd
      rw [hw.owner] at htoken
      exact ⟨(Option.some.inj htoken).symm, hwritable⟩
    · obtain ⟨htoken, hwritable, -⟩ := replies_of_resend packet hb hd
      exact ⟨htoken, hwritable⟩
  answers hplain d hd k := by
    obtain ⟨present, houtput⟩ := hw.output
    rw [houtput, List.mem_cons, List.mem_append] at hd
    rcases hd with rfl | hd | hd
    · rfl
    · obtain ⟨-, -, q, hq⟩ := hw.feeds.mem hd
      rw [hq]
      rfl
    · obtain ⟨-, -, -, hanswers⟩ := replies_of_resend packet hb hd
      refine Bool.eq_false_iff.2 fun hasked => ?_
      have hrequests := hanswers k hasked
      rw [hplain k] at hrequests
      cases hrequests

/-- Nothing is new of what is sent again. -/
theorem Welcomed.taken (hw : Welcomed id p b b₁ ds h) (hb : b.Sole id) :
    Delivery.taken h.output = Delivery.taken ds := by
  obtain ⟨present, houtput⟩ := hw.output
  have hresend : Delivery.taken ((b.inflightOf id).resend.map (Delivery.mk p.token)) = [] :=
    List.filterMap_eq_nil_iff.2 fun d hd =>
      (replies_of_resend .pingreq hb hd).2.2.1
  have happend : Delivery.taken (ds ++ (b.inflightOf id).resend.map (Delivery.mk p.token))
      = Delivery.taken ds ++ [] := by
    rw [← hresend]
    exact List.filterMap_append
  rw [List.append_nil] at happend
  rw [houtput]
  exact happend

variable {other : Inflight} {incoming outgoing : List Packet} {mine theirs : Log}

/-- What an accepted CONNECT says may be lost as a whole. -/
theorem Welcomed.linked_of_lost (hw : Welcomed id p b b₁ ds h) (hb : b.Sole id)
    (hlinked : Linked (b.inflightOf id) other incoming outgoing mine theirs) :
    Linked (h.broker.inflightOf id) other incoming outgoing (mine ++ Delivery.taken h.output) theirs := by
  rw [← hw.inflight] at hlinked
  rw [hw.taken hb]
  exact (hw.feeds.linked hlinked).within (.refl incoming)
    (.of_sublist (List.sublist_append_left outgoing (ds.map (·.packet))))

/-- **A session is taken up again.** Everything is sent again, which is no harm where nothing of it is on
its way. -/
theorem Welcomed.linked (hw : Welcomed id p b b₁ ds h) (hb : b.Sole id)
    (hout : ∀ k, outgoing.filter (·.requests k) = []) (hin : ∀ k, incoming.filter (·.answers k) = [])
    (hlinked : Linked (b.inflightOf id) other incoming outgoing mine theirs) :
    Linked (h.broker.inflightOf id) other incoming (outgoing ++ h.output.map (·.packet))
      (mine ++ Delivery.taken h.output) theirs := by
  obtain ⟨present, houtput⟩ := hw.output
  have hresent := hlinked.resend hout hin
  rw [← hw.inflight] at hresent
  have hfed := hw.feeds.linked hresent
  have hsame : ((ds ++ (b.inflightOf id).resend.map (Delivery.mk p.token)).map (·.packet))
      = ds.map (·.packet) ++ (b.inflightOf id).resend := by
    rw [List.map_append, List.map_map]
    exact congrArg _ (List.map_id _)
  have hperm : (outgoing ++ (ds ++ (b.inflightOf id).resend.map (Delivery.mk p.token)).map (·.packet)).Perm
      (outgoing ++ (b₁.inflightOf id).resend ++ ds.map (·.packet)) := by
    rw [hsame, hw.inflight, List.append_assoc]
    exact List.perm_append_comm.append_left outgoing
  have hconnack : (Packet.connack present .accepted).Plain := fun k => ⟨rfl, rfl⟩
  rw [hw.taken hb, houtput]
  exact (hfed.perm hperm).within (.refl incoming) (Exchange.within_append_cons hconnack outgoing _)

end Peer

end Mqtt
