import Mqtt.Proofs.Bodies
import Mqtt.Proofs.Exchange
import Mqtt.Proofs.Operations

/-!
# What a broker holds and hands out: `Broker`

A message gets into a broker through two doors: a client publishes it, or leaves it as its will. Inside it is
retained, waits in queues and is kept until it is acknowledged, and it leaves in many ways: at once, replayed,
or sent again. All that happens to it on the way is that its quality of service is lowered and its retain flag
set anew. So whatever is asked of messages at the doors (`Doors`) holds of all that a broker has (`Broker.Holds`)
and of every PUBLISH that it makes; what else it makes are answers, whose fields come from the packet that is
answered (`Packet.Told`). `Doors.admits_operate` says so of one operation.
-/

namespace Mqtt

/-- What a client is told: a message, under an identifier if it is to be acknowledged, or an answer. -/
inductive Packet.Told (M : Message → Prop) : Packet → Prop
  | connack (present : Bool) (code : ConnackCode) : Told M (.connack present code)
  | publish {m : Message} {id : UInt16} (dup : Bool) : M m → (m.qos.isAcknowledged = true → id ≠ 0) →
      Told M (.publish (m.toPublish id dup))
  | puback {id : UInt16} : id ≠ 0 → Told M (.puback id)
  | pubrec {id : UInt16} : id ≠ 0 → Told M (.pubrec id)
  | pubrel {id : UInt16} : id ≠ 0 → Told M (.pubrel id)
  | pubcomp {id : UInt16} : id ≠ 0 → Told M (.pubcomp id)
  | suback {id : UInt16} {codes : List UInt8} : id ≠ 0 → (∀ code ∈ codes, code ∈ grantCodes) →
      2 + codes.length ≤ RemainingLength.maxValue → Told M (.suback id codes)
  | unsuback {id : UInt16} : id ≠ 0 → Told M (.unsuback id)
  | pingresp : Told M .pingresp

variable {M : Message → Prop}

/-! ### Handshakes -/

namespace Inflight

variable {s : Inflight}

/-- A PUBLISH that is handed on is answered under its identifier. -/
theorem Takes.told {publish : Publish} {arrival : Inflight.Arrival} {inflight : Inflight}
    (h : s.Takes publish arrival inflight) : ∀ q ∈ arrival.reply, q.Told M := by
  intro q hq
  cases h with
  | atMostOnce => cases hq
  | atLeastOnce _ _ hid =>
    cases hq
    exact .puback hid
  | exactlyOnce _ _ hid =>
    cases hq
    exact .pubrec hid

theorem Acks.told {packet : Packet} {reply : Option Packet} {inflight : Inflight}
    (h : s.Acks packet reply inflight) : ∀ q ∈ reply, q.Told M := by
  intro q hq
  cases h with
  | puback | pubcomp => cases hq
  | pubrec hid =>
    cases hq
    exact .pubrel hid
  | pubrel hid =>
    cases hq
    exact .pubcomp hid

end Inflight

/-! ### Sessions -/

/-- All messages of a session satisfy `M`, and every handshake has an identifier. -/
structure Session.Holds (M : Message → Prop) (s : Session) : Prop where
  queue : ∀ m ∈ s.queue, M m
  publishes : ∀ (id : UInt16) (m : Message), s.inflight.publishes[id]? = some m → id ≠ 0 ∧ M m
  releases : ∀ id ∈ s.inflight.releases, id ≠ 0

namespace Session.Holds

variable {s s' : Session}

theorem new (token : Nat) (clean : Bool) (maxQueued : Nat) : (Session.new token clean maxQueued).Holds M :=
  ⟨List.forall_mem_nil _, fun id m hm => by simp [Session.new, Inflight.empty] at hm,
    fun id hid => by simp [Session.new, Inflight.empty] at hid⟩

theorem renew (h : s.Holds M) (token : Nat) : (s.renew token).Holds M := ⟨h.queue, h.publishes, h.releases⟩

theorem retain (h : s.Holds M) : s.retain.Holds M := ⟨h.queue, h.publishes, h.releases⟩

theorem dropQueue (h : s.Holds M) : s.dropQueue.Holds M := ⟨List.forall_mem_nil _, h.publishes, h.releases⟩

theorem enqueue (h : s.Holds M) {m : Message} (hm : M m) : (s.enqueue m).Holds M := by
  refine ⟨fun m' hm' => ?_, h.publishes, h.releases⟩
  unfold Session.enqueue at hm'
  rcases List.mem_append.1 hm' with hm' | hm'
  · split at hm'
    · exact h.queue m' (List.mem_of_mem_tail hm')
    · exact h.queue m' hm'
  · rw [List.mem_singleton.1 hm']
    exact hm

/-- Sending keeps what goes out, or lets it wait. -/
theorem send (h : s.Holds M) {m : Message} {q : QoS} {retain : Bool} (hm : M (outgoing m q retain)) :
    (s.send m q retain).2.Holds M := by
  have houtcome := s.send_outcome m q retain
  generalize (s.send m q retain).1 = d at houtcome
  generalize (s.send m q retain).2 = s' at houtcome
  cases houtcome with
  | absent =>
    unfold superseded
    split
    · exact h.dropQueue.enqueue hm
    · exact h.enqueue hm
  | @exhausted token packetIds =>
    have hsame : ({ s with packetIds } : Session).Holds M := ⟨h.queue, h.publishes, h.releases⟩
    exact hsame.enqueue hm
  | @tracked token id packetIds _ _ hid _ =>
    refine ⟨h.queue, fun id' m' hm' => ?_, h.releases⟩
    rw [Inflight.track, Std.ExtTreeMap.getElem?_insert] at hm'
    split at hm'
    · next heq =>
      cases hm'
      exact ⟨Std.LawfulEqCmp.eq_of_compare heq ▸ hid, hm⟩
    · exact h.publishes id' m' hm'
  | passed => exact h

/-- An arriving PUBLISH changes nothing that goes out. -/
theorem takes (h : s.Holds M) {publish : Publish} {arrival : Inflight.Arrival} {inflight : Inflight}
    (ht : s.inflight.Takes publish arrival inflight) : ({ s with inflight } : Session).Holds M := by
  cases ht <;> exact ⟨h.queue, h.publishes, h.releases⟩

/-- An acknowledgement takes out what it names, and may leave its identifier. -/
theorem acks (h : s.Holds M) {packet : Packet} {reply : Option Packet} {inflight : Inflight}
    (ha : s.inflight.Acks packet reply inflight) : ({ s with inflight } : Session).Holds M := by
  have herase {id : UInt16} (id' : UInt16) (m : Message) (hm : (s.inflight.publishes.erase id)[id']? = some m) :
      id' ≠ 0 ∧ M m := by
    rw [Std.ExtTreeMap.getElem?_erase] at hm
    split at hm
    · cases hm
    · exact h.publishes id' m hm
  cases ha with
  | puback => exact ⟨h.queue, herase, h.releases⟩
  | pubrel => exact ⟨h.queue, h.publishes, h.releases⟩
  | pubrec hid =>
    refine ⟨h.queue, herase, fun id' hid' => ?_⟩
    rcases Std.ExtTreeSet.mem_insert.1 hid' with heq | hid'
    · exact Std.LawfulEqCmp.eq_of_compare heq ▸ hid
    · exact h.releases id' hid'
  | pubcomp =>
    exact ⟨h.queue, herase, fun id' hid' => h.releases id' (Std.ExtTreeSet.mem_erase.1 hid').2⟩

/-- What is sent again. -/
theorem resend (h : s.Holds M) {p : Packet} (hp : p ∈ s.inflight.resend) : p.Told M := by
  rcases Exchange.mem_resend hp with ⟨id, m, hm, rfl⟩ | ⟨id, hid, rfl⟩
  · obtain ⟨hid, hm⟩ := h.publishes id m hm
    exact .publish true hm fun _ => hid
  · exact .pubrel (h.releases id hid)

end Session.Holds

/-! ### Brokers -/

namespace Broker

/-- All messages of a broker satisfy `M`. -/
structure Holds (M : Message → Prop) (b : Broker) : Prop where
  retained : b.retained.Only M
  sessions : ∀ client s, b.session? client = some s → s.Holds M

variable {b b' : Broker} {client : String} {s : Session}

theorem holds_new (options : BrokerOptions) : (Broker.new options).Holds M :=
  ⟨RetainTree.only_empty, fun client s hs => by simp [session?, Broker.new] at hs⟩

theorem Holds.setSession (h : b.Holds M) (hs : s.Holds M) : (b.setSession client s).Holds M := by
  refine ⟨h.retained, fun other s' hs' => ?_⟩
  rw [session?_setSession] at hs'
  split at hs'
  · cases hs'
    exact hs
  · exact h.sessions other s' hs'

theorem Holds.deleteSession (h : b.Holds M) (client : String) : (b.deleteSession client).Holds M := by
  refine ⟨h.retained, fun other s' hs' => ?_⟩
  rw [session?_deleteSession] at hs'
  split at hs'
  · cases hs'
  · exact h.sessions other s' hs'

/-- Nothing that a broker holds changes. -/
theorem Holds.congr (h : b.Holds M) (hretained : b'.retained = b.retained) (hsessions : b'.sessions = b.sessions) :
    b'.Holds M :=
  ⟨hretained ▸ h.retained, fun client s hs => h.sessions client s (by rwa [session?, ← hsessions])⟩

theorem Holds.release (h : b.Holds M) (client : String) (token : Nat) : (b.releaseSession client token).Holds M := by
  unfold releaseSession
  cases hs : b.session? client with
  | none => exact h
  | some s =>
    dsimp only
    split
    · split
      · exact h.deleteSession client
      · rw [retainSession, modifySession_eq_of_some _ hs]
        exact h.setSession (h.sessions client s hs).retain
    · exact h

variable (hM : ∀ {m : Message} (q : QoS) (retain : Bool), M m → M (Session.outgoing m q retain))

include hM

theorem Holds.sends {ds : List Delivery} (h : b.Holds M) (hsends : Sends M b ds b') : b'.Holds M := by
  induction hsends with
  | nil => exact h
  | @cons m hm client q retain b b' ds _ ih =>
    refine ih ?_
    unfold sendTo
    cases hs : b.session? client with
    | none => exact h
    | some s => exact h.setSession ((h.sessions client s hs).send (hM q retain hm))

theorem Sends.told {ds : List Delivery} (hsends : Sends M b ds b') : ∀ d ∈ ds, d.packet.Told M := by
  intro d hd
  cases hsends.delivered d hd with
  | publish q retain _ hm hid => exact .publish false (hM q retain hm) hid

theorem Holds.publish (h : b.Holds M) (origin : Option String) {m : Message} (hm : M m) :
    (b.publish origin m).2.Holds M ∧ ∀ d ∈ (b.publish origin m).1, d.packet.Told M := by
  have hretain : (b.afterRetain m).Holds M := by
    unfold afterRetain
    split
    · exact ⟨h.retained.retain hm, h.sessions⟩
    · exact h
  have hsends := b.publish_sends origin hm
  exact ⟨hretain.sends hM hsends, hsends.told hM⟩

/-- Bringing a client up to date. -/
theorem Holds.restart {token : Nat} (h : b.Holds M) (hs : b.session? client = some s)
    (howner : s.owner = some token) :
    (b.restartSession client).2.Holds M ∧ ∀ d ∈ (b.restartSession client).1, d.packet.Told M := by
  obtain ⟨ds, hds, hsends⟩ := restartSession_sends h.retained hs howner (h.sessions client s hs).queue
  have hdropped : (b.setSession client { s with queue := [] }).Holds M :=
    h.setSession (h.sessions client s hs).dropQueue
  refine ⟨hdropped.sends hM hsends, fun d hd => ?_⟩
  rw [hds, List.mem_append] at hd
  rcases hd with hd | hd
  · exact hsends.told hM d hd
  · obtain ⟨p, hp, rfl⟩ := List.mem_map.1 hd
    exact (h.sessions client s hs).resend hp

theorem Holds.subscribe (h : b.Holds M) (client filter : String) (q : QoS) :
    (b.subscribe client filter q).2.2.Holds M ∧ (∀ d ∈ (b.subscribe client filter q).2.1, d.packet.Told M) ∧
      (b.subscribe client filter q).1 ∈ grantCodes := by
  unfold Broker.subscribe
  split
  · exact ⟨h, List.forall_mem_nil _, show subackFailure ∈ grantCodes by decide⟩
  · have hadd : ({ b with subscriptions :=
        (b.subscriptions.subscribe filter client (min q b.options.maxQoS)).2 } : Broker).Holds M := h.congr rfl rfl
    have hsends := replayRetained_sends hadd.retained client filter (min q b.options.maxQoS)
    have hcode (q : QoS) : q.toByte ∈ grantCodes := by cases q <;> decide
    exact ⟨hadd.sends hM hsends, hsends.told hM, hcode _⟩

theorem Holds.subscribeAll (topics : List TopicRequest) (h : b.Holds M) (client : String) :
    (Peer.subscribeAll b client topics).2.2.Holds M ∧
      (∀ d ∈ (Peer.subscribeAll b client topics).2.1, d.packet.Told M) ∧
      (∀ code ∈ (Peer.subscribeAll b client topics).1, code ∈ grantCodes) ∧
      (Peer.subscribeAll b client topics).1.length = topics.length := by
  induction topics generalizing b with
  | nil => exact ⟨h, List.forall_mem_nil _, List.forall_mem_nil _, rfl⟩
  | cons t ts ih =>
    obtain ⟨hfirst, htold, hcode⟩ := h.subscribe hM client t.filter t.qos
    obtain ⟨hrest, htolds, hcodes, hlength⟩ := ih hfirst
    refine ⟨hrest, fun d hd => ?_, List.forall_mem_cons.2 ⟨hcode, hcodes⟩, congrArg (· + 1) hlength⟩
    rcases List.mem_append.1 hd with hd | hd
    · exact htold d hd
    · exact htolds d hd

end Broker

/-! ### Packets -/

/-- There is at least one byte for each filter of a SUBSCRIBE. -/
theorem Packet.WellFormed.length_topics {id : UInt16} {topics : List TopicRequest}
    (h : (Packet.subscribe id topics).WellFormed) : 2 + topics.length ≤ RemainingLength.maxValue := by
  have hlength := h.length
  rw [Packet.length_body, Packet.remainingLength] at hlength
  have htotal : topics.length ≤ Wire.total (fun t => Wire.prefixedLength t.filter.utf8ByteSize + 1) topics := by
    clear h hlength
    induction topics with
    | nil => exact Nat.le_refl 0
    | cons t ts ih =>
      rw [List.length_cons, Wire.total, List.foldr_cons]
      have ih' := ih
      rw [Wire.total] at ih'
      omega
  omega

namespace Peer

open Broker

variable {p : Peer} {b : Broker} {now : Nat} {packet : Packet} {h : Handled}

/-- A PUBLISH is accepted only if its topic is a name, and not too long. -/
theorem handle_publish_topic {publish : Publish} (hh : p.handle b now (.publish publish) = .ok h) :
    Topic.isValidName publish.topic = true ∧ publish.topic.utf8ByteSize ≤ p.limits.maxTopicLength := by
  rw [handle, outcome_eq_ok, run_handlePacket] at hh
  split at hh
  · cases hh
  · split at hh
    · rw [handleConnected, run_handlePublish] at hh
      split at hh
      · cases hh
      · next hvalid => simpa [not_or, Nat.not_lt, Handled.start] using hvalid
    · cases hh

/-- An accepted packet leaves all messages as they may be, and makes what clients may be told. -/
theorem Accepts.holds (hM : ∀ {m : Message} (q : QoS) (retain : Bool), M m → M (Session.outgoing m q retain))
    (ha : Accepts p b now packet h) (hwell : packet.WellFormed) (hb : b.Holds M)
    (hdoor : ∀ publish, packet = .publish publish → M publish.message) :
    h.broker.Holds M ∧ ∀ d ∈ h.output, d.packet.Told M := by
  have hreply {q : Packet} (hq : q.Told M) : ∀ d ∈ [p.reply q], d.packet.Told M :=
    fun d hd => List.mem_singleton.1 hd ▸ hq
  have hreplies {reply : Option Packet} (h : ∀ q ∈ reply, q.Told M) :
      ∀ d ∈ reply.toList.map p.reply, d.packet.Told M := by
    cases reply with
    | none => exact List.forall_mem_nil _
    | some q => exact hreply (h q rfl)
  cases ha with
  | @fresh c id n =>
    have hassigned : ({ b with assigned := n } : Broker).Holds M := hb.congr rfl rfl
    exact ⟨(hassigned.deleteSession id).setSession (.new _ _ _), hreply (.connack _ _)⟩
  | @resumed c s _ _ _ hs _ =>
    have hrenewed : (b.setSession c.clientId (s.renew p.token)).Holds M :=
      hb.setSession ((hb.sessions _ s hs).renew p.token)
    have hmine : (b.setSession c.clientId (s.renew p.token)).session? c.clientId = some (s.renew p.token) := by simp
    obtain ⟨hholds, htold⟩ := hrenewed.restart hM hmine rfl
    exact ⟨hholds, List.forall_mem_cons.2 ⟨.connack _ _, htold⟩⟩
  | @routed client s publish reply inflight _ hs htakes =>
    have hnoted : (b.setSession client.id { s with inflight }).Holds M :=
      hb.setSession ((hb.sessions _ s hs).takes htakes)
    obtain ⟨hholds, htold⟩ := hnoted.publish hM (some client.id) (hdoor publish rfl)
    dsimp only
    exact ⟨hholds, List.forall_mem_append.2 ⟨hreplies (htakes.told), htold⟩⟩
  | @repeated client s publish reply inflight _ hs htakes =>
    exact ⟨hb.setSession ((hb.sessions _ s hs).takes htakes), hreplies (htakes.told)⟩
  | @acknowledged client s packet reply inflight _ hs hacks =>
    exact ⟨hb.setSession ((hb.sessions _ s hs).acks hacks), hreplies (hacks.told)⟩
  | @subscribed client id topics _ hid =>
    obtain ⟨hholds, htold, hcodes, hlength⟩ := hb.subscribeAll hM topics client.id
    have hfits := hwell.length_topics
    exact ⟨hholds, List.forall_mem_cons.2 ⟨.suback hid hcodes (hlength ▸ hfits), htold⟩⟩
  | @unsubscribed client id filters _ hid =>
    refine ⟨?_, hreply (.unsuback hid)⟩
    have hsame (filters : List String) (b : Broker) (hb : b.Holds M) :
        (filters.foldl (fun b filter => b.unsubscribe client.id filter) b).Holds M := by
      induction filters generalizing b with
      | nil => exact hb
      | cons filter filters ih => exact ih _ (hb.congr rfl rfl)
    exact hsame filters b hb
  | pinged => exact ⟨hb, hreply .pingresp⟩
  | left => exact ⟨hb, List.forall_mem_nil _⟩

end Peer

/-! ### Doors -/

/-- What is asked of messages where they come in, and of all messages inside. It has to follow from what the
decoder and a connection with certain limits check of a PUBLISH, and to survive that a message goes out. Of a
will nothing is checked but its spelling. -/
structure Doors where
  limits : ConnectionLimits → Prop
  will : Message → Prop
  message : Message → Prop
  published : ∀ {l : ConnectionLimits} {p : Publish}, limits l → (Packet.publish p).WellFormed →
    Topic.isValidName p.topic = true → p.topic.utf8ByteSize ≤ l.maxTopicLength → message p.message
  willed : ∀ {w : Will}, w.WellFormed → will w.message
  outgoing : ∀ {m : Message} (q : QoS) (retain : Bool), message m → message (Session.outgoing m q retain)

/-- What an operation makes due, replies to the client itself included. -/
def Broker.Moment.output (m : Moment) : List Delivery :=
  match m.operation with
  | .packet p now packet =>
    match p.handle m.broker now packet with
    | .ok h => h.output
    | .error r => r.handled.output
  | .publish origin message => (m.broker.publish origin message).1
  | .release _ _ | .restart _ => []

namespace Doors

variable (D : Doors)

/-- An operation that comes through the doors, within one run of the broker. -/
def Admits : Broker.Operation → Prop
  | .packet p _ packet => D.limits p.limits ∧ packet.WellFormed
  | .publish _ m => D.message m
  | .release _ _ => True
  | .restart _ => False

/-- A connection with the limits that are asked for, whose client has left no other will. -/
def Minds (p : Peer) : Prop := D.limits p.limits ∧ ∀ client ∈ p.client, ∀ m ∈ client.will, D.will m

variable {D}

/-- **What comes through the doors is all there is**, in the broker and on its way out. -/
theorem admits_operate {m : Broker.Moment} (hm : D.Admits m.operation) (hb : m.broker.Holds D.message) :
    (m.broker.operate m.operation).Holds D.message ∧ ∀ d ∈ m.output, d.packet.Told D.message := by
  obtain ⟨b, op⟩ := m
  cases op with
  | packet p now packet =>
    obtain ⟨hlimits, hwell⟩ := hm
    dsimp only [Broker.operate, Broker.Moment.output]
    rcases hh : p.handle b now packet with r | h
    · dsimp only
      rw [(Peer.handled_of_refused hh).1, Peer.output_of_refused hh]
      refine ⟨hb, fun d hd => ?_⟩
      obtain ⟨q, hq, rfl⟩ := List.mem_map.1 hd
      obtain ⟨code, -, rfl⟩ := Peer.handle_reply hh (Option.mem_toList.1 hq)
      exact .connack false code
    · refine (Peer.handle_ok hh).2.holds D.outgoing hwell hb fun publish hpublish => ?_
      subst hpublish
      obtain ⟨hname, hlength⟩ := Peer.handle_publish_topic hh
      exact D.published hlimits hwell hname hlength
  | publish origin message => exact hb.publish D.outgoing origin hm
  | release client token => exact ⟨hb.release client token, List.forall_mem_nil _⟩
  | restart => exact hm.elim

/-- A connection takes over the will of a CONNECT, and no other. -/
theorem Minds.handle {p : Peer} {b : Broker} {now : Nat} {packet : Packet} {h : Peer.Handled} (hp : D.Minds p)
    (hwell : packet.WellFormed) (hh : p.handle b now packet = .ok h) : D.Minds h.peer := by
  have hintroduced {c : Connect} (hc : (Packet.connect c).WellFormed) (id : String) :
      D.Minds (p.introduce now c id) := by
    refine ⟨hp.1, fun client hclient m hm => ?_⟩
    obtain rfl : _ = client := Option.some.inj hclient
    obtain ⟨w, hw, rfl⟩ := Option.map_eq_some_iff.1 hm
    exact D.willed (hc.fields.will w hw)
  cases (Peer.handle_ok hh).2 with
  | fresh => exact hintroduced hwell _
  | resumed => exact hintroduced hwell _
  | routed | repeated | acknowledged | subscribed | unsubscribed | pinged => exact hp
  | left =>
    refine ⟨hp.1, fun client hclient m hm => ?_⟩
    obtain ⟨client', -, rfl⟩ := Option.map_eq_some_iff.1 hclient
    cases hm

end Doors

end Mqtt
