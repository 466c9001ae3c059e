import Mqtt.Proofs.Handing
import Mqtt.Proofs.Legible
import Mqtt.Proofs.Tracking

/-!
# How identifiers are used: `InflightState`, `PacketIdAllocator`

A message that is to be acknowledged is sent under an identifier that nothing else holds, and holds it until its
handshake is over. Sessions and clients use the same handshakes, and `Inflight.Step` lists what may happen to these:
nothing, a packet that arrives, or a message that takes a free identifier. So an identifier never stands for a message
and for a release at once, and sending everything again names each identifier in use exactly once
(`identifiers_disciplined`), whatever arrives and however often the counter has gone round.
-/

namespace Mqtt

/-- The packet is a PUBLISH that is sent for the first time and is to be acknowledged. -/
def Packet.isFirst : Packet → Bool
  | .publish p => !p.dup && p.qos.isAcknowledged
  | _ => false

theorem Packet.isFirst_again (m : Message) (id : UInt16) : isFirst (.publish (m.toPublish id true)) = false := by
  simp [isFirst, Message.toPublish]

namespace Inflight

/-- How the identifiers of this side are used. -/
structure Disciplined (s : Inflight) : Prop where
  /-- No identifier stands for a message and for a release at once, -/
  apart : ∀ id : UInt16, s.publishes.contains id = true → s.releases.contains id = false
  /-- 0 stands for nothing, -/
  nonzero : s.isInUse 0 = false
  /-- and what is kept is to be acknowledged. -/
  acknowledged : ∀ (id : UInt16) (m : Message), s.publishes[id]? = some m → m.qos.isAcknowledged = true

/-- The PUBLISH takes an identifier that was free, and its message is kept under it. -/
def Numbers (s s' : Inflight) (p : Publish) : Prop :=
  ∃ id, p.packetId = some id ∧ id ≠ 0 ∧ s.isInUse id = false ∧ s'.publishes[id]? = some p.message

/-- The packets take up every handshake again. -/
structure TakesUp (s : Inflight) (packets : List Packet) : Prop where
  /-- The messages come first, marked as duplicates and otherwise as they are kept, and then the releases; both in the
  order of their identifiers. -/
  lists : ∃ (kept : List (UInt16 × Message)) (released : List UInt16),
    packets = kept.map (fun e => .publish ⟨true, e.2.qos, e.2.retain, e.2.topic, some e.1, e.2.payload⟩)
      ++ released.map .pubrel ∧
    (kept.map (·.1)).Pairwise (· < ·) ∧ released.Pairwise (· < ·) ∧
    (∀ id m, (id, m) ∈ kept ↔ s.publishes[id]? = some m) ∧ ∀ id, id ∈ released ↔ s.releases.contains id = true
  /-- Each identifier in use is named once, and no other. -/
  once : ∀ id, packets.countP (·.requests id) = if s.isInUse id then 1 else 0

/-- What may happen to the open handshakes, with the packets that go out meanwhile. -/
inductive Step (s : Inflight) : List Packet → Inflight → Prop
  | rests {ps : List Packet} : (∀ q ∈ ps, q.isFirst = false) → Step s ps s
  | takes {ps : List Packet} {p : Publish} {arrival : Arrival} {s' : Inflight} : (∀ q ∈ ps, q.isFirst = false) →
      s.Takes p arrival s' → Step s ps s'
  | acks {ps : List Packet} {packet : Packet} {reply : Option Packet} {s' : Inflight} :
      (∀ q ∈ ps, q.isFirst = false) → s.Acks packet reply s' → Step s ps s'
  /-- A message takes a free identifier. -/
  | numbers {id : UInt16} {m : Message} : id ≠ 0 → s.isInUse id = false → m.qos.isAcknowledged = true →
      Step s [.publish (m.toPublish id false)] (s.track id m)

variable {s s' : Inflight} {ps : List Packet} {id : UInt16}

/-! ### Steps -/

theorem disciplined_empty : empty.Disciplined where
  apart := by simp [empty]
  nonzero := by simp [empty, isInUse]
  acknowledged := by simp [empty]

/-- A message may be kept under a free identifier. -/
theorem Disciplined.track (h : s.Disciplined) (hid : id ≠ 0) (hfree : s.isInUse id = false) {m : Message}
    (hq : m.qos.isAcknowledged = true) : (s.track id m).Disciplined where
  apart other hother := by
    rw [isInUse, Bool.or_eq_false_iff] at hfree
    by_cases heq : id = other
    · exact heq ▸ hfree.2
    · exact h.apart other (by simpa [Inflight.track, Std.ExtTreeMap.contains_insert, heq] using hother)
  nonzero := by simpa [isInUse, Inflight.track, Std.ExtTreeMap.contains_insert, hid] using h.nonzero
  acknowledged other m' hm' := by
    rw [Inflight.track, Std.ExtTreeMap.getElem?_insert] at hm'
    split at hm'
    · cases hm'
      exact hq
    · exact h.acknowledged other m' hm'

theorem Disciplined.takes (h : s.Disciplined) {p : Publish} {arrival : Arrival} (htakes : s.Takes p arrival s') :
    s'.Disciplined := by
  cases htakes with
  | atMostOnce | atLeastOnce => exact h
  | exactlyOnce => exact ⟨h.apart, h.nonzero, h.acknowledged⟩

/-- What an acknowledgement gives up as a message it may take for a release, and nothing else. -/
theorem Disciplined.acks (h : s.Disciplined) {packet : Packet} {reply : Option Packet}
    (hacks : s.Acks packet reply s') : s'.Disciplined := by
  have hacknowledged (k id : UInt16) (m : Message) (hm : (s.publishes.erase k)[id]? = some m) :
      m.qos.isAcknowledged = true := by
    rw [Std.ExtTreeMap.getElem?_erase] at hm
    split at hm
    · cases hm
    · exact h.acknowledged id m hm
  have hapart (id : UInt16) := h.apart id
  have hnonzero := h.nonzero
  simp only [isInUse, Bool.or_eq_false_iff] at hnonzero
  cases hacks with
  | @puback k hk =>
    refine ⟨fun id hid => ?_, ?_, hacknowledged k⟩
    · simp only [Std.ExtTreeMap.contains_erase, Bool.and_eq_true] at hid
      exact hapart id hid.2
    · simp [isInUse, hnonzero]
  | @pubrec k hk =>
    refine ⟨fun id hid => ?_, ?_, hacknowledged k⟩
    · simp only [Std.ExtTreeMap.contains_erase, Bool.and_eq_true, bne_iff_ne, Std.compare_eq_iff_eq, ne_eq] at hid
      simp [Std.ExtTreeSet.contains_insert, hid.1, hapart id hid.2]
    · simp [isInUse, hnonzero, Std.ExtTreeSet.contains_insert, hk]
  | pubrel => exact ⟨h.apart, h.nonzero, h.acknowledged⟩
  | @pubcomp k hk =>
    refine ⟨fun id hid => ?_, ?_, hacknowledged k⟩
    · simp only [Std.ExtTreeMap.contains_erase, Bool.and_eq_true] at hid
      simp [Std.ExtTreeSet.contains_erase, hapart id hid.2]
    · simp [isInUse, hnonzero]

theorem Step.disciplined (h : s.Step ps s') (hs : s.Disciplined) : s'.Disciplined := by
  cases h with
  | rests => exact hs
  | takes _ htakes => exact hs.takes htakes
  | acks _ hacks => exact hs.acks hacks
  | numbers hid hfree hq => exact hs.track hid hfree hq

/-- What goes out for the first time takes a free identifier. -/
theorem Step.numbers_of_isFirst (h : s.Step ps s') {p : Publish} (hp : .publish p ∈ ps)
    (hfirst : Packet.isFirst (.publish p) = true) : s.Numbers s' p := by
  have hquiet (hps : ∀ q ∈ ps, q.isFirst = false) : s.Numbers s' p := by
    rw [hps _ hp] at hfirst
    cases hfirst
  cases h with
  | rests hps | takes hps | acks hps => exact hquiet hps
  | @numbers id m hid hfree hq =>
    cases List.mem_singleton.1 hp
    exact ⟨id, if_pos hq, hid, hfree, by simp [Inflight.track, Message.message_toPublish]⟩

/-! ### Sending everything again -/

theorem countP_publishes (h : s.Disciplined) (id : UInt16) :
    (s.publishes.toList.map fun (id, m) => Packet.publish (m.toPublish id true)).countP (·.requests id) =
      if s.publishes.contains id then 1 else 0 := by
  rw [List.countP_eq_length_filter]
  rcases Exchange.resend_publishes s id with hnil | ⟨m, hm, hone⟩
  · rw [hnil, if_neg]
    · rfl
    · intro hkept
      obtain ⟨m, hm⟩ := Option.isSome_iff_exists.1 (Std.ExtTreeMap.contains_eq_isSome_getElem?.symm.trans hkept)
      have hmem := List.mem_map_of_mem (f := fun (id, m) => Packet.publish (m.toPublish id true))
        (Std.ExtTreeMap.mem_toList_iff_getElem?_eq_some.2 hm)
      have hnamed : Packet.requests id (.publish (m.toPublish id true)) = true := by
        simp [Message.toPublish, h.acknowledged id m hm]
      exact List.filter_eq_nil_iff.1 hnil _ hmem hnamed
  · rw [hone, if_pos (by simp [Std.ExtTreeMap.contains_eq_isSome_getElem?, hm])]
    rfl

theorem countP_releases (s : Inflight) (id : UInt16) :
    (s.releases.toList.map Packet.pubrel).countP (·.requests id) = if s.releases.contains id then 1 else 0 := by
  rw [List.countP_eq_length_filter]
  rcases Exchange.resend_releases s id with hnil | ⟨hreleased, hone⟩
  · rw [hnil, if_neg]
    · rfl
    · intro hreleased
      have hmem := List.mem_map_of_mem (f := Packet.pubrel)
        (Std.ExtTreeSet.mem_toList.2 (Std.ExtTreeSet.contains_iff_mem.1 hreleased))
      exact List.filter_eq_nil_iff.1 hnil _ hmem (by simp)
  · rw [hone, if_pos hreleased]
    rfl

/-- **Sending everything again takes up every handshake once.** -/
theorem Disciplined.resend (h : s.Disciplined) : s.TakesUp s.resend where
  lists := by
    refine ⟨s.publishes.toList, s.releases.toList, ?_, ?_, ?_, fun id m => ?_, fun id => ?_⟩
    · have hkept : ∀ e ∈ s.publishes.toList, Packet.publish (e.2.toPublish e.1 true) =
          .publish ⟨true, e.2.qos, e.2.retain, e.2.topic, some e.1, e.2.payload⟩ := by
        intro e he
        have hq := h.acknowledged e.1 e.2 (Std.ExtTreeMap.mem_toList_iff_getElem?_eq_some.1 he)
        simp [Message.toPublish, hq]
      rw [Inflight.resend, List.map_congr_left hkept]
    · exact List.pairwise_map.2 (s.publishes.ordered_keys_toList.imp Std.compare_eq_lt.1)
    · exact s.releases.ordered_toList.imp Std.compare_eq_lt.1
    · exact Std.ExtTreeMap.mem_toList_iff_getElem?_eq_some
    · rw [Std.ExtTreeSet.mem_toList, Std.ExtTreeSet.contains_iff_mem]
  once id := by
    rw [Inflight.resend, List.countP_append, countP_publishes h, countP_releases, isInUse]
    by_cases hkept : s.publishes.contains id = true
    · simp [hkept, h.apart id hkept]
    · simp [hkept]

end Inflight

/-! ### Sessions -/

namespace Session

/-- What is done with a session. -/
inductive Operation where
  | send (x : Sending)
  | renew (token : Nat)
  | retain
  /-- What waits is taken out. -/
  | takeQueue
  | setMaxQueued (maxQueued : Nat)
  /-- A packet of the client arrives, whatever it is. -/
  | receive (packet : Packet)

def perform (s : Session) : Operation → Option Delivery × Session
  | .send x => s.send x.message x.qos x.retain
  | .renew token => (none, s.renew token)
  | .retain => (none, s.retain)
  | .takeQueue => (none, s.dropQueue)
  | .setMaxQueued maxQueued => (none, { s with maxQueued })
  | .receive packet => (none, { s with inflight := s.inflight.receive packet })

def performAll (s : Session) (ops : List Operation) : Session := ops.foldl (fun s op => (s.perform op).2) s

/-- The packets that an operation sends. -/
def sends (s : Session) (op : Operation) : List Packet := (s.perform op).1.toList.map (·.packet)

theorem perform_step (s : Session) (op : Operation) : s.inflight.Step (s.sends op) (s.perform op).2.inflight := by
  have hquiet : ∀ q ∈ ([] : List Packet), q.isFirst = false := nofun
  cases op with
  | send x =>
    have houtcome := s.send_outcome x.message x.qos x.retain
    rw [sends, perform]
    generalize s.send x.message x.qos x.retain = sent at houtcome ⊢
    obtain ⟨d, s'⟩ := sent
    cases houtcome with
    | absent =>
      rw [superseded]
      split <;> exact .rests hquiet
    | exhausted => exact .rests hquiet
    | tracked _ hq hid hfree => exact .numbers hid hfree hq
    | passed _ hq => exact .rests (by simp [Packet.isFirst, Message.toPublish, hq])
  | renew | retain | takeQueue | setMaxQueued => exact .rests hquiet
  | receive packet =>
    rw [sends, perform]
    rcases s.inflight.receive_cases packet with h | ⟨p, arrival, -, htakes⟩ | ⟨reply, hacks⟩
    · rw [h]
      exact .rests hquiet
    · exact .takes hquiet htakes
    · exact .acks hquiet hacks

theorem performAll_disciplined {s : Session} (hs : s.inflight.Disciplined) (ops : List Operation) :
    (s.performAll ops).inflight.Disciplined := by
  induction ops generalizing s with
  | nil => exact hs
  | cons op ops ih => exact ih ((s.perform_step op).disciplined hs)

end Session

/-! ### Clients -/

namespace Client

/-- The only call that publishes. -/
theorem Call.makes_publish {c : Call} (hc : ∀ m, c ≠ .publish m) (p : Publish) : ¬ c.Makes (.publish p) := by
  cases c with
  | publish m => exact absurd rfl (hc m)
  | connect | disconnect | pollTimers => nofun
  | subscribe | unsubscribe => exact fun h => nomatch h.2
  | receive | connectionLost | nextEvent | written => exact id

/-- A message that is published goes out under a free identifier, or without one. -/
theorem Link.publish_step (l : Link) (m : Message) :
    l.inflight.Step (publishedAs m (l.publish m).1) (l.publish m).2.inflight := by
  have hquiet : ∀ q ∈ ([] : List Packet), q.isFirst = false := nofun
  unfold publish
  split
  · exact .rests hquiet
  · split
    · exact .rests hquiet
    · split
      · next hq =>
        obtain ⟨packetIds, ⟨e, hid⟩ | ⟨id, hne, hfree, hid⟩⟩ := l.withId_cases fun id l =>
          (some id, { l with inflight := l.inflight.track id m }.send (.publish (m.toPublish id false)))
        · rw [hid]
          exact .rests hquiet
        · rw [hid]
          exact .numbers hne hfree hq
      · next hq => exact .rests (by simp [publishedAs, Packet.isFirst, Message.toPublish, hq])

/-- A turn in which nothing is published sends nothing for the first time. -/
theorem Link.Moves.step {makes : Packet → Prop} {l : Link} {packet : Option Packet} {qs : List Packet}
    {es : List Event} {state : State} {inflight : Inflight} (hmakes : ∀ p, ¬ makes (.publish p))
    (h : l.Moves makes packet qs es state inflight) :
    (∀ q ∈ qs, q.isFirst = false) ∧ l.inflight.Step qs inflight := by
  have hquiet : ∀ q ∈ qs, q.isFirst = false := by
    intro q hq
    rcases h.mem_said hq with hmade | ⟨id, rfl | rfl | rfl | rfl⟩ | ⟨id, m, -, rfl⟩
    · cases q with
      | publish p => exact absurd hmade (hmakes p)
      | connect | connack | puback | pubrec | pubrel | pubcomp | subscribe | suback | unsubscribe | unsuback
      | pingreq | pingresp | disconnect => rfl
    · rfl
    · rfl
    · rfl
    · rfl
    · exact Packet.isFirst_again m id
  refine ⟨hquiet, ?_⟩
  cases h with
  | rests | asks | ends | joins => exact .rests hquiet
  | keeps _ hmade => exact absurd hmade (hmakes _)
  | hears _ hhears =>
    cases hhears with
    | message htakes => exact .takes hquiet htakes
    | puback hacks | pubrec hacks | pubrel hacks | pubcomp hacks => exact .acks hquiet hacks
    | subscribed | unsubscribed | ponged => exact .rests hquiet

namespace Journal

/-- The packets are what was said between two states of the journal: behind what was said before, or first on a new
connection. -/
def Adds (j j' : Journal) (news : List Packet) : Prop :=
  j'.said = (if j'.opened = j.opened then j.said else []) ++ news

/-- Nothing was said for the first time between two states of the journal. -/
structure Quiet (j j' : Journal) : Prop where
  opened : j.opened ≤ j'.opened
  disciplined : j'.client.inflight.Disciplined
  adds : ∃ news, j.Adds j' news ∧ ∀ q ∈ news, q.isFirst = false

variable {j j₁ j₂ : Journal}

theorem Quiet.opens (h : j.Quiet j₁) {config : Config} (ho : j₁.Opens config j₂) : j.Quiet j₂ := by
  have hopened := h.opened
  have hnew := ho.opened
  refine ⟨by omega, ?_, [Link.connectPacket config], ?_, ?_⟩
  · rw [Protocol.inflight, ho.inflight]
    split
    · exact Inflight.disciplined_empty
    · exact h.disciplined
  · rw [Adds, ho.said, if_neg (by omega)]
    rfl
  · simp [Link.connectPacket, Packet.isFirst]

theorem Quiet.turn (h : j.Quiet j₁) {makes : Packet → Prop} (hmakes : ∀ p, ¬ makes (.publish p))
    {packet : Option Packet} {qs : List Packet} {es : List Event} (ht : j₁.Turn makes j₂ packet qs es) :
    j.Quiet j₂ := by
  obtain ⟨hopened, hdisciplined, news, hadds, hnews⟩ := h
  obtain ⟨hquiet, hstep⟩ := ht.moves.step hmakes
  refine ⟨ht.opened ▸ hopened, hstep.disciplined hdisciplined, news ++ qs, ?_, ?_⟩
  · rw [Adds, ht.said, hadds, ht.opened, List.append_assoc]
  · intro q hq
    exact (List.mem_append.1 hq).elim (hnews q) (hquiet q)

/-- **What a call does with identifiers.** -/
theorem call_numbers (hj : j.client.inflight.Disciplined) (c : Call) :
    (j.call c).client.inflight.Disciplined ∧ ∃ news, j.Adds (j.call c) news ∧
      ∀ p, .publish p ∈ news → Packet.isFirst (.publish p) = true →
        j.client.inflight.Numbers (j.call c).client.inflight p := by
  by_cases hc : ∃ m, c = .publish m
  · obtain ⟨m, rfl⟩ := hc
    have hstep := j.client.link.publish_step m
    have hadds : j.Adds (j.call (.publish m)) (publishedAs m (j.client.publish m).1) :=
      congrArg (· ++ _) (if_pos rfl).symm
    exact ⟨hstep.disciplined hj, _, hadds, fun p hp hfirst => hstep.numbers_of_isFirst hp hfirst⟩
  · have hmakes := Call.makes_publish (not_exists.1 hc)
    have hstart : j.Quiet j := ⟨Nat.le_refl _, hj, [], by simp [Adds], nofun⟩
    obtain ⟨-, hdisciplined, news, hadds, hnews⟩ :=
      call_induction (P := j.Quiet) c (fun _ ho h => h.opens ho) (fun ht h => h.turn hmakes ht) hstart
    refine ⟨hdisciplined, news, hadds, fun p hp hfirst => ?_⟩
    rw [hnews _ hp] at hfirst
    cases hfirst

theorem run_disciplined (hj : j.client.inflight.Disciplined) (calls : List Call) :
    (j.run calls).client.inflight.Disciplined := by
  induction calls generalizing j with
  | nil => exact hj
  | cons c calls ih => exact ih (call_numbers hj c).1

end Journal

end Client

/-! ### All runs -/

/-- **Identifiers are used with discipline** by every session and by every client, whatever is done with them: an
identifier never stands for a message and for a release at once, 0 stands for nothing, and what is kept is to be
acknowledged. Whatever is done next, each PUBLISH that goes out for the first time takes an identifier that was free,
and its message is kept under it. Sending everything again takes up every handshake, and names each identifier in use
once. -/
theorem identifiers_disciplined :
    (∀ (owner : Nat) (cleanSession : Bool) (maxQueued : Nat) (ops : List Session.Operation),
      let s := (Session.new owner cleanSession maxQueued).performAll ops
      s.inflight.Disciplined ∧ s.inflight.TakesUp s.inflight.resend ∧
        ∀ op p, .publish p ∈ s.sends op → Packet.isFirst (.publish p) = true →
          s.inflight.Numbers (s.perform op).2.inflight p) ∧
    ∀ (maxPacketSize : Nat) (calls : List Client.Call),
      let j := (Client.Journal.start .empty maxPacketSize).run calls
      j.client.inflight.Disciplined ∧ j.client.inflight.TakesUp j.client.inflight.resend ∧
        ∀ c, ∃ news, j.Adds (j.call c) news ∧
          ∀ p, .publish p ∈ news → Packet.isFirst (.publish p) = true →
            j.client.inflight.Numbers (j.call c).client.inflight p := by
  constructor
  · intro owner cleanSession maxQueued ops s
    have hs : s.inflight.Disciplined := Session.performAll_disciplined Inflight.disciplined_empty ops
    exact ⟨hs, hs.resend, fun op p hp hfirst => (s.perform_step op).numbers_of_isFirst hp hfirst⟩
  · intro maxPacketSize calls j
    have hstart : (Client.Journal.start .empty maxPacketSize).client.inflight.Disciplined :=
      Inflight.disciplined_empty
    have hj : j.client.inflight.Disciplined := Client.Journal.run_disciplined hstart calls
    exact ⟨hj, hj.resend, fun c => (Client.Journal.call_numbers hj c).2⟩

end Mqtt
