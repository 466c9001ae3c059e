import Mqtt.Proofs.Exchange
import Mqtt.Proofs.Journal
import Mqtt.Proofs.Packets
import Mqtt.Proofs.StreamCuts

/-!
# What a client says and what can be read of it: `ClientProtocol::publish`, `StringDecoder`

A client queues what it was called for, and a decoder on the other side reads it. Writing a packet refuses nothing,
reading refuses a text with U+0000 and a password without a user name; `Packet.wellFormed_iff` separates these from
what is too long, and from what a client never queues. So the bytes of a connection are read as the packets they were
written for if and only if these are legible (`Journal.run_read_iff`). Calls that are legible say nothing else. A call
that is not is taken like any other, though nobody can read what it queues (`Journal.illegible_said`).
-/

namespace Mqtt

/-! ### Legible packets -/

namespace Packet

/-- The texts of a packet. -/
def texts : Packet → List String
  | .connect c => c.protocolName :: c.clientId :: ((c.will.map (·.topic)).toList ++ c.username.toList)
  | .publish p => [p.topic]
  | .subscribe _ topics => topics.map (·.filter)
  | .unsubscribe _ filters => filters
  | _ => []

/-- The byte strings of a packet that are written behind their length. -/
def binaries : Packet → List ByteArray
  | .connect c => (c.will.map (·.payload)).toList ++ c.password.toList
  | _ => []

/-- Texts, byte strings and the body are not longer than can be announced. -/
structure Short (p : Packet) : Prop where
  texts : ∀ s ∈ p.texts, s.utf8ByteSize ≤ 65535
  binaries : ∀ b ∈ p.binaries, b.size ≤ 65535
  body : p.body.length ≤ RemainingLength.maxValue

/-- No password comes without a user name. -/
def Named : Packet → Prop
  | .connect c => c.password.isSome = true → c.username.isSome = true
  | _ => True

/-- There is no U+0000 in the texts, and no password without a user name. -/
structure Legible (p : Packet) : Prop where
  texts : ∀ s ∈ p.texts, '\x00' ∉ s.toList
  named : p.Named

instance (p : Packet) : Decidable p.Short :=
  decidable_of_iff ((∀ s ∈ p.texts, s.utf8ByteSize ≤ 65535) ∧ (∀ b ∈ p.binaries, b.size ≤ 65535) ∧
      p.body.length ≤ RemainingLength.maxValue)
    ⟨fun ⟨htexts, hbinaries, hbody⟩ => ⟨htexts, hbinaries, hbody⟩, fun h => ⟨h.texts, h.binaries, h.body⟩⟩

instance : (p : Packet) → Decidable p.Named
  | .connect c => inferInstanceAs (Decidable (c.password.isSome = true → c.username.isSome = true))
  | .connack _ _ | .publish _ | .puback _ | .pubrec _ | .pubrel _ | .pubcomp _ | .subscribe _ _ | .suback _ _
  | .unsubscribe _ _ | .unsuback _ | .pingreq | .pingresp | .disconnect => isTrue trivial

instance (p : Packet) : Decidable p.Legible :=
  decidable_of_iff ((∀ s ∈ p.texts, '\x00' ∉ s.toList) ∧ p.Named)
    ⟨fun ⟨htexts, hnamed⟩ => ⟨htexts, hnamed⟩, fun h => ⟨h.texts, h.named⟩⟩

/-- What packets of its kind carry is there. -/
def Complete : Packet → Prop
  | .publish p => p.packetId.isSome = p.qos.isAcknowledged
  | .subscribe _ topics => topics ≠ []
  | .suback _ codes => ∀ code ∈ codes, code ∈ grantCodes
  | .unsubscribe _ filters => filters ≠ []
  | _ => True

theorem fieldsFit_iff {p : Packet} :
    p.FieldsFit ↔ p.Complete ∧ (∀ s ∈ p.texts, Wire.IsText s) ∧ (∀ b ∈ p.binaries, b.size ≤ 65535) ∧ p.Named := by
  cases p with
  | connect c =>
    obtain ⟨name, level, clean, keepAlive, id, will, username, password⟩ := c
    constructor
    · rintro ⟨hname, hid, hwill, husername, hpassword, hnamed⟩
      refine ⟨trivial, ?_, ?_, hnamed⟩
      · cases will <;> cases username <;> simp_all [texts, Will.WellFormed]
      · cases will <;> cases password <;> simp_all [binaries, Will.WellFormed]
    · rintro ⟨-, htexts, hbinaries, hnamed⟩
      refine ⟨htexts _ (by simp [texts]), htexts _ (by simp [texts]), ?_, ?_, ?_, hnamed⟩
      · rintro w rfl
        exact ⟨htexts _ (by simp [texts]), hbinaries _ (by simp [binaries])⟩
      · rintro u rfl
        exact htexts _ (by simp [texts])
      · rintro b rfl
        exact hbinaries _ (by simp [binaries])
  | publish p => simp [FieldsFit, Publish.WellFormed, Complete, texts, binaries, Named, and_comm]
  | subscribe | unsubscribe => simp [FieldsFit, Complete, texts, binaries, Named]
  | suback | connack | puback | pubrec | pubrel | pubcomp | unsuback | pingreq | pingresp | disconnect =>
    simp [FieldsFit, Complete, texts, binaries, Named]

/-- A packet is well-formed if it is complete, short enough, and legible. -/
theorem wellFormed_iff {p : Packet} : p.WellFormed ↔ p.Complete ∧ p.Short ∧ p.Legible := by
  constructor
  · rintro ⟨hfit, hbody⟩
    obtain ⟨hcomplete, htexts, hbinaries, hnamed⟩ := fieldsFit_iff.1 hfit
    exact ⟨hcomplete, ⟨fun s hs => (htexts s hs).1, hbinaries, hbody⟩, ⟨fun s hs => (htexts s hs).2, hnamed⟩⟩
  · rintro ⟨hcomplete, ⟨hlengths, hbinaries, hbody⟩, ⟨hnull, hnamed⟩⟩
    exact ⟨fieldsFit_iff.2 ⟨hcomplete, fun s hs => ⟨hlengths s hs, hnull s hs⟩, hbinaries, hnamed⟩, hbody⟩

end Packet

/-- Only well-formed packets are read. -/
theorem Decoder.wellFormed_of_next {d : Decoder} {bs rest : List UInt8} {p : Packet}
    (h : (new 0).next bs = (d, .ok (some p), rest)) : p.WellFormed := by
  have hnext : State.next 0 (.header .start) bs = (_, .ok (some p), rest) :=
    Prod.ext rfl (show ((new 0).next bs).2 = (.ok (some p), rest) by rw [h])
  obtain ⟨-, -, hfit, field, hspells, -⟩ := State.next_start_iff.1 hnext
  exact ⟨hfit, hspells.le_maxValue⟩

/-- Packets that are written one after the other are read as they were if and only if they are well-formed. -/
theorem Decoder.calls_encode_iff {ps : List Packet} :
    (new 0).calls (ps.flatMap Packet.encode) ps.length = (ps.map fun p => (.ok (some p), p.encode.length), new 0, [])
      ↔ ∀ p ∈ ps, p.WellFormed := by
  induction ps with
  | nil => exact iff_of_true rfl (List.forall_mem_nil _)
  | cons p ps ih =>
    rw [List.forall_mem_cons, ← ih, List.flatMap_cons, List.length_cons, calls, List.map_cons]
    constructor
    · intro h
      -- That the first call brings the packet shows that it is well-formed, and then what the call left.
      have hp : p.WellFormed := by
        rcases hnext : (new 0).next (p.encode ++ ps.flatMap Packet.encode) with ⟨d, y, rest⟩
        rw [hnext] at h
        obtain rfl : y = .ok (some p) := congrArg Prod.fst (List.cons.inj (Prod.mk.inj h).1).1
        exact wellFormed_of_next hnext
      rw [next_encode hp] at h
      obtain ⟨hbrought, hlast⟩ := Prod.mk.inj h
      exact ⟨hp, Prod.ext (List.cons.inj hbrought).2 hlast⟩
    · rintro ⟨hp, hps⟩
      rw [next_encode hp]
      dsimp only
      rw [hps, List.length_append, Nat.add_sub_cancel]

namespace Client

/-! ### What a client says -/

/-- A packet that carries a handshake on, and nothing but its identifier. -/
def HandshakeStep (p : Packet) : Prop :=
  ∃ id, p = .puback id ∨ p = .pubrec id ∨ p = .pubrel id ∨ p = .pubcomp id

theorem handshakeStep_of_mem_answers {packet q : Packet} (h : q ∈ answers packet) : HandshakeStep q := by
  cases packet with
  | publish p =>
    cases hq : p.qos with
    | atMostOnce => simp [answers, hq] at h
    | atLeastOnce => exact ⟨p.packetId.getD 0, .inl (by simpa [answers, hq] using h)⟩
    | exactlyOnce => exact ⟨p.packetId.getD 0, .inr (.inl (by simpa [answers, hq] using h))⟩
  | pubrec id => exact ⟨id, .inr (.inr (.inl (List.mem_singleton.1 h)))⟩
  | pubrel id => exact ⟨id, .inr (.inr (.inr (List.mem_singleton.1 h)))⟩
  | connect | connack | puback | pubcomp | subscribe | suback | unsubscribe | unsuback | pingreq | pingresp
  | disconnect => cases h

namespace Link

variable {makes : Packet → Prop} {l : Link} {packet : Option Packet} {qs : List Packet} {es : List Event}
  {s : State} {inflight : Inflight}

/-- Besides what a call makes, messages that are kept are said again, and handshakes are carried on. -/
theorem Moves.mem_said (h : l.Moves makes packet qs es s inflight) {q : Packet} (hq : q ∈ qs) :
    makes q ∨ HandshakeStep q ∨
      ∃ (id : UInt16) (m : Message), l.inflight.publishes[id]? = some m ∧ q = .publish (m.toPublish id true) := by
  cases h with
  | rests => cases hq
  | asks _ hmakes | keeps _ hmakes =>
    rw [List.mem_singleton.1 hq]
    exact .inl hmakes
  | ends _ _ hmakes => exact .inl (hmakes q hq)
  | joins =>
    rcases Exchange.mem_resend hq with hkept | ⟨id, -, rfl⟩
    · exact .inr (.inr hkept)
    · exact .inr (.inl ⟨id, .inr (.inr (.inl rfl))⟩)
  | hears _ hhears =>
    rw [hhears.replies_eq] at hq
    exact .inr (.inl (handshakeStep_of_mem_answers hq))

/-- What is kept was kept before, or has just been said. -/
theorem Moves.kept (h : l.Moves makes packet qs es s inflight) {id : UInt16} {m : Message}
    (hm : inflight.publishes[id]? = some m) :
    l.inflight.publishes[id]? = some m ∨ ∃ id, makes (.publish (m.toPublish id false)) := by
  cases h with
  | rests | asks | ends | joins => exact .inl hm
  | @keeps m' id' _ hmakes =>
    rw [Inflight.track, Std.ExtTreeMap.getElem?_insert] at hm
    split at hm
    · cases hm
      exact .inr ⟨id', hmakes⟩
    · exact .inl hm
  | hears _ hhears =>
    cases hhears with
    | message htakes => exact .inl (htakes.publishes ▸ hm)
    | puback hacks | pubrec hacks | pubrel hacks | pubcomp hacks => exact .inl (hacks.publishes hm)
    | subscribed | unsubscribed | ponged => exact .inl hm

end Link

namespace Journal

/-- Everything that was said, and every message that is to be said again, is of a kind. -/
structure Says (P : Packet → Prop) (K : Message → Prop) (j : Journal) : Prop where
  said : ∀ p ∈ j.said, P p
  kept : ∀ (id : UInt16) (m : Message), j.client.link.inflight.publishes[id]? = some m → K m

/-- Whatever holds of the packets that the calls make, of those that carry handshakes on, and of messages whenever
they are said again if it does the first time, holds of everything that a client says. -/
theorem run_says {P : Packet → Prop} {K : Message → Prop} {inflight : Inflight} (maxPacketSize : Nat)
    {calls : List Call} (hmakes : ∀ c ∈ calls, ∀ q, c.Makes q → P q) (hsteps : ∀ q, HandshakeStep q → P q)
    (hkeeps : ∀ (id : UInt16) (m : Message), P (.publish (m.toPublish id false)) → K m)
    (hagain : ∀ (id : UInt16) (m : Message), K m → P (.publish (m.toPublish id true)))
    (hkept : ∀ (id : UInt16) (m : Message), inflight.publishes[id]? = some m → K m) :
    ((start inflight maxPacketSize).run calls).Says P K := by
  refine run_induction calls (fun {j j' config now} hcall ho h => ⟨?_, ?_⟩) (fun {j j' packet qs es} ht h => ⟨?_, ?_⟩)
    ⟨List.forall_mem_nil _, hkept⟩
  · rw [ho.said]
    exact List.forall_mem_singleton.2 (hmakes _ hcall _ rfl)
  · rw [ho.inflight]
    split
    · intro id m hm
      rw [show Inflight.empty.publishes[id]? = none from Std.ExtTreeMap.getElem?_empty] at hm
      cases hm
    · exact h.kept
  · rw [ht.said]
    intro q hq
    rcases List.mem_append.1 hq with hq | hq
    · exact h.said q hq
    · rcases ht.moves.mem_said hq with ⟨c, hc, hmade⟩ | hstep | ⟨id, m, hm, rfl⟩
      · exact hmakes c hc q hmade
      · exact hsteps q hstep
      · exact hagain id m (h.kept id m hm)
  · intro id m hm
    rcases ht.moves.kept hm with hm | ⟨id', c, hc, hmade⟩
    · exact h.kept id m hm
    · exact hkeeps id' m (hmakes c hc _ hmade)

/-- The bytes for the newest connection are the packets that were said on it. -/
theorem run_stream (inflight : Inflight) (maxPacketSize : Nat) (calls : List Call) :
    ((start inflight maxPacketSize).run calls).stream
      = ((start inflight maxPacketSize).run calls).said.flatMap Packet.encode :=
  run_induction (P := fun j => j.stream = j.said.flatMap Packet.encode) calls
    (fun _ ho _ => by rw [ho.stream, ho.said]) (fun ht h => by rw [ht.stream, ht.said, h, List.flatMap_append]) rfl

end Journal

/-! ### Legible calls -/

/-- No text that the call hands in has U+0000, and no password comes without a user name. -/
def Call.Legible : Call → Prop
  | .connect config _ => (Link.connectPacket config).Legible
  | .publish m => '\x00' ∉ m.topic.toList
  | .subscribe topics => ∀ t ∈ topics, '\x00' ∉ t.filter.toList
  | .unsubscribe filters => ∀ filter ∈ filters, '\x00' ∉ filter.toList
  | _ => True

theorem legible_toPublish_iff {m : Message} {id : UInt16} {dup : Bool} :
    (Packet.publish (m.toPublish id dup)).Legible ↔ '\x00' ∉ m.topic.toList :=
  ⟨fun h => h.texts _ (.head _), fun h => ⟨List.forall_mem_singleton.2 h, trivial⟩⟩

theorem complete_toPublish (m : Message) (id : UInt16) (dup : Bool) :
    (Packet.publish (m.toPublish id dup)).Complete := by
  simp only [Packet.Complete, Message.toPublish]
  cases m.qos.isAcknowledged <;> rfl

theorem HandshakeStep.complete {p : Packet} (h : HandshakeStep p) : p.Complete := by
  obtain ⟨id, rfl | rfl | rfl | rfl⟩ := h <;> trivial

theorem HandshakeStep.legible {p : Packet} (h : HandshakeStep p) : p.Legible := by
  obtain ⟨id, rfl | rfl | rfl | rfl⟩ := h <;> exact ⟨List.forall_mem_nil _, trivial⟩

/-- A client makes no packet that lacks what packets of its kind carry. -/
theorem Call.complete_of_makes {c : Call} {q : Packet} (h : c.Makes q) : q.Complete := by
  cases c with
  | connect | disconnect | pollTimers =>
    cases h
    trivial
  | publish m =>
    obtain ⟨id, rfl⟩ := h
    exact complete_toPublish m id false
  | subscribe | unsubscribe =>
    obtain ⟨hne, id, rfl⟩ := h
    exact hne
  | receive | connectionLost | nextEvent | written => cases h

/-- A call that is legible makes nothing else. -/
theorem Call.Legible.of_makes {c : Call} (hc : c.Legible) {q : Packet} (h : c.Makes q) : q.Legible := by
  cases c with
  | connect config =>
    cases h
    exact hc
  | disconnect | pollTimers =>
    cases h
    exact ⟨List.forall_mem_nil _, trivial⟩
  | publish m =>
    obtain ⟨id, rfl⟩ := h
    exact legible_toPublish_iff.2 hc
  | subscribe topics =>
    obtain ⟨-, id, rfl⟩ := h
    exact ⟨List.forall_mem_map.2 hc, trivial⟩
  | unsubscribe filters =>
    obtain ⟨-, id, rfl⟩ := h
    exact ⟨hc, trivial⟩
  | receive | connectionLost | nextEvent | written => cases h

namespace Journal

/-- **What a client says can be read if and only if it is legible.** Let a client with the handshakes of an earlier
run be called in any way, and let nothing that it says on the newest connection be longer than can be announced. The
bytes for this connection are what its packets are written as, and a decoder reads them as exactly these packets, one
a call and none left over, if and only if there is no U+0000 in their texts and no password without a user name. So it
is whenever it is true of the calls, and of the messages kept from the earlier run. -/
theorem run_read_iff (inflight : Inflight) (maxPacketSize : Nat) (calls : List Call) :
    let j := (start inflight maxPacketSize).run calls
    (∀ p ∈ j.said, p.Short) →
    j.stream = j.said.flatMap Packet.encode ∧
      ((Decoder.new 0).calls j.stream j.said.length
          = (j.said.map fun p => (.ok (some p), p.encode.length), .new 0, []) ↔ ∀ p ∈ j.said, p.Legible) ∧
      ((∀ c ∈ calls, c.Legible) →
        (∀ (id : UInt16) (m : Message), inflight.publishes[id]? = some m → '\x00' ∉ m.topic.toList) →
        ∀ p ∈ j.said, p.Legible) := by
  intro j hshort
  have hcomplete : j.Says Packet.Complete fun _ => True :=
    run_says maxPacketSize (fun _ _ _ h => Call.complete_of_makes h) (fun _ h => h.complete) (fun _ _ _ => trivial)
      (fun id m _ => complete_toPublish m id true) fun _ _ _ => trivial
  have hread : (∀ p ∈ j.said, p.WellFormed) ↔ ∀ p ∈ j.said, p.Legible :=
    forall₂_congr fun p hp =>
      Packet.wellFormed_iff.trans (by rw [and_iff_right (hcomplete.said p hp), and_iff_right (hshort p hp)])
  refine ⟨run_stream inflight maxPacketSize calls, ?_, fun hcalls hkept => ?_⟩
  · rw [run_stream, Decoder.calls_encode_iff]
    exact hread
  · have hlegible : j.Says Packet.Legible fun m => '\x00' ∉ m.topic.toList :=
      run_says maxPacketSize (fun c hc _ h => (hcalls c hc).of_makes h) (fun _ h => h.legible)
        (fun _ _ h => legible_toPublish_iff.1 h) (fun _ _ h => legible_toPublish_iff.2 h) hkept
    exact hlegible.said

/-- A message is published on the first connection. -/
def publishing (m : Message) : List Call :=
  [.connect .lasting 0, .receive 0 [0x20, 2, 0, 0], .publish m]

/-- Such a message on a topic. -/
def note (topic : String) : Message := ⟨topic, ⟨#[49]⟩, .atLeastOnce, false⟩

/-- What is said when it is published, or said again on the next connection. -/
def published (m : Message) (again : Bool) : List Packet :=
  [Link.connectPacket .lasting, .publish (m.toPublish 1 again)]

/-- A message on a topic that is legible. -/
theorem run_publishing_read :
    let j := (start .empty 0).run (publishing (note "a"))
    (Decoder.new 0).calls j.stream 2
      = ((published (note "a") false).map fun p => (.ok (some p), p.encode.length), .new 0, []) := by
  intro j
  have hsaid : j.said = published (note "a") false := by decide +kernel
  obtain ⟨-, hread, -⟩ := run_read_iff .empty 0 (publishing (note "a")) (by decide +kernel)
  have hcalls := hread.2 (by decide +kernel)
  rw [show (start .empty 0).run (publishing (note "a")) = j from rfl, hsaid] at hcalls
  exact hcalls

/-- A topic with U+0000 is taken by `publish`, and the bytes of its PUBLISH are an error to whoever reads them. The
message is kept, and said again on the next connection. -/
theorem illegible_said :
    let before := (start .empty 0).run [.connect .lasting 0, .receive 0 [0x20, 2, 0, 0]]
    let j := (start .empty 0).run (publishing (note "a\x00b"))
    let next := j.run [.connectionLost "gone", .connect .lasting 0, .receive 0 [0x20, 2, 1, 0]]
    (before.client.publish (note "a\x00b")).1 = .ok (some 1) ∧ j.said = published (note "a\x00b") false ∧
      (∀ p ∈ j.said, p.Short) ∧
      ((Decoder.new 0).feed j.stream).packets = [Link.connectPacket .lasting] ∧
      ((Decoder.new 0).feed j.stream).error = some (.malformedPacket .nullCharacter) ∧
      next.said = published (note "a\x00b") true ∧
      ((Decoder.new 0).feed next.stream).error = some (.malformedPacket .nullCharacter) := by
  refine ⟨rfl, ?_⟩
  simp only [Decoder.feed_eq_run]
  decide +kernel

end Journal

end Client

end Mqtt
