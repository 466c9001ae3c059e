import Mqtt.Proofs.Exchange

/-!
# How long a message is kept: `InflightState::on_pubcomp`

A message that was sent is kept until the other side is heard of it. `Inflight.receiveAll_keeps` says which packets
end that: a PUBACK, a PUBREC or a PUBCOMP with its identifier, and no others, so whatever else comes the message is
kept and is sent again when the client comes back. PUBCOMP is one too many: it answers a PUBREL and acknowledges no
message. `pubcomp_discards` is a message that nobody acknowledged and that is gone after a PUBCOMP.
-/

namespace Mqtt

/-- The packet gives up the message that is kept under the identifier. -/
def Packet.discards (k : UInt16) : Packet → Bool
  | .puback id | .pubrec id | .pubcomp id => id = k && id ≠ 0
  | _ => false

namespace Inflight

/-- The handshakes after a step, whether it succeeds or fails. -/
def outcome {α : Type} : EStateM.Result ProtocolError Inflight α → Inflight
  | .ok _ s | .error _ s => s

/-- The handshakes after a packet arrived. Packets that belong to no handshake change nothing. -/
def receive (s : Inflight) : Packet → Inflight
  | .publish p => outcome ((onPublish p).run s)
  | .puback id => outcome ((onPuback id).run s)
  | .pubrec id => outcome ((onPubrec id).run s)
  | .pubrel id => outcome ((onPubrel id).run s)
  | .pubcomp id => outcome ((onPubcomp id).run s)
  | _ => s

def receiveAll (s : Inflight) (packets : List Packet) : Inflight := packets.foldl receive s

/-! ### One packet -/

/-- A packet that arrives is refused, or is a step of a handshake. -/
theorem receive_cases (s : Inflight) (packet : Packet) :
    s.receive packet = s ∨
      (∃ p arrival, packet = .publish p ∧ s.Takes p arrival (s.receive packet)) ∨
      ∃ reply, s.Acks packet reply (s.receive packet) := by
  have hack {α : Type} {r : EStateM.Result ProtocolError Inflight α} {id : UInt16} {e : ProtocolError} {a : α}
      {s₁ : Inflight} (h : r = if id = 0 then .error e s else .ok a s₁) : outcome r = s ∨ id ≠ 0 ∧ outcome r = s₁ := by
    by_cases hid : id = 0
    · exact .inl (by rw [h, if_pos hid, outcome])
    · exact .inr ⟨hid, by rw [h, if_neg hid, outcome]⟩
  cases packet with
  | publish p =>
    rcases hr : (onPublish p).run s with ⟨arrival, s'⟩ | ⟨e, s'⟩
    · refine .inr (.inl ⟨p, arrival, rfl, ?_⟩)
      rw [receive, hr]
      exact onPublish_ok hr
    · refine .inl ?_
      rw [receive, hr]
      exact (onPublish_error hr).2
  | puback id =>
    rcases hack (run_onPuback id s) with h | ⟨hid, h⟩
    · exact .inl h
    · refine .inr (.inr ⟨none, ?_⟩)
      rw [receive, h]
      exact .puback hid
  | pubrec id =>
    rcases hack (run_onPubrec id s) with h | ⟨hid, h⟩
    · exact .inl h
    · refine .inr (.inr ⟨some (.pubrel id), ?_⟩)
      rw [receive, h]
      exact .pubrec hid
  | pubrel id =>
    rcases hack (run_onPubrel id s) with h | ⟨hid, h⟩
    · exact .inl h
    · refine .inr (.inr ⟨some (.pubcomp id), ?_⟩)
      rw [receive, h]
      exact .pubrel hid
  | pubcomp id =>
    rcases hack (run_onPubcomp id s) with h | ⟨hid, h⟩
    · exact .inl h
    · refine .inr (.inr ⟨none, ?_⟩)
      rw [receive, h]
      exact .pubcomp hid
  | connect | connack | subscribe | suback | unsubscribe | unsuback | pingreq | pingresp | disconnect =>
    exact .inl rfl

/-- An identifier is given up by those who name it, as far as it is one. -/
theorem getElem?_erase_if (publishes : Std.ExtTreeMap UInt16 Message) (id k : UInt16) :
    (if id = 0 then publishes else publishes.erase id)[k]? =
      if (id = k && id ≠ 0 : Bool) then none else publishes[k]? := by
  by_cases hid : id = 0
  · simp [hid]
  · by_cases hk : id = k
    · subst hk
      simp [hid]
    · simp [hid, hk, Std.ExtTreeMap.getElem?_erase]

theorem receive_publishes (s : Inflight) (packet : Packet) (k : UInt16) :
    (s.receive packet).publishes[k]? = if packet.discards k then none else s.publishes[k]? := by
  have hack {id : UInt16} {s' : Inflight} (h : s'.publishes = if id = 0 then s.publishes else s.publishes.erase id) :
      s'.publishes[k]? = if (id = k && id ≠ 0 : Bool) then none else s.publishes[k]? := by
    rw [h, getElem?_erase_if]
  cases packet with
  | publish p =>
    rcases s.receive_cases (.publish p) with h | ⟨p', arrival, -, h⟩ | ⟨reply, h⟩
    · rw [h]; rfl
    · rw [h.publishes]; rfl
    · cases h
  | puback id | pubrec id | pubcomp id =>
    refine hack ?_
    by_cases hid : id = 0
    · simp [receive, run_onPuback, run_onPubrec, run_onPubcomp, hid, outcome]
    · simp [receive, run_onPuback, run_onPubrec, run_onPubcomp, hid, outcome]
  | pubrel id =>
    rcases s.receive_cases (.pubrel id) with h | ⟨p', arrival, hp, -⟩ | ⟨reply, h⟩
    · rw [h]; rfl
    · cases hp
    · generalize s.receive (.pubrel id) = s' at h ⊢
      cases h
      rfl
  | connect | connack | subscribe | suback | unsubscribe | unsuback | pingreq | pingresp | disconnect => rfl

/-! ### All packets -/

theorem receiveAll_publishes (s : Inflight) (packets : List Packet) (k : UInt16) :
    (s.receiveAll packets).publishes[k]? = if packets.any (·.discards k) then none else s.publishes[k]? := by
  induction packets generalizing s with
  | nil => rfl
  | cons packet packets ih =>
    have hrest : s.receiveAll (packet :: packets) = (s.receive packet).receiveAll packets := rfl
    rw [hrest, ih, receive_publishes, List.any_cons]
    by_cases hpacket : packet.discards k = true
    · simp [hpacket]
    · simp [hpacket]

/-- What is sent again under an identifier is the message that is kept under it. -/
theorem publish_mem_resend_iff {s : Inflight} {p : Publish} {k : UInt16} :
    .publish p ∈ s.resend ∧ p.packetId = some k ↔
      ∃ m, s.publishes[k]? = some m ∧ m.qos.isAcknowledged = true ∧ p = m.toPublish k true := by
  constructor
  · rintro ⟨h, hp⟩
    rcases Exchange.mem_resend h with ⟨id, m, hm, heq⟩ | ⟨id, -, heq⟩
    · cases heq
      obtain ⟨hq, rfl⟩ := Packet.eq_of_requests_toPublish (decide_eq_true hp)
      exact ⟨m, hm, hq, rfl⟩
    · cases heq
  · rintro ⟨m, hm, hq, rfl⟩
    refine ⟨List.mem_append_left _ (List.mem_map.2 ⟨(k, m), ?_, rfl⟩), if_pos hq⟩
    exact Std.ExtTreeMap.mem_toList_iff_getElem?_eq_some.2 hm

/-- **A message is kept until a PUBACK, a PUBREC or a PUBCOMP names its identifier.** Whatever packets arrive, each
message stays where it is kept, and is among those that are sent again, as long as none of them is one of the three
with its identifier; from the first of them on it is neither. -/
theorem receiveAll_keeps (s : Inflight) (packets : List Packet) (k : UInt16) :
    ((s.receiveAll packets).publishes[k]? = if packets.any (·.discards k) then none else s.publishes[k]?) ∧
      ∀ p : Publish, .publish p ∈ (s.receiveAll packets).resend ∧ p.packetId = some k ↔
        packets.any (·.discards k) = false ∧
          ∃ m, s.publishes[k]? = some m ∧ m.qos.isAcknowledged = true ∧ p = m.toPublish k true := by
  refine ⟨s.receiveAll_publishes packets k, fun p => ?_⟩
  rw [publish_mem_resend_iff, receiveAll_publishes]
  by_cases hdiscards : packets.any (·.discards k) = true
  · simp [hdiscards]
  · simp [hdiscards]

/-- A message that was sent under the identifier 1 and waits for PUBREC. -/
def waiting : Inflight := empty.track 1 ⟨"a", "x".toUTF8, .exactlyOnce, false⟩

/-- A PUBCOMP takes away a message that was acknowledged by neither PUBACK nor PUBREC, although the sender is told
that nothing waited for it. -/
theorem pubcomp_discards :
    waiting.publishes[(1 : UInt16)]? = some ⟨"a", "x".toUTF8, .exactlyOnce, false⟩ ∧
      (∃ after, (onPubcomp 1).run waiting = .ok false after) ∧
      (waiting.receiveAll [.pubcomp 1]).publishes[(1 : UInt16)]? = none ∧
      (waiting.receiveAll [.pubcomp 1]).resend = [] := by
  refine ⟨?_, ⟨_, rfl⟩, ?_, ?_⟩
  · decide +kernel
  · rw [receiveAll_publishes]
    rfl
  · decide +kernel

end Inflight

end Mqtt
