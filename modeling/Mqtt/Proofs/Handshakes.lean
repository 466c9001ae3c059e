import Mqtt.Inflight

/-!
# What the open handshakes do with a packet: `InflightState`

The operations of `Inflight` as relations between the state before, the packet, the answer and the
state after. Client and broker use the same operations, so both are taken apart with these.
-/

namespace Mqtt

/-- The packet is one of the four that carry a handshake on. -/
def Packet.isAck : Packet → Bool
  | .puback _ | .pubrec _ | .pubrel _ | .pubcomp _ => true
  | _ => false

namespace Inflight

/-- An acknowledgement arrives: the answer that is due, and the handshakes after it. -/
inductive Acks (s : Inflight) : Packet → Option Packet → Inflight → Prop
  | puback {id : UInt16} : id ≠ 0 →
      Acks s (.puback id) none { s with publishes := s.publishes.erase id }
  | pubrec {id : UInt16} : id ≠ 0 →
      Acks s (.pubrec id) (some (.pubrel id))
        { s with publishes := s.publishes.erase id, releases := s.releases.insert id }
  | pubrel {id : UInt16} : id ≠ 0 →
      Acks s (.pubrel id) (some (.pubcomp id)) { s with received := s.received.erase id }
  | pubcomp {id : UInt16} : id ≠ 0 →
      Acks s (.pubcomp id) none
        { s with publishes := s.publishes.erase id, releases := s.releases.erase id }

/-- A PUBLISH arrives: what is done with it, and the handshakes after it. -/
inductive Takes (s : Inflight) (p : Publish) : Arrival → Inflight → Prop
  | atMostOnce : p.qos = .atMostOnce → Takes s p ⟨true, none⟩ s
  | atLeastOnce {id : UInt16} : p.qos = .atLeastOnce → p.packetId.getD 0 = id → id ≠ 0 →
      Takes s p ⟨true, some (.puback id)⟩ s
  | exactlyOnce {id : UInt16} : p.qos = .exactlyOnce → p.packetId.getD 0 = id → id ≠ 0 →
      Takes s p ⟨!s.received.contains id, some (.pubrec id)⟩ { s with received := s.received.insert id }

variable {s s' : Inflight} {id : UInt16}

/-! ### Steps -/

/-- A step behind the check of its identifier: without one it fails and changes nothing. -/
theorem run_requireId_bind {α : Type} (t : PacketType) (id : UInt16) (f : UInt16 → Handshaking α) (s : Inflight) :
    (requireId t id >>= f).run s = if id = 0 then .error (.missingPacketId t) s else (f id).run s := by
  unfold requireId
  split <;> rfl

theorem run_onPublish (p : Publish) (s : Inflight) : (onPublish p).run s =
    match p.qos with
    | .atMostOnce => .ok ⟨true, none⟩ s
    | .atLeastOnce =>
      if p.packetId.getD 0 = 0 then .error (.missingPacketId .publish) s
      else .ok ⟨true, some (.puback (p.packetId.getD 0))⟩ s
    | .exactlyOnce =>
      if p.packetId.getD 0 = 0 then .error (.missingPacketId .publish) s
      else .ok ⟨!s.received.contains (p.packetId.getD 0), some (.pubrec (p.packetId.getD 0))⟩
        { s with received := s.received.insert (p.packetId.getD 0) } := by
  unfold onPublish
  cases p.qos with
  | atMostOnce => rfl
  | atLeastOnce => exact run_requireId_bind ..
  | exactlyOnce => exact run_requireId_bind ..

theorem run_onPuback (id : UInt16) (s : Inflight) : (onPuback id).run s =
    if id = 0 then .error (.missingPacketId .puback) s
    else .ok s.publishes[id]? { s with publishes := s.publishes.erase id } := run_requireId_bind ..

theorem run_onPubrec (id : UInt16) (s : Inflight) : (onPubrec id).run s =
    if id = 0 then .error (.missingPacketId .pubrec) s
    else .ok (.pubrel id)
      { s with publishes := s.publishes.erase id, releases := s.releases.insert id } := run_requireId_bind ..

theorem run_onPubrel (id : UInt16) (s : Inflight) : (onPubrel id).run s =
    if id = 0 then .error (.missingPacketId .pubrel) s
    else .ok (.pubcomp id) { s with received := s.received.erase id } := run_requireId_bind ..

theorem run_onPubcomp (id : UInt16) (s : Inflight) : (onPubcomp id).run s =
    if id = 0 then .error (.missingPacketId .pubcomp) s
    else .ok (s.releases.contains id)
      { s with publishes := s.publishes.erase id, releases := s.releases.erase id } := run_requireId_bind ..

/-- A step that succeeds names an identifier. -/
theorem ne_zero_of_ok {α : Type} {e : ProtocolError} {a a' : α} {s₁ : Inflight}
    (h : (if id = 0 then EStateM.Result.error e s else .ok a s₁) = .ok a' s') : id ≠ 0 ∧ a' = a ∧ s' = s₁ := by
  split at h
  · cases h
  · next hne =>
    cases h
    exact ⟨hne, rfl, rfl⟩

/-- A step that fails changes nothing. -/
theorem eq_of_error {α : Type} {e e' : ProtocolError} {a : α} {s₁ : Inflight}
    (h : (if id = 0 then EStateM.Result.error e s else .ok a s₁) = .error e' s') : e' = e ∧ s' = s := by
  split at h
  · cases h
    exact ⟨rfl, rfl⟩
  · cases h

theorem onPublish_ok {p : Publish} {arrival : Arrival} (h : (onPublish p).run s = .ok arrival s') :
    s.Takes p arrival s' := by
  rw [run_onPublish] at h
  split at h
  · next hq =>
    cases h
    exact .atMostOnce hq
  · next hq =>
    obtain ⟨hne, rfl, rfl⟩ := ne_zero_of_ok h
    exact .atLeastOnce hq rfl hne
  · next hq =>
    obtain ⟨hne, rfl, rfl⟩ := ne_zero_of_ok h
    exact .exactlyOnce hq rfl hne

theorem Takes.onPublish {p : Publish} {arrival : Arrival} (h : s.Takes p arrival s') :
    (Inflight.onPublish p).run s = .ok arrival s' := by
  rw [run_onPublish]
  cases h with
  | atMostOnce hq => simp only [hq]
  | atLeastOnce hq hid hne => simp only [hq, hid, if_neg hne]
  | exactlyOnce hq hid hne => simp only [hq, hid, if_neg hne]

/-- For exactly-once delivery a PUBLISH is new unless its identifier waits for PUBREL, and it waits from then
on. -/
theorem Takes.exactlyOnce_eq {p : Publish} {arrival : Arrival} (h : s.Takes p arrival s')
    (hqos : p.qos = .exactlyOnce) (hid : p.packetId = some id) :
    arrival.deliver = !s.received.contains id ∧ arrival.reply = some (.pubrec id) ∧
      s' = { s with received := s.received.insert id } := by
  cases h with
  | atMostOnce hq | atLeastOnce hq =>
    rw [hqos] at hq
    cases hq
  | exactlyOnce _ hid' _ =>
    rw [hid, Option.getD_some] at hid'
    subst hid'
    exact ⟨rfl, rfl, rfl⟩

/-- A PUBLISH that arrives leaves those that were sent alone. -/
theorem Takes.publishes {p : Publish} {arrival : Arrival} (h : s.Takes p arrival s') :
    s'.publishes = s.publishes := by
  cases h <;> rfl

theorem onPublish_error {p : Publish} {e : ProtocolError} (h : (onPublish p).run s = .error e s') :
    e = .missingPacketId .publish ∧ s' = s := by
  rw [run_onPublish] at h
  split at h
  · cases h
  · exact eq_of_error h
  · exact eq_of_error h

theorem onPuback_ok {m : Option Message} (h : (onPuback id).run s = .ok m s') :
    m = s.publishes[id]? ∧ s.Acks (.puback id) none s' := by
  obtain ⟨hne, rfl, rfl⟩ := ne_zero_of_ok ((run_onPuback id s).symm.trans h)
  exact ⟨rfl, .puback hne⟩

theorem onPubrec_ok {reply : Packet} (h : (onPubrec id).run s = .ok reply s') :
    s.Acks (.pubrec id) (some reply) s' := by
  obtain ⟨hne, rfl, rfl⟩ := ne_zero_of_ok ((run_onPubrec id s).symm.trans h)
  exact .pubrec hne

theorem onPubrel_ok {reply : Packet} (h : (onPubrel id).run s = .ok reply s') :
    s.Acks (.pubrel id) (some reply) s' := by
  obtain ⟨hne, rfl, rfl⟩ := ne_zero_of_ok ((run_onPubrel id s).symm.trans h)
  exact .pubrel hne

theorem onPubcomp_ok {waited : Bool} (h : (onPubcomp id).run s = .ok waited s') :
    waited = s.releases.contains id ∧ s.Acks (.pubcomp id) none s' := by
  obtain ⟨hne, rfl, rfl⟩ := ne_zero_of_ok ((run_onPubcomp id s).symm.trans h)
  exact ⟨rfl, .pubcomp hne⟩

end Inflight

end Mqtt
