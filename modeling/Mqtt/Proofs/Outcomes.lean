import Mathlib.Logic.Function.Iterate
import Mqtt.Session

/-!
# What becomes of a message: `Session::send_publish`

A message that is sent to a session goes out under a free identifier, goes out without one, or waits. It waits
for one of two reasons: nobody owns the session, or all 65535 identifiers are in use. `Session.send_outcome`
lists the cases with everything that changes, so nothing that follows opens `Session.send` again.
-/

namespace Mqtt

/-! ### Identifiers -/

namespace PacketIds

variable {inUse : UInt16 → Bool} {ids ids' : PacketIds} {id : UInt16}

theorem toNat_ne_zero (h : id ≠ 0) : id.toNat ≠ 0 := fun h0 => h (UInt16.toNat_inj.1 h0)

theorem toNat_successor (h : id ≠ 0) : (successor id).toNat = id.toNat % 65535 + 1 := by
  have hpos := toNat_ne_zero h
  have hlt := id.toNat_lt
  unfold successor
  split
  · next h0 =>
    have hlast := congrArg UInt16.toNat h0
    simp only [UInt16.toNat_add, UInt16.reduceToNat] at hlast ⊢
    omega
  · next h0 =>
    have hnext := toNat_ne_zero h0
    simp only [UInt16.toNat_add, UInt16.reduceToNat] at hnext ⊢
    omega

/-- The search goes round the circle of the identifiers 1 to 65535. -/
theorem toNat_iterate_successor (h : id ≠ 0) (k : Nat) :
    (successor^[k] id).toNat = (id.toNat - 1 + k) % 65535 + 1 := by
  have hpos := toNat_ne_zero h
  have hlt := id.toNat_lt
  induction k generalizing id with
  | zero => rw [Function.iterate_zero_apply]; omega
  | succ k ih =>
    have hsucc := toNat_successor h
    rw [Function.iterate_succ_apply, ih (successor_ne_zero id) (by omega) (UInt16.toNat_lt _), hsucc]
    omega

/-- Where the search finds nothing, everything it tried is in use. -/
theorem inUse_of_search {tries : Nat} (h : search inUse tries ids = (none, ids')) :
    ∀ k < tries, inUse (successor^[k] ids.next) = true := by
  induction tries generalizing ids with
  | zero => exact fun k hk => absurd hk (Nat.not_lt_zero k)
  | succ tries ih =>
    rw [search] at h
    dsimp only [take] at h
    split at h
    · next hused =>
      rintro (_ | k) hk
      · exact hused
      · exact ih h k (Nat.lt_of_succ_lt_succ hk)
    · cases h

/-- Identifiers run out only when all 65535 are in use. -/
theorem inUse_of_allocate (h : ids.allocate inUse = (none, ids')) (hid : id ≠ 0) : inUse id = true := by
  have hnext := toNat_ne_zero ids.next_ne_zero
  have hpos := toNat_ne_zero hid
  have hlt := id.toNat_lt
  have hlt' := ids.next.toNat_lt
  have hround : successor^[(id.toNat + 65535 - ids.next.toNat) % 65535] ids.next = id := by
    apply UInt16.toNat_inj.1
    rw [toNat_iterate_successor ids.next_ne_zero]
    omega
  rw [← hround]
  exact inUse_of_search h _ (Nat.mod_lt _ (by decide))

/-- An identifier that is free when its turn comes is given out. -/
theorem allocate_of_free (h : inUse ids.next = false) : ids.allocate inUse = (some ids.next, ids.take.2) := by
  rw [allocate, search]
  simp [take, h]

/-- An identifier that is given out is one, and is free. -/
theorem search_free {tries : Nat} (h : search inUse tries ids = (some id, ids')) :
    id ≠ 0 ∧ inUse id = false := by
  induction tries generalizing ids with
  | zero => cases h
  | succ tries ih =>
    rw [search] at h
    dsimp only at h
    split at h
    · exact ih h
    · next hfree =>
      cases h
      exact ⟨ids.next_ne_zero, by simpa using hfree⟩

end PacketIds

/-! ### Sending -/

namespace Session

/-- All identifiers are in use. -/
def Exhausted (s : Session) : Prop := ∀ id : UInt16, id ≠ 0 → s.inflight.isInUse id = true

/-- What goes out when a message is sent. -/
def outgoing (m : Message) (q : QoS) (retain : Bool) : Message := { m with qos := min m.qos q, retain }

/-- The session with nothing waiting. -/
def dropQueue (s : Session) : Session := { s with queue := [] }

/-- A message that was published "at most once" leaves nothing waiting for a client that is away. -/
def superseded (s : Session) (m : Message) : Session := if m.qos = .atMostOnce then s.dropQueue else s

/-- What gives way when one more message waits. -/
def overflow (s : Session) : List Message :=
  if s.maxQueued > 0 && s.queue.length ≥ s.maxQueued then s.queue.take 1 else []

/-- The queue is in order: what gives way is its beginning, and what comes is its end. -/
theorem overflow_append_enqueue (s : Session) (m : Message) :
    s.overflow ++ (s.enqueue m).queue = s.queue ++ [m] := by
  unfold overflow enqueue
  split
  · rw [← List.drop_one, ← List.append_assoc, List.take_append_drop]
  · rfl

theorem enqueue_ne_nil (s : Session) (m : Message) : (s.enqueue m).queue ≠ [] :=
  List.append_ne_nil_of_right_ne_nil _ (List.cons_ne_nil m [])

/-- The ways in which a message can be sent. -/
inductive Outcome (s : Session) (m : Message) (q : QoS) (retain : Bool) : Option Delivery → Session → Prop
  /-- Nobody owns the session. -/
  | absent : s.owner = none → Outcome s m q retain none ((s.superseded m).enqueue (outgoing m q retain))
  /-- All identifiers are in use. -/
  | exhausted {token : Nat} {packetIds : PacketIds} : s.owner = some token →
      (outgoing m q retain).qos.isAcknowledged = true → s.Exhausted →
      Outcome s m q retain none ({ s with packetIds }.enqueue (outgoing m q retain))
  /-- The message is kept under a free identifier until it is acknowledged. -/
  | tracked {token : Nat} {id : UInt16} {packetIds : PacketIds} : s.owner = some token →
      (outgoing m q retain).qos.isAcknowledged = true → id ≠ 0 → s.inflight.isInUse id = false →
      Outcome s m q retain (some ⟨token, .publish ((outgoing m q retain).toPublish id false)⟩)
        { s with packetIds, inflight := s.inflight.track id (outgoing m q retain) }
  /-- The message is not to be acknowledged. -/
  | passed {token : Nat} : s.owner = some token → (outgoing m q retain).qos.isAcknowledged = false →
      Outcome s m q retain (some ⟨token, .publish ((outgoing m q retain).toPublish 0 false)⟩) s

theorem send_outcome (s : Session) (m : Message) (q : QoS) (retain : Bool) :
    s.Outcome m q retain (s.send m q retain).1 (s.send m q retain).2 := by
  unfold send
  dsimp only
  split
  · next howner => exact .absent howner
  · next token howner =>
    split
    · next hq =>
      split
      · next halloc =>
        obtain ⟨hid, hfree⟩ := PacketIds.search_free halloc
        exact .tracked howner hq hid hfree
      · next halloc => exact .exhausted howner hq fun id hid => PacketIds.inUse_of_allocate halloc hid
    · next hq => exact .passed howner (Bool.eq_false_iff.2 hq)

end Session

end Mqtt
