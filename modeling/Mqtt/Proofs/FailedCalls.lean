import Mqtt.Client.Protocol
import Mqtt.Proofs.Rounds

/-!
# Calls that fail: `ClientProtocol`

A client answers a call with an error where the call makes no sense at the moment, where its argument is at fault, and
where all identifiers are in use. The first two are found out before anything is done. For the third the counter of
identifiers goes round once and comes back to where it was. So a client to which a call was refused is the client it
was before, to the last byte and to the next identifier (`Protocol.calls_fail`).
-/

namespace Mqtt.Client

/-- A call fails for these reasons and for no others, and where it fails nothing has changed. -/
structure FailsFor {α σ : Type} (reasons : Error → Prop) (before : σ) (outcome : Except Error α × σ) : Prop where
  error_iff (e : Error) : outcome.1 = .error e ↔ reasons e
  unchanged (e : Error) : outcome.1 = .error e → outcome.2 = before

namespace FailsFor

variable {α σ : Type} {reasons : Error → Prop} {before : σ}

theorem ok {a : α} {after : σ} (h : ∀ e, ¬ reasons e) : FailsFor reasons before (.ok a, after) where
  error_iff e := ⟨nofun, fun he => absurd he (h e)⟩
  unchanged _ := nofun

theorem error {e : Error} (h : ∀ e', reasons e' ↔ e' = e) :
    FailsFor reasons before ((.error e : Except Error α), before) where
  error_iff e' := by
    rw [h]
    exact ⟨fun he => (Except.error.inj he).symm, fun he => congrArg _ he.symm⟩
  unchanged _ _ := rfl

end FailsFor

namespace Link

/-- No identifier is left for a request. -/
def Exhausted (l : Link) : Prop := ∀ id : UInt16, id ≠ 0 → l.inflight.isInUse id = true

/-- A request is given an identifier, unless none is left. -/
theorem withId_outcome {α : Type} (l : Link) (f : UInt16 → Link → α × Link) :
    (l.Exhausted ∧ l.withId f = (.error (.invalidState .noFreeIdentifier), l)) ∨
      (¬ l.Exhausted ∧ ∃ id packetIds, l.packetIds.allocate l.inflight.isInUse = (some id, packetIds) ∧
        l.withId f = (.ok (f id { l with packetIds }).1, (f id { l with packetIds }).2)) := by
  unfold withId allocateId
  rcases halloc : l.packetIds.allocate l.inflight.isInUse with ⟨id | id, packetIds⟩
  · left
    refine ⟨fun id hid => PacketIds.inUse_of_allocate halloc hid, ?_⟩
    rw [PacketIds.eq_of_allocate_none halloc]
  · right
    obtain ⟨hid, hfree⟩ := PacketIds.search_free halloc
    refine ⟨?_, id, packetIds, rfl, rfl⟩
    intro hall
    rw [hall id hid] at hfree
    cases hfree

/-- Why a request is refused: there is no accepted connection, or else the request itself is at fault, or else it needs
an identifier and none is left. -/
inductive Refuses (l : Link) (atFault : Bool) (fault : ProtocolError) (numbered : Bool) : Error → Prop
  | notConnected : l.state ≠ .connected → Refuses l atFault fault numbered .notConnected
  | faulty : l.state = .connected → atFault = true → Refuses l atFault fault numbered (.protocol fault)
  | exhausted : l.state = .connected → atFault = false → numbered = true → l.Exhausted →
      Refuses l atFault fault numbered (.invalidState .noFreeIdentifier)

section

variable {α : Type} {l : Link} {atFault numbered : Bool} {fault : ProtocolError} {outcome : Except Error α × Link}

/-- A request is made in this order: first the connection is looked at, then the request itself, and the rest is its
own. -/
theorem failsFor_refuses
    (hrest : (numbered = true ∧ l.Exhausted ∧ outcome = (.error (.invalidState .noFreeIdentifier), l)) ∨
      (¬ (numbered = true ∧ l.Exhausted) ∧ ∃ a l', outcome = (.ok a, l'))) :
    FailsFor (l.Refuses atFault fault numbered) l
      (if l.state ≠ .connected then (.error .notConnected, l)
        else if atFault then (.error (.protocol fault), l) else outcome) := by
  by_cases hstate : l.state = .connected
  · rw [if_neg (not_not_intro hstate)]
    cases atFault with
    | true =>
      refine .error fun e => ⟨?_, ?_⟩
      · intro h
        cases h with
        | notConnected hclosed => exact absurd hstate hclosed
        | faulty => rfl
        | exhausted _ hsound => cases hsound
      · rintro rfl
        exact .faulty hstate rfl
    | false =>
      rcases hrest with ⟨hnumbered, hall, rfl⟩ | ⟨hleft, a, l', rfl⟩
      · refine .error fun e => ⟨?_, ?_⟩
        · intro h
          cases h with
          | notConnected hclosed => exact absurd hstate hclosed
          | faulty _ hfault => cases hfault
          | exhausted => rfl
        · rintro rfl
          exact .exhausted hstate rfl hnumbered hall
      · refine .ok fun e h => ?_
        cases h with
        | notConnected hclosed => exact hclosed hstate
        | faulty _ hfault => cases hfault
        | exhausted _ _ hnumbered hall => exact hleft ⟨hnumbered, hall⟩
  · rw [if_pos hstate]
    refine .error fun e => ⟨?_, ?_⟩
    · intro h
      cases h with
      | notConnected => rfl
      | faulty hconnected | exhausted hconnected => exact absurd hconnected hstate
    · rintro rfl
      exact .notConnected hstate

/-- A request that needs an identifier fails for want of one. -/
theorem withId_fails (hnumbered : numbered = true) (l : Link) (f : UInt16 → Link → α × Link) :
    (numbered = true ∧ l.Exhausted ∧ l.withId f = (.error (.invalidState .noFreeIdentifier), l)) ∨
      (¬ (numbered = true ∧ l.Exhausted) ∧ ∃ a l', l.withId f = (.ok a, l')) := by
  rcases l.withId_outcome f with ⟨hall, h⟩ | ⟨hleft, id, packetIds, -, h⟩
  · exact .inl ⟨hnumbered, hall, h⟩
  · exact .inr ⟨fun hall => hleft hall.2, _, _, h⟩

end

theorem subscribe_fails (l : Link) (topics : List TopicRequest) :
    FailsFor (l.Refuses topics.isEmpty (.malformedPacket .emptySubscribe) true) l (l.subscribe topics) :=
  failsFor_refuses (withId_fails rfl l _)

theorem unsubscribe_fails (l : Link) (filters : List String) :
    FailsFor (l.Refuses filters.isEmpty (.malformedPacket .emptyUnsubscribe) true) l (l.unsubscribe filters) :=
  failsFor_refuses (withId_fails rfl l _)

theorem publish_fails (l : Link) (m : Message) :
    FailsFor (l.Refuses (!Topic.isValidName m.topic) (.invalidTopicName m.topic) m.qos.isAcknowledged) l
      (l.publish m) := by
  apply failsFor_refuses
  split
  · next hq => exact withId_fails hq l _
  · next hq => exact .inr ⟨fun h => hq h.1, _, _, rfl⟩

end Link

namespace Protocol

/-- What leaves the link alone leaves the client alone. -/
theorem failsFor_onLink {α : Type} {reasons : Error → Prop} (c : Protocol) {f : Link → Except Error α × Link}
    (h : FailsFor reasons c.link (f c.link)) : FailsFor reasons c (c.onLink f) := by
  refine ⟨h.error_iff, fun e he => ?_⟩
  have hlink : (f c.link).2 = c.link := h.unchanged e he
  exact congrArg (fun link => { c with link }) hlink

theorem connect_fails (c : Protocol) (config : Config) (now : Nat) :
    FailsFor (fun e => c.state ≠ .disconnected ∧ e = .invalidState .alreadyConnected) c (c.connect config now) := by
  unfold connect
  by_cases hstate : c.link.state = .disconnected
  · rw [if_neg (not_not_intro hstate)]
    exact .ok fun e h => h.1 hstate
  · rw [if_pos hstate]
    exact .error fun e => and_iff_right hstate

/-- **A call that fails leaves no trace**, in whatever state the client is. A connection can only be opened where there
is none. A request needs an accepted connection, a topic to publish to or something to ask for, and an identifier if
it is to be answered; it fails exactly where one of these is missing, and says which is the first. Whenever a call
fails, all of the client is as it was: its state and its handshakes, its bytes, events and timers, the packet it is
reading, and the identifier that comes next. -/
theorem calls_fail (c : Protocol) (config : Config) (now : Nat) (topics : List TopicRequest) (filters : List String)
    (m : Message) :
    FailsFor (fun e => c.state ≠ .disconnected ∧ e = .invalidState .alreadyConnected) c (c.connect config now) ∧
      FailsFor (c.link.Refuses topics.isEmpty (.malformedPacket .emptySubscribe) true) c (c.subscribe topics) ∧
      FailsFor (c.link.Refuses filters.isEmpty (.malformedPacket .emptyUnsubscribe) true) c (c.unsubscribe filters) ∧
      FailsFor (c.link.Refuses (!Topic.isValidName m.topic) (.invalidTopicName m.topic) m.qos.isAcknowledged) c
        (c.publish m) :=
  ⟨c.connect_fails config now, c.failsFor_onLink (c.link.subscribe_fails topics),
    c.failsFor_onLink (c.link.unsubscribe_fails filters), c.failsFor_onLink (c.link.publish_fails m)⟩

end Protocol

end Mqtt.Client
