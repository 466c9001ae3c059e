import Mqtt.Proofs.Handing

/-!
# The ledger of a session

A ledger records what became of the messages that were handed to a session and ask for an acknowledgement.
Such a message waits, or it is sent under an identifier and then kept until the client acknowledges it, or it
is dropped while it waits. `Ledger.Accounts` says that a ledger and a session agree: nothing is missing, and
nothing is there twice. Sending keeps the two in agreement (`Ledger.Accounts.enter`), and so does an
acknowledgement (`Ledger.Accounts.settle`).
-/

namespace Mqtt

/-! ### Maps as lists of their entries -/

section Maps

variable {κ β : Type} {cmp : κ → κ → Ordering} [Std.TransCmp cmp] [Std.LawfulEqCmp cmp]

theorem nodup_toList (m : Std.ExtTreeMap κ β cmp) : m.toList.Nodup := by
  refine Std.ExtTreeMap.distinct_keys_toList.imp fun {a b} hne hab => hne ?_
  rw [hab]
  exact Std.ReflCmp.compare_self

/-- A map is one of its entries and the map without it. -/
theorem toList_perm_erase (m : Std.ExtTreeMap κ β cmp) (k : κ) :
    m.toList.Perm ((m[k]?).toList.map (k, ·) ++ (m.erase k).toList) := by
  have herase {a : κ} {v : β} : (a, v) ∈ (m.erase k).toList ↔ a ≠ k ∧ (a, v) ∈ m.toList := by
    simp only [Std.ExtTreeMap.mem_toList_iff_getElem?_eq_some, Std.ExtTreeMap.getElem?_erase,
      Std.LawfulEqCmp.compare_eq_iff_eq]
    by_cases hk : k = a
    · simp [hk]
    · simp [hk, Ne.symm hk]
  cases hk : m[k]? with
  | none =>
    refine (List.perm_ext_iff_of_nodup (nodup_toList m) (nodup_toList (m.erase k))).2 fun ⟨a, v⟩ => ?_
    rw [herase]
    refine ⟨fun hmem => ⟨?_, hmem⟩, And.right⟩
    rintro rfl
    rw [Std.ExtTreeMap.mem_toList_iff_getElem?_eq_some, hk] at hmem
    cases hmem
  | some w =>
    have hnodup : ((k, w) :: (m.erase k).toList).Nodup :=
      List.nodup_cons.2 ⟨fun hmem => (herase.1 hmem).1 rfl, nodup_toList (m.erase k)⟩
    refine (List.perm_ext_iff_of_nodup (nodup_toList m) hnodup).2 fun ⟨a, v⟩ => ?_
    rw [List.mem_cons, herase]
    constructor
    · intro hmem
      by_cases ha : a = k
      · subst ha
        rw [Std.ExtTreeMap.mem_toList_iff_getElem?_eq_some, hk] at hmem
        cases hmem
        exact .inl rfl
      · exact .inr ⟨ha, hmem⟩
    · rintro (heq | ⟨-, hmem⟩)
      · cases heq
        exact Std.ExtTreeMap.mem_toList_iff_getElem?_eq_some.2 hk
      · exact hmem

/-- A key that is new adds one entry. -/
theorem toList_insert_perm {m : Std.ExtTreeMap κ β cmp} {k : κ} (hk : m[k]? = none) (v : β) :
    (m.insert k v).toList.Perm ((k, v) :: m.toList) := by
  have herase : (m.insert k v).erase k = m := by
    apply Std.ExtTreeMap.ext_getElem?
    intro a
    rw [Std.ExtTreeMap.getElem?_erase, Std.ExtTreeMap.getElem?_insert]
    split
    · next h => rw [← Std.LawfulEqCmp.eq_of_compare h, hk]
    · rfl
  have hperm := toList_perm_erase (m.insert k v) k
  rw [herase, Std.ExtTreeMap.getElem?_insert_self] at hperm
  exact hperm

end Maps

/-! ### What a sending does -/

/-- The messages that ask for an acknowledgement. -/
def due (ms : List Message) : List Message := ms.filter (·.qos.isAcknowledged)

theorem due_cons (m : Message) (ms : List Message) :
    due (m :: ms) = if m.qos.isAcknowledged then m :: due ms else due ms := List.filter_cons

theorem due_append (ms ms' : List Message) : due (ms ++ ms') = due ms ++ due ms' := List.filter_append ms ms'

/-- The message that a delivery carries under an identifier, if it carries one. -/
def Delivery.transmission? (d : Delivery) : Option (UInt16 × Message) :=
  match d.packet with
  | .publish p => p.packetId.map (·, p.message)
  | _ => none

namespace Session

variable (s : Session)

/-- What a sending drops from the queue. A message that goes out drops nothing. One that waits drops all
others if it was published "at most once" and nobody owns the session, and otherwise the oldest if the queue
is full. -/
def droppedBy (x : Sending) : List Message :=
  if (s.send x.message x.qos x.retain).1.isSome then []
  else if s.owner = none ∧ x.message.qos = .atMostOnce then s.queue
  else s.overflow

/-- What is dropped when one sending is made after the other. -/
def droppedByAll (s : Session) : List Sending → List Message
  | [] => []
  | x :: xs => s.droppedBy x ++ (s.send x.message x.qos x.retain).2.droppedByAll xs

/-- What goes out under an identifier when one sending is made after the other. -/
def transmissions (xs : List Sending) : List (UInt16 × Message) :=
  (s.sendAll xs).1.filterMap Delivery.transmission?

variable {s} {x : Sending}

/-- A message that waits is put behind those that are not dropped. -/
theorem send_waits (h : (s.send x.message x.qos x.retain).1 = none) :
    s.droppedBy x ++ (s.send x.message x.qos x.retain).2.queue = s.queue ++ [x.outgoing] ∧
      (s.send x.message x.qos x.retain).2.inflight = s.inflight := by
  have houtcome := s.send_outcome x.message x.qos x.retain
  unfold droppedBy
  rw [h] at houtcome ⊢
  generalize (s.send x.message x.qos x.retain).2 = s' at houtcome ⊢
  cases houtcome with
  | absent howner =>
    by_cases hq : x.message.qos = .atMostOnce
    · have hempty : s.dropQueue.overflow = [] := by
        unfold overflow dropQueue
        simp
      have hnew := s.dropQueue.overflow_append_enqueue x.outgoing
      rw [hempty] at hnew
      simp only [Option.isSome_none, Bool.false_eq_true, if_false, howner, hq, and_self, if_true, superseded]
      exact ⟨congrArg (s.queue ++ ·) hnew, rfl⟩
    · simp only [Option.isSome_none, Bool.false_eq_true, if_false, hq, and_false, superseded]
      exact ⟨s.overflow_append_enqueue x.outgoing, rfl⟩
  | @exhausted token packetIds howner =>
    simp only [Option.isSome_none, Bool.false_eq_true, if_false, howner, reduceCtorEq, false_and]
    exact ⟨overflow_append_enqueue { s with packetIds } x.outgoing, rfl⟩

/-- A message that goes out is kept under a free identifier, if it is to be acknowledged. -/
theorem send_goes {d : Delivery} (h : (s.send x.message x.qos x.retain).1 = some d) :
    s.droppedBy x = [] ∧ (s.send x.message x.qos x.retain).2.queue = s.queue ∧
      ((∃ id, x.outgoing.qos.isAcknowledged = true ∧ d.transmission? = some (id, x.outgoing) ∧
          s.inflight.isInUse id = false ∧
          (s.send x.message x.qos x.retain).2.inflight = s.inflight.track id x.outgoing) ∨
        (x.outgoing.qos.isAcknowledged = false ∧ d.transmission? = none ∧
          (s.send x.message x.qos x.retain).2.inflight = s.inflight)) := by
  have houtcome := s.send_outcome x.message x.qos x.retain
  refine ⟨by simp [droppedBy, h], ?_⟩
  rw [h] at houtcome
  generalize (s.send x.message x.qos x.retain).2 = s' at houtcome ⊢
  cases houtcome with
  | @tracked token id packetIds howner hq hid hfree =>
    have hsent : Delivery.transmission? ⟨token, .publish (x.outgoing.toPublish id false)⟩ =
        some (id, x.outgoing) := by
      have hpacketId : (x.outgoing.toPublish id false).packetId = some id := if_pos hq
      simp only [Delivery.transmission?, hpacketId, Option.map_some, Message.message_toPublish]
    exact ⟨rfl, .inl ⟨id, hq, hsent, hfree, rfl⟩⟩
  | @passed token howner hq =>
    have hsent : Delivery.transmission? ⟨token, .publish (x.outgoing.toPublish 0 false)⟩ = none := by
      have hpacketId : (x.outgoing.toPublish 0 false).packetId = none := if_neg (Bool.eq_false_iff.1 hq)
      simp only [Delivery.transmission?, hpacketId, Option.map_none]
    exact ⟨rfl, .inr ⟨hq, hsent, rfl⟩⟩

/-- **Nothing gets lost in one sending.** -/
theorem send_conserves (s : Session) (x : Sending) :
    let r := s.send x.message x.qos x.retain
    let sent := r.1.toList.filterMap Delivery.transmission?
    (due s.queue ++ due [x.outgoing]).Perm (due r.2.queue ++ sent.map (·.2) ++ due (s.droppedBy x)) ∧
      r.2.inflight.publishes.toList.Perm (sent ++ s.inflight.publishes.toList) := by
  intro r sent
  cases hd : r.1 with
  | none =>
    obtain ⟨hqueue, hinflight⟩ := send_waits hd
    have hsent : sent = [] := by simp only [sent, hd, Option.toList_none, List.filterMap_nil]
    have hdue := congrArg due hqueue
    rw [due_append, due_append] at hdue
    rw [hsent, List.map_nil, List.append_nil, ← hdue, hinflight]
    exact ⟨List.perm_append_comm, .refl _⟩
  | some d =>
    obtain ⟨hdropped, hqueue, ⟨id, hq, htransmission, hfree, hinflight⟩ | ⟨hq, htransmission, hinflight⟩⟩ :=
      send_goes hd
    · have hsent : sent = [(id, x.outgoing)] := by simp [sent, hd, htransmission]
      have hdue : due [x.outgoing] = [x.outgoing] := by simp [due, hq]
      have hnew : s.inflight.publishes[id]? = none := by
        rw [Inflight.isInUse, Bool.or_eq_false_iff] at hfree
        exact Std.ExtTreeMap.getElem?_eq_none_of_contains_eq_false hfree.1
      rw [hsent, hdropped, hdue, hqueue, hinflight]
      exact ⟨by simp [due], toList_insert_perm hnew x.outgoing⟩
    · have hsent : sent = [] := by simp [sent, hd, htransmission]
      have hdue : due [x.outgoing] = [] := by simp [due, hq]
      rw [hsent, hdropped, hdue, hqueue, hinflight]
      exact ⟨by simp [due], .refl _⟩

/-- **Nothing gets lost in any number of sendings.** -/
theorem sendAll_conserves (s : Session) (xs : List Sending) :
    (due s.queue ++ due (xs.map Sending.outgoing)).Perm
        (due (s.sendAll xs).2.queue ++ (s.transmissions xs).map (·.2) ++ due (s.droppedByAll xs)) ∧
      (s.sendAll xs).2.inflight.publishes.toList.Perm (s.transmissions xs ++ s.inflight.publishes.toList) := by
  induction xs generalizing s with
  | nil => exact ⟨by simp [sendAll, transmissions, droppedByAll, due], by simp [sendAll, transmissions]⟩
  | cons x xs ih =>
    obtain ⟨hstep, hstep'⟩ := s.send_conserves x
    obtain ⟨hrest, hrest'⟩ := ih (s.send x.message x.qos x.retain).2
    have hcons : (x :: xs).map Sending.outgoing = [x.outgoing] ++ xs.map Sending.outgoing := rfl
    have htransmissions : s.transmissions (x :: xs) =
        (s.send x.message x.qos x.retain).1.toList.filterMap Delivery.transmission? ++
          (s.send x.message x.qos x.retain).2.transmissions xs := by
      rw [transmissions, sendAll_cons, List.filterMap_append]
      rfl
    rw [hcons, due_append, htransmissions, droppedByAll, due_append, sendAll_cons]
    constructor
    · rw [List.perm_iff_count] at hstep hrest ⊢
      intro m
      have h := hstep m
      have h' := hrest m
      simp only [List.count_append, List.map_append] at h h' ⊢
      omega
    · refine hrest'.trans ((hstep'.append_left _).trans ?_)
      rw [← List.append_assoc]
      exact List.perm_append_comm.append_right _

end Session

/-! ### Ledgers -/

/-- The message without its retain flag, which tells how it came to a session and changes on the way. -/
def Message.content (m : Message) : Message := { m with retain := false }

/-- What became of the messages that were handed to a session and ask for an acknowledgement. -/
structure Ledger where
  handed : List Message := []
  /-- What was sent, with its identifier. -/
  sent : List (UInt16 × Message) := []
  /-- What was sent and then acknowledged by the client. -/
  acknowledged : List (UInt16 × Message) := []
  /-- What was dropped while it waited. -/
  dropped : List Message := []

namespace Ledger

variable {l : Ledger} {s : Session}

/-- **The ledger accounts for the session.** What was handed over waits, was sent or was dropped; and what was
sent is kept under the identifier that it was sent with, or was acknowledged. -/
structure Accounts (l : Ledger) (s : Session) : Prop where
  handed : (l.handed.map Message.content).Perm
    ((due s.queue ++ l.sent.map (·.2) ++ l.dropped).map Message.content)
  sent : l.sent.Perm (s.inflight.publishes.toList ++ l.acknowledged)

/-- A session without history has an empty ledger. -/
theorem accounts_new (token : Nat) (clean : Bool) (maxQueued : Nat) :
    Accounts {} (.new token clean maxQueued) where
  handed := .refl _
  sent := by simp [Session.new, Inflight.empty]

/-- Only what waits and what is kept until it is acknowledged matters. -/
theorem Accounts.congr {s' : Session} (h : l.Accounts s) (hqueue : s'.queue = s.queue)
    (hpublishes : s'.inflight.publishes = s.inflight.publishes) : l.Accounts s' where
  handed := hqueue ▸ h.handed
  sent := hpublishes ▸ h.sent

/-- Sendings are made to a session; some of the messages are handed over by that. -/
def enter (l : Ledger) (s : Session) (xs : List Sending) (handed : List Message) : Ledger :=
  { l with
    handed := l.handed ++ due handed
    sent := l.sent ++ s.transmissions xs
    dropped := l.dropped ++ due (s.droppedByAll xs) }

/-- What was taken from the queue may be sent again if all else that is sent is handed over. -/
theorem Accounts.enter (h : l.Accounts s) {taken : Session} {xs : List Sending} {handed : List Message}
    (htaken : taken.inflight.publishes = s.inflight.publishes)
    (hxs : ((due taken.queue ++ due (xs.map Sending.outgoing)).map Message.content).Perm
      ((due s.queue ++ due handed).map Message.content)) :
    (l.enter taken xs handed).Accounts (taken.sendAll xs).2 := by
  obtain ⟨hsent, hkept⟩ := taken.sendAll_conserves xs
  constructor
  · have hold := h.handed
    have hnew := (hsent.map Message.content).symm.trans hxs
    rw [List.perm_iff_count] at hold hnew ⊢
    intro m
    have h := hold m
    have h' := hnew m
    simp only [Ledger.enter, List.map_append, List.count_append] at h h' ⊢
    omega
  · have hold := h.sent
    rw [htaken] at hkept
    rw [List.perm_iff_count] at hold hkept ⊢
    intro e
    have h := hold e
    have h' := hkept e
    simp only [Ledger.enter, List.count_append] at h h' ⊢
    omega

/-- The sendings hand their messages over. -/
def hand (l : Ledger) (s : Session) (xs : List Sending) : Ledger := l.enter s xs (xs.map Sending.outgoing)

theorem Accounts.hand (h : l.Accounts s) (xs : List Sending) : (l.hand s xs).Accounts (s.sendAll xs).2 :=
  h.enter rfl (.refl _)

/-- A session is taken up again: retained messages are handed over, and then what waited is sent once more. -/
def resume (l : Ledger) (s : Session) (replays : List Sending) : Ledger :=
  l.enter s.dropQueue (replays ++ s.queue.map Session.again) (replays.map Sending.outgoing)

theorem outgoing_again (m : Message) : (Session.again m).outgoing = m.content := by
  have hmin : min m.qos m.qos = m.qos := ite_self _
  simp only [Sending.outgoing, Session.again, Session.outgoing, hmin, Message.content]

theorem due_map_content (ms : List Message) : due (ms.map Message.content) = (due ms).map Message.content := by
  rw [due, List.filter_map]
  rfl

theorem Accounts.resume (h : l.Accounts s) (replays : List Sending) :
    (l.resume s replays).Accounts (s.dropQueue.sendAll (replays ++ s.queue.map Session.again)).2 := by
  have hqueue : (s.queue.map Session.again).map Sending.outgoing = s.queue.map Message.content := by
    rw [List.map_map]
    exact List.map_congr_left fun m _ => outgoing_again m
  have hcontent : ((due s.queue).map Message.content).map Message.content = (due s.queue).map Message.content := by
    rw [List.map_map]
    rfl
  have hnil : due s.dropQueue.queue = [] := rfl
  refine h.enter rfl ?_
  rw [hnil, List.nil_append, List.map_append (f := Sending.outgoing), hqueue, due_append, due_map_content,
    List.map_append, List.map_append, hcontent]
  exact List.perm_append_comm

/-- An identifier is acknowledged. -/
def settle (l : Ledger) (s : Session) (id : UInt16) : Ledger :=
  { l with acknowledged := l.acknowledged ++ (s.inflight.publishes[id]?).toList.map (id, ·) }

theorem Accounts.settle {s' : Session} {id : UInt16} (h : l.Accounts s) (hqueue : s'.queue = s.queue)
    (hpublishes : s'.inflight.publishes = s.inflight.publishes.erase id) : (l.settle s id).Accounts s' where
  handed := hqueue ▸ h.handed
  sent := by
    have hold := h.sent
    have herase := toList_perm_erase s.inflight.publishes id
    rw [hpublishes]
    rw [List.perm_iff_count] at hold herase ⊢
    intro e
    have h := hold e
    have h' := herase e
    simp only [Ledger.settle, List.count_append] at h h' ⊢
    omega

/-- The ledger goes on from another one: whatever is in that stays. -/
structure Extends (l l' : Ledger) : Prop where
  handed : l.handed <+: l'.handed
  sent : l.sent <+: l'.sent
  acknowledged : l.acknowledged <+: l'.acknowledged
  dropped : l.dropped <+: l'.dropped

theorem Extends.refl (l : Ledger) : l.Extends l :=
  ⟨List.prefix_rfl, List.prefix_rfl, List.prefix_rfl, List.prefix_rfl⟩

theorem Extends.trans {l₁ l₂ l₃ : Ledger} (h : l₁.Extends l₂) (h' : l₂.Extends l₃) : l₁.Extends l₃ :=
  ⟨h.handed.trans h'.handed, h.sent.trans h'.sent, h.acknowledged.trans h'.acknowledged,
    h.dropped.trans h'.dropped⟩

theorem extends_enter (l : Ledger) (s : Session) (xs : List Sending) (handed : List Message) :
    l.Extends (l.enter s xs handed) :=
  ⟨List.prefix_append _ _, List.prefix_append _ _, List.prefix_rfl, List.prefix_append _ _⟩

theorem extends_settle (l : Ledger) (s : Session) (id : UInt16) : l.Extends (l.settle s id) :=
  ⟨List.prefix_rfl, List.prefix_rfl, List.prefix_append _ _, List.prefix_rfl⟩

end Ledger

end Mqtt
