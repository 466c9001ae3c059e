import Mathlib.Data.FinEnum
import Mqtt.Proofs.Exchange
import Mqtt.Proofs.Ledger
import Mqtt.Proofs.Retained

/-!
# What a client that comes back is sent: `Broker::restart_session`

A client that comes back is sent the retained messages of its subscriptions, what waited for it, and then what it had
not acknowledged before. `Broker.restartSession_resumes` says which packets these are and what is left of the session.
The sendings are made one after the other while the session changes under them: each message that is to be acknowledged
takes one of the identifiers that are free, and once there are none the others wait in the order in which they came
(`Session.sendAll_served`). None of them takes an identifier of those that are sent again after them.
-/

namespace Mqtt

/-- The last of some messages that may wait; 0 is any number. -/
def newest (maxQueued : Nat) (ms : List Message) : List Message :=
  if maxQueued = 0 then ms else ms.drop (ms.length - maxQueued)

/-- Nothing comes back that gave way before. -/
theorem newest_append (maxQueued : Nat) (ms ms' : List Message) :
    newest maxQueued (newest maxQueued ms ++ ms') = newest maxQueued (ms ++ ms') := by
  unfold newest
  by_cases h : maxQueued = 0
  · simp [h]
  · rw [if_neg h, if_neg h, if_neg h, ← List.drop_append_of_le_length (Nat.sub_le _ _), List.drop_drop]
    congr 1
    simp only [List.length_drop, List.length_append]
    omega

/-- What goes out of some messages while so many identifiers are free. -/
def going : Nat → List Message → List Message
  | _, [] => []
  | n, m :: ms =>
    if m.qos.isAcknowledged then
      if n = 0 then going n ms else m :: going (n - 1) ms
    else m :: going n ms

/-- Where there are enough identifiers everything goes out. -/
theorem going_of_le {n : Nat} {ms : List Message} (h : (due ms).length ≤ n) : going n ms = ms := by
  induction ms generalizing n with
  | nil => rfl
  | cons m ms ih =>
    rw [due_cons] at h
    rw [going]
    split
    · next hq =>
      rw [if_pos hq, List.length_cons] at h
      rw [if_neg (Nat.ne_zero_of_lt h), ih (Nat.le_sub_one_of_lt h)]
    · next hq =>
      rw [if_neg hq] at h
      exact congrArg (m :: ·) (ih h)

/-- A message goes out under an identifier, or without one. -/
def Delivery.carrying (token : Nat) (e : UInt16 × Message) : Delivery :=
  ⟨token, .publish (e.2.toPublish e.1 false)⟩

namespace Session

variable {s s₁ s' : Session} {m : Message} {ms : List Message} {sent : List (UInt16 × Message)}

/-! ### Identifiers -/

/-- The identifiers that nothing holds. -/
def freeIds (s : Session) : Finset UInt16 := {id | id ≠ 0 ∧ s.inflight.isInUse id = false}

theorem mem_freeIds {id : UInt16} : id ∈ s.freeIds ↔ id ≠ 0 ∧ s.inflight.isInUse id = false := by simp [freeIds]

theorem card_freeIds_of_exhausted (h : s.Exhausted) : s.freeIds.card = 0 := by
  rw [Finset.card_eq_zero, Finset.eq_empty_iff_forall_notMem]
  intro id hid
  obtain ⟨hne, hfree⟩ := mem_freeIds.1 hid
  rw [h id hne] at hfree
  cases hfree

/-- A message takes one of the identifiers. -/
theorem freeIds_track {id : UInt16} (hinflight : s₁.inflight = s.inflight.track id m) :
    s₁.freeIds = s.freeIds.erase id := by
  ext other
  rw [Finset.mem_erase, mem_freeIds, mem_freeIds, hinflight, Inflight.isInUse, Inflight.isInUse, Inflight.track,
    Std.ExtTreeMap.contains_insert]
  by_cases h : id = other
  · simp [h]
  · simp [h, Ne.symm h]

theorem card_freeIds_track {id : UInt16} (hinflight : s₁.inflight = s.inflight.track id m) (hid : id ≠ 0)
    (hfree : s.inflight.isInUse id = false) : s₁.freeIds.card + 1 = s.freeIds.card := by
  rw [freeIds_track hinflight, Finset.card_erase_add_one (mem_freeIds.2 ⟨hid, hfree⟩)]

/-! ### Sending -/

/-- What is sent under an identifier. -/
def tracked (sent : List (UInt16 × Message)) : List (UInt16 × Message) := sent.filter (·.2.qos.isAcknowledged)

/-- What was sent is kept, and nothing else of the session changes but what waits. -/
structure Keeps (s : Session) (sent : List (UInt16 × Message)) (s' : Session) : Prop where
  /-- Each message that is to be acknowledged has an identifier of its own, which was free, -/
  distinct : ((tracked sent).map (·.1)).Nodup
  free : ∀ e ∈ tracked sent, e.1 ≠ 0 ∧ s.inflight.isInUse e.1 = false
  /-- and is kept under it, beside all that was kept before. -/
  publishes : ∀ id m, s'.inflight.publishes[id]? = some m ↔
    s.inflight.publishes[id]? = some m ∨ (id, m) ∈ tracked sent
  releases : s'.inflight.releases = s.inflight.releases
  received : s'.inflight.received = s.inflight.received
  hold : s'.hold = s.hold
  maxQueued : s'.maxQueued = s.maxQueued

theorem Keeps.refl (s : Session) : s.Keeps [] s where
  distinct := List.nodup_nil
  free := nofun
  publishes id m := by simp [tracked]
  releases := rfl
  received := rfl
  hold := rfl
  maxQueued := rfl

/-- What happens to the queue and the counter is of no account. -/
theorem Keeps.of_inflight (h : s₁.Keeps sent s') (hinflight : s₁.inflight = s.inflight) (hhold : s₁.hold = s.hold)
    (hmax : s₁.maxQueued = s.maxQueued) : s.Keeps sent s' :=
  ⟨h.distinct, hinflight ▸ h.free, hinflight ▸ h.publishes, hinflight ▸ h.releases, hinflight ▸ h.received,
    h.hold.trans hhold, h.maxQueued.trans hmax⟩

/-- A message without an identifier is not kept. -/
theorem Keeps.passes (h : s.Keeps sent s') (hq : m.qos.isAcknowledged = false) (id : UInt16) :
    s.Keeps ((id, m) :: sent) s' := by
  have htracked : tracked ((id, m) :: sent) = tracked sent := by simp [tracked, hq]
  exact ⟨htracked ▸ h.distinct, htracked ▸ h.free, htracked ▸ h.publishes, h.releases, h.received, h.hold, h.maxQueued⟩

/-- A message is kept under an identifier that was free, and none of the later ones takes it. -/
theorem Keeps.tracks {id : UInt16} (h : s₁.Keeps sent s') (hinflight : s₁.inflight = s.inflight.track id m)
    (hhold : s₁.hold = s.hold) (hmax : s₁.maxQueued = s.maxQueued) (hq : m.qos.isAcknowledged = true) (hid : id ≠ 0)
    (hfree : s.inflight.isInUse id = false) : s.Keeps ((id, m) :: sent) s' := by
  have htracked : tracked ((id, m) :: sent) = (id, m) :: tracked sent := by simp [tracked, hq]
  have hnew : s.inflight.publishes[id]? = none := by
    rw [Inflight.isInUse, Bool.or_eq_false_iff] at hfree
    exact Std.ExtTreeMap.getElem?_eq_none_of_contains_eq_false hfree.1
  have hlater : ∀ e ∈ tracked sent, e.1 ≠ id ∧ e.1 ≠ 0 ∧ s.inflight.isInUse e.1 = false := by
    intro e he
    have hmem := mem_freeIds.2 (h.free e he)
    rw [freeIds_track hinflight, Finset.mem_erase] at hmem
    exact ⟨hmem.1, mem_freeIds.1 hmem.2⟩
  refine ⟨?_, ?_, fun other m' => ?_, ?_, ?_, h.hold.trans hhold, h.maxQueued.trans hmax⟩
  · rw [htracked, List.map_cons, List.nodup_cons]
    refine ⟨fun hmem => ?_, h.distinct⟩
    obtain ⟨e, he, heq⟩ := List.mem_map.1 hmem
    exact (hlater e he).1 heq
  · rw [htracked]
    exact List.forall_mem_cons.2 ⟨⟨hid, hfree⟩, fun e he => (hlater e he).2⟩
  · rw [h.publishes, hinflight, htracked, List.mem_cons, Inflight.track, Std.ExtTreeMap.getElem?_insert]
    by_cases hother : id = other
    · subst hother
      simp [hnew, eq_comm]
    · simp [hother, Ne.symm hother]
  · rw [h.releases, hinflight]
    rfl
  · rw [h.received, hinflight]
    rfl

/-- No more waits than may. -/
def Bounded (s : Session) : Prop := s.maxQueued = 0 ∨ s.queue.length ≤ s.maxQueued

/-- One more message waits, and the oldest gives way if there are too many. -/
theorem Bounded.queue_enqueue (h : s.Bounded) (m : Message) :
    (s.enqueue m).queue = newest s.maxQueued (s.queue ++ [m]) := by
  unfold Session.enqueue newest
  by_cases hmax : s.maxQueued = 0
  · simp [hmax]
  · have hle := h.resolve_left hmax
    rw [if_neg hmax, List.length_append, List.length_singleton]
    by_cases hfull : s.queue.length = s.maxQueued
    · have hpos : 0 < s.queue.length := by omega
      have hgives : (s.maxQueued > 0 && s.queue.length ≥ s.maxQueued : Bool) = true := by
        simp only [Bool.and_eq_true, decide_eq_true_eq]
        omega
      rw [if_pos hgives, hfull, Nat.add_sub_cancel_left, List.drop_append_of_le_length hpos, List.drop_one]
    · have hkeeps : (s.maxQueued > 0 && s.queue.length ≥ s.maxQueued : Bool) = false := by
        simp only [Bool.and_eq_false_iff, decide_eq_false_iff_not]
        omega
      rw [if_neg (by rw [hkeeps]; exact Bool.false_ne_true), Nat.sub_eq_zero_of_le (by omega), List.drop_zero]

theorem Bounded.enqueue (h : s.Bounded) (m : Message) : (s.enqueue m).Bounded := by
  have hmax : (s.enqueue m).maxQueued = s.maxQueued := rfl
  rw [Bounded, hmax, h.queue_enqueue m, newest]
  by_cases hzero : s.maxQueued = 0
  · exact .inl hzero
  · right
    rw [if_neg hzero, List.length_drop, List.length_append]
    omega

/-- What becomes of messages that are sent to a session with an owner. -/
structure Served (s : Session) (ms : List Message) (sent : List (UInt16 × Message)) (s' : Session) : Prop where
  /-- As many go out as there are identifiers for, and all that need none, -/
  goes : sent.map (·.2) = going s.freeIds.card ms
  /-- the others wait, -/
  waits : s.Bounded → s'.queue = newest s.maxQueued (s.queue ++ (due ms).drop s.freeIds.card)
  /-- and what went out is kept. -/
  keeps : s.Keeps sent s'

theorem Served.nil (s : Session) : s.Served [] [] s where
  goes := rfl
  waits hbounded := by
    rw [due, List.filter_nil, List.drop_nil, List.append_nil, newest]
    by_cases hmax : s.maxQueued = 0
    · rw [if_pos hmax]
    · rw [if_neg hmax, Nat.sub_eq_zero_of_le (hbounded.resolve_left hmax), List.drop_zero]
  keeps := .refl s

/-- A message for which there is no identifier waits. -/
theorem Served.exhausted {packetIds : PacketIds} (h : ({ s with packetIds }.enqueue m).Served ms sent s')
    (hq : m.qos.isAcknowledged = true) (hall : s.Exhausted) : s.Served (m :: ms) sent s' where
  goes := by
    have hnone : ({ s with packetIds }.enqueue m).freeIds.card = 0 := card_freeIds_of_exhausted hall
    rw [h.goes, hnone, card_freeIds_of_exhausted hall, going, if_pos hq, if_pos rfl]
  waits hbounded := by
    have hnone : ({ s with packetIds }.enqueue m).freeIds.card = 0 := card_freeIds_of_exhausted hall
    have hbounded' : ({ s with packetIds } : Session).Bounded := hbounded
    have hwaits := h.waits (hbounded'.enqueue m)
    rw [hbounded'.queue_enqueue m, hnone] at hwaits
    rw [hwaits, card_freeIds_of_exhausted hall, due_cons, if_pos hq, List.drop_zero, List.drop_zero]
    refine (newest_append s.maxQueued (s.queue ++ [m]) (due ms)).trans ?_
    rw [List.append_assoc, List.singleton_append]
  keeps := h.keeps.of_inflight rfl rfl rfl

/-- A message goes out under a free identifier. -/
theorem Served.tracked {id : UInt16} {packetIds : PacketIds}
    (h : ({ s with packetIds, inflight := s.inflight.track id m } : Session).Served ms sent s')
    (hq : m.qos.isAcknowledged = true) (hid : id ≠ 0) (hfree : s.inflight.isInUse id = false) :
    s.Served (m :: ms) ((id, m) :: sent) s' := by
  have hcard : ({ s with packetIds, inflight := s.inflight.track id m } : Session).freeIds.card + 1 =
      s.freeIds.card := card_freeIds_track rfl hid hfree
  refine ⟨?_, fun hbounded => ?_, h.keeps.tracks rfl rfl rfl hq hid hfree⟩
  · rw [← hcard, going, if_pos hq, if_neg (Nat.succ_ne_zero _), Nat.add_sub_cancel, List.map_cons, h.goes]
  · rw [h.waits hbounded, ← hcard, due_cons, if_pos hq, List.drop_succ_cons]

/-- A message that needs no identifier goes out. -/
theorem Served.passed (h : s.Served ms sent s') (hq : m.qos.isAcknowledged = false) (id : UInt16) :
    s.Served (m :: ms) ((id, m) :: sent) s' where
  goes := by
    rw [going, if_neg (by rw [hq]; exact Bool.false_ne_true), List.map_cons, h.goes]
  waits hbounded := by
    rw [h.waits hbounded, due_cons, if_neg (by rw [hq]; exact Bool.false_ne_true)]
  keeps := h.keeps.passes hq id

/-- What becomes of the first of some messages to the owner of a session: it waits, it goes out under an identifier, or
it goes out without one, and the others are sent after it. -/
inductive First (s : Session) (token : Nat) (x : Sending) (xs : List Sending) : List Delivery × Session → Prop
  | exhausted {packetIds : PacketIds} : x.outgoing.qos.isAcknowledged = true → s.Exhausted →
      First s token x xs (({ s with packetIds }.enqueue x.outgoing).sendAll xs)
  | tracked {id : UInt16} {packetIds : PacketIds} {after : Session} :
      after = { s with packetIds, inflight := s.inflight.track id x.outgoing } →
      x.outgoing.qos.isAcknowledged = true → id ≠ 0 → s.inflight.isInUse id = false →
      First s token x xs (Delivery.carrying token (id, x.outgoing) :: (after.sendAll xs).1, (after.sendAll xs).2)
  | passed : x.outgoing.qos.isAcknowledged = false →
      First s token x xs (Delivery.carrying token (0, x.outgoing) :: (s.sendAll xs).1, (s.sendAll xs).2)

theorem sendAll_first {token : Nat} (howner : s.owner = some token) (x : Sending) (xs : List Sending) :
    First s token x xs (s.sendAll (x :: xs)) := by
  have houtcome := s.send_outcome x.message x.qos x.retain
  rw [sendAll_cons]
  generalize s.send x.message x.qos x.retain = r at houtcome ⊢
  obtain ⟨d, s₁⟩ := r
  cases houtcome with
  | absent hnone =>
    rw [howner] at hnone
    cases hnone
  | exhausted _ hq hall => exact .exhausted hq hall
  | tracked howner' hq hid hfree =>
    cases Option.some.inj (howner'.symm.trans howner)
    exact .tracked rfl hq hid hfree
  | passed howner' hq =>
    cases Option.some.inj (howner'.symm.trans howner)
    exact .passed hq

/-- **Sending to a session with an owner.** -/
theorem sendAll_served {token : Nat} (howner : s.owner = some token) (xs : List Sending) :
    ∃ sent, (s.sendAll xs).1 = sent.map (Delivery.carrying token) ∧
      s.Served (xs.map Sending.outgoing) sent (s.sendAll xs).2 := by
  induction xs generalizing s with
  | nil => exact ⟨[], rfl, .nil s⟩
  | cons x xs ih =>
    have hfirst := sendAll_first howner x xs
    generalize s.sendAll (x :: xs) = r at hfirst ⊢
    cases hfirst with
    | @exhausted packetIds hq hall =>
      obtain ⟨sent, hsent, hserved⟩ := ih (s := { s with packetIds }.enqueue x.outgoing) howner
      exact ⟨sent, hsent, hserved.exhausted hq hall⟩
    | @tracked id packetIds after hafter hq hid hfree =>
      subst hafter
      obtain ⟨sent, hsent, hserved⟩ :=
        ih (s := { s with packetIds, inflight := s.inflight.track id x.outgoing }) howner
      exact ⟨(id, x.outgoing) :: sent, congrArg (_ :: ·) hsent, hserved.tracked hq hid hfree⟩
    | passed hq =>
      obtain ⟨sent, hsent, hserved⟩ := ih howner
      exact ⟨(0, x.outgoing) :: sent, congrArg (_ :: ·) hsent, hserved.passed hq 0⟩

end Session

/-- What is sent again names only identifiers that are in use. -/
theorem Inflight.isInUse_of_mem_resend {s : Inflight} {q : Packet} {id : UInt16} (hq : q ∈ s.resend)
    (hid : q.requests id = true) : s.isInUse id = true := by
  rw [isInUse, Bool.or_eq_true]
  rcases Exchange.mem_resend hq with ⟨id', m, hm, rfl⟩ | ⟨id', hid', rfl⟩
  · left
    rw [← (Packet.eq_of_requests_toPublish hid).2, Std.ExtTreeMap.contains_eq_isSome_getElem?, hm]
    rfl
  · right
    rw [← of_decide_eq_true hid]
    exact Std.ExtTreeSet.contains_iff_mem.2 hid'

/-! ### Bringing a client up to date -/

namespace Broker

variable {b : Broker} {client : String} {s : Session} {token : Nat}

/-- The walk finds for each filter the retained messages that match it, in whatever order. -/
def Walks (b : Broker) (walk : Walk) : Prop := ∀ filter, (walk filter).Perm (b.retained.matching filter)

/-- The messages that are due to a client that comes back, as they are to go out: the retained messages of its
subscriptions in the order of a walk, and then what waited. -/
def replay (b : Broker) (walk : Walk) (client : String) (s : Session) : List Message :=
  ((b.subscriptions.subscriptions client).flatMap fun line =>
    (walk line.1).map fun m => { m with qos := min m.qos line.2, retain := true })
    ++ s.queue.map fun m => { m with retain := false }

theorem outgoing_walked (b : Broker) (walk : Walk) (client : String) (s : Session) :
    (walked walk (b.subscriptions.subscriptions client) ++ s.queue.map Session.again).map Sending.outgoing
      = b.replay walk client s := by
  rw [replay, walked, List.map_append, List.map_flatMap, List.map_map]
  congr 1
  · refine congrArg (List.flatMap · _) (funext fun line => ?_)
    rw [List.map_map]
    rfl
  · exact List.map_congr_left fun m _ => Ledger.outgoing_again m

/-- Another walk makes the same messages due. -/
theorem Walks.replay_perm {walk : Walk} (h : b.Walks walk) (client : String) (s : Session) :
    (b.replay walk client s).Perm (b.replay b.retained.matching client s) :=
  (List.Perm.flatMap_left _ fun line _ => (h line.1).map _).append_right _

/-- What comes of bringing a client up to date: what is due goes out to the owner of its session, followed by all that
was sent before and not acknowledged. -/
structure Resumes (b : Broker) (client : String) (s : Session) (token : Nat) (due : List Message)
    (result : List Delivery × Broker) (sent : List (UInt16 × Message)) (s' : Session) : Prop where
  result : result = (sent.map (Delivery.carrying token) ++ s.inflight.resend.map (Delivery.mk token),
    b.setSession client s')
  /-- As much goes out as there are identifiers for, -/
  goes : sent.map (·.2) = going s.freeIds.card due
  /-- the rest waits in its order, -/
  waits : s'.queue = newest s.maxQueued ((Mqtt.due due).drop s.freeIds.card)
  /-- and nothing waits if there are identifiers enough. -/
  enough : (Mqtt.due due).length ≤ s.freeIds.card → sent.map (·.2) = due ∧ s'.queue = []
  /-- What goes out under an identifier is kept under it, -/
  keeps : s.Keeps sent s'
  /-- and no identifier of those that are sent again is taken. -/
  apart : ∀ e ∈ Session.tracked sent, ∀ q ∈ s.inflight.resend, q.requests e.1 = false

/-- The sendings are made to the session as it was without its queue, and what is sent again was taken down before. -/
theorem restartWalking_resumes (walk : Walk) (hs : b.session? client = some s) (howner : s.owner = some token) :
    ∃ sent s', b.Resumes client s token (b.replay walk client s) (b.restartWalking walk client) sent s' := by
  have howner' : s.dropQueue.owner = some token := howner
  have hbounded : s.dropQueue.Bounded := .inr (Nat.zero_le _)
  obtain ⟨sent, hsent, hserved⟩ := Session.sendAll_served howner'
    (walked walk (b.subscriptions.subscriptions client) ++ s.queue.map Session.again)
  rw [outgoing_walked] at hserved
  have hids : s.dropQueue.freeIds = s.freeIds := rfl
  have hempty : s.dropQueue.queue = [] := rfl
  have hgoes := hserved.goes
  have hwaits := hserved.waits hbounded
  rw [hids] at hgoes hwaits
  rw [hempty, List.nil_append] at hwaits
  have hkeeps := hserved.keeps.of_inflight (s := s) rfl rfl rfl
  refine ⟨sent, _, by rw [restartWalking_eq walk hs howner, hsent], hgoes, hwaits, fun henough => ⟨?_, ?_⟩, hkeeps,
    fun e he q hq => ?_⟩
  · rw [hgoes]
    exact going_of_le henough
  · rw [hwaits, List.drop_eq_nil_of_le henough]
    simp [newest]
  · rw [Bool.eq_false_iff]
    intro hrequests
    have hused := Inflight.isInUse_of_mem_resend hq hrequests
    exact nomatch hused.symm.trans (hkeeps.free e he).2

theorem restartSession_resumed (hs : b.session? client = some s) (howner : s.owner = some token) :
    ∃ sent s', b.Resumes client s token (b.replay b.retained.matching client s) (b.restartSession client) sent s' := by
  rw [restartSession_eq_walking]
  exact restartWalking_resumes b.retained.matching hs howner

/-- **What a client that comes back is sent.** The retained messages of its subscriptions and then what waited for it
go out to the owner of its session, followed by all that was sent before and not acknowledged. Those that are to be
acknowledged go out under identifiers that were free and are kept under them, so none of them is among those that are
sent again. If there are fewer identifiers than such messages, the others wait in their order. All this holds in
whatever order the retained messages of a filter are met, and the same messages are due. A client's subscriptions
are in the order of their filters, and a filter finds each retained message that matches it once, as long as the trees
hold what they were made to hold. -/
theorem restartSession_resumes (hs : b.session? client = some s) (howner : s.owner = some token) :
    (∃ sent s', b.Resumes client s token (b.replay b.retained.matching client s) (b.restartSession client) sent s') ∧
    (∀ walk, b.Walks walk →
      (b.replay walk client s).Perm (b.replay b.retained.matching client s) ∧
      ∃ sent s', b.Resumes client s token (b.replay walk client s) (b.restartWalking walk client) sent s') ∧
    b.restartSession client = b.restartWalking b.retained.matching client ∧
    (∀ lines, b.subscriptions.Files lines →
      (b.subscriptions.subscriptions client).Pairwise (fun line line' => line.1 < line'.1) ∧
      ∀ filter q, (filter, q) ∈ b.subscriptions.subscriptions client ↔
        b.subscriptions.granted? filter client = some q) ∧
    ∀ held, b.retained.Files held → ∀ filter, (b.retained.matching filter).Nodup ∧
      ∀ m, m ∈ b.retained.matching filter ↔ m ∈ b.retained.messages ∧ Topic.isMatch m.topic filter = true := by
  refine ⟨restartSession_resumed hs howner,
    fun walk hwalk => ⟨hwalk.replay_perm client s, restartWalking_resumes walk hs howner⟩,
    b.restartSession_eq_walking client,
    fun lines hlines => ⟨hlines.subscriptions_ascending client, fun filter q => ?_⟩,
    fun held hheld filter => ⟨hheld.nodup_matching filter, fun m => hheld.mem_matching_iff⟩⟩
  rw [hlines.mem_subscriptions, hlines.lookup]

/-- A message that is retained, -/
def displayed : Message := ⟨"t", "r".toUTF8, .exactlyOnce, true⟩

/-- one that waited, -/
def postponed : Message := ⟨"a", "x".toUTF8, .atLeastOnce, false⟩

/-- and one that was sent and not acknowledged. -/
def unanswered : Message := ⟨"b", "y".toUTF8, .exactlyOnce, false⟩

/-- The session of a client that has just come back. -/
def visitor : Session :=
  { Session.new 1 false 0 with queue := [postponed], inflight := Inflight.empty.track 7 unanswered }

def visited : Broker :=
  { (Broker.new {}).setSession "c" visitor with
    subscriptions := (SubscriptionTree.empty.subscribe "+" "c" .atLeastOnce).2
    retained := RetainTree.empty.retain displayed }

/-- All three are sent: the first two under new identifiers, the last one again under its own. -/
theorem restartSession_resumes_visited :
    visited.session? "c" = some visitor ∧ visitor.owner = some 1 ∧ ∃ id id' s',
      id ≠ id' ∧ id ≠ 7 ∧ id' ≠ 7 ∧
      visited.restartSession "c" =
        ([⟨1, .publish ({ displayed with qos := .atLeastOnce }.toPublish id false)⟩,
          ⟨1, .publish (postponed.toPublish id' false)⟩, ⟨1, .publish (unanswered.toPublish 7 true)⟩],
          visited.setSession "c" s') ∧
      s'.queue = [] ∧ s'.inflight.publishes[id']? = some postponed := by
  have hs : visited.session? "c" = some visitor := by simp [visited, Broker.session?, Broker.setSession]
  obtain ⟨⟨sent, s', h⟩, -⟩ := restartSession_resumes hs rfl
  have hdue : visited.replay visited.retained.matching "c" visitor
      = [{ displayed with qos := .atLeastOnce }, postponed] := by
    decide +kernel
  have hresend : visitor.inflight.resend = [.publish (unanswered.toPublish 7 true)] := by decide +kernel
  have hfree : 1 < visitor.freeIds.card := by
    have hone (id : UInt16) (hid : id ≠ 0 ∧ visitor.inflight.isInUse id = false) : id ∈ visitor.freeIds :=
      Session.mem_freeIds.2 hid
    exact Finset.one_lt_card.2 ⟨1, hone 1 (by decide +kernel), 2, hone 2 (by decide +kernel), by decide⟩
  rw [hdue] at h
  obtain ⟨hsent, hqueue⟩ := h.enough hfree
  obtain ⟨⟨id, m⟩, rest, rfl, hm, hrest⟩ := List.map_eq_cons_iff.1 hsent
  obtain ⟨⟨id', m'⟩, rfl, hm'⟩ := List.map_eq_singleton_iff.1 hrest
  dsimp only at hm hm'
  subst hm hm'
  have htracked : Session.tracked [(id, { displayed with qos := .atLeastOnce }), (id', postponed)]
      = [(id, { displayed with qos := .atLeastOnce }), (id', postponed)] := rfl
  have hdistinct := h.keeps.distinct
  have hapart := h.apart
  rw [htracked] at hdistinct
  rw [htracked, hresend] at hapart
  have hother {e : UInt16 × Message} (he : e ∈ [(id, { displayed with qos := .atLeastOnce }), (id', postponed)]) :
      e.1 ≠ 7 := fun hseven => by
    have hquiet := hapart e he _ (List.mem_singleton.2 rfl)
    rw [hseven] at hquiet
    exact absurd hquiet (by decide)
  have hkept := (h.keeps.publishes id' postponed).2 (.inr (htracked ▸ .tail _ (.head _)))
  refine ⟨hs, rfl, id, id', s', ?_, hother (.head _), hother (.tail _ (.head _)), ?_, hqueue, hkept⟩
  · simpa using hdistinct
  · rw [h.result, hresend]
    rfl

end Broker

end Mqtt
