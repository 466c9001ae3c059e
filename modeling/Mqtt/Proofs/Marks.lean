import Mqtt.Message

/-!
# The history of packet identifiers

A message that needs an acknowledgement leaves marks on its way: the sender takes an identifier for it,
the receiver passes it on, the sender hears that it was acknowledged or has arrived. Identifiers are
used again, so a mark belongs to the message for which its identifier was taken last.

`Log.Kept` is the promise of the two acknowledged qualities of service for a whole history. `Log.lane`
reads a history mark by mark and stops at the first one that may not come next; `Log.kept_of_lane` says
that a history read to its end is one in which the promise is kept.
-/

namespace Mqtt

/-- Something that happened to the message of an identifier. -/
inductive Mark where
  /-- The sender keeps the message under the identifier. -/
  | taken (id : UInt16) (m : Message)
  /-- The receiver passes on the message of a PUBLISH with the identifier. -/
  | arrived (id : UInt16) (m : Message)
  /-- The sender learns from PUBACK that its message was received. -/
  | acknowledged (id : UInt16)
  /-- The sender learns from PUBCOMP that its message has arrived. -/
  | completed (id : UInt16)
  deriving DecidableEq

namespace Mark

def id : Mark → UInt16
  | taken id _ | arrived id _ | acknowledged id | completed id => id

/-- The identifier is taken anew. -/
def takes (id : UInt16) : Mark → Bool
  | taken id' _ => id' = id
  | _ => false

/-- The message that was passed on. -/
def arrival? : Mark → Option Message
  | arrived _ m => some m
  | _ => none

end Mark

/-- What happened in one direction, the oldest first. -/
abbrev Log := List Mark

namespace Log

/-- What happened to the message of an identifier after it was taken: the marks of the identifier until
it is taken anew. -/
def life (id : UInt16) (after : Log) : Log := (after.takeWhile (!·.takes id)).filter (·.id = id)

/-- The messages passed on. -/
def arrivals (log : Log) : List Message := log.filterMap Mark.arrival?

/-- The promise of the acknowledged qualities of service. -/
structure Kept (log : Log) : Prop where
  /-- A message sent "exactly once" is passed on at most once, -/
  exactlyOnce : ∀ before id m after, log = before ++ .taken id m :: after → m.qos = .exactlyOnce →
    arrivals (life id after) = [] ∨ arrivals (life id after) = [m]
  /-- and once if its sender has heard that it has arrived. -/
  completed : ∀ before id m after, log = before ++ .taken id m :: after → m.qos = .exactlyOnce →
    .completed id ∈ life id after → arrivals (life id after) = [m]
  /-- A message sent "at least once" is passed on unchanged however often, and at least once if its
  sender has heard that it was received. -/
  atLeastOnce : ∀ before id m after, log = before ++ .taken id m :: after → m.qos = .atLeastOnce →
    (∀ m' ∈ arrivals (life id after), m' = m) ∧
      (.acknowledged id ∈ life id after → arrivals (life id after) ≠ [])
  /-- Nothing is passed on but the message for which the identifier was taken last. -/
  known : ∀ before id m after, log = before ++ .arrived id m :: after →
    ∃ earlier later, before = earlier ++ .taken id m :: later ∧ ∀ x ∈ later, x.takes id = false

end Log

/-! ### Reading a history -/

/-- What an identifier stands for. -/
inductive Lane where
  | free
  /-- A message that was passed on so many times. -/
  | busy (m : Message) (arrivals : Nat)

/-- The next mark of the identifier, if it may come next. -/
def Lane.step : Lane → Mark → Option Lane
  | free, .taken _ m => some (busy m 0)
  | busy m n, .arrived _ m' =>
    if m' = m ∧ (m.qos = .exactlyOnce → n = 0) then some (busy m (n + 1)) else none
  | busy m n, .acknowledged _ => if m.qos = .atLeastOnce ∧ 0 < n then some free else none
  | busy m n, .completed _ => if m.qos = .exactlyOnce ∧ n = 1 then some free else none
  | _, _ => none

/-- An identifier becomes busy when it is taken, and stays so when its message is passed on. -/
theorem Lane.of_step_eq_busy {l : Lane} {x : Mark} {m : Message} {n : Nat} (h : l.step x = some (busy m n)) :
    x = .taken x.id m ∨ ∃ n', l = busy m n' ∧ ∀ id, x.takes id = false := by
  cases x with
  | taken id' m' =>
    cases l with
    | free =>
      cases h
      exact .inl rfl
    | busy => cases h
  | arrived id' m' =>
    cases l with
    | free => cases h
    | busy m₀ n₀ =>
      rw [step] at h
      split at h
      · cases h
        exact .inr ⟨n₀, rfl, fun _ => rfl⟩
      · cases h
  | acknowledged | completed =>
    cases l with
    | free => cases h
    | busy m₀ n₀ =>
      rw [step] at h
      split at h <;> cases h

namespace Log

/-- One mark of a history, where only those of one identifier count. -/
def laneStep (id : UInt16) (l : Option Lane) (x : Mark) : Option Lane :=
  if x.id = id then l.bind (·.step x) else l

/-- What an identifier stands for at the end of a history, if the history is one that may be. -/
def lane (id : UInt16) (log : Log) : Option Lane := log.foldl (laneStep id) (some .free)

variable {id : UInt16}

@[simp] theorem lane_nil : lane id [] = some .free := rfl

theorem lane_append (log more : Log) : lane id (log ++ more) = more.foldl (laneStep id) (lane id log) :=
  List.foldl_append

/-! The marks that may come next. -/

theorem lane_taken {log : Log} {m : Message} (h : lane id log = some .free) :
    lane id (log ++ [.taken id m]) = some (.busy m 0) := by
  simp [lane_append, h, laneStep, Mark.id, Lane.step]

theorem lane_arrived {log : Log} {m : Message} {n : Nat} (h : lane id log = some (.busy m n))
    (hn : m.qos = .exactlyOnce → n = 0) :
    lane id (log ++ [.arrived id m]) = some (.busy m (n + 1)) := by
  simp only [lane_append, h, List.foldl_cons, List.foldl_nil, laneStep, Mark.id, if_true, Option.bind_some,
    Lane.step]
  rw [if_pos ⟨trivial, hn⟩]

theorem lane_acknowledged {log : Log} {m : Message} {n : Nat} (h : lane id log = some (.busy m n))
    (hq : m.qos = .atLeastOnce) (hn : 0 < n) : lane id (log ++ [.acknowledged id]) = some .free := by
  simp [lane_append, h, laneStep, Mark.id, Lane.step, hq, hn]

theorem lane_completed {log : Log} {m : Message} (h : lane id log = some (.busy m 1))
    (hq : m.qos = .exactlyOnce) : lane id (log ++ [.completed id]) = some .free := by
  simp [lane_append, h, laneStep, Mark.id, Lane.step, hq]

theorem laneStep_none (x : Mark) : laneStep id none x = none := by
  unfold laneStep
  split <;> rfl

theorem foldl_none (log : Log) : log.foldl (laneStep id) none = none := by
  induction log with
  | nil => rfl
  | cons x log ih => rw [List.foldl_cons, laneStep_none, ih]

/-- Marks of other identifiers do not count. -/
theorem foldl_filter (log : Log) (l : Option Lane) :
    (log.filter (·.id = id)).foldl (laneStep id) l = log.foldl (laneStep id) l := by
  induction log generalizing l with
  | nil => rfl
  | cons x log ih =>
    by_cases hx : x.id = id
    · rw [List.filter_cons_of_pos (by simpa using hx), List.foldl_cons, List.foldl_cons, ih]
    · rw [List.filter_cons_of_neg (by simpa using hx), List.foldl_cons, ih, laneStep, if_neg hx]

/-- A history that can be read to its end can be read up to where an identifier is taken anew. -/
theorem life_isSome {after : Log} {l : Option Lane} (h : (after.foldl (laneStep id) l).isSome) :
    ((life id after).foldl (laneStep id) l).isSome := by
  unfold life
  rw [foldl_filter]
  rw [← List.takeWhile_append_dropWhile (p := (!·.takes id)) (l := after), List.foldl_append] at h
  cases hl : (after.takeWhile (!·.takes id)).foldl (laneStep id) l with
  | none =>
    rw [hl, foldl_none] at h
    cases h
  | some _ => rfl

theorem mem_life {after : Log} {x : Mark} (h : x ∈ life id after) : x.id = id ∧ x.takes id = false := by
  obtain ⟨hmem, hid⟩ := List.mem_filter.1 h
  have htakes := List.all_eq_true.1 List.all_takeWhile x hmem
  exact ⟨by simpa using hid, by simpa using htakes⟩

/-- A free identifier has no marks before it is taken. -/
theorem eq_nil_of_free {log : Log} (hlog : ∀ x ∈ log, x.id = id ∧ x.takes id = false)
    (h : (log.foldl (laneStep id) (some .free)).isSome) : log = [] := by
  cases log with
  | nil => rfl
  | cons x log =>
    obtain ⟨hid, htakes⟩ := hlog x (.head _)
    rw [List.foldl_cons, laneStep, if_pos hid] at h
    cases x with
    | taken id' m =>
      rw [Mark.takes, decide_eq_false_iff_not] at htakes
      exact absurd hid htakes
    | arrived | acknowledged | completed =>
      have hstuck : (log.foldl (laneStep id) none).isSome := h
      rw [foldl_none] at hstuck
      cases hstuck

/-- The course of a message that has an identifier and was passed on `n` times, and what its identifier
stands for in the end. -/
inductive Course (id : UInt16) (m : Message) : Nat → Log → Lane → Prop
  | busy (n : Nat) : Course id m n [] (.busy m n)
  | arrived {n : Nat} {log : Log} {l : Lane} : (m.qos = .exactlyOnce → n = 0) → Course id m (n + 1) log l →
      Course id m n (.arrived id m :: log) l
  | acknowledged {n : Nat} : m.qos = .atLeastOnce → 0 < n → Course id m n [.acknowledged id] .free
  | completed : m.qos = .exactlyOnce → Course id m 1 [.completed id] .free

theorem course_of_busy {m : Message} {n : Nat} {log : Log} {l : Lane}
    (hlog : ∀ x ∈ log, x.id = id ∧ x.takes id = false)
    (h : log.foldl (laneStep id) (some (.busy m n)) = some l) : Course id m n log l := by
  induction log generalizing n with
  | nil =>
    cases h
    exact .busy n
  | cons x log ih =>
    obtain ⟨hid, htakes⟩ := hlog x (.head _)
    have hrest : ∀ y ∈ log, y.id = id ∧ y.takes id = false := fun y hy => hlog y (.tail _ hy)
    have hlast (h : log.foldl (laneStep id) (some .free) = some l) : log = [] ∧ l = .free := by
      obtain rfl := eq_nil_of_free hrest (by simp [h])
      cases h
      exact ⟨rfl, rfl⟩
    rw [List.foldl_cons, laneStep, if_pos hid, Option.bind_some] at h
    cases x with
    | taken id' m' =>
      rw [Mark.takes, decide_eq_false_iff_not] at htakes
      exact absurd hid htakes
    | arrived id' m' =>
      obtain rfl : id' = id := hid
      rw [Lane.step] at h
      split at h
      · next hnext =>
        obtain ⟨rfl, hfirst⟩ := hnext
        exact .arrived hfirst (ih hrest h)
      · rw [foldl_none] at h
        cases h
    | acknowledged id' =>
      obtain rfl : id' = id := hid
      rw [Lane.step] at h
      split at h
      · next hnext =>
        obtain ⟨rfl, rfl⟩ := hlast h
        exact .acknowledged hnext.1 hnext.2
      · rw [foldl_none] at h
        cases h
    | completed id' =>
      obtain rfl : id' = id := hid
      rw [Lane.step] at h
      split at h
      · next hnext =>
        obtain ⟨rfl, rfl⟩ := hlast h
        obtain ⟨hq, rfl⟩ := hnext
        exact .completed hq
      · rw [foldl_none] at h
        cases h

namespace Course

variable {m : Message} {n : Nat} {log : Log} {l : Lane}

/-- Only the message itself is passed on, and as often as its quality of service allows. -/
theorem arrivals (h : Course id m n log l) :
    (∀ m' ∈ log.arrivals, m' = m) ∧
      (m.qos = .exactlyOnce → n ≤ 1 → n + log.arrivals.length ≤ 1) ∧
      (.completed id ∈ log → n + log.arrivals.length = 1) ∧
      (.acknowledged id ∈ log → 0 < n + log.arrivals.length) := by
  induction h with
  | busy n => simp [Log.arrivals]
  | @arrived n log l hfirst _ ih =>
    obtain ⟨hsame, honce, hcompleted, hacknowledged⟩ := ih
    have harrivals : Log.arrivals (.arrived id m :: log) = m :: log.arrivals := rfl
    rw [harrivals, List.length_cons]
    refine ⟨fun m' hm' => ?_, fun hq hn => ?_, fun hmem => ?_, fun _ => by omega⟩
    · rcases List.mem_cons.1 hm' with rfl | hm'
      · rfl
      · exact hsame m' hm'
    · have hzero := hfirst hq
      have hmore := honce hq (by omega)
      omega
    · have hmore := hcompleted (by simpa using hmem)
      omega
  | acknowledged _ hn =>
    have hnone : Log.arrivals [.acknowledged id] = [] := rfl
    rw [hnone]
    exact ⟨List.forall_mem_nil _, fun _ hle => hle, by simp, fun _ => hn⟩
  | completed _ =>
    have hnone : Log.arrivals [.completed id] = [] := rfl
    rw [hnone]
    exact ⟨List.forall_mem_nil _, fun _ hle => hle, fun _ => rfl, by simp⟩

/-- The message is open as long as it was not settled. -/
theorem busy_or_settled (h : Course id m n log l) :
    l = .busy m (n + log.arrivals.length) ∨
      (l = .free ∧ (.acknowledged id ∈ log ∨ .completed id ∈ log)) := by
  induction h with
  | busy n => exact .inl rfl
  | @arrived n log l _ _ ih =>
    rcases ih with rfl | ⟨rfl, hsettled⟩
    · have hcount : n + (Log.arrivals (.arrived id m :: log)).length = n + 1 + log.arrivals.length := by
        have harrivals : Log.arrivals (.arrived id m :: log) = m :: log.arrivals := rfl
        rw [harrivals, List.length_cons]
        omega
      exact .inl (congrArg (Lane.busy m) hcount.symm)
    · exact .inr ⟨rfl, hsettled.imp (.tail _) (.tail _)⟩
  | acknowledged => exact .inr ⟨rfl, .inl (.head _)⟩
  | completed => exact .inr ⟨rfl, .inr (.head _)⟩

end Course

/-- A busy identifier was taken for its message, and not taken anew since. -/
theorem taken_of_busy {m : Message} {n : Nat} {log : Log} {l : Option Lane}
    (h : log.foldl (laneStep id) l = some (.busy m n)) :
    (∃ earlier later, log = earlier ++ .taken id m :: later ∧ ∀ x ∈ later, x.takes id = false) ∨
      ((∃ n', l = some (.busy m n')) ∧ ∀ x ∈ log, x.takes id = false) := by
  induction log generalizing l with
  | nil => exact .inr ⟨⟨n, h⟩, by simp⟩
  | cons x log ih =>
    rw [List.foldl_cons] at h
    rcases ih h with ⟨earlier, later, rfl, hlater⟩ | ⟨⟨n', hn'⟩, hlog⟩
    · exact .inl ⟨x :: earlier, later, rfl, hlater⟩
    · unfold laneStep at hn'
      split at hn'
      · next hid =>
        obtain ⟨l, rfl, hstep⟩ := Option.bind_eq_some_iff.1 hn'
        rcases Lane.of_step_eq_busy hstep with hx | ⟨n'', rfl, hx⟩
        · exact .inl ⟨[], log, by rw [List.nil_append, ← hid, ← hx], hlog⟩
        · exact .inr ⟨⟨n'', rfl⟩, fun y hy => (List.mem_cons.1 hy).elim (· ▸ hx id) (hlog y)⟩
      · next hid =>
        have hx : x.takes id = false := by
          cases x with
          | taken id' m' => exact decide_eq_false hid
          | arrived | acknowledged | completed => rfl
        exact .inr ⟨⟨n', hn'⟩, fun y hy => (List.mem_cons.1 hy).elim (· ▸ hx) (hlog y)⟩

/-- An identifier that is not free cannot be taken. -/
theorem laneStep_taken (l : Option Lane) (m : Message) :
    laneStep id l (.taken id m) = some (.busy m 0) ∨ laneStep id l (.taken id m) = none := by
  unfold laneStep
  rw [if_pos (show (Mark.taken id m).id = id from rfl)]
  match l with
  | none => exact .inr rfl
  | some .free => exact .inl rfl
  | some (.busy _ _) => exact .inr rfl

/-- An identifier that is taken stands for its message. -/
theorem lane_of_taken {before after : Log} {m : Message}
    (h : (lane id (before ++ .taken id m :: after)).isSome) :
    lane id (before ++ .taken id m :: after) = after.foldl (laneStep id) (some (.busy m 0)) := by
  rw [lane_append, List.foldl_cons] at h ⊢
  rcases laneStep_taken (lane id before) m with htaken | hstuck
  · rw [htaken]
  · rw [hstuck, foldl_none] at h
    cases h

/-- The course of a message in a history that can be read to its end. -/
theorem course_of_lane {before after : Log} {m : Message}
    (h : (lane id (before ++ .taken id m :: after)).isSome) :
    ∃ l, (life id after).foldl (laneStep id) (some (.busy m 0)) = some l ∧ Course id m 0 (life id after) l := by
  obtain ⟨l, hl⟩ := Option.isSome_iff_exists.1 (life_isSome (lane_of_taken h ▸ h))
  exact ⟨l, hl, course_of_busy (fun x hx => mem_life hx) hl⟩

/-- The life of a message ends with the history if its identifier is not taken anew. -/
theorem foldl_life {after : Log} (hafter : ∀ x ∈ after, x.takes id = false) (l : Option Lane) :
    (life id after).foldl (laneStep id) l = after.foldl (laneStep id) l := by
  have hwhole : (after ++ []).takeWhile (!·.takes id) = after ++ [] :=
    List.takeWhile_append_of_pos fun x hx => by simp [hafter x hx]
  rw [List.append_nil] at hwhole
  rw [life, hwhole, foldl_filter]

theorem busy_of_arrived {before after : Log} {m : Message}
    (h : (lane id (before ++ .arrived id m :: after)).isSome) : ∃ n, lane id before = some (.busy m n) := by
  rw [lane_append, List.foldl_cons, laneStep, if_pos (show (Mark.arrived id m).id = id from rfl)] at h
  match hl : lane id before with
  | none =>
    rw [hl, Option.bind_none, foldl_none] at h
    cases h
  | some .free =>
    have hstuck : (after.foldl (laneStep id) none).isSome := by rw [hl] at h; exact h
    rw [foldl_none] at hstuck
    cases hstuck
  | some (.busy m' n) =>
    rw [hl, Option.bind_some, Lane.step] at h
    split at h
    · next hnext => exact ⟨n, by rw [hnext.1]⟩
    · rw [foldl_none] at h
      cases h

/-- An identifier cannot be taken while its message is open. -/
theorem last_of_busy {after : Log} {l : Option Lane} {m : Message} {n : Nat}
    (hbusy : (life id after).foldl (laneStep id) l = some (.busy m n))
    (h : (after.foldl (laneStep id) l).isSome) : ∀ x ∈ after, x.takes id = false := by
  rw [life, foldl_filter] at hbusy
  induction after generalizing l with
  | nil => exact List.forall_mem_nil _
  | cons x after ih =>
    rw [List.foldl_cons] at h
    cases htakes : x.takes id with
    | true =>
      rw [List.takeWhile_cons_of_neg (by simp [htakes]), List.foldl_nil] at hbusy
      cases x with
      | taken id' m' =>
        obtain rfl : id' = id := by simpa [Mark.takes] using htakes
        have hstuck : laneStep id' l (.taken id' m') = none := by
          rw [hbusy]
          exact if_pos rfl
        rw [hstuck, foldl_none] at h
        cases h
      | arrived | acknowledged | completed => cases htakes
    | false =>
      rw [List.takeWhile_cons_of_pos (by simp [htakes]), List.foldl_cons] at hbusy
      have hrest := ih hbusy h
      intro y hy
      rcases List.mem_cons.1 hy with rfl | hy
      · exact htakes
      · exact hrest y hy

/-- A busy identifier stands for the message for which it was taken last. -/
theorem taken_of_lane {log : Log} {m : Message} {n : Nat} (h : lane id log = some (.busy m n)) :
    ∃ before after, log = before ++ .taken id m :: after ∧ (∀ x ∈ after, x.takes id = false) ∧
      arrivals (life id after) = List.replicate n m := by
  rcases taken_of_busy h with ⟨before, after, rfl, hafter⟩ | ⟨⟨n', hfree⟩, -⟩
  · refine ⟨before, after, rfl, hafter, ?_⟩
    have hsome : (lane id (before ++ .taken id m :: after)).isSome := by
      rw [h]
      rfl
    obtain ⟨l, hl, hcourse⟩ := course_of_lane hsome
    rw [lane_of_taken hsome, ← foldl_life hafter, hl] at h
    cases h
    rcases hcourse.busy_or_settled with hbusy | ⟨hfree, -⟩
    · rw [Nat.zero_add] at hbusy
      cases hbusy
      exact List.eq_replicate_iff.2 ⟨rfl, hcourse.arrivals.1⟩
    · cases hfree
  · cases hfree

/-- A message is not given up before it is settled. -/
theorem settled_of_lane {before after : Log} {m : Message}
    (h : (lane id (before ++ .taken id m :: after)).isSome)
    (hnext : lane id (before ++ .taken id m :: after) = some .free ∨ ∃ x ∈ after, x.takes id = true) :
    .acknowledged id ∈ life id after ∨ .completed id ∈ life id after := by
  obtain ⟨l, hl, hcourse⟩ := course_of_lane h
  rcases hcourse.busy_or_settled with rfl | ⟨-, hsettled⟩
  · have hafter := last_of_busy hl (lane_of_taken h ▸ h)
    rcases hnext with hfree | ⟨x, hx, htakes⟩
    · rw [lane_of_taken h, ← foldl_life hafter, hl] at hfree
      cases hfree
    · rw [hafter x hx] at htakes
      cases htakes
  · exact hsettled

/-- **A history that can be read to its end keeps the promise.** -/
theorem kept_of_lane {log : Log} (h : ∀ id, (lane id log).isSome) : log.Kept := by
  have hone {ms : List Message} {m : Message} (hsame : ∀ m' ∈ ms, m' = m) (hlength : ms.length = 1) :
      ms = [m] := by
    obtain ⟨m', rfl⟩ := List.length_eq_one_iff.1 hlength
    rw [hsame m' (.head _)]
  refine ⟨fun before id m after hlog hq => ?_, fun before id m after hlog _ hmem => ?_,
    fun before id m after hlog _ => ?_, fun before id m after hlog => ?_⟩
  · obtain ⟨l, -, hcourse⟩ := course_of_lane (hlog ▸ h id)
    obtain ⟨hsame, honce, -, -⟩ := hcourse.arrivals
    have hlength := honce hq (Nat.zero_le 1)
    by_cases hnone : (arrivals (life id after)).length = 0
    · exact .inl (List.length_eq_zero_iff.1 hnone)
    · exact .inr (hone hsame (by omega))
  · obtain ⟨l, -, hcourse⟩ := course_of_lane (hlog ▸ h id)
    obtain ⟨hsame, -, hcompleted, -⟩ := hcourse.arrivals
    have hlength := hcompleted hmem
    exact hone hsame (by omega)
  · obtain ⟨l, -, hcourse⟩ := course_of_lane (hlog ▸ h id)
    obtain ⟨hsame, -, -, hacknowledged⟩ := hcourse.arrivals
    refine ⟨hsame, fun hmem hnil => ?_⟩
    have hlength := hacknowledged hmem
    rw [hnil] at hlength
    cases hlength
  · obtain ⟨n, hbusy⟩ := busy_of_arrived (hlog ▸ h id)
    rcases taken_of_busy hbusy with htaken | ⟨⟨n', hfree⟩, -⟩
    · exact htaken
    · cases hfree

end Log

end Mqtt
