import Mathlib.Data.List.Nodup
import Mathlib.Data.List.Perm.Subperm
import Mqtt.Proofs.Routing

/-!
# Sessions by client: `Broker`

What each operation of the broker does to the sessions, read off one client at a time, and the part
of a session that says whose it is. `Broker.Frame` collects what routing leaves alone: messages reach
queues and handshakes, but never change who holds a session or who is subscribed.
-/

namespace Mqtt

namespace Broker

/-! ### Looking a session up -/

@[simp] theorem session?_setSession (b : Broker) (client other : String) (s : Session) :
    (b.setSession client s).session? other = if client = other then some s else b.session? other := by
  simp [session?, setSession, Std.ExtTreeMap.getElem?_insert]

@[simp] theorem session?_deleteSession (b : Broker) (client other : String) :
    (b.deleteSession client).session? other = if client = other then none else b.session? other := by
  simp [session?, deleteSession, Std.ExtTreeMap.getElem?_erase]

theorem modifySession_eq_of_none {b : Broker} {client : String} (f : Session → Session)
    (h : b.session? client = none) : b.modifySession client f = b := by
  simp [modifySession, h]

theorem modifySession_eq_of_some {b : Broker} {client : String} {s : Session} (f : Session → Session)
    (h : b.session? client = some s) : b.modifySession client f = b.setSession client (f s) := by
  simp [modifySession, h]

@[simp] theorem session?_modifySession (b : Broker) (client other : String) (f : Session → Session) :
    (b.modifySession client f).session? other =
      if client = other then (b.session? other).map f else b.session? other := by
  by_cases h : client = other
  · subst h
    rw [if_pos rfl]
    cases hs : b.session? client with
    | none => rw [modifySession_eq_of_none f hs, hs]; rfl
    | some s => rw [modifySession_eq_of_some f hs, session?_setSession, if_pos rfl]; rfl
  · rw [if_neg h]
    cases hs : b.session? client with
    | none => rw [modifySession_eq_of_none f hs]
    | some s => rw [modifySession_eq_of_some f hs, session?_setSession, if_neg h]

@[simp] theorem session?_newSession (b : Broker) (client other : String) (token : Nat) (clean : Bool) :
    (b.newSession client token clean).session? other =
      if client = other then some (.new token clean b.options.maxQueuedMessages)
      else b.session? other := by
  simp [newSession]

@[simp] theorem modifySession_subscriptions (b : Broker) (client : String) (f : Session → Session) :
    (b.modifySession client f).subscriptions = b.subscriptions := by
  unfold modifySession
  split <;> rfl

theorem hasSession_eq_isSome (b : Broker) (client : String) :
    b.hasSession client = (b.session? client).isSome :=
  Std.ExtTreeMap.contains_eq_isSome_getElem?

theorem hasActiveSession_eq_false_iff (b : Broker) (client : String) :
    b.hasActiveSession client = false ↔ ∀ s, b.session? client = some s → s.owner = none := by
  unfold hasActiveSession Session.isActive
  cases b.session? client with
  | none => simp
  | some s => simp

theorem hasRetainedSession_iff (b : Broker) (client : String) :
    b.hasRetainedSession client = true ↔ ∃ s, b.session? client = some s ∧ s.owner = none := by
  unfold hasRetainedSession Session.isActive
  cases b.session? client with
  | none => simp
  | some s => simp

/-- A session that is put back as it is changes nothing. -/
theorem setSession_self {b : Broker} {client : String} {s : Session} (hs : b.session? client = some s) :
    b.setSession client s = b := by
  have hsame : b.sessions.insert client s = b.sessions := by
    refine Std.ExtTreeMap.ext_getElem? fun other => ?_
    rw [Std.ExtTreeMap.getElem?_insert]
    split
    · next hother =>
      rw [← Std.compare_eq_iff_eq.1 hother]
      exact hs.symm
    · rfl
  rw [setSession, hsame]

/-! ### Names that are made up -/

theorem madeUpId_injective : Function.Injective madeUpId := by
  intro m n h
  have hnumeral : toString m = toString n := (String.append_right_inj _).1 h
  have hvalue := congrArg (fun numeral => Nat.ofDigitChars 10 numeral.toList 0) hnumeral
  simpa [Nat.toString_eq_ofList_toDigits] using hvalue

/-- If the name that is found is taken, then so are all that were tried. -/
theorem hasSession_of_nextFree {b : Broker} {tries n : Nat} (h : b.hasSession (madeUpId (b.nextFree tries n)) = true) :
    ∀ k ≤ tries, b.hasSession (madeUpId (n + 1 + k)) = true := by
  induction tries generalizing n with
  | zero =>
    intro k hk
    obtain rfl : k = 0 := by omega
    exact h
  | succ tries ih =>
    intro k hk
    rw [nextFree] at h
    by_cases hfirst : b.hasSession (madeUpId (n + 1)) = true
    · rw [if_pos hfirst] at h
      cases k with
      | zero => exact hfirst
      | succ k =>
        have hnext := ih h k (by omega)
        rwa [show n + 1 + 1 + k = n + 1 + (k + 1) by omega] at hnext
    · rw [if_neg hfirst] at h
      exact absurd h hfirst

/-- There are no more names that are taken than sessions. -/
theorem hasSession_nextFree (b : Broker) (n : Nat) :
    b.hasSession (madeUpId (b.nextFree b.sessions.size n)) = false := by
  by_contra htaken
  have hall := hasSession_of_nextFree (by simpa using htaken)
  have hnodup : ((List.range (b.sessions.size + 1)).map fun k => madeUpId (n + 1 + k)).Nodup := by
    refine List.Nodup.map ?_ List.nodup_range
    intro j k hjk
    have hsame := madeUpId_injective hjk
    omega
  have hsubset : ((List.range (b.sessions.size + 1)).map fun k => madeUpId (n + 1 + k)) ⊆ b.sessions.keys := by
    intro name hname
    obtain ⟨k, hk, rfl⟩ := List.mem_map.1 hname
    rw [Std.ExtTreeMap.mem_keys, ← Std.ExtTreeMap.contains_iff_mem]
    exact hall k (Nat.le_of_lt_succ (List.mem_range.1 hk))
  have hlength := (List.subperm_of_subset hnodup hsubset).length_le
  simp only [List.length_map, List.length_range, Std.ExtTreeMap.length_keys] at hlength
  omega

theorem session?_assignClientId (b : Broker) : b.session? b.assignClientId.1 = none := by
  have hfree := b.hasSession_nextFree b.assigned
  rw [hasSession_eq_isSome] at hfree
  simpa [assignClientId] using hfree

/-- The name that a client goes by. -/
def nameFor (b : Broker) (c : Connect) : String := if c.clientId = "" then b.assignClientId.1 else c.clientId

/-! ### Who holds a session -/

end Broker

/-- Whose the session is, and whether it ends with its connection. -/
def Session.hold (s : Session) : Option Nat × Bool := (s.owner, s.cleanSession)

/-- Sending neither takes nor gives a session. -/
@[simp] theorem Session.send_hold (s : Session) (m : Message) (q : QoS) (retain : Bool) :
    (s.send m q retain).2.hold = s.hold := by
  unfold Session.send
  dsimp only
  split
  · split <;> rfl
  · split
    · split <;> rfl
    · rfl

namespace Broker

/-- Whose the session of a client is, if it has one. -/
def hold? (b : Broker) (client : String) : Option (Option Nat × Bool) :=
  (b.session? client).map Session.hold

@[simp] theorem hold?_setSession (b : Broker) (client other : String) (s : Session) :
    (b.setSession client s).hold? other = if client = other then some s.hold else b.hold? other := by
  unfold hold?
  rw [session?_setSession]
  split <;> rfl

theorem hold?_eq_some_iff {b : Broker} {client : String} {owner : Option Nat} {clean : Bool} :
    b.hold? client = some (owner, clean) ↔
      ∃ s, b.session? client = some s ∧ s.owner = owner ∧ s.cleanSession = clean := by
  simp [hold?, Session.hold]

theorem hold?_isSome (b : Broker) (client : String) :
    (b.hold? client).isSome = (b.session? client).isSome := by
  simp [hold?]

/-- Replacing a session by one that is held the same way changes no holder. -/
theorem hold?_setSession_of_eq {b : Broker} {client : String} {s s' : Session}
    (hs : b.session? client = some s) (hhold : s'.hold = s.hold) (other : String) :
    (b.setSession client s').hold? other = b.hold? other := by
  rw [hold?_setSession]
  split
  · next h => rw [← h, hold?, hs, hhold]; rfl
  · rfl

/-- What is left alone when messages are routed. -/
structure Frame (b b' : Broker) : Prop where
  options : b'.options = b.options
  subscriptions : b'.subscriptions = b.subscriptions
  hold : ∀ client, b'.hold? client = b.hold? client

theorem Frame.refl (b : Broker) : Frame b b := ⟨rfl, rfl, fun _ => rfl⟩

theorem Frame.trans {b₁ b₂ b₃ : Broker} (h : Frame b₁ b₂) (h' : Frame b₂ b₃) : Frame b₁ b₃ :=
  ⟨h'.options.trans h.options, h'.subscriptions.trans h.subscriptions,
    fun client => (h'.hold client).trans (h.hold client)⟩

theorem setSession_frame {b : Broker} {client : String} {s s' : Session}
    (hs : b.session? client = some s) (hhold : s'.hold = s.hold) : Frame b (b.setSession client s') :=
  ⟨rfl, rfl, hold?_setSession_of_eq hs hhold⟩

theorem sendTo_frame (b : Broker) (client : String) (m : Message) (q : QoS) (retain : Bool) :
    Frame b (b.sendTo client m q retain).2 := by
  unfold sendTo
  cases hs : b.session? client with
  | none => exact .refl b
  | some s => exact setSession_frame hs (s.send_hold m q retain)

theorem Sends.frame {M : Message → Prop} {b b' : Broker} {ds : List Delivery} (h : Sends M b ds b') :
    Frame b b' := by
  induction h with
  | nil b => exact .refl b
  | cons _ client q retain _ ih => exact (sendTo_frame _ client _ q retain).trans ih

/-- What sending makes due: a PUBLISH of one of the messages, for the owner of a session, under an identifier
if it is to be acknowledged. -/
inductive Delivered (M : Message → Prop) (b : Broker) : Delivery → Prop
  | publish {client : String} {token : Nat} {clean : Bool} {m : Message} {id : UInt16} (q : QoS) (retain : Bool) :
      b.hold? client = some (some token, clean) → M m →
      ((Session.outgoing m q retain).qos.isAcknowledged = true → id ≠ 0) →
      Delivered M b ⟨token, .publish ((Session.outgoing m q retain).toPublish id false)⟩

theorem sendTo_delivered {b : Broker} {client : String} {m : Message} {q : QoS} {retain : Bool} (hm : M m)
    {d : Delivery} (hd : (b.sendTo client m q retain).1 = some d) : Delivered M b d := by
  unfold sendTo at hd
  cases hs : b.session? client with
  | none =>
    rw [hs] at hd
    cases hd
  | some s =>
    rw [hs] at hd
    have hsend := s.send_outcome m q retain
    rw [show (s.send m q retain).1 = some d from hd] at hsend
    generalize (s.send m q retain).2 = s' at hsend
    cases hsend with
    | tracked howner _ hid _ => exact .publish q retain (hold?_eq_some_iff.2 ⟨s, hs, howner, rfl⟩) hm fun _ => hid
    | passed howner hq =>
      refine .publish q retain (hold?_eq_some_iff.2 ⟨s, hs, howner, rfl⟩) hm fun hack => ?_
      rw [hq] at hack
      cases hack

theorem Sends.delivered {M : Message → Prop} {b b' : Broker} {ds : List Delivery} (h : Sends M b ds b') :
    ∀ d ∈ ds, Delivered M b d := by
  induction h with
  | nil b => exact fun d hd => nomatch hd
  | @cons m hm client q retain b b' ds _ ih =>
    intro d hd
    rcases List.mem_append.1 hd with hd | hd
    · exact sendTo_delivered hm (Option.mem_toList.1 hd)
    · cases ih d hd with
      | publish q' retain' howner hm' hid =>
        rw [(sendTo_frame b client m q retain).hold] at howner
        exact .publish q' retain' howner hm' hid

theorem afterRetain_frame (b : Broker) (m : Message) : Frame b (b.afterRetain m) := by
  unfold afterRetain
  split
  · exact ⟨rfl, rfl, fun _ => rfl⟩
  · exact .refl b

theorem publish_frame (b : Broker) (origin : Option String) (m : Message) :
    Frame b (b.publish origin m).2 :=
  (b.afterRetain_frame m).trans (b.publish_sends (M := fun _ => True) origin trivial).frame

/-- Bringing a client up to date leaves every session with its owner. -/
theorem restartSession_frame {b : Broker} {client : String} {s : Session} {token : Nat}
    (hs : b.session? client = some s) (htoken : s.owner = some token) :
    Frame b (b.restartSession client).2 := by
  obtain ⟨ds, -, hsends⟩ := restartSession_sends (M := fun _ => True)
    (RetainTree.only_of_forall fun _ => trivial) hs htoken fun _ _ => trivial
  have hqueue : Frame b (b.setSession client { s with queue := [] }) := setSession_frame hs rfl
  exact hqueue.trans hsends.frame

end Broker

end Mqtt
