import Mqtt.Proofs.Admission
import Mqtt.Proofs.Backlog

/-!
# Names that are made up: `Broker::assign_client_id`

A client that does not name itself is given a name with a number in it. The numbers come from a counter that every
broker starts at zero, also one that goes on from a store in which such names have sessions; those are passed over.
`Finds` is the loop that looks for a free name, with its counter of 64 bits, and has no bound in sight. It ends where
`nextFree` does, after one step more than there are sessions at most (`finds_iff`, `nextFree_le`). No call turns the
counter back, so `assignClientId_fresh` can say of whatever is asked of a broker that no name is made up twice.
-/

namespace Mqtt

namespace Broker

variable {b : Broker}

/-! ### The search for a free name -/

/-- The loop that looks for a free name, with a counter of 64 bits that must not overflow. It stands at one number and
ends at another one. -/
inductive Finds (b : Broker) : UInt64 → UInt64 → Prop
  | free {n : UInt64} : n.toNat + 1 < 2 ^ 64 → b.hasSession (madeUpId (n + 1).toNat) = false → Finds b n (n + 1)
  | taken {n m : UInt64} : n.toNat + 1 < 2 ^ 64 → b.hasSession (madeUpId (n + 1).toNat) = true → Finds b (n + 1) m →
      Finds b n m

/-- The first number behind `n` whose name is free. -/
structure FirstFree (b : Broker) (n m : Nat) : Prop where
  lt : n < m
  free : b.hasSession (madeUpId m) = false
  taken : ∀ k, n < k → k < m → b.hasSession (madeUpId k) = true

theorem FirstFree.le {n m m' : Nat} (h : b.FirstFree n m) (h' : b.FirstFree n m') : m ≤ m' := by
  by_contra hlt
  have htaken := h.taken m' h'.lt (Nat.lt_of_not_le hlt)
  rw [h'.free] at htaken
  cases htaken

theorem FirstFree.unique {n m m' : Nat} (h : b.FirstFree n m) (h' : b.FirstFree n m') : m = m' :=
  Nat.le_antisymm (h.le h') (h'.le h)

/-- A taken name is passed over. -/
theorem FirstFree.of_taken {n m : Nat} (htaken : b.hasSession (madeUpId (n + 1)) = true) (h : b.FirstFree (n + 1) m) :
    b.FirstFree n m where
  lt := Nat.lt_of_succ_lt h.lt
  free := h.free
  taken := by
    intro k hk hkm
    rcases Nat.eq_or_lt_of_le hk with rfl | hk
    · exact htaken
    · exact h.taken k hk hkm

theorem firstFree_succ {n : Nat} (hfree : b.hasSession (madeUpId (n + 1)) = false) : b.FirstFree n (n + 1) :=
  ⟨Nat.lt_succ_self n, hfree, fun _ hk hkn => absurd hk (Nat.not_lt.2 (Nat.le_of_lt_succ hkn))⟩

theorem nextFree_le (b : Broker) (tries n : Nat) : b.nextFree tries n ≤ n + tries + 1 := by
  induction tries generalizing n with
  | zero => exact Nat.le_refl _
  | succ tries ih =>
    rw [nextFree]
    split
    · have hle := ih (n + 1)
      omega
    · omega

/-- With enough tries the first free name is found. -/
theorem firstFree_of_nextFree {tries n : Nat} (hfree : b.hasSession (madeUpId (b.nextFree tries n)) = false) :
    b.FirstFree n (b.nextFree tries n) := by
  induction tries generalizing n with
  | zero => exact firstFree_succ hfree
  | succ tries ih =>
    rw [nextFree] at hfree ⊢
    by_cases hfirst : b.hasSession (madeUpId (n + 1)) = true
    · rw [if_pos hfirst] at hfree ⊢
      exact .of_taken hfirst (ih hfree)
    · rw [if_neg hfirst]
      exact firstFree_succ (by simpa using hfirst)

theorem firstFree_nextFree (b : Broker) (n : Nat) : b.FirstFree n (b.nextFree b.sessions.size n) :=
  firstFree_of_nextFree (b.hasSession_nextFree n)

theorem toNat_succ {n : UInt64} (h : n.toNat + 1 < 2 ^ 64) : (n + 1).toNat = n.toNat + 1 := by
  rw [UInt64.toNat_add, UInt64.toNat_one, Nat.mod_eq_of_lt h]

/-- The loop ends at the first free name. -/
theorem Finds.firstFree {n m : UInt64} (h : b.Finds n m) : b.FirstFree n.toNat m.toNat := by
  induction h with
  | free hroom hfree =>
    rw [toNat_succ hroom] at hfree ⊢
    exact firstFree_succ hfree
  | taken hroom htaken _ ih =>
    rw [toNat_succ hroom] at htaken ih
    exact .of_taken htaken ih

/-- The loop gets to every number that 64 bits can hold. -/
theorem FirstFree.finds {n m : UInt64} (h : b.FirstFree n.toNat m.toNat) : b.Finds n m := by
  generalize hleft : m.toNat - n.toNat = left
  induction left generalizing n with
  | zero => exact absurd h.lt (Nat.not_lt.2 (Nat.le_of_sub_eq_zero hleft))
  | succ left ih =>
    have hlt := h.lt
    have hroom : n.toNat + 1 < 2 ^ 64 := Nat.lt_of_le_of_lt hlt m.toNat_lt
    have hnext := toNat_succ hroom
    by_cases hthere : n.toNat + 1 = m.toNat
    · obtain rfl : n + 1 = m := UInt64.toNat_inj.1 (hnext.trans hthere)
      exact .free hroom h.free
    · have htaken : b.hasSession (madeUpId (n + 1).toNat) = true := by
        rw [hnext]
        exact h.taken _ (Nat.lt_succ_self _) (by omega)
      have hrest : b.FirstFree (n + 1).toNat m.toNat := by
        rw [hnext]
        exact ⟨by omega, h.free, fun k hk => h.taken k (Nat.lt_of_succ_lt hk)⟩
      exact .taken hroom htaken (ih hrest (by rw [hnext]; omega))

/-- As long as the counter does not overflow, the loop ends where `nextFree` does, and nowhere else. -/
theorem finds_iff {n : Nat} (hroom : b.nextFree b.sessions.size n < 2 ^ 64) (m : UInt64) :
    b.Finds (UInt64.ofNat n) m ↔ m = UInt64.ofNat (b.nextFree b.sessions.size n) := by
  have hfirst := b.firstFree_nextFree n
  have hn : (UInt64.ofNat n).toNat = n := UInt64.toNat_ofNat_of_lt' (hfirst.lt.trans hroom)
  have hm : (UInt64.ofNat (b.nextFree b.sessions.size n)).toNat = b.nextFree b.sessions.size n :=
    UInt64.toNat_ofNat_of_lt' hroom
  constructor
  · intro h
    have hfound := h.firstFree
    rw [hn] at hfound
    rw [← UInt64.toNat_inj, hm]
    exact hfound.unique hfirst
  · rintro rfl
    refine FirstFree.finds ?_
    rw [hn, hm]
    exact hfirst

/-! ### The counter -/

theorem assigned_sendTo (b : Broker) (client : String) (m : Message) (q : QoS) (retain : Bool) :
    (b.sendTo client m q retain).2.assigned = b.assigned := by
  unfold sendTo
  split <;> rfl

theorem Sends.assigned {M : Message → Prop} {b b' : Broker} {ds : List Delivery} (h : Sends M b ds b') :
    b'.assigned = b.assigned := by
  induction h with
  | nil => rfl
  | cons _ _ _ _ _ ih => rw [ih, assigned_sendTo]

theorem assigned_publish (b : Broker) (origin : Option String) (m : Message) :
    (b.publish origin m).2.assigned = b.assigned := by
  rw [(b.publish_sends (M := fun _ => True) origin trivial).assigned, afterRetain]
  split <;> rfl

theorem assigned_subscribe (b : Broker) (client filter : String) (q : QoS) :
    (b.subscribe client filter q).2.2.assigned = b.assigned := by
  unfold subscribe
  split
  · rfl
  · exact (replayRetained_sends (M := fun _ => True) (RetainTree.only_of_forall fun _ => trivial) client filter
      _).assigned

theorem assigned_modifySession (b : Broker) (client : String) (f : Session → Session) :
    (b.modifySession client f).assigned = b.assigned := by
  unfold modifySession
  split <;> rfl

theorem assigned_releaseSession (b : Broker) (client : String) (token : Nat) :
    (b.releaseSession client token).assigned = b.assigned := by
  unfold releaseSession
  split
  · rfl
  · split
    · split
      · rfl
      · exact b.assigned_modifySession client _
    · rfl

theorem assigned_restartSession (b : Broker) (client : String) :
    (b.restartSession client).2.assigned = b.assigned := by
  cases hs : b.session? client with
  | none => rw [restartSession, hs]
  | some s =>
    cases howner : s.owner with
    | none => simp [restartSession, hs, howner]
    | some token => rw [restartSession_eq hs howner]; rfl

theorem assigned_lt_assignClientId (b : Broker) : b.assigned < b.assignClientId.2.assigned :=
  (b.firstFree_nextFree b.assigned).lt

/-- No call turns the counter back. -/
theorem assigned_le_call (b : Broker) (c : Call) : b.assigned ≤ (b.call c).assigned := by
  cases c with
  | publish => rw [call, assigned_publish]
  | subscribe => rw [call, assigned_subscribe]
  | restartSession => rw [call, assigned_restartSession]
  | releaseSession => rw [call, assigned_releaseSession]
  | renewSession => rw [call, renewSession, assigned_modifySession]
  | retainSession => rw [call, retainSession, assigned_modifySession]
  | shake => rw [call, assigned_modifySession]
  | unsubscribe | newSession | deleteSession => exact Nat.le_refl _
  | assignClientId => exact b.assigned_lt_assignClientId.le

/-! ### Runs -/

/-- The name that a call makes up, if it makes one up. -/
def madeUpBy (b : Broker) : Call → List String
  | .assignClientId => [b.assignClientId.1]
  | _ => []

/-- The names that are made up in a run, in order. -/
def madeUp (b : Broker) : List Call → List String
  | [] => []
  | c :: calls => b.madeUpBy c ++ (b.call c).madeUp calls

theorem madeUpBy_cases (b : Broker) (c : Call) :
    b.madeUpBy c = [] ∨ b.madeUpBy c = [madeUpId (b.call c).assigned] ∧ b.assigned < (b.call c).assigned := by
  cases c with
  | assignClientId => exact .inr ⟨rfl, b.assigned_lt_assignClientId⟩
  | _ => exact .inl rfl

/-- The numbers of a run go on from where the counter stands. -/
theorem mem_madeUp {calls : List Call} {name : String} (h : name ∈ b.madeUp calls) :
    ∃ n, b.assigned < n ∧ name = madeUpId n := by
  induction calls generalizing b with
  | nil => cases h
  | cons c calls ih =>
    rcases List.mem_append.1 h with hnow | hlater
    · rcases b.madeUpBy_cases c with hnone | ⟨hone, hlt⟩
      · rw [hnone] at hnow
        cases hnow
      · rw [hone, List.mem_singleton] at hnow
        exact ⟨_, hlt, hnow⟩
    · obtain ⟨n, hn, rfl⟩ := ih hlater
      exact ⟨n, (b.assigned_le_call c).trans_lt hn, rfl⟩

theorem nodup_madeUp (b : Broker) (calls : List Call) : (b.madeUp calls).Nodup := by
  induction calls generalizing b with
  | nil => exact List.nodup_nil
  | cons c calls ih =>
    rcases b.madeUpBy_cases c with hnone | ⟨hone, -⟩
    · rw [madeUp, hnone]
      exact ih (b.call c)
    · rw [madeUp, hone]
      refine List.nodup_cons.2 ⟨fun hagain => ?_, ih (b.call c)⟩
      obtain ⟨n, hn, hsame⟩ := mem_madeUp hagain
      exact absurd (madeUpId_injective hsame) (Nat.ne_of_lt hn)

/-- **Names that are made up are free, and never made up again.** Whatever sessions a broker has, and wherever its
counter stands, the loop that looks for a name ends after one step more than there are sessions at most, unless 64
bits are too few for the number it comes to. It ends at the first name that no session has, and nothing of the broker
is changed but the counter. Whatever is asked of the broker, no name is made up twice. -/
theorem assignClientId_fresh (b : Broker) :
    (∃ n, b.assignClientId = (madeUpId n, { b with assigned := n }) ∧ b.session? (madeUpId n) = none ∧
      b.assigned < n ∧ n ≤ b.assigned + b.sessions.size + 1 ∧
      (n < 2 ^ 64 → ∀ m, b.Finds (UInt64.ofNat b.assigned) m ↔ m = UInt64.ofNat n)) ∧
    ∀ calls, (b.madeUp calls).Nodup :=
  ⟨⟨_, rfl, b.session?_assignClientId, b.assigned_lt_assignClientId, b.nextFree_le _ _, finds_iff⟩, b.nodup_madeUp⟩

/-- A store that an earlier broker left, with sessions under the first two names that it made up. -/
def twoNamed : SessionStore where
  sessions := ((∅ : Std.ExtTreeMap String Session).insert "brook-1" (.new 1 false 0)).insert "brook-2" (.new 2 false 0)
  retained := .empty
  subscriptions := .empty

/-- The broker that goes on from there passes them over, and does not go back to a name whose session is gone. -/
theorem assignClientId_fresh_restored :
    let b := restore {} twoNamed
    let calls : List Call := [.assignClientId, .newSession "brook-3" 1 true, .deleteSession "brook-3",
      .deleteSession "brook-1", .assignClientId]
    b.assigned = 0 ∧ b.Finds 0 3 ∧ b.assignClientId.1 = "brook-3" ∧ b.session? "brook-3" = none ∧
      b.madeUp calls = ["brook-3", "brook-4"] ∧ (b.madeUp calls).Nodup := by
  intro b calls
  obtain ⟨⟨n, hassign, hfree, -, -, hfinds⟩, hnodup⟩ := assignClientId_fresh b
  have hnumber : b.assignClientId.2.assigned = 3 := by decide +kernel
  obtain rfl : n = 3 := by rw [← hnumber, hassign]
  have hname : madeUpId 3 = "brook-3" := by decide +kernel
  rw [hname] at hassign hfree
  refine ⟨rfl, (hfinds (by decide) 3).2 rfl, by rw [hassign], hfree, by decide +kernel, hnodup calls⟩

end Broker

end Mqtt
