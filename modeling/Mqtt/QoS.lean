/-!
# Quality of service

The three delivery guarantees of MQTT, ordered from the weakest to the strongest. Two parties
that ask for different guarantees settle on the smaller one.

Models `QoS`.
-/

namespace Mqtt

/-- How often a message may arrive: at most once, at least once, exactly once. -/
inductive QoS where
  | atMostOnce
  | atLeastOnce
  | exactlyOnce
  deriving DecidableEq, Repr, Inhabited

namespace QoS

/-- The number that stands for the guarantee on the wire and in stored documents. -/
def toNat : QoS → Nat
  | atMostOnce => 0
  | atLeastOnce => 1
  | exactlyOnce => 2

/-- The name of the guarantee. -/
def name : QoS → String
  | atMostOnce => "AtMostOnce"
  | atLeastOnce => "AtLeastOnce"
  | exactlyOnce => "ExactlyOnce"

/-- The number as a byte. -/
def toByte (q : QoS) : UInt8 := UInt8.ofNat q.toNat

/-- The guarantee a number stands for; 3 and above stand for none. -/
def ofNat? : Nat → Option QoS
  | 0 => some atMostOnce
  | 1 => some atLeastOnce
  | 2 => some exactlyOnce
  | _ => none

instance : LE QoS := ⟨fun a b => a.toNat ≤ b.toNat⟩
instance : LT QoS := ⟨fun a b => a.toNat < b.toNat⟩
instance (a b : QoS) : Decidable (a ≤ b) := inferInstanceAs (Decidable (a.toNat ≤ b.toNat))
instance (a b : QoS) : Decidable (a < b) := inferInstanceAs (Decidable (a.toNat < b.toNat))
instance : Min QoS := ⟨fun a b => if a ≤ b then a else b⟩
instance : Max QoS := ⟨fun a b => if a ≤ b then b else a⟩
instance : Ord QoS := ⟨fun a b => compare a.toNat b.toNat⟩

/-- Anything above "at most once" needs a packet identifier and an acknowledgement. -/
def isAcknowledged (q : QoS) : Bool := q != atMostOnce

@[simp] theorem ofNat?_toNat (q : QoS) : ofNat? q.toNat = some q := by cases q <;> rfl

theorem ofNat?_eq_some_iff {n : Nat} {q : QoS} : ofNat? n = some q ↔ n = q.toNat := by
  constructor
  · intro h
    match n, h with
    | 0, h => cases h; rfl
    | 1, h => cases h; rfl
    | 2, h => cases h; rfl
  · rintro rfl
    exact ofNat?_toNat q

end QoS

end Mqtt
