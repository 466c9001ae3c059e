/-!
# Keep-alive timers

Times are milliseconds since an arbitrary start. The receiving side gives up one and a half
keep-alive periods after the last packet; the sending side asks for a sign of life every period. A
period of 0 turns both off.

Models `KeepAlive`, `PingTimer` and `SessionConfig::effective_keep_alive` (`effective`).
-/

namespace Mqtt

/-- The timer of the receiving side. -/
structure KeepAlive where
  timeout : Option Nat
  lastActivity : Nat
  deriving DecidableEq, Inhabited

namespace KeepAlive

/-- A timer of so many seconds, started now. -/
def new (seconds : UInt16) (now : Nat) : KeepAlive :=
  { timeout := if seconds > 0 then some (seconds.toNat * 1500) else none, lastActivity := now }

/-- The period a server that allows at most `max` seconds keeps with a client that asked for
`requested`. A limit of 0 allows any period, and no limit turns a keep-alive on. -/
def effective (max requested : UInt16) : UInt16 :=
  if requested = 0 || max = 0 then requested else if requested ≤ max then requested else max

/-- A timer that never expires. -/
def disabled (now : Nat) : KeepAlive := ⟨none, now⟩

/-- Note that a packet arrived. -/
def restart (k : KeepAlive) (now : Nat) : KeepAlive := { k with lastActivity := now }

/-- When the timer expires if nothing more arrives. -/
def deadline (k : KeepAlive) : Option Nat := k.timeout.map (k.lastActivity + ·)

/-- The deadline has come. -/
def isExpired (k : KeepAlive) (now : Nat) : Bool := k.deadline.any (· ≤ now)

theorem isExpired_iff {k : KeepAlive} {now : Nat} : k.isExpired now = true ↔ ∃ d, k.deadline = some d ∧ d ≤ now := by
  simp [isExpired, Option.any_eq_true]

end KeepAlive

/-- The timer of the sending side. -/
inductive PingTimer where
  | stopped
  | running (interval next : Nat)
  deriving DecidableEq, Inhabited

namespace PingTimer

/-- A timer of so many seconds, started now. -/
def new (seconds : UInt16) (now : Nat) : PingTimer :=
  if seconds > 0 then running (seconds.toNat * 1000) (now + seconds.toNat * 1000) else stopped

/-- When the next request is due. -/
def deadline : PingTimer → Option Nat
  | stopped => none
  | running _ next => some next

/-- Whether a request is due. If so the next one is due an interval from now. -/
def poll : PingTimer → Nat → Bool × PingTimer
  | stopped, _ => (false, stopped)
  | running interval next, now =>
    if next ≤ now then (true, running interval (now + interval)) else (false, running interval next)

end PingTimer

end Mqtt
