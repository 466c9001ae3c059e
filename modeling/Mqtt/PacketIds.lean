/-!
# Packet identifiers

Identifiers run from 1 to 65535 and then start again at 1; 0 is never given out. A new packet takes
the first identifier, from the counter on, that no outstanding packet holds.

Models `PacketIdAllocator`: `next_id` (`take`), `allocate` and `reset` (`start`).
-/

namespace Mqtt

/-- The counter from which identifiers are taken. -/
structure PacketIds where
  /-- The identifier to be tried first. -/
  next : UInt16
  next_ne_zero : next ≠ 0 := by decide
  deriving DecidableEq

namespace PacketIds

/-- The counter at its start. -/
def start : PacketIds := { next := 1 }

instance : Inhabited PacketIds := ⟨start⟩

/-- The identifier after `id`: 65535 is followed by 1. -/
def successor (id : UInt16) : UInt16 := if id + 1 = 0 then 1 else id + 1

theorem successor_ne_zero (id : UInt16) : successor id ≠ 0 := by
  unfold successor
  split
  · decide
  · assumption

/-- Take the next identifier, in use or not. -/
def take (ids : PacketIds) : UInt16 × PacketIds :=
  (ids.next, ⟨successor ids.next, successor_ne_zero ids.next⟩)

/-- Try the next `tries` identifiers. -/
def search (inUse : UInt16 → Bool) : Nat → PacketIds → Option UInt16 × PacketIds
  | 0, ids => (none, ids)
  | tries + 1, ids =>
    let (id, ids) := ids.take
    if inUse id then search inUse tries ids else (some id, ids)

/-- Take the first identifier that is not in use, or none if all 65535 are. -/
def allocate (ids : PacketIds) (inUse : UInt16 → Bool) : Option UInt16 × PacketIds :=
  search inUse 65535 ids

end PacketIds

end Mqtt
