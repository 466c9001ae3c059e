import Mqtt.Inflight
import Mqtt.PacketIds

/-!
# Sessions

What the broker keeps for one client. While a connection owns the session, messages go out to it at
once; while none does they wait in a queue. A session that is not clean outlives its connection.

Models `Session` and `Delivery`: `send` is `send_publish`, and a queue that is taken (`take_queue`)
is set to be empty by `Broker.restartSession`.
-/

namespace Mqtt

/-- A packet for the connection with the given token. -/
structure Delivery where
  token : Nat
  packet : Packet
  deriving DecidableEq, Inhabited

structure Session where
  /-- The connection that owns the session. -/
  owner : Option Nat
  cleanSession : Bool
  packetIds : PacketIds
  /-- How many messages may wait; 0 is any number. -/
  maxQueued : Nat
  /-- The messages that wait, the oldest first. -/
  queue : List Message
  inflight : Inflight

namespace Session

/-- A session without history for a new connection. -/
def new (owner : Nat) (cleanSession : Bool) (maxQueued : Nat) : Session :=
  { owner := some owner, cleanSession, packetIds := .start, maxQueued, queue := [],
    inflight := .empty }

def isActive (s : Session) : Bool := s.owner.isSome

def isOwnedBy (s : Session) (token : Nat) : Bool := s.owner = some token

/-- Give the session to a connection. -/
def renew (s : Session) (token : Nat) : Session := { s with owner := some token }

/-- Take the session away from its connection and keep its state. -/
def retain (s : Session) : Session := { s with owner := none }

/-- Let a message wait. If the queue is full the oldest one gives way. -/
def enqueue (s : Session) (m : Message) : Session :=
  let waiting := if s.maxQueued > 0 && s.queue.length ≥ s.maxQueued then s.queue.tail else s.queue
  { s with queue := waiting ++ [m] }

/-- Send a message at no more than the given quality of service and with the given retain flag.

The owner gets a PUBLISH; one that needs an acknowledgement is kept under a free identifier, and
waits if there is none. Without an owner the message waits, and one that was published "at most
once" empties the queue first. -/
def send (s : Session) (m : Message) (q : QoS) (retain : Bool) : Option Delivery × Session :=
  let outgoing := { m with qos := min m.qos q, retain }
  match s.owner with
  | none =>
    let s := if m.qos = .atMostOnce then { s with queue := [] } else s
    (none, s.enqueue outgoing)
  | some token =>
    if outgoing.qos.isAcknowledged then
      match s.packetIds.allocate s.inflight.isInUse with
      | (some id, packetIds) =>
        (some ⟨token, .publish (outgoing.toPublish id false)⟩,
          { s with packetIds, inflight := s.inflight.track id outgoing })
      | (none, packetIds) => (none, { s with packetIds }.enqueue outgoing)
    else (some ⟨token, .publish (outgoing.toPublish 0 false)⟩, s)

end Session

end Mqtt
