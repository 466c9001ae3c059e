import Mqtt.Inflight.Stored
import Mqtt.Session

/-!
# Stored sessions

The waiting messages and the open handshakes, side by side in one object. Who owned the session and
which identifier comes next is not stored: a session that is read has no owner, is not clean and
starts at identifier 1.

Models the serialized `Session`.
-/

namespace Mqtt.Session

/-- The name of the waiting messages. -/
def queueName : String := "message_queue"

def toJson (s : Session) : Json :=
  .ofMembers <|
    (queueName, if s.queue.isEmpty then none else some (.arr (s.queue.map Message.toJson)))
      :: s.inflight.parts

/-- Read a session, which may nest `depth` objects and lists. It must be an object, and the members
beside the queue are read whole, also those that mean nothing. -/
def ofJson? : (depth : Nat) → Json → Option Session
  | depth + 1, .obj members => do
    let queue ← Json.uniqueMember queueName members
    let parts ← Inflight.partNames.mapM fun name => Json.uniqueMember name members
    if members.any fun (name, value) => name ≠ queueName && !value.fits depth then none
    return {
      owner := none, cleanSession := false, packetIds := .start, maxQueued := 0
      queue := ← fieldOr (some []) (Inflight.listOfJson? Message.ofJson? depth) queue
      inflight := ← Inflight.ofParts? depth parts }
  | _, _ => none

end Mqtt.Session
