import Mqtt.RemainingLength

/-!
# Byte streams

One direction of a stream, as its reader sees it: the bytes that were written and are not read yet,
and whether the writer closed it. The reader takes whole packets, whatever is in them.
-/

namespace Mqtt

structure Stream where
  unread : ByteArray
  isClosed : Bool

namespace Stream

/-- A stream that was just opened. -/
def empty : Stream := ⟨.empty, false⟩

/-- What is written to a closed stream is lost. -/
def write (s : Stream) (bytes : ByteArray) : Stream :=
  if s.isClosed then s else { s with unread := s.unread ++ bytes }

def close (s : Stream) : Stream := { s with isClosed := true }

/-! ### Packets -/

/-- Where the packet that begins at `start` ends, if its fixed header is complete. -/
def packetEnd? (bytes : ByteArray) (start : Nat) : Option Nat :=
  match RemainingLength.decode (bytes.extract (start + 1) (start + 5)).data.toList with
  | .ok (some (n, used)) => some (start + 1 + used + n)
  | _ => none

/-- The complete packets from a place on, behind `found`, and the bytes after them. -/
def cutFrom (bytes : ByteArray) (start : Nat) (found : Array ByteArray) :
    Array ByteArray × ByteArray :=
  match packetEnd? bytes start with
  | some stop =>
    if _h : start < stop ∧ stop ≤ bytes.size then
      cutFrom bytes stop (found.push (bytes.extract start stop))
    else (found, bytes.extract start bytes.size)
  | none => (found, bytes.extract start bytes.size)
termination_by bytes.size - start

/-- The complete packets at the front of bytes, and the bytes after them. -/
def cut (bytes : ByteArray) : List ByteArray × ByteArray :=
  let (packets, rest) := cutFrom bytes 0 #[]
  (packets.toList, rest)

/-- Bytes as packets; an incomplete one is the last. -/
def split (bytes : ByteArray) : List ByteArray :=
  let (packets, rest) := cut bytes
  if rest.isEmpty then packets else packets ++ [rest]

/-! ### Reading -/

/-- What a reader waits for, if it is not the end of the stream. -/
inductive Wanted where
  | packets (count : Nat)
  /-- Everything up to a packet that begins with a byte. -/
  | through (firstByte : UInt8)
  | all

/-- How many of some packets are wanted, if they are enough. -/
def Wanted.count? (packets : List ByteArray) : Wanted → Option Nat
  | .packets n => if n ≤ packets.length then some n else none
  | .through byte => (packets.findIdx? fun p => p.data[0]? = some byte).map (· + 1)
  | .all => none

/-- Read what is wanted, or else everything if the stream is closed, which is told with it. There is
no answer while it may still come. -/
def read? (s : Stream) (wanted : Wanted) : Option (List ByteArray × Bool × Stream) :=
  let (packets, rest) := cut s.unread
  match wanted.count? packets with
  | some n =>
    some (packets.take n, false, { s with unread := (packets.drop n).foldl (· ++ ·) .empty ++ rest })
  | none => if s.isClosed then some (split s.unread, true, { s with unread := .empty }) else none

end Stream

end Mqtt
