import Mqtt.Packet.Body

/-!
# Decoding a stream of packets

A `Decoder` takes a byte stream apart into packets. It is a machine that takes one byte at a time,
so a packet or an error depends only on the bytes before it: `next_append` says that a stream may
be cut anywhere.

Models `PacketDecoder` and `decode_packet`. That the decoder on buffers, with its slices and
subtractions, answers as this one does is shown in `Mqtt.Proofs.Ranges`.
-/

namespace Mqtt

namespace Decoder

/-- Where the decoder stands in the stream. -/
inductive State where
  | header (progress : FixedHeader.Progress)
  /-- A body of which `left` bytes are still to come. -/
  | body (header : FixedHeader) (left : Nat) (reader : Reader Packet)

instance : Inhabited State := ⟨.header .start⟩

end Decoder

/-- A decoder of packets. -/
structure Decoder where
  /-- The greatest packet accepted, with its fixed header in the shortest form; 0 is no limit. -/
  maxPacketSize : Nat
  state : Decoder.State
  deriving Inhabited

namespace Decoder

/-- What a byte brings: a packet, nothing yet, or an error. -/
abbrev Yield := Except ProtocolError (Option Packet)

/-- A decoder at the start of a stream. -/
def new (maxPacketSize : Nat) : Decoder := ⟨maxPacketSize, .header .start⟩

/-- The decoder is between two packets. -/
def isIdle (d : Decoder) : Bool :=
  match d.state with
  | .header progress => progress.isIdle
  | .body _ _ _ => false

/-- The header of the packet whose body is being read. -/
def currentHeader (d : Decoder) : Option FixedHeader :=
  match d.state with
  | .header _ => none
  | .body h _ _ => some h

/-- Settle a body of which `left` bytes are still to come. The fields must end exactly where the
announced length does. -/
def State.settle (h : FixedHeader) (left : Nat) : Reader Packet → State × Yield
  | .done p =>
    if left = 0 then (.header .start, .ok (some p))
    else (.body h left (.done p), .error (.malformedPacket (.trailingBytes h.type left)))
  | .fail e => (.body h left (.fail e), .error e)
  | r =>
    if left = 0 then
      (.body h left r, .error (.malformedPacket (.fieldsExceed h.type h.remainingLength)))
    else (.body h left r, .ok none)

/-- Begin the body announced by a header: the size limit comes first, then flags and length. -/
def State.begin (maxPacketSize : Nat) (h : FixedHeader) : State × Yield :=
  let size := h.encodedLength + h.remainingLength
  if maxPacketSize > 0 && size > maxPacketSize then
    (.header .start, .error (.packetTooLarge size maxPacketSize))
  else match Body.reader h with
    | .ok r => settle h h.remainingLength r
    | .error e => (.header .start, .error e)

/-- Give the decoder one byte. -/
def State.step (maxPacketSize : Nat) : State → UInt8 → State × Yield
  | .header progress, b =>
    match progress.step b with
    | (_, .ok (some h)) => begin maxPacketSize h
    | (progress, .ok none) => (.header progress, .ok none)
    | (progress, .error e) => (.header progress, .error e)
  | .body h left r, b => settle h (left - 1) (r.step b)

/-- Give bytes until a packet or an error comes or they run out; the bytes left over come back. -/
def State.next (maxPacketSize : Nat) : State → List UInt8 → State × Yield × List UInt8
  | s, [] => (s, .ok none, [])
  | s, b :: bs =>
    match s.step maxPacketSize b with
    | (s, .ok none) => next maxPacketSize s bs
    | (s, y) => (s, y, bs)

/-- Give the decoder bytes until a packet or an error comes or they run out. -/
def next (d : Decoder) (bs : List UInt8) : Decoder × Yield × List UInt8 :=
  let (s, y, rest) := d.state.next d.maxPacketSize bs
  ({ d with state := s }, y, rest)

/-- The first packet of `bs` and how many bytes it took, or nothing if more bytes are needed. -/
def decodePacket (bs : List UInt8) : Except ProtocolError (Option (Packet × Nat)) :=
  match (new 0).next bs with
  | (_, .ok (some p), rest) => .ok (some (p, bs.length - rest.length))
  | (_, .ok none, _) => .ok none
  | (_, .error e, _) => .error e

/-! ### Cutting the stream -/

/-- A piece that brings nothing is used up, and the next piece goes on from there; a piece that
brings a packet or an error brings the same whatever follows. -/
theorem State.next_append (max : Nat) (s : State) (as bs : List UInt8) :
    s.next max (as ++ bs) =
      match s.next max as with
      | (s, .ok none, _) => s.next max bs
      | (s, y, rest) => (s, y, rest ++ bs) := by
  induction as generalizing s with
  | nil => simp [next]
  | cons a as ih =>
    simp only [List.cons_append, next]
    rcases s.step max a with ⟨s, e | p | _⟩
    · rfl
    · exact ih s
    · rfl

/-- A packet or an error takes at least one byte. -/
theorem State.next_length_lt {max : Nat} {s : State} {bs : List UInt8}
    (h : (s.next max bs).2.1 ≠ .ok none) : (s.next max bs).2.2.length < bs.length := by
  induction bs generalizing s with
  | nil => simp [next] at h
  | cons b bs ih =>
    simp only [next] at h ⊢
    rcases hs : s.step max b with ⟨s', e | p | _⟩
    · simp
    · rw [hs] at h
      exact Nat.lt_succ_of_lt (ih h)
    · simp

end Decoder

end Mqtt
