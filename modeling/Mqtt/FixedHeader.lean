import Mqtt.RemainingLength

/-!
# The fixed header

Every packet starts with a byte that holds its kind and four flags, followed by the remaining
length. The kind is checked as soon as its byte is there; the flags are the body's affair.

Models `FixedHeader` and `FixedHeaderDecoder`.
-/

namespace Mqtt

structure FixedHeader where
  type : PacketType
  /-- The lower half of the first byte. -/
  flags : UInt8
  remainingLength : Nat
  deriving DecidableEq, Inhabited

namespace FixedHeader

/-- The size of the header in its shortest form. -/
def encodedLength (h : FixedHeader) : Nat := 1 + RemainingLength.encodedLength h.remainingLength

/-- The bytes of the header. Only the lower half of the flags is written. -/
def encode (h : FixedHeader) : List UInt8 :=
  UInt8.ofNat (h.type.code * 16 + h.flags.toNat % 16) :: RemainingLength.encode h.remainingLength

/-- A header that is being read. -/
inductive Progress where
  | start
  | length (type : PacketType) (flags : UInt8) (reader : Reader Nat)

instance : Inhabited Progress := ⟨.start⟩

namespace Progress

/-- No byte of the header has been accepted. -/
def isIdle : Progress → Bool
  | start => true
  | length _ _ _ => false

/-- Give the header one byte. After a whole header the next one may start; a refused kind leaves
nothing behind, a refused length does. -/
def step : Progress → UInt8 → Progress × Except ProtocolError (Option FixedHeader)
  | start, b =>
    match PacketType.ofCode? (b.toNat / 16) with
    | some type => (length type (UInt8.ofNat (b.toNat % 16)) RemainingLength.reader, .ok none)
    | none => (start, .error (.invalidPacketType (b.toNat / 16)))
  | length type flags reader, b =>
    match reader.step b with
    | .done n => (start, .ok (some ⟨type, flags, n⟩))
    | .fail e => (length type flags (.fail e), .error e)
    | r => (length type flags r, .ok none)

/-- Give the header bytes until it is whole or refused or they run out; the bytes left over come
back. -/
def feed : Progress → List UInt8 →
    Progress × Except ProtocolError (Option FixedHeader) × List UInt8
  | p, [] => (p, .ok none, [])
  | p, b :: bs =>
    match p.step b with
    | (p, .ok none) => p.feed bs
    | (p, outcome) => (p, outcome, bs)

end Progress

end FixedHeader

end Mqtt
