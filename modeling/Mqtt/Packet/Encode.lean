import Mqtt.FixedHeader

/-!
# Writing packets

A packet is written as its fixed header and its body. The length the header announces is added up
from the sizes of the fields before any of them is written; `length_body` says that it is the length of
the body. Writing checks nothing: a text or byte string of more than 65535 bytes would have its length
written modulo 65536.

Models `Packet::encode` with the writers of each kind (`encode_connect`, `encode_publish` and so
on), `put_u16` (`word`), `put_binary`, `put_str` (`text`) and `prefixed_len`.
-/

namespace Mqtt

namespace Wire

/-- A 16-bit number, high byte first. -/
def word (n : UInt16) : List UInt8 := [UInt8.ofNat (n.toNat / 256), UInt8.ofNat (n.toNat % 256)]

/-- A byte string after its 16-bit length. -/
def binary (bs : ByteArray) : List UInt8 := word (UInt16.ofNat bs.size) ++ bs.data.toList

/-- A text after its 16-bit length in bytes. -/
def text (s : String) : List UInt8 := binary s.toUTF8

/-- How many bytes a field of the given size takes with its length. -/
def prefixedLength (size : Nat) : Nat := 2 + size

/-- How many bytes some things take together. -/
def total {α : Type} (size : α → Nat) (xs : List α) : Nat := xs.foldr (fun x n => size x + n) 0

/-- A flag as the number its bit counts. -/
def bit (b : Bool) (weight : Nat) : Nat := if b then weight else 0

@[simp] theorem length_word (n : UInt16) : (word n).length = 2 := rfl

@[simp] theorem length_binary (bs : ByteArray) : (binary bs).length = prefixedLength bs.size := by
  simp [binary, prefixedLength]

@[simp] theorem length_text (s : String) : (text s).length = prefixedLength s.utf8ByteSize := by
  simp [text]

theorem length_flatMap {α : Type} (write : α → List UInt8) (xs : List α) :
    (xs.flatMap write).length = total (fun x => (write x).length) xs := by
  induction xs with
  | nil => rfl
  | cons x xs ih => simp [total, ih]

end Wire

open Wire

/-- The flags that say which of CONNECT's optional fields follow. -/
def Connect.flags (c : Connect) : UInt8 :=
  let will := match c.will with
    | some w => 4 + w.qos.toNat * 8 + bit w.retain 32
    | none => 0
  UInt8.ofNat (bit c.cleanSession 2 + will + bit c.password.isSome 64 + bit c.username.isSome 128)

/-- The duplicate, quality and retain flags of the fixed header. -/
def Publish.flags (p : Publish) : UInt8 :=
  UInt8.ofNat (bit p.dup 8 + p.qos.toNat * 2 + bit p.retain 1)

namespace Packet

/-- The flags of a packet's fixed header. -/
def flags : Packet → UInt8
  | .publish p => p.flags
  | p => p.type.requiredFlags.getD 0

def connectBody (c : Connect) : List UInt8 :=
  text c.protocolName ++ [c.protocolLevel, c.flags] ++ word c.keepAlive ++ text c.clientId
    ++ (match c.will with
      | some w => text w.topic ++ binary w.payload
      | none => [])
    ++ (match c.username with
      | some u => text u
      | none => [])
    ++ (match c.password with
      | some p => binary p
      | none => [])

def publishBody (p : Publish) : List UInt8 :=
  text p.topic ++ (if p.qos = .atMostOnce then [] else word (p.packetId.getD 0))
    ++ p.payload.data.toList

/-- Everything after the fixed header. -/
def body : Packet → List UInt8
  | .connect c => connectBody c
  | .connack present code => [UInt8.ofNat (bit present 1), UInt8.ofNat code.toNat]
  | .publish p => publishBody p
  | .puback id | .pubrec id | .pubrel id | .pubcomp id | .unsuback id => word id
  | .subscribe id topics => word id ++ topics.flatMap fun t => text t.filter ++ [t.qos.toByte]
  | .suback id codes => word id ++ codes
  | .unsubscribe id filters => word id ++ filters.flatMap text
  | .pingreq | .pingresp | .disconnect => []

def connectLength (c : Connect) : Nat :=
  prefixedLength c.protocolName.utf8ByteSize + 1 + 1 + 2 + prefixedLength c.clientId.utf8ByteSize
    + (match c.will with
      | some w => prefixedLength w.topic.utf8ByteSize + prefixedLength w.payload.size
      | none => 0)
    + (match c.password with
      | some p => prefixedLength p.size
      | none => 0)
    + (match c.username with
      | some u => prefixedLength u.utf8ByteSize
      | none => 0)

def publishLength (p : Publish) : Nat :=
  prefixedLength p.topic.utf8ByteSize + (if p.qos = .atMostOnce then 0 else 2) + p.payload.size

/-- The length that is announced, from the sizes of the fields. -/
def remainingLength : Packet → Nat
  | .connect c => connectLength c
  | .connack _ _ => 2
  | .publish p => publishLength p
  | .puback _ | .pubrec _ | .pubrel _ | .pubcomp _ | .unsuback _ => 2
  | .subscribe _ topics => 2 + total (fun t => prefixedLength t.filter.utf8ByteSize + 1) topics
  | .suback _ codes => 2 + codes.length
  | .unsubscribe _ filters => 2 + total (fun f => prefixedLength f.utf8ByteSize) filters
  | .pingreq | .pingresp | .disconnect => 0

/-- The fixed header that announces a body of the given length. -/
def header (p : Packet) (length : Nat) : FixedHeader := ⟨p.type, p.flags, length⟩

/-- The bytes of a packet. -/
def encode (p : Packet) : List UInt8 := (p.header p.remainingLength).encode ++ p.body

/-- The bytes of a packet as they are stored in a buffer. -/
def toBytes (p : Packet) : ByteArray := p.encode.toByteArray

/-! ### The announced length -/

theorem length_connectBody (c : Connect) : (connectBody c).length = connectLength c := by
  unfold connectBody connectLength
  cases c.will <;> cases c.username <;> cases c.password <;> simp <;> omega

theorem length_publishBody (p : Publish) : (publishBody p).length = publishLength p := by
  unfold publishBody publishLength
  by_cases hq : p.qos = .atMostOnce
  · simp [hq]
  · simp [hq]
    omega

/-- As many bytes are announced as are written. -/
theorem length_body (p : Packet) : p.body.length = p.remainingLength := by
  cases p with
  | connect c => exact length_connectBody c
  | publish p => exact length_publishBody p
  | subscribe id topics =>
    rw [body, remainingLength, List.length_append, length_word, Wire.length_flatMap]
    simp
  | unsubscribe id filters =>
    rw [body, remainingLength, List.length_append, length_word, Wire.length_flatMap]
    simp
  | suback id codes => simp [body, remainingLength]
  | connack | puback | pubrec | pubrel | pubcomp | unsuback | pingreq | pingresp | disconnect => rfl

end Packet

end Mqtt
