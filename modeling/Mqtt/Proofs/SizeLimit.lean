import Mathlib.Data.List.Forall2
import Mqtt.Proofs.Packets
import Mqtt.Proofs.StreamCuts
import Mqtt.Proofs.Reading

/-!
# The limit on the size of packets: `PacketDecoder::new`

A decoder with a limit measures a packet as soon as its fixed header is there, and it measures the packet with
its length spelled in as few bytes as possible. A sender that spells the length with groups to spare gets a
packet through whose bytes are more than the limit, by three at most.

`Decoder.feedPieces_limit` says what a limit does to a stream: which packets are brought, which one is refused
as too large, and that not a byte of its body is taken. `Decoder.pingreq_oversized` is a packet that is brought
although it takes more bytes than the limit.
-/

namespace Mqtt.Decoder

open RemainingLength (Spells)

/-! ### The fixed header of a packet, as it is received -/

/-- A first byte that names a kind of packet, and a spelling of the length of the body. -/
structure Opening where
  first : UInt8
  type : PacketType
  names : PacketType.ofCode? (first.toNat / 16) = some type
  field : List UInt8
  length : Nat
  spells : Spells field length

namespace Opening

def bytes (o : Opening) : List UInt8 := o.first :: o.field

def header (o : Opening) : FixedHeader := ⟨o.type, UInt8.ofNat (o.first.toNat % 16), o.length⟩

/-- How many bytes the packet takes: its fixed header as it is received, and its body. -/
def size (o : Opening) : Nat := o.bytes.length + o.length

/-- How many bytes the packet takes if its length is spelled in as few bytes as possible. -/
def leastSize (o : Opening) : Nat := o.header.encodedLength + o.length

theorem leastSize_le_size (o : Opening) : o.leastSize ≤ o.size := by
  have hle := o.spells.encodedLength_le
  simp only [leastSize, size, bytes, FixedHeader.encodedLength, header, List.length_cons]
  omega

end Opening

namespace Frame

/-- How many bytes the frame takes if its length is spelled in as few bytes as possible. -/
def leastSize (f : Frame) : Nat := f.shortest.bytes.length

theorem leastSize_eq (f : Frame) :
    f.leastSize = 1 + RemainingLength.encodedLength f.body.length + f.body.length := by
  simp [leastSize, shortest, bytes, RemainingLength.length_encode]
  omega

theorem length_bytes (f : Frame) : f.bytes.length = 1 + f.field.length + f.body.length := by
  simp [bytes]
  omega

/-- A spelling has three groups to spare at most. -/
theorem length_bytes_le (f : Frame) : f.bytes.length ≤ f.leastSize + 3 := by
  have hle := f.spells.length_le
  have hpos : 0 < RemainingLength.encodedLength f.body.length := by
    rw [RemainingLength.encodedLength]
    split <;> omega
  rw [leastSize_eq, length_bytes]
  omega

theorem IsShortest.length_bytes {f : Frame} (h : f.IsShortest) : f.bytes.length = f.leastSize := by
  rw [leastSize, h.shortest_eq]

end Frame

/-! ### What is refused as too large -/

section

variable {max size m : Nat} {s : State} {bs rest : List UInt8}

/-- The fields of a body are never too large. -/
theorem State.proceed_settle_ne {h : FixedHeader} {left : Nat} {r : Reader Packet}
    (hr : r.All (fun _ => True) ProtocolError.OfFields) :
    proceed max (settle h left r) bs ≠ (s, .error (.packetTooLarge size m), rest) := by
  induction bs generalizing left r with
  | nil =>
    cases r with
    | done p => unfold settle; dsimp only; split <;> simp [proceed]
    | fail e => simpa [settle, proceed] using fun _ he _ => hr.ne_packetTooLarge _ _ he
    | more got n next => unfold settle; dsimp only; split <;> simp [proceed, State.next]
  | cons b bs ih =>
    cases r with
    | done p => unfold settle; dsimp only; split <;> simp [proceed]
    | fail e => simpa [settle, proceed] using fun _ he _ => hr.ne_packetTooLarge _ _ he
    | more got n next =>
      cases left with
      | zero => simp [settle, proceed]
      | succ left =>
        have hproceed : proceed max (settle h (left + 1) (.more got n next)) (b :: bs)
            = proceed max (settle h left ((Reader.more got n next).step b)) bs := State.next_cons ..
        rw [hproceed]
        exact ih (hr.step b)

/-- A header is refused as too large by the limit alone, and no byte behind it is taken. -/
theorem State.proceed_begin_eq_large_iff {h : FixedHeader} :
    proceed max (State.begin max h) bs = (s, .error (.packetTooLarge size m), rest) ↔
      s = .header .start ∧ (0 < max ∧ max < size) ∧ size = h.encodedLength + h.remainingLength ∧ m = max ∧
        rest = bs := by
  unfold State.begin
  dsimp only
  split
  · next hlarge =>
    simp only [Bool.and_eq_true, decide_eq_true_eq] at hlarge
    simp only [proceed, Prod.mk.injEq, Except.error.injEq, ProtocolError.packetTooLarge.injEq]
    constructor
    · rintro ⟨rfl, ⟨rfl, rfl⟩, rfl⟩
      exact ⟨rfl, hlarge, rfl, rfl, rfl⟩
    · rintro ⟨rfl, -, rfl, rfl, rfl⟩
      exact ⟨rfl, ⟨rfl, rfl⟩, rfl⟩
  · next hallowed =>
    simp only [Bool.and_eq_true, decide_eq_true_eq] at hallowed
    have hbegins := Body.begins_reader h
    have hnever : ¬ ((0 < max ∧ max < size) ∧ size = h.encodedLength + h.remainingLength) := by
      rintro ⟨hlarge, rfl⟩
      exact hallowed hlarge
    cases hreader : Body.reader h with
    | error e =>
      rw [hreader] at hbegins
      have hne := ProtocolError.OfFields.ne_packetTooLarge hbegins size m
      simp only [proceed, Prod.mk.injEq, Except.error.injEq, hne, false_and, and_false, false_iff]
      exact fun hlarge => hnever ⟨hlarge.2.1, hlarge.2.2.1⟩
    | ok r =>
      rw [hreader] at hbegins
      refine iff_of_false (proceed_settle_ne ?_) fun hlarge => hnever ⟨hlarge.2.1, hlarge.2.2.1⟩
      exact Reader.All.imp hbegins fun _ _ => trivial

/-- A length alone is never too large: the packet is. -/
theorem State.next_length_eq_large_iff {t : PacketType} {flags : UInt8} :
    State.next max (.header (.length t flags RemainingLength.reader)) bs
        = (s, .error (.packetTooLarge size m), rest) ↔
      ∃ field length bs', Spells field length ∧ bs = field ++ bs' ∧
        proceed max (State.begin max ⟨t, flags, length⟩) bs' = (s, .error (.packetTooLarge size m), rest) := by
  have hreads (length : Nat) (bs' : List UInt8) :
      RemainingLength.reader.feed bs = (.done length, bs') ↔ ∃ field, Spells field length ∧ bs = field ++ bs' :=
    RemainingLength.reads_reader_iff
  have hall := (all_groups 3 1 0).feed bs
  obtain ⟨got, n, next, hmore⟩ : ∃ got n next, RemainingLength.reader = .more got n next := ⟨_, _, _, rfl⟩
  rw [hmore, State.next_length, ← hmore]
  constructor
  · intro h
    split at h
    · next length bs' hfeed =>
      obtain ⟨field, hspells, rfl⟩ := (hreads length bs').1 hfeed
      exact ⟨field, length, bs', hspells, rfl, h⟩
    · next e bs' hfeed =>
      have hfail : e.OfFields := by
        have hfed : (RemainingLength.reader.feed bs).1.All (fun _ => True) ProtocolError.OfFields := hall
        rw [hfeed] at hfed
        exact hfed
      simp only [Prod.mk.injEq, Except.error.injEq] at h
      exact absurd h.2.1 (hfail.ne_packetTooLarge size m)
    · simp at h
  · rintro ⟨field, length, bs', hspells, hbs, h⟩
    rw [(hreads length bs').2 ⟨field, hspells, hbs⟩]
    exact h

/-- **What is refused as too large.** A decoder between two packets refuses a packet as too large if and only
if a whole fixed header stands at the front that announces more than the limit, and it takes the bytes of this
header and no other. -/
theorem State.next_start_eq_large_iff :
    State.next max (.header .start) bs = (s, .error (.packetTooLarge size m), rest) ↔
      s = .header .start ∧ m = max ∧ 0 < max ∧
        ∃ o : Opening, bs = o.bytes ++ rest ∧ size = o.leastSize ∧ max < o.leastSize := by
  cases bs with
  | nil => simp [State.next, Opening.bytes]
  | cons b bs =>
    rw [State.next_cons]
    unfold State.step FixedHeader.Progress.step
    dsimp only
    cases hcode : PacketType.ofCode? (b.toNat / 16) with
    | none =>
      constructor
      · intro h
        simp [proceed] at h
      · rintro ⟨-, -, -, o, hbytes, -⟩
        obtain ⟨rfl, -⟩ := List.cons.inj hbytes
        exact absurd o.names (by simp [hcode])
    | some t =>
      refine next_length_eq_large_iff.trans ?_
      simp only [proceed_begin_eq_large_iff]
      constructor
      · rintro ⟨field, length, bs', hspells, rfl, hs, ⟨hpos, hlarge⟩, hsize, rfl, rfl⟩
        exact ⟨hs, rfl, hpos, ⟨b, t, hcode, field, length, hspells⟩, rfl, hsize, by rwa [hsize] at hlarge⟩
      · rintro ⟨hs, rfl, hpos, ⟨first, type, hnames, field, length, hspells⟩, hbytes, rfl, hlarge⟩
        obtain ⟨rfl, rfl⟩ := List.cons.inj hbytes
        obtain rfl : t = type := Option.some.inj (hcode.symm.trans hnames)
        exact ⟨field, length, rest, hspells, rfl, hs, ⟨hpos, hlarge⟩, rfl, rfl, rfl⟩

end

/-! ### A stream -/

/-- How a decoder with a limit takes a stream apart: into the frames of the packets that it brings, and what
is behind them. -/
structure Divides (max : Nat) (stream : List UInt8) (packets : List Packet) (error : Option ProtocolError)
    (frames : List Frame) (rest : List UInt8) : Prop where
  stream_eq : stream = frames.flatMap Frame.bytes ++ rest
  /-- Each frame is the bytes of its packet. -/
  packets_eq : List.Forall₂ (fun f p => decodePacket f.bytes = .ok (some (p, f.bytes.length))) frames packets
  leastSize_le : ∀ f ∈ frames, f.leastSize ≤ max
  /-- A packet is refused as too large if a whole fixed header that announces more than the limit stands behind
  the frames, whatever is behind it. -/
  error_iff : ∀ size m, error = some (.packetTooLarge size m) ↔
    m = max ∧ ∃ o : Opening, o.bytes <+: rest ∧ size = o.leastSize ∧ max < o.leastSize

variable {max : Nat}

/-- A stream behind whose front no packet comes is refused as too large as its first call refuses it. -/
theorem error_iff_of_next (hmax : 0 < max) {s : State} {y : Yield} {bs rest : List UInt8}
    (hnext : State.next max (.header .start) bs = (s, y, rest)) (size m : Nat) :
    y = .error (.packetTooLarge size m) ↔
      m = max ∧ ∃ o : Opening, o.bytes <+: bs ∧ size = o.leastSize ∧ max < o.leastSize := by
  constructor
  · rintro rfl
    obtain ⟨-, hm, -, o, hbs, hsize, hlarge⟩ := State.next_start_eq_large_iff.1 hnext
    exact ⟨hm, o, ⟨rest, hbs.symm⟩, hsize, hlarge⟩
  · rintro ⟨hm, o, ⟨tail, hbs⟩, hsize, hlarge⟩
    have hrefused := State.next_start_eq_large_iff.2 ⟨rfl, hm, hmax, o, hbs.symm, hsize, hlarge⟩
    rw [hnext] at hrefused
    simp only [Prod.mk.injEq] at hrefused
    exact hrefused.2.1

theorem State.run_divides (hmax : 0 < max) (bs : List UInt8) :
    ∃ frames rest, Divides max bs (State.run max (.header .start) bs).2.1
      (State.run max (.header .start) bs).2.2 frames rest := by
  induction hn : bs.length using Nat.strongRecOn generalizing bs with
  | ind n ih =>
    subst hn
    rw [State.run_eq_next]
    rcases hnext : State.next max (.header .start) bs with ⟨s, e | _ | p, rest⟩
    · refine ⟨[], bs, rfl, .nil, by simp, fun size m => ?_⟩
      rw [← error_iff_of_next hmax hnext]
      simp
    · refine ⟨[], bs, rfl, .nil, by simp, fun size m => ?_⟩
      rw [← error_iff_of_next hmax hnext]
      simp
    · obtain ⟨rfl, hallows, hfit, field, hspells, hbs⟩ := State.next_start_iff.1 hnext
      have hlt : rest.length < bs.length := by
        rw [hbs]
        simp
        omega
      obtain ⟨frames, behind, hdivides⟩ := ih rest.length hlt rest rfl
      have hdecode : decodePacket (p.firstByte :: (field ++ p.body))
          = .ok (some (p, (p.firstByte :: (field ++ p.body)).length)) := by
        refine decodePacket_eq_ok_some_iff.2 ⟨[], ?_, rfl⟩
        exact State.next_start_iff.2 ⟨rfl, .inl rfl, hfit, field, hspells, (List.append_nil _).symm⟩
      refine ⟨⟨p.firstByte, field, p.body, hspells⟩ :: frames, behind, ?_, .cons hdecode hdivides.packets_eq,
        ?_, hdivides.error_iff⟩
      · rw [hbs, hdivides.stream_eq]
        simp [Frame.bytes]
      · refine List.forall_mem_cons.2 ⟨?_, hdivides.leastSize_le⟩
        rw [Frame.leastSize_eq]
        exact hallows.resolve_left (Nat.pos_iff_ne_zero.1 hmax)

/-- **What a limit does to a stream.** However a stream is cut, a decoder with a limit brings the packets of
frames at its front, one after the other, and none of them takes more bytes than the limit if its length is
spelled in as few bytes as possible; so a packet that takes more bytes, three more at most, has a length that
is spelled in more bytes than needed. A packet is refused as too large if and only if behind the frames a whole
fixed header announces more than the limit, so its bytes are more than the limit; that nothing of its body has
come makes no difference, and the decoder takes the bytes of the header and none behind them. -/
theorem feedPieces_limit (hmax : 0 < max) (pieces : List (List UInt8)) :
    (∃ frames rest,
      Divides max pieces.flatten ((new max).feedPieces pieces).packets ((new max).feedPieces pieces).error
        frames rest ∧
      ∀ f ∈ frames, f.bytes.length ≤ max + 3 ∧ (max < f.bytes.length → ¬ f.IsShortest)) ∧
    ∀ o : Opening, o.leastSize ≤ o.size ∧ (max < o.leastSize → ∀ tail,
      (new max).next (o.bytes ++ tail) = (new max, .error (.packetTooLarge o.leastSize max), tail)) := by
  constructor
  · obtain ⟨frames, rest, hdivides⟩ := State.run_divides hmax pieces.flatten
    refine ⟨frames, rest, ?_, fun f hf => ?_⟩
    · rw [feedPieces_eq_feed, feed_eq_run]
      exact hdivides
    · have hle := hdivides.leastSize_le f hf
      have hspare := f.length_bytes_le
      refine ⟨by omega, fun hlarge hshort => ?_⟩
      rw [hshort.length_bytes] at hlarge
      omega
  · intro o
    refine ⟨o.leastSize_le_size, fun hlarge tail => ?_⟩
    have hnext : State.next max (.header .start) (o.bytes ++ tail)
        = (.header .start, .error (.packetTooLarge o.leastSize max), tail) :=
      State.next_start_eq_large_iff.2 ⟨rfl, rfl, hmax, o, rfl, rfl, hlarge⟩
    unfold next new
    dsimp only
    rw [hnext]

/-- A PINGREQ whose length is spelled in two bytes is brought, and the header behind it, which announces one
byte more than the limit, is refused before that byte has come. -/
theorem feedPieces_limit_header :
    0 < 2 ∧ ∃ f rest,
      Divides 2 [0xC0, 0x80, 0x00, 0x30, 0x01] [.pingreq] (some (.packetTooLarge 3 2)) [f] rest ∧
        f.bytes.length = 3 := by
  have hpackets : ((new 2).feedPieces [[0xC0, 0x80], [0x00, 0x30], [0x01]]).packets = [.pingreq] := by
    rw [feedPieces_eq_feed, feed_eq_run]
    decide +kernel
  have herror : ((new 2).feedPieces [[0xC0, 0x80], [0x00, 0x30], [0x01]]).error
      = some (.packetTooLarge 3 2) := by
    rw [feedPieces_eq_feed, feed_eq_run]
    decide +kernel
  obtain ⟨⟨frames, rest, hdivides, -⟩, -⟩ :=
    feedPieces_limit (show 0 < 2 by decide) [[0xC0, 0x80], [0x00, 0x30], [0x01]]
  rw [hpackets, herror] at hdivides
  obtain ⟨f, _, hdecode, hnone, rfl⟩ := List.forall₂_cons_right_iff.1 hdivides.packets_eq
  obtain rfl := List.forall₂_nil_right_iff.1 hnone
  refine ⟨by decide, f, rest, hdivides, ?_⟩
  -- What is decoded from the front of the stream is what is decoded from the frame.
  have hfront : decodePacket ([0xC0, 0x80, 0x00, 0x30, 0x01] : List UInt8) = .ok (some (.pingreq, 3)) := rfl
  have hstream : ([0xC0, 0x80, 0x00, 0x30, 0x01] : List UInt8) = f.bytes ++ rest := by
    simpa using hdivides.stream_eq
  rcases decodePacket_append f.bytes rest with hnone | hsame
  · simp [hdecode] at hnone
  · rw [← hstream, hfront, hdecode] at hsame
    simpa using hsame.symm

/-- The limit is not one on the bytes of a packet: three bytes bring a packet although the limit is two. -/
theorem pingreq_oversized :
    ((new 2).feedPieces [[0xC0, 0x80, 0x00]]).packets = [.pingreq] ∧
      ((new 2).feedPieces [[0xC0, 0x80, 0x00]]).error = none ∧
      decodePacket [0xC0, 0x80, 0x00] = .ok (some (.pingreq, 3)) ∧ 2 < 3 := by
  rw [feedPieces_eq_feed, feed_eq_run]
  decide +kernel

end Mqtt.Decoder
