import Mqtt.Proofs.Bodies
import Mqtt.Proofs.Lengths

/-!
# Packets on the wire: `PacketDecoder`, `Packet::encode`

`Decoder.State.next_start_iff` says what bring a decoder between two packets its next packet: the packet's
first byte, a spelling of the length of its body, and its body, of a packet whose fields fit. Both directions
of the wire format are read off it. What well-formed packets are written as is read as these packets
(`Decoder.calls_encode`), and what was read as a packet is written again byte for byte, except that the
length is spelled in its shortest form (`Decoder.encode_of_decodePacket`).
-/

namespace Mqtt

open RemainingLength (Spells)

/-! ### The first byte -/

theorem PacketType.ofCode?_eq_some_iff {n : Nat} {t : PacketType} : ofCode? n = some t ↔ n = t.code := by
  constructor
  · intro h
    unfold ofCode? at h
    split at h <;> cases h <;> rfl
  · rintro rfl
    exact ofCode?_code t

namespace Packet

/-- The kind and the flags of a packet. -/
def firstByte (p : Packet) : UInt8 := UInt8.ofNat (p.type.code * 16 + p.flags.toNat % 16)

theorem encode_eq (p : Packet) :
    p.encode = p.firstByte :: (RemainingLength.encode p.body.length ++ p.body) := by
  rw [encode, ← p.length_body]
  rfl

/-- A byte that holds a kind and flags is the first byte of the packets of this kind with these flags. -/
theorem eq_firstByte_iff {p : Packet} {b : UInt8} :
    b = p.firstByte ↔ b.toNat / 16 = p.type.code ∧ UInt8.ofNat (b.toNat % 16) = p.flags := by
  have hcode := p.type.code_lt
  have hflags := p.flags_lt
  have hfirst : p.firstByte.toNat = p.type.code * 16 + p.flags.toNat := by
    rw [firstByte, Nat.mod_eq_of_lt hflags]
    exact UInt8.toNat_ofNat_of_lt' (show p.type.code * 16 + p.flags.toNat < 256 by omega)
  have hlow : (UInt8.ofNat (b.toNat % 16)).toNat = b.toNat % 16 :=
    UInt8.toNat_ofNat_of_lt' (show b.toNat % 16 < 256 by omega)
  rw [← UInt8.toNat_inj, hfirst, ← UInt8.toNat_inj, hlow]
  omega

end Packet

namespace Decoder

/-! ### One packet -/

/-- What comes of the bytes behind a byte. -/
def State.proceed (max : Nat) : State × Yield → List UInt8 → State × Yield × List UInt8
  | (s, .ok none), bs => s.next max bs
  | (s, y), bs => (s, y, bs)

theorem State.next_cons (max : Nat) (s : State) (b : UInt8) (bs : List UInt8) :
    s.next max (b :: bs) = proceed max (s.step max b) bs := by
  rw [next]
  rcases s.step max b with ⟨s, e | _ | p⟩ <;> rfl

/-- The limit lets packets with this header through. -/
def Allows (max : Nat) (h : FixedHeader) : Prop := max = 0 ∨ h.encodedLength + h.remainingLength ≤ max

variable {max : Nat} {s : State} {p : Packet} {bs rest : List UInt8}

/-- The reader takes exactly the bytes that are left of a body. -/
def Fills (r : Reader Packet) (left : Nat) (bs : List UInt8) (p : Packet) (rest : List UInt8) : Prop :=
  ∃ body, body.length = left ∧ r.Reads body p [] ∧ bs = body ++ rest

theorem fills_done_iff {q : Packet} {left : Nat} :
    Fills (.done q) left bs p rest ↔ left = 0 ∧ p = q ∧ bs = rest := by
  constructor
  · rintro ⟨body, rfl, hread, rfl⟩
    obtain ⟨rfl, rfl⟩ := Reader.reads_done_iff.1 hread
    exact ⟨rfl, rfl, rfl⟩
  · rintro ⟨rfl, rfl, rfl⟩
    exact ⟨[], rfl, Reader.reads_done_iff.2 ⟨rfl, rfl⟩, rfl⟩

theorem not_fills_fail {e : ProtocolError} {left : Nat} : ¬ Fills (.fail e) left bs p rest := by
  rintro ⟨body, -, hread, -⟩
  exact Reader.reads_fail_iff hread

theorem not_fills_more_zero {got : ByteArray} {n : Nat} {next : ByteArray → Reader Packet} :
    ¬ Fills (.more got n next) 0 bs p rest := by
  rintro ⟨body, hlength, hread, -⟩
  rw [List.length_eq_zero_iff.1 hlength, Reader.Reads, Reader.feed_nil] at hread
  cases hread

theorem not_fills_nil {r : Reader Packet} {left : Nat} : ¬ Fills r (left + 1) [] p rest := by
  rintro ⟨body, hlength, -, hnil⟩
  rw [(List.append_eq_nil_iff.1 hnil.symm).1] at hlength
  cases hlength

theorem fills_more_cons_iff {got : ByteArray} {n left : Nat} {next : ByteArray → Reader Packet} {b : UInt8} :
    Fills (.more got n next) (left + 1) (b :: bs) p rest ↔
      Fills ((Reader.more got n next).step b) left bs p rest := by
  constructor
  · rintro ⟨_ | ⟨b', body⟩, hlength, hread, hbs⟩
    · cases hlength
    · cases hbs
      rw [Reader.Reads, Reader.feed_more_cons] at hread
      exact ⟨body, by simpa using hlength, hread, rfl⟩
  · rintro ⟨body, rfl, hread, rfl⟩
    refine ⟨b :: body, rfl, ?_, rfl⟩
    rw [Reader.Reads, Reader.feed_more_cons]
    exact hread

/-- A body brings a packet if its fields are read as one and end where the announced length does. -/
theorem State.proceed_settle_iff {h : FixedHeader} {left : Nat} {r : Reader Packet} :
    proceed max (settle h left r) bs = (s, .ok (some p), rest) ↔ s = .header .start ∧ Fills r left bs p rest := by
  induction left generalizing r bs with
  | zero =>
    cases r with
    | done q => simp [settle, proceed, fills_done_iff, eq_comm]
    | fail e => simp [settle, proceed, not_fills_fail]
    | more got n next => simp [settle, proceed, not_fills_more_zero]
  | succ left ih =>
    cases r with
    | done q => simp [settle, proceed, fills_done_iff]
    | fail e => simp [settle, proceed, not_fills_fail]
    | more got n next =>
      cases bs with
      | nil => simp [settle, proceed, State.next, not_fills_nil]
      | cons b bs =>
        have hproceed : proceed max (settle h (left + 1) (.more got n next)) (b :: bs)
            = proceed max (settle h left ((Reader.more got n next).step b)) bs := State.next_cons ..
        rw [hproceed, ih, fills_more_cons_iff]

/-- A header that the limit lets through brings the packet of its body. -/
theorem State.proceed_begin_iff {h : FixedHeader} :
    proceed max (State.begin max h) bs = (s, .ok (some p), rest) ↔
      s = .header .start ∧ Allows max h ∧
        ∃ body, body.length = h.remainingLength ∧ Body.ReadsAs (Body.reader h) body p ∧ bs = body ++ rest := by
  unfold State.begin Allows
  dsimp only
  split
  · next hlarge =>
    simp only [Bool.and_eq_true, decide_eq_true_eq] at hlarge
    constructor
    · intro h
      cases h
    · rintro ⟨-, hallowed, -⟩
      omega
  · next hallowed =>
    have hallowed : max = 0 ∨ h.encodedLength + h.remainingLength ≤ max := by
      simp only [Bool.and_eq_true, decide_eq_true_eq] at hallowed
      omega
    rw [and_iff_right hallowed]
    cases hreader : Body.reader h with
    | error e => simp [proceed, Body.readsAs_error_iff]
    | ok r =>
      simp only [Body.readsAs_ok_iff]
      exact proceed_settle_iff

/-- A header that waits for its length takes the bytes of the length, and then goes on with the body. -/
theorem State.next_length {t : PacketType} {flags : UInt8} {got : ByteArray} {n : Nat}
    {next : ByteArray → Reader Nat} :
    State.next max (.header (.length t flags (.more got n next))) bs =
      match (Reader.more got n next).feed bs with
      | (.done length, rest) => proceed max (State.begin max ⟨t, flags, length⟩) rest
      | (.fail e, rest) => (.header (.length t flags (.fail e)), .error e, rest)
      | (r, _) => (.header (.length t flags r), .ok none, []) := by
  induction bs generalizing got n next with
  | nil => simp [State.next, Reader.feed_nil]
  | cons b bs ih =>
    rw [State.next_cons, Reader.feed_more_cons]
    unfold State.step FixedHeader.Progress.step
    dsimp only
    cases (Reader.more got n next).step b with
    | done length => simp [Reader.feed_done]
    | fail e => simp [proceed, Reader.feed_fail]
    | more got n next => exact ih

/-- The length that a header is waiting for is read, and then the body. -/
theorem State.next_length_iff {t : PacketType} {flags : UInt8} {got : ByteArray} {n : Nat}
    {next : ByteArray → Reader Nat} :
    State.next max (.header (.length t flags (.more got n next))) bs = (s, .ok (some p), rest) ↔
      ∃ length bs', (Reader.more got n next).Reads bs length bs' ∧
        proceed max (State.begin max ⟨t, flags, length⟩) bs' = (s, .ok (some p), rest) := by
  rw [State.next_length]
  unfold Reader.Reads
  rcases (Reader.more got n next).feed bs with ⟨length | e | ⟨got, n, next⟩, bs'⟩ <;> simp [and_assoc]

/-- **One packet on the wire.** A decoder between two packets brings a packet if and only if the limit lets
it through, its fields fit, and what stands at the front is its first byte, a spelling of the length of its
body, and its body. -/
theorem State.next_start_iff :
    State.next max (.header .start) bs = (s, .ok (some p), rest) ↔
      s = .header .start ∧ Allows max (p.header p.body.length) ∧ p.FieldsFit ∧
        ∃ field, Spells field p.body.length ∧ bs = p.firstByte :: (field ++ p.body) ++ rest := by
  cases bs with
  | nil => simp [State.next]
  | cons b bs =>
    rw [State.next_cons]
    unfold State.step FixedHeader.Progress.step
    dsimp only
    cases hcode : PacketType.ofCode? (b.toNat / 16) with
    | none =>
      constructor
      · intro h
        cases h
      · rintro ⟨-, -, -, field, -, hb⟩
        have hfirst := (Packet.eq_firstByte_iff.1 (List.cons.inj hb).1).1
        rw [hfirst, PacketType.ofCode?_code] at hcode
        cases hcode
    | some t =>
      have hflags : (UInt8.ofNat (b.toNat % 16)).toNat < 16 := by
        rw [UInt8.toNat_ofNat_of_lt' (show b.toNat % 16 < 256 by omega)]
        exact Nat.mod_lt _ (by decide)
      refine next_length_iff.trans ?_
      simp only [proceed_begin_iff]
      constructor
      · rintro ⟨length, _, hlength, hs, hallowed, body, rfl, hread, rfl⟩
        obtain ⟨field, hspells, rfl⟩ := RemainingLength.reads_reader_iff.1 hlength
        obtain ⟨hfit, rfl, hp, rfl⟩ := (Body.reads_reader_iff hflags).1 hread
        have hb : b = p.firstByte :=
          Packet.eq_firstByte_iff.2 ⟨PacketType.ofCode?_eq_some_iff.1 hcode, hp.symm⟩
        rw [← hp] at hallowed
        exact ⟨hs, hallowed, hfit, field, hspells, by rw [hb, List.cons_append, List.append_assoc]⟩
      · rintro ⟨hs, hallowed, hfit, field, hspells, hbs⟩
        obtain ⟨hb, rfl⟩ := List.cons.inj hbs
        obtain ⟨hfirst, hp⟩ := Packet.eq_firstByte_iff.1 hb
        rw [hfirst, PacketType.ofCode?_code] at hcode
        cases hcode
        rw [hp]
        refine ⟨p.body.length, p.body ++ rest, ?_, hs, hallowed, p.body, rfl, ?_, rfl⟩
        · exact RemainingLength.reads_reader_iff.2 ⟨field, hspells, List.append_assoc ..⟩
        · exact (Body.reads_reader_iff p.flags_lt).2 ⟨hfit, rfl, rfl, rfl⟩

/-! ### Reading what was written -/

/-- That many calls, each with the bytes the last one left: what each brought and how many bytes it took,
and the decoder and the bytes that are left. -/
def calls (d : Decoder) (bs : List UInt8) : Nat → List (Yield × Nat) × Decoder × List UInt8
  | 0 => ([], d, bs)
  | n + 1 =>
    let (d', y, rest) := d.next bs
    let (brought, last) := d'.calls rest n
    ((y, bs.length - rest.length) :: brought, last)

/-- A state that bytes lead to from the start of a stream, or from between two packets. -/
def State.Reached (max : Nat) (s : State) : Prop := ∃ bs, State.next max (.header .start) bs = (s, .ok none, [])

theorem State.reached_start : Reached max (.header .start) := ⟨[], rfl⟩

theorem State.Reached.next_step {s' : State} {b : UInt8} {y : Yield} (h : s.Reached max)
    (hstep : s.step max b = (s', y)) : ∃ bs, State.next max (.header .start) bs = (s', y, []) := by
  obtain ⟨bs, hbs⟩ := h
  refine ⟨bs ++ [b], ?_⟩
  rw [next_append, hbs]
  dsimp only
  rw [next_cons, hstep]
  rcases y with e | _ | p <;> rfl

theorem State.Reached.step {s' : State} {b : UInt8} (h : s.Reached max) (hstep : s.step max b = (s', .ok none)) :
    s'.Reached max := h.next_step hstep

/-- What bytes bring is well-formed, and the next packet can begin. -/
theorem State.Reached.step_packet {s' : State} {b : UInt8} (h : s.Reached max)
    (hstep : s.step max b = (s', .ok (some p))) : p.WellFormed ∧ s'.Reached max := by
  obtain ⟨bs, hbs⟩ := h.next_step hstep
  obtain ⟨rfl, -, hfit, field, hspells, -⟩ := next_start_iff.1 hbs
  exact ⟨⟨hfit, hspells.le_maxValue⟩, reached_start⟩

/-- A well-formed packet that the limit lets through is read as it was written. -/
theorem State.next_encode (hp : p.WellFormed) (hallows : Allows max (p.header p.body.length)) (rest : List UInt8) :
    State.next max (.header .start) (p.encode ++ rest) = (.header .start, .ok (some p), rest) :=
  State.next_start_iff.2 ⟨rfl, hallows, hp.fields, RemainingLength.encode p.body.length,
    RemainingLength.spells_encode hp.length, by rw [p.encode_eq]⟩

/-- A well-formed packet is read as it was written, and the decoder is between two packets again. -/
theorem next_encode (hp : p.WellFormed) (rest : List UInt8) :
    (new 0).next (p.encode ++ rest) = (new 0, .ok (some p), rest) := by
  unfold next new
  dsimp only
  rw [State.next_encode hp (.inl rfl)]

theorem decodePacket_encode (hp : p.WellFormed) : decodePacket p.encode = .ok (some (p, p.encode.length)) := by
  have hnext := next_encode hp []
  rw [List.append_nil] at hnext
  rw [decodePacket, hnext]
  simp

/-- **Decoding undoes encoding.** Well-formed packets that are written one after the other, with any bytes
behind them, are brought by as many calls of a new decoder without a limit: the packets as they were and in
their order, each for exactly the bytes it was written as, and the bytes behind them are left. The length
that is announced for a packet is the number of bytes its body is written as. -/
theorem calls_encode (ps : List Packet) (hps : ∀ p ∈ ps, p.WellFormed) (rest : List UInt8) :
    (new 0).calls (ps.flatMap Packet.encode ++ rest) ps.length
        = (ps.map fun p => (.ok (some p), p.encode.length), new 0, rest) ∧
      ∀ p : Packet, p.remainingLength = p.body.length := by
  refine ⟨?_, fun p => p.length_body.symm⟩
  induction ps with
  | nil => rfl
  | cons p ps ih =>
    obtain ⟨hp, hps⟩ := List.forall_mem_cons.1 hps
    rw [List.flatMap_cons, List.append_assoc, List.length_cons, calls, next_encode hp, List.map_cons]
    dsimp only
    rw [ih hps]
    simp

/-- A packet without a body, a CONNECT with everything it can carry, and a byte behind them. -/
theorem calls_encode_connect :
    let connect : Packet := .connect ⟨"MQTT", 4, true, 60, "c", some ⟨"t", "w".toUTF8, .exactlyOnce, true⟩,
      some "u", some "p".toUTF8⟩
    (∀ p ∈ [.pingreq, connect], p.WellFormed) ∧
      (new 0).calls ([.pingreq, connect].flatMap Packet.encode ++ [0x10]) 2
        = ([(.ok (some .pingreq), 2), (.ok (some connect), 27)], new 0, [0x10]) := by
  intro connect
  have hwell : ∀ p ∈ [.pingreq, connect], p.WellFormed := by
    refine List.forall_mem_cons.2 ⟨⟨trivial, by decide⟩, List.forall_mem_singleton.2 ⟨?_, by decide⟩⟩
    constructor <;> simp [Wire.IsText, Will.WellFormed] <;> decide
  have hlength : connect.encode.length = 27 := by
    rw [Packet.encode_eq, RemainingLength.encode, if_pos (by decide)]
    rfl
  have hempty : Packet.pingreq.encode.length = 2 := by
    rw [Packet.encode_eq, RemainingLength.encode]
    rfl
  refine ⟨hwell, (calls_encode _ hwell [0x10]).1.trans ?_⟩
  rw [List.map_cons, List.map_cons, List.map_nil, hlength, hempty]

/-! ### Writing what was read -/

/-- The bytes of a packet: a first byte, a spelling of the length of the body, and the body. -/
structure Frame where
  first : UInt8
  field : List UInt8
  body : List UInt8
  spells : Spells field body.length

namespace Frame

def bytes (f : Frame) : List UInt8 := f.first :: (f.field ++ f.body)

/-- The length is spelled in as few bytes as possible. -/
def IsShortest (f : Frame) : Prop := f.field.length = RemainingLength.encodedLength f.body.length

/-- The same frame with its length spelled in as few bytes as possible. -/
def shortest (f : Frame) : Frame :=
  { f with field := RemainingLength.encode f.body.length
           spells := RemainingLength.spells_encode f.spells.le_maxValue }

theorem IsShortest.shortest_eq {f : Frame} (h : f.IsShortest) : f.shortest = f := by
  obtain ⟨first, field, body, hspells⟩ := f
  obtain rfl := hspells.eq_encode h
  rfl

/-- Bytes are those of one frame at most. -/
theorem bytes_inj {f f' : Frame} : f.bytes = f'.bytes ↔ f = f' := by
  refine ⟨fun h => ?_, congrArg bytes⟩
  obtain ⟨first, field, body, hspells⟩ := f
  obtain ⟨first', field', body', hspells'⟩ := f'
  obtain ⟨rfl, happend⟩ := List.cons.inj h
  obtain ⟨rfl, rfl⟩ := hspells.append_inj hspells' happend
  rfl

end Frame

theorem decodePacket_eq_ok_some_iff {n : Nat} :
    decodePacket bs = .ok (some (p, n)) ↔
      ∃ rest, State.next 0 (.header .start) bs = (.header .start, .ok (some p), rest) ∧
        n = bs.length - rest.length := by
  unfold decodePacket next new
  dsimp only
  rcases hnext : State.next 0 (.header .start) bs with ⟨s, e | _ | q, rest⟩
  · simp
  · simp
  · obtain ⟨rfl, -⟩ := State.next_start_iff.1 hnext
    simp only [Except.ok.injEq, Option.some.injEq, Prod.mk.injEq, true_and]
    constructor
    · rintro ⟨rfl, rfl⟩
      exact ⟨rest, ⟨rfl, rfl⟩, rfl⟩
    · rintro ⟨_, ⟨rfl, rfl⟩, rfl⟩
      exact ⟨rfl, rfl⟩

/-- What is read from the front of some bytes is a frame of them, and it is written as the frame with its
length spelled shortest. -/
theorem exists_frame {n : Nat} (h : decodePacket bs = .ok (some (p, n))) :
    p.WellFormed ∧ n ≤ bs.length ∧ ∃ f : Frame, bs.take n = f.bytes ∧ p.encode = f.shortest.bytes := by
  obtain ⟨rest, hnext, rfl⟩ := decodePacket_eq_ok_some_iff.1 h
  obtain ⟨-, -, hfit, field, hspells, rfl⟩ := State.next_start_iff.1 hnext
  refine ⟨⟨hfit, hspells.le_maxValue⟩, Nat.sub_le _ _, ⟨p.firstByte, field, p.body, hspells⟩, ?_, p.encode_eq⟩
  rw [List.length_append, Nat.add_sub_cancel_right, List.take_left]
  rfl

/-- **Encoding undoes decoding.** A packet that was read from the front of some bytes is well-formed, and it
is written as the bytes that were taken, with the length spelled in as few bytes as possible and nothing else
changed: as exactly the bytes that were taken if their length was spelled so. So the same packet is read from
no two frames whose lengths are spelled in as few bytes as possible. -/
theorem encode_of_decodePacket {n : Nat} (h : decodePacket bs = .ok (some (p, n))) :
    p.WellFormed ∧ n ≤ bs.length ∧
      ∃ f : Frame, bs.take n = f.bytes ∧ p.encode = f.shortest.bytes ∧ (f.IsShortest → p.encode = bs.take n) ∧
        ∀ {bs' : List UInt8} {n' : Nat} {f' : Frame}, decodePacket bs' = .ok (some (p, n')) →
          bs'.take n' = f'.bytes → f.IsShortest → f'.IsShortest → bs'.take n' = bs.take n := by
  obtain ⟨hwell, hle, f, hf, hencode⟩ := exists_frame h
  have hshort {bs : List UInt8} {n : Nat} {f : Frame} (hbs : decodePacket bs = .ok (some (p, n)))
      (hf : bs.take n = f.bytes) (hshort : f.IsShortest) : p.encode = bs.take n := by
    obtain ⟨-, -, f', hf', hencode⟩ := exists_frame hbs
    obtain rfl := Frame.bytes_inj.1 (hf.symm.trans hf')
    rw [hencode, hf, hshort.shortest_eq]
  refine ⟨hwell, hle, f, hf, hencode, hshort h hf, ?_⟩
  intro bs' n' f' h' hf' hs hs'
  exact (hshort h' hf' hs').symm.trans (hshort h hf hs)

/-- A PINGREQ whose length is spelled in two bytes. -/
theorem encode_pingreq :
    decodePacket [0xC0, 0x80, 0x00] = .ok (some (.pingreq, 3)) ∧
      ∃ f : Frame, [0xC0, 0x80, 0x00] = f.bytes ∧ ¬ f.IsShortest ∧ f.shortest.bytes = [0xC0, 0x00] := by
  have h : decodePacket [0xC0, 0x80, 0x00] = .ok (some (.pingreq, 3)) := rfl
  obtain ⟨-, -, f, hf, hencode, hshort, -⟩ := encode_of_decodePacket h
  have hwritten : Packet.pingreq.encode = [0xC0, 0x00] := by
    rw [Packet.encode_eq, RemainingLength.encode]
    rfl
  refine ⟨h, f, hf, fun hs => ?_, hencode.symm.trans hwritten⟩
  exact absurd (hwritten.symm.trans (hshort hs)) (by decide)

end Decoder

end Mqtt
