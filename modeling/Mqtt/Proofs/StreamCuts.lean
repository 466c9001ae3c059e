import Mqtt.Decoder

/-!
# Cutting the stream: `PacketDecoder::decode`

A reader of a socket gets the stream in pieces of any size. It offers each piece to the decoder, and
what the decoder left of it again, until the piece is used up or an error ends the stream.

`feedPieces_eq_feed` says that the cuts do not show: packets, the first error and the decoder at the
end are those of the stream in one piece.
-/

namespace Mqtt.Decoder

/-- What came of offering bytes: the decoder after them, the packets in order, and the error that
ended the stream, if one did. -/
structure Fed where
  decoder : Decoder
  packets : List Packet
  error : Option ProtocolError

/-- Offer bytes again and again, each time what the last call left, until they are used up. A call
that takes no byte ends the offering as well. -/
def feed (d : Decoder) (bs : List UInt8) : Fed :=
  match d.next bs with
  | (d, .error e, _) => ⟨d, [], some e⟩
  | (d, .ok packet, rest) =>
    if _h : rest.length < bs.length ∧ rest ≠ [] then
      let further := d.feed rest
      { further with packets := packet.toList ++ further.packets }
    else ⟨d, packet.toList, none⟩
termination_by bs.length
decreasing_by exact _h.1

/-- Offer one piece after the other; an error ends the stream. -/
def feedPieces (d : Decoder) : List (List UInt8) → Fed
  | [] => ⟨d, [], none⟩
  | piece :: pieces =>
    match d.feed piece with
    | ⟨d, packets, some e⟩ => ⟨d, packets, some e⟩
    | ⟨d, packets, none⟩ =>
      let further := d.feedPieces pieces
      { further with packets := packets ++ further.packets }

/-! ### One byte at a time -/

/-- Everything a stream brings, up to its first error. -/
def State.run (max : Nat) : State → List UInt8 → State × List Packet × Option ProtocolError
  | s, [] => (s, [], none)
  | s, b :: bs =>
    match s.step max b with
    | (s, .ok none) => s.run max bs
    | (s, .ok (some p)) =>
      let (s, ps, e) := s.run max bs
      (s, p :: ps, e)
    | (s, .error e) => (s, [], some e)

@[simp] theorem State.run_nil (max : Nat) (s : State) : s.run max [] = (s, [], none) := rfl

/-- A stream that is cut: the second piece is looked at only if the first brought no error. -/
theorem State.run_append (max : Nat) (s : State) (as bs : List UInt8) :
    s.run max (as ++ bs) =
      match s.run max as with
      | (s, ps, some e) => (s, ps, some e)
      | (s, ps, none) => ((s.run max bs).1, ps ++ (s.run max bs).2.1, (s.run max bs).2.2) := by
  induction as generalizing s with
  | nil => rfl
  | cons a as ih =>
    simp only [List.cons_append, run]
    rcases s.step max a with ⟨s, e | _ | p⟩
    · rfl
    · exact ih s
    · simp only [ih s]
      rcases s.run max as with ⟨s, ps, _ | e⟩ <;> rfl

/-- A run is its first call, and then the run over what that call left. -/
theorem State.run_eq_next (max : Nat) (s : State) (bs : List UInt8) :
    s.run max bs =
      match s.next max bs with
      | (s, .error e, _) => (s, [], some e)
      | (s, .ok none, _) => (s, [], none)
      | (s, .ok (some p), rest) =>
        ((s.run max rest).1, p :: (s.run max rest).2.1, (s.run max rest).2.2) := by
  induction bs generalizing s with
  | nil => rfl
  | cons b bs ih =>
    simp only [run, next]
    rcases s.step max b with ⟨s, e | _ | p⟩
    · rfl
    · exact ih s
    · rfl

/-- A call without a packet or an error takes all bytes. -/
theorem State.next_rest_of_none {max : Nat} {s : State} {bs : List UInt8}
    (h : (s.next max bs).2.1 = .ok none) : (s.next max bs).2.2 = [] := by
  induction bs generalizing s with
  | nil => rfl
  | cons b bs ih =>
    simp only [next] at h ⊢
    rcases hs : s.step max b with ⟨s', e | _ | p⟩
    · simp [hs] at h
    · simp only [hs] at h
      exact ih h
    · simp [hs] at h

/-- A call that brings a packet takes at least one byte. -/
theorem next_length_lt {d d' : Decoder} {bs rest : List UInt8} {packet : Packet}
    (h : d.next bs = (d', .ok (some packet), rest)) : rest.length < bs.length := by
  have hlt := @State.next_length_lt d.maxPacketSize d.state bs
  simp only [next, Prod.mk.injEq] at h
  obtain ⟨-, hyield, hrest⟩ := h
  rw [← hrest]
  exact hlt (by simp [hyield])

/-- Offering bytes again and again brings what the stream brings byte by byte. -/
theorem feed_eq_run (d : Decoder) (bs : List UInt8) :
    d.feed bs = ⟨{ d with state := (d.state.run d.maxPacketSize bs).1 },
      (d.state.run d.maxPacketSize bs).2.1, (d.state.run d.maxPacketSize bs).2.2⟩ := by
  induction hn : bs.length using Nat.strongRecOn generalizing d bs with
  | ind n ih =>
    subst hn
    rw [feed, State.run_eq_next]
    unfold next
    have hlt := @State.next_length_lt d.maxPacketSize d.state bs
    have hall := @State.next_rest_of_none d.maxPacketSize d.state bs
    rcases hnext : d.state.next d.maxPacketSize bs with ⟨s, e | _ | p, rest⟩
    · rfl
    · have hnil : rest = [] := by simpa [hnext] using hall
      simp [hnil]
    · rw [hnext] at hlt
      have hrest : rest.length < bs.length := hlt (by simp)
      dsimp only
      split
      · rw [ih rest.length hrest _ _ rfl]
        rfl
      · next hstop =>
        have hnil : rest = [] := by simpa [hrest] using hstop
        simp [hnil]

theorem feed_append (d : Decoder) (as bs : List UInt8) :
    d.feed (as ++ bs) =
      match d.feed as with
      | ⟨d, ps, some e⟩ => ⟨d, ps, some e⟩
      | ⟨d, ps, none⟩ => { d.feed bs with packets := ps ++ (d.feed bs).packets } := by
  simp only [feed_eq_run, State.run_append]
  rcases d.state.run d.maxPacketSize as with ⟨s, ps, _ | e⟩ <;> rfl

theorem feedPieces_eq_feed (d : Decoder) (pieces : List (List UInt8)) :
    d.feedPieces pieces = d.feed pieces.flatten := by
  induction pieces generalizing d with
  | nil => simp [feedPieces, feed_eq_run]
  | cons piece pieces ih =>
    rw [List.flatten_cons, feed_append, feedPieces]
    rcases d.feed piece with ⟨d, ps, _ | e⟩
    · simp only [ih]
    · rfl

/-- A packet or an error at the front of a buffer is the same whatever follows it. -/
theorem decodePacket_append (as bs : List UInt8) :
    decodePacket as = .ok none ∨ decodePacket (as ++ bs) = decodePacket as := by
  have hlt := @State.next_length_lt 0 (.header .start) as
  simp only [decodePacket, next, new, State.next_append 0 _ as bs]
  rcases hnext : State.next 0 (.header .start) as with ⟨s, e | _ | p, rest⟩
  · exact .inr rfl
  · exact .inl rfl
  · right
    rw [hnext] at hlt
    have : rest.length < as.length := hlt (by simp)
    simp only [List.length_append]
    congr 3
    omega

end Mqtt.Decoder
