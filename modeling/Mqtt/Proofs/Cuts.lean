import Mqtt.Proofs.Progress

/-!
# Cuts do not show: `PacketDecoder::decode`, `handle_bytes`

What comes of a stream does not depend on how it is cut, and it makes no difference how a decoder takes its bytes.
`Decoder.feedPieces_flatten` says so of the decoder (`PacketDecoder::decode`, offered again what it left of a piece),
and `handlePieces_flatten` of both sides of a connection (`Connection::handle_bytes`, `ClientProtocol::handle_bytes`,
given one piece after the other). Both say it of the decoder that takes its bytes one by one and of the one that is
handed buffers (`Buffered.Packets`): the latter is never out of range, and tells the same of where it stands.

Both sides have the same loop. `Side` is what they do differently, and `Side.pieces_answers` is about all sides.
-/

namespace Mqtt

open Buffered (Checked Fault Packets)

/-! ### Where a decoder stands -/

namespace Buffered.Packets

/-- The decoder is between two packets (`PacketDecoder::is_idle`). -/
def isIdle (d : Packets) : Bool := d.body.isNone && d.header.first.isNone

/-- The header of the packet whose body is being read (`PacketDecoder::current_header`). -/
def currentHeader (d : Packets) : Option FixedHeader := d.body.map Body.header

/-- The decoder does what the other one does that is given its bytes one by one. -/
structure Follows (d : Packets) (d' : Decoder) : Prop where
  max : d.max = d'.maxPacketSize
  stands : d.Stands d'.state

theorem follows_new (max : Nat) : (new max).Follows (.new max) := ⟨rfl, .header rfl .start⟩

variable {d : Packets} {d' : Decoder}

theorem Follows.isIdle_eq (h : d.Follows d') : d.isIdle = d'.isIdle := by
  obtain ⟨max, s⟩ := d'
  obtain ⟨-, hstands⟩ := h
  unfold isIdle Decoder.isIdle
  cases hstands with
  | header hbody hheader =>
    rw [hbody]
    generalize d.header = header at hheader
    cases hheader <;> rfl
  | body hbody =>
    rw [hbody]
    rfl

theorem Follows.currentHeader_eq (h : d.Follows d') : d.currentHeader = d'.currentHeader := by
  obtain ⟨max, s⟩ := d'
  obtain ⟨-, hstands⟩ := h
  unfold currentHeader Decoder.currentHeader
  cases hstands with
  | header hbody hheader =>
    rw [hbody]
    rfl
  | body hbody =>
    rw [hbody]
    rfl

/-! ### A call -/

/-- What a call on a buffer answers, and where it comes to. -/
inductive Answered (d : Packets) (d' : Decoder) (buf : List UInt8) (pos : Nat) : Prop
  | brings {after : Packets} {s : Decoder.State} {packet : Option Packet} {consumed : Nat} :
      d'.state.next d'.maxPacketSize (buf.drop pos) = (s, .ok packet, buf.drop (pos + consumed)) →
      d.decode (buf.drop pos) = .ok (⟨consumed, packet⟩, after) → after.Follows ⟨d'.maxPacketSize, s⟩ →
      pos + consumed ≤ buf.length → (packet = none → pos + consumed = buf.length) → (packet ≠ none → 0 < consumed) →
      Answered d d' buf pos
  | refused {s : Decoder.State} {e : ProtocolError} {rest : List UInt8} :
      d'.state.next d'.maxPacketSize (buf.drop pos) = (s, .error e, rest) →
      d.decode (buf.drop pos) = .error (.refused e) → Answered d d' buf pos

theorem Follows.answered (h : d.Follows d') {buf : List UInt8} {pos : Nat} (hpos : pos ≤ buf.length) :
    Answered d d' buf pos := by
  obtain ⟨hmax, hstands⟩ := h
  have hcall := decode_call hstands (buf.drop pos)
  rw [hmax] at hcall
  cases hcall with
  | @brings s packet rest after hnext hlimit hafter hout =>
    obtain ⟨pos', hthere, hle, hrest, hnone, hsome⟩ := Decoder.State.next_drop hpos hnext
    refine .brings (s := s) ?_ hout ⟨hlimit, hafter⟩ (hthere ▸ hle) (fun hp => hthere ▸ hnone (congrArg _ hp))
      (fun hp => ?_)
    · rw [hnext, hthere, hrest]
    · have hlt := hsome (fun hok => hp (Except.ok.inj hok))
      omega
  | @refused e herror hout =>
    rcases hnext : d'.state.next d'.maxPacketSize (buf.drop pos) with ⟨s, y, rest⟩
    rw [hnext] at herror
    obtain rfl : y = .error e := herror
    exact .refused hnext hout

/-! ### Streams -/

/-- What came of offering buffers: the decoder after them, the packets in order, and the error that ended the
stream, if one did. -/
structure Fed where
  decoder : Packets
  packets : List Packet
  error : Option ProtocolError

/-- Offer a buffer again and again, each time what the last call left, until it is used up. A call that takes no byte
ends the offering as well. -/
def feed (d : Packets) (buf : List UInt8) : Checked Fed :=
  match d.decode buf with
  | .error (.refused e) => .ok ⟨d, [], some e⟩
  | .error fault => .error fault
  | .ok (progress, d) =>
    if buf.length < progress.consumed then .error .outOfRange
    else if _h : 0 < progress.consumed ∧ buf.drop progress.consumed ≠ [] then
      match d.feed (buf.drop progress.consumed) with
      | .ok further => .ok { further with packets := progress.value.toList ++ further.packets }
      | .error fault => .error fault
    else .ok ⟨d, progress.value.toList, none⟩
termination_by buf.length
decreasing_by
  have hleft := List.length_pos_of_ne_nil _h.2
  rw [List.length_drop] at hleft ⊢
  omega

/-- Offer one piece after the other; an error ends the stream. -/
def feedPieces (d : Packets) : List (List UInt8) → Checked Fed
  | [] => .ok ⟨d, [], none⟩
  | piece :: pieces =>
    match d.feed piece with
    | .error fault => .error fault
    | .ok ⟨d, packets, some e⟩ => .ok ⟨d, packets, some e⟩
    | .ok ⟨d, packets, none⟩ =>
      match d.feedPieces pieces with
      | .ok further => .ok { further with packets := packets ++ further.packets }
      | .error fault => .error fault

/-- The first packet of a buffer and how many bytes it takes (`decode_packet`). -/
def decodePacket (buf : List UInt8) : Checked (Option (Packet × Nat)) :=
  match (new 0).decode buf with
  | .ok (progress, _) => .ok (progress.value.map (·, progress.consumed))
  | .error fault => .error fault

/-- The same is told: the packets, the error, and if there is none where the decoder stands. -/
structure Fed.Tells (fed : Fed) (fed' : Decoder.Fed) : Prop where
  packets : fed.packets = fed'.packets
  error : fed.error = fed'.error
  follows : fed'.error = none → fed.decoder.Follows fed'.decoder

variable {buf : List UInt8}

/-- A stream that is offered again and again brings the same, and nothing is out of range. -/
theorem Follows.feed (h : d.Follows d') (buf : List UInt8) : ∃ fed, d.feed buf = .ok fed ∧ fed.Tells (d'.feed buf) := by
  induction hn : buf.length using Nat.strongRecOn generalizing d d' buf with
  | ind n ih =>
    subst hn
    rw [Packets.feed, Decoder.feed, Decoder.next]
    cases h.answered (Nat.zero_le buf.length) with
    | refused hnext hout =>
      rw [List.drop_zero] at hnext hout
      rw [hnext, hout]
      exact ⟨_, rfl, rfl, rfl, fun herror => by cases herror⟩
    | @brings after s packet consumed hnext hout hafter hle hnone hsome =>
      rw [Nat.zero_add] at hnext hle hnone
      rw [List.drop_zero] at hnext hout
      rw [hnext, hout]
      dsimp only
      have hlength : (buf.drop consumed).length = buf.length - consumed := List.length_drop
      rw [if_neg (Nat.not_lt.2 hle)]
      by_cases hmore : 0 < consumed ∧ buf.drop consumed ≠ []
      · have hlt : (buf.drop consumed).length < buf.length := by
          have hleft := List.length_pos_of_ne_nil hmore.2
          omega
        obtain ⟨fed, hfed, htells⟩ := ih _ hlt hafter _ rfl
        rw [dif_pos hmore, dif_pos ⟨hlt, hmore.2⟩, hfed]
        exact ⟨_, rfl, congrArg (packet.toList ++ ·) htells.packets, htells.error, htells.follows⟩
      · have hend : ¬((buf.drop consumed).length < buf.length ∧ buf.drop consumed ≠ []) := fun hlt =>
          hmore ⟨by omega, hlt.2⟩
        rw [dif_neg hmore, dif_neg hend]
        exact ⟨_, rfl, rfl, rfl, fun _ => hafter⟩

theorem Follows.feedPieces (h : d.Follows d') (pieces : List (List UInt8)) :
    ∃ fed, d.feedPieces pieces = .ok fed ∧ fed.Tells (d'.feedPieces pieces) := by
  induction pieces generalizing d d' with
  | nil => exact ⟨_, rfl, rfl, rfl, fun _ => h⟩
  | cons piece pieces ih =>
    rw [Packets.feedPieces, Decoder.feedPieces]
    obtain ⟨⟨after, packets, error⟩, hfed, hpackets, herror, hfollows⟩ := h.feed piece
    generalize d'.feed piece = fed' at hpackets herror hfollows
    obtain ⟨after', packets', error'⟩ := fed'
    dsimp only at hpackets herror hfollows
    subst hpackets herror
    rw [hfed]
    cases error with
    | some e => exact ⟨_, rfl, rfl, rfl, fun hnone => by cases hnone⟩
    | none =>
      obtain ⟨further, hfurther, htells⟩ := ih (hfollows rfl)
      dsimp only
      rw [hfurther]
      exact ⟨_, rfl, congrArg (packets ++ ·) htells.packets, htells.error, htells.follows⟩

/-- The first packet of a buffer is found as byte by byte. -/
theorem decodePacket_eq (buf : List UInt8) :
    decodePacket buf = match Decoder.decodePacket buf with
      | .ok packet => .ok packet
      | .error e => .error (.refused e) := by
  unfold decodePacket Decoder.decodePacket Decoder.next
  cases (follows_new 0).answered (Nat.zero_le buf.length) with
  | refused hnext hout =>
    rw [List.drop_zero] at hnext hout
    rw [hnext, hout]
  | @brings after s packet consumed hnext hout _ hle _ _ =>
    rw [Nat.zero_add] at hnext hle
    rw [List.drop_zero] at hnext hout
    rw [hnext, hout]
    have hconsumed : buf.length - (buf.drop consumed).length = consumed := by
      rw [List.length_drop]
      omega
    cases packet with
    | none => rfl
    | some packet =>
      dsimp only
      rw [hconsumed]
      rfl

end Buffered.Packets

namespace Decoder

/-- **The cuts of a stream do not show.** In whatever pieces a stream comes to a new decoder, empty
ones included, the packets, the first error, and where the decoder stands at the end are those of the
stream in one piece. So bytes behind a packet or an error change neither it nor how many bytes it
took. The decoder that is handed the pieces as buffers is never out of range and tells the same: the packets, the first
error, or else where it stands. -/
theorem feedPieces_flatten (maxPacketSize : Nat) (pieces : List (List UInt8)) :
    let whole := (new maxPacketSize).feed pieces.flatten
    ((new maxPacketSize).feedPieces pieces).packets = whole.packets ∧
      ((new maxPacketSize).feedPieces pieces).error = whole.error ∧
      ((new maxPacketSize).feedPieces pieces).decoder.isIdle = whole.decoder.isIdle ∧
      ((new maxPacketSize).feedPieces pieces).decoder.currentHeader = whole.decoder.currentHeader ∧
      (∀ as bs, decodePacket as = .ok none ∨ decodePacket (as ++ bs) = decodePacket as) ∧
      (∃ fed, (Packets.new maxPacketSize).feedPieces pieces = .ok fed ∧
        fed.packets = whole.packets ∧ fed.error = whole.error ∧
        (whole.error = none → fed.decoder.isIdle = whole.decoder.isIdle ∧
          fed.decoder.currentHeader = whole.decoder.currentHeader)) ∧
      ∀ buf, Packets.decodePacket buf = match decodePacket buf with
        | .ok packet => .ok packet
        | .error e => .error (.refused e) := by
  obtain ⟨fed, hfed, htells⟩ := (Packets.follows_new maxPacketSize).feedPieces pieces
  rw [feedPieces_eq_feed] at htells ⊢
  exact ⟨rfl, rfl, rfl, rfl, decodePacket_append,
    ⟨fed, hfed, htells.packets, htells.error, fun hnone =>
      ⟨(htells.follows hnone).isIdle_eq, (htells.follows hnone).currentHeader_eq⟩⟩, Packets.decodePacket_eq⟩

end Decoder

/-! ### Both sides of a connection -/

/-- What one side of a connection does with what its decoder brings. An error ends the connection. -/
structure Side (σ ε : Type) where
  isOpen : σ → Bool
  handle : σ → Packet → Except (ε × σ) σ
  refuse : σ → ProtocolError → ε × σ

namespace Side

variable {σ ε : Type} (side : Side σ ε)

/-- Take the bytes one by one, until the connection ends. -/
def receive (max : Nat) : Decoder.State → σ → List UInt8 → Option ε × σ × Decoder.State
  | s, x, [] => (none, x, s)
  | s, x, b :: bs =>
    if side.isOpen x then
      match s.step max b with
      | (s, .error e) => (some (side.refuse x e).1, (side.refuse x e).2, s)
      | (s, .ok none) => receive max s x bs
      | (s, .ok (some packet)) =>
        match side.handle x packet with
        | .error (e, x) => (some e, x, s)
        | .ok x => receive max s x bs
    else (none, x, s)

/-- Ask a decoder that is handed buffers for one packet after the other and handle each, in `n` passes at most. -/
def loop (n : Nat) (d : Packets) (x : σ) (buf : List UInt8) (pos : Nat) : Checked (Option ε × σ × Packets) :=
  if pos < buf.length ∧ side.isOpen x then
    match n with
    | 0 => .error .endless
    | n + 1 => do
      let bytes ← Buffered.from? buf pos
      match d.decode bytes with
      | .error (.refused e) => return (some (side.refuse x e).1, (side.refuse x e).2, d)
      | .error fault => throw fault
      | .ok (progress, d) =>
        match progress.value with
        | none => return (none, x, d)
        | some packet =>
          match side.handle x packet with
          | .error (e, x) => return (some e, x, d)
          | .ok x => loop n d x buf (pos + progress.consumed)
  else .ok (none, x, d)

/-- Hand over one piece after the other; what is left after an error is kept back. -/
def pieces (d : Packets) (x : σ) : List (List UInt8) → Checked (Option ε × σ × Packets)
  | [] => .ok (none, x, d)
  | piece :: further => do
    match ← side.loop piece.length d x piece 0 with
    | (some e, x, d) => return (some e, x, d)
    | (none, x, d) => pieces d x further

variable {side} {max : Nat} {s : Decoder.State} {x : σ}

theorem receive_of_closed (hx : side.isOpen x = false) (bs : List UInt8) :
    side.receive max s x bs = (none, x, s) := by
  cases bs with
  | nil => rfl
  | cons b bs => rw [receive, if_neg (by simp [hx])]

theorem receive_eq_next (hx : side.isOpen x = true) (bs : List UInt8) :
    side.receive max s x bs =
      match s.next max bs with
      | (s, .error e, _) => (some (side.refuse x e).1, (side.refuse x e).2, s)
      | (s, .ok none, _) => (none, x, s)
      | (s, .ok (some packet), rest) =>
        match side.handle x packet with
        | .error (e, x) => (some e, x, s)
        | .ok x => side.receive max s x rest := by
  induction bs generalizing s with
  | nil => rfl
  | cons b bs ih =>
    rw [receive, if_pos hx, Decoder.State.next]
    rcases s.step max b with ⟨s, e | _ | packet⟩
    · rfl
    · exact ih
    · rfl

theorem receive_append (as bs : List UInt8) :
    side.receive max s x (as ++ bs) =
      match side.receive max s x as with
      | (some e, x, s) => (some e, x, s)
      | (none, x, s) => side.receive max s x bs := by
  induction as generalizing s x with
  | nil => rfl
  | cons a as ih =>
    cases hx : side.isOpen x with
    | false =>
      rw [receive_of_closed hx, receive_of_closed hx]
      exact (receive_of_closed hx bs).symm
    | true =>
      rw [List.cons_append, receive, receive, if_pos hx, if_pos hx]
      rcases s.step max a with ⟨s, e | _ | packet⟩
      · rfl
      · exact ih
      · dsimp only
        rcases side.handle x packet with ⟨e, x⟩ | x
        · rfl
        · exact ih

/-- What a side did with buffers is what comes of the bytes one by one: nothing was out of range, the error and what
the side has become are the same, and without an error the decoder stands where the other one does. -/
def Answers (max : Nat) (out : Checked (Option ε × σ × Packets)) (result : Option ε × σ × Decoder.State) : Prop :=
  ∃ d, out = .ok (result.1, result.2.1, d) ∧ (result.1 = none → d.Follows ⟨max, result.2.2⟩)

theorem loop_answers {d : Packets} (hd : d.Follows ⟨max, s⟩) (x : σ) {n pos : Nat} {buf : List UInt8}
    (hpos : pos ≤ buf.length) (hn : buf.length ≤ pos + n) :
    Answers max (side.loop n d x buf pos) (side.receive max s x (buf.drop pos)) := by
  induction n generalizing d s x pos with
  | zero =>
    obtain rfl : pos = buf.length := by omega
    rw [List.drop_length]
    exact ⟨d, if_neg (fun h => Nat.lt_irrefl _ h.1), fun _ => hd⟩
  | succ n ih =>
    rw [loop]
    by_cases hx : side.isOpen x = true
    · by_cases hend : pos = buf.length
      · rw [if_neg (fun h => absurd hend (Nat.ne_of_lt h.1)), hend, List.drop_length]
        exact ⟨d, rfl, fun _ => hd⟩
      rw [if_pos ⟨by omega, hx⟩, Buffered.from?_of_le hpos, receive_eq_next hx]
      dsimp only [bind, Except.bind]
      cases hd.answered hpos with
      | refused hnext hout =>
        dsimp only at hnext
        rw [hnext, hout]
        exact ⟨d, rfl, fun herror => by cases herror⟩
      | @brings after s' packet consumed hnext hout hafter hle hnone hsome =>
        dsimp only at hnext
        rw [hnext, hout]
        cases packet with
        | none => exact ⟨after, rfl, fun _ => hafter⟩
        | some packet =>
          dsimp only
          rcases side.handle x packet with ⟨e, x⟩ | x
          · exact ⟨after, rfl, fun herror => by cases herror⟩
          · have htook : 0 < consumed := hsome (by simp)
            exact ih hafter x hle (by omega)
    · rw [if_neg (fun h => hx h.2), receive_of_closed (by simpa using hx)]
      exact ⟨d, rfl, fun _ => hd⟩

/-- **Buffers and cuts make no difference.** -/
theorem pieces_answers {d : Packets} (hd : d.Follows ⟨max, s⟩) (x : σ) (further : List (List UInt8)) :
    Answers max (side.pieces d x further) (side.receive max s x further.flatten) := by
  induction further generalizing d s x with
  | nil => exact ⟨d, rfl, fun _ => hd⟩
  | cons piece further ih =>
    have hanswers : Answers max (side.loop piece.length d x piece 0) (side.receive max s x (piece.drop 0)) :=
      loop_answers hd x (Nat.zero_le _) (by omega)
    obtain ⟨after, hloop, hafter⟩ := hanswers
    rw [List.drop_zero] at hloop hafter
    rw [pieces, List.flatten_cons, receive_append, hloop]
    dsimp only [bind, Except.bind]
    generalize side.receive max s x piece = result at hafter
    obtain ⟨_ | e, x, s⟩ := result
    · exact ih (hafter rfl) x
    · exact ⟨after, rfl, fun herror => by cases herror⟩

end Side

/-- What a connection does with what its decoder brings (`Connection::handle_packet`); what is to be delivered is
listed. -/
def Connection.side (now : Nat) : Side (Peer × Broker × Array Delivery) ProtocolError where
  isOpen := fun (p, _, _) => !p.isClosed
  refuse := fun (p, b, ds) e => (e, { p with isClosed := true }, b, ds)
  handle := fun (p, b, ds) packet =>
    match Peer.handle { p with keepAlive := p.keepAlive.restart now } b now packet with
    | .error r =>
      let (p, ds) := r.handled.peer.distribute ds r.handled.output
      .error (r.error, { p with isClosed := true }, r.handled.broker, ds)
    | .ok handled =>
      let (p, ds) := handled.peer.distribute ds handled.output
      .ok (p, handled.broker, ds)

theorem Connection.receive_side (now max : Nat) (s : Decoder.State) (p : Peer) (b : Broker) (ds : Array Delivery)
    (bytes : List UInt8) :
    let r := receive now max s p b ds bytes
    ∃ after, r.connection.decoder = ⟨max, after⟩ ∧
      (side now).receive max s (p, b, ds) bytes = (r.error, (r.connection.peer, r.broker, r.deliveries), after) := by
  induction bytes generalizing s p b ds with
  | nil => exact ⟨_, rfl, rfl⟩
  | cons byte bytes ih =>
    cases hp : p.isClosed with
    | true =>
      rw [receive_of_closed hp, Side.receive_of_closed (show (side now).isOpen (p, b, ds) = false by simp [side, hp])]
      exact ⟨_, rfl, rfl⟩
    | false =>
      rw [receive, if_neg (by simp [hp]), Side.receive, if_pos (by simp [side, hp])]
      rcases s.step max byte with ⟨s, e | _ | packet⟩
      · exact ⟨_, rfl, rfl⟩
      · exact ih s p b ds
      · unfold side
        dsimp only
        rcases Peer.handle { p with keepAlive := p.keepAlive.restart now } b now packet with r | handled
        · exact ⟨_, rfl, rfl⟩
        · exact ih s _ _ _

/-- What a client does with what its decoder brings (`ClientProtocol::handle_packet`). -/
def Client.Protocol.side (now : Nat) : Side Link Error where
  isOpen := fun l => l.state ≠ .disconnected
  refuse := fun l e => (.protocol e, l.close (some e.message))
  handle := fun l packet =>
    match Link.handle { l with keepAlive := l.keepAlive.restart now } now packet with
    | .error r => .error (r.error, r.close)
    | .ok l => .ok l

theorem Client.Protocol.receive_side (now max : Nat) (s : Decoder.State) (l : Link) (bytes : List UInt8) :
    let r := receive now max s l bytes
    ∃ after, r.2.decoder = ⟨max, after⟩ ∧
      (side now).receive max s l bytes
        = (match r.1 with | .ok () => none | .error e => some e, r.2.link, after) := by
  induction bytes generalizing s l with
  | nil => exact ⟨_, rfl, rfl⟩
  | cons byte bytes ih =>
    by_cases hl : l.state = .disconnected
    · rw [receive_of_disconnected hl, Side.receive_of_closed (show (side now).isOpen l = false by simp [side, hl])]
      exact ⟨_, rfl, rfl⟩
    · rw [receive, if_neg hl, Side.receive, if_pos (by simp [side, hl])]
      rcases s.step max byte with ⟨s, e | _ | packet⟩
      · exact ⟨_, rfl, rfl⟩
      · exact ih s l
      · unfold side
        dsimp only
        rcases Link.handle { l with keepAlive := l.keepAlive.restart now } now packet with r | l
        · exact ⟨_, rfl, rfl⟩
        · exact ih s l

/-- **The cuts do not show.** From any state, handing bytes over in any pieces until the first error comes to
all the same as handing them over whole: error or success, the connection with everything it holds, the broker
and the list of deliveries. Asking the decoder for one packet after the other and dropping the rest when it has
none drops nothing. What follows an error or the end of the connection has no effect. All of it holds of a
client as well, with its handshakes, its output and its events. With a decoder that is handed the pieces as buffers
nothing is out of range, and both sides come to the same: its decoder stands where the other one does. -/
theorem handlePieces_flatten :
    (∀ (c : Connection) (b : Broker) (now : Nat) (pieces : List (List UInt8)),
      c.handlePieces b now pieces = c.handleBytes b now pieces.flatten) ∧
    (∀ (c : Connection) (b : Broker) (now : Nat) (bs : List UInt8),
      c.handleCalls b now #[] bs = c.handleBytes b now bs) ∧
    (∀ (c : Connection) (b : Broker) (now : Nat) (as bs : List UInt8),
      c.handleBytes b now (as ++ bs) =
        let r := c.handleBytes b now as
        if r.error.isSome || r.connection.isClosed then r
        else
          let r' := r.connection.handleBytes r.broker now bs
          { r' with deliveries := r.deliveries ++ r'.deliveries }) ∧
    (∀ (c : Client.Protocol) (now : Nat) (pieces : List (List UInt8)),
      c.handlePieces now pieces = c.handleBytes now pieces.flatten) ∧
    (∀ (c : Client.Protocol) (now : Nat) (bs : List UInt8), c.handleCalls now bs = c.handleBytes now bs) ∧
    (∀ (c : Client.Protocol) (now : Nat) (as bs : List UInt8),
      c.handleBytes now (as ++ bs) =
        match c.handleBytes now as with
        | (.error e, c) => (.error e, c)
        | (.ok (), c) => if c.state = .disconnected then (.ok (), c) else c.handleBytes now bs) ∧
    (∀ (c : Connection) (b : Broker) (now : Nat) (d : Packets) (pieces : List (List UInt8)), d.Follows c.decoder →
      let r := c.handleBytes b now pieces.flatten
      ∃ after, (Connection.side now).pieces d (c.peer, b, #[]) pieces
          = .ok (r.error, (r.connection.peer, r.broker, r.deliveries), after) ∧
        (r.error = none → after.Follows r.connection.decoder ∧ after.isIdle = r.connection.decoder.isIdle ∧
          after.currentHeader = r.connection.decoder.currentHeader)) ∧
    ∀ (c : Client.Protocol) (now : Nat) (d : Packets) (pieces : List (List UInt8)), d.Follows c.decoder →
      let r := c.handleBytes now pieces.flatten
      ∃ after, (Client.Protocol.side now).pieces d c.link pieces
          = .ok (match r.1 with | .ok () => none | .error e => some e, r.2.link, after) ∧
        (r.1 = .ok () → after.Follows r.2.decoder ∧ after.isIdle = r.2.decoder.isIdle ∧
          after.currentHeader = r.2.decoder.currentHeader) := by
  refine ⟨Connection.handlePieces_eq_handleBytes,
    fun c b now bs => c.handleCalls_eq_receive b now #[] bs, fun c b now as bs => ?_,
    Client.Protocol.handlePieces_eq_handleBytes, Client.Protocol.handleCalls_eq_handleBytes,
    fun c now as bs => ?_, fun c b now d pieces hd => ?_, fun c now d pieces hd => ?_⟩
  · rw [Connection.handleBytes_append]
    dsimp only
    by_cases herror : (c.handleBytes b now as).error.isSome = true
    · have hclosed : (c.handleBytes b now as).connection.isClosed = true :=
        Connection.isClosed_of_error herror
      rw [if_pos hclosed, if_pos (by simp [hclosed])]
    · rw [Bool.not_eq_true] at herror
      rw [herror, Bool.false_or]
  · rw [Client.Protocol.handleBytes_append]
    rcases c.handleBytes now as with ⟨e | _, c⟩
    · rfl
    · dsimp only
      split
      · next hc => exact Client.Protocol.receive_of_disconnected hc now _ _ bs
      · rfl
  · obtain ⟨after, hout, hafter⟩ := Side.pieces_answers hd (c.peer, b, #[]) pieces
    obtain ⟨s, hdecoder, hside⟩ := Connection.receive_side now c.decoder.maxPacketSize c.decoder.state c.peer b #[]
      pieces.flatten
    rw [hside] at hout hafter
    refine ⟨after, hout, fun hnone => ?_⟩
    have hfollows : after.Follows (c.handleBytes b now pieces.flatten).connection.decoder :=
      hdecoder ▸ hafter hnone
    exact ⟨hfollows, hfollows.isIdle_eq, hfollows.currentHeader_eq⟩
  · obtain ⟨after, hout, hafter⟩ := Side.pieces_answers hd c.link pieces
    obtain ⟨s, hdecoder, hside⟩ := Client.Protocol.receive_side now c.decoder.maxPacketSize c.decoder.state c.link
      pieces.flatten
    rw [hside] at hout hafter
    refine ⟨after, hout, fun hok => ?_⟩
    have hnone : (Client.Protocol.receive now c.decoder.maxPacketSize c.decoder.state c.link pieces.flatten).1
        = .ok () := hok
    have hfollows : after.Follows (c.handleBytes now pieces.flatten).2.decoder :=
      hdecoder ▸ hafter (by rw [hnone])
    exact ⟨hfollows, hfollows.isIdle_eq, hfollows.currentHeader_eq⟩

/-- A CONNECT as "c" and the beginning of a PUBLISH, in four pieces of which one is empty. -/
def scattered : List (List UInt8) :=
  [[0x10, 13, 0], [], [4, 77, 81, 84, 84, 4, 2, 0, 0, 0, 1, 99, 0x30], [5, 0]]

/-- Whichever decoder is given the pieces, it waits for the rest of the PUBLISH. -/
theorem handlePieces_flatten_scattered :
    let c := Connection.new 2 {} 0
    let d := Packets.new c.decoder.maxPacketSize
    d.Follows c.decoder ∧ ∃ x after,
      (Connection.side 0).pieces d (c.peer, .new {}, #[]) scattered = .ok (none, x, after) ∧
      after.isIdle = false ∧ after.currentHeader = some ⟨.publish, 0, 5⟩ := by
  intro c d
  have hfollows : d.Follows c.decoder := Packets.follows_new _
  obtain ⟨-, -, -, -, -, -, hbuffers, -⟩ := handlePieces_flatten
  obtain ⟨after, hout, hafter⟩ := hbuffers c (.new {}) 0 d scattered hfollows
  have hnone : (c.handleBytes (.new {}) 0 scattered.flatten).error = none := by decide +kernel
  obtain ⟨-, hidle, hheader⟩ := hafter hnone
  rw [hnone] at hout
  refine ⟨hfollows, _, after, hout, hidle.trans ?_, hheader.trans ?_⟩
  · decide +kernel
  · decide +kernel

end Mqtt
