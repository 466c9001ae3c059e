import Mqtt.Proofs.Hearing
import Mqtt.Proofs.Ownership
import Mqtt.Proofs.StreamCuts

/-!
# Cutting what a connection is given: `handle_bytes`

Whoever reads a socket hands on what has come, in pieces of any size, until an error ends the connection.
Both sides ask their decoder for one packet after the other and drop the rest of a piece when it has none
(`handleCalls`). Nothing is lost by that (`handleCalls_eq_receive`), and the cuts do not show
(`handlePieces_eq_handleBytes`): the outcome, the connection with its timer and its output, the broker and the
deliveries are those of the bytes in one piece, and the same holds of a client with its open handshakes and its
events.
-/

namespace Mqtt

/-! ### Connections -/

namespace Connection

/-- Hand over one piece after the other; what is left after an error is kept back. -/
def handlePieces (c : Connection) (b : Broker) (now : Nat) : List (List UInt8) → Received
  | [] => ⟨c, b, #[], none⟩
  | piece :: pieces =>
    let r := c.handleBytes b now piece
    if r.error.isSome then r
    else
      let further := r.connection.handlePieces r.broker now pieces
      { further with deliveries := r.deliveries ++ further.deliveries }

/-- Ask the decoder for one packet after the other and handle each. When it has none the rest of the bytes is
dropped. -/
def handleCalls (c : Connection) (b : Broker) (now : Nat) (ds : Array Delivery) (bs : List UInt8) : Received :=
  if bs = [] ∨ c.isClosed then ⟨c, b, ds, none⟩
  else match _h : c.decoder.next bs with
    | (d, .error e, _) => ⟨⟨{ c.peer with isClosed := true }, d⟩, b, ds, some e⟩
    | (d, .ok none, _) => ⟨⟨c.peer, d⟩, b, ds, none⟩
    | (d, .ok (some packet), rest) =>
      let p := { c.peer with keepAlive := c.peer.keepAlive.restart now }
      match p.handle b now packet with
      | .error r =>
        let (p, ds) := r.handled.peer.distribute ds r.handled.output
        ⟨⟨{ p with isClosed := true }, d⟩, r.handled.broker, ds, some r.error⟩
      | .ok handled =>
        let (p, ds) := handled.peer.distribute ds handled.output
        handleCalls ⟨p, d⟩ handled.broker now ds rest
termination_by bs.length
decreasing_by exact Decoder.next_length_lt _h

variable {now max : Nat} {s : Decoder.State} {p : Peer} {b : Broker} {ds : Array Delivery}

/-- Bytes up to the first packet or error, and then what is left of them. -/
theorem receive_eq_next (hp : p.isClosed = false) (bs : List UInt8) :
    receive now max s p b ds bs =
      match s.next max bs with
      | (s, .error e, _) => ⟨⟨{ p with isClosed := true }, ⟨max, s⟩⟩, b, ds, some e⟩
      | (s, .ok none, _) => ⟨⟨p, ⟨max, s⟩⟩, b, ds, none⟩
      | (s, .ok (some packet), rest) =>
        let p := { p with keepAlive := p.keepAlive.restart now }
        match p.handle b now packet with
        | .error r =>
          let (p, ds) := r.handled.peer.distribute ds r.handled.output
          ⟨⟨{ p with isClosed := true }, ⟨max, s⟩⟩, r.handled.broker, ds, some r.error⟩
        | .ok handled =>
          let (p, ds) := handled.peer.distribute ds handled.output
          receive now max s p handled.broker ds rest := by
  induction bs generalizing s with
  | nil => rfl
  | cons byte bs ih =>
    rw [receive, if_neg (by simp [hp]), Decoder.State.next]
    rcases s.step max byte with ⟨s, e | _ | packet⟩
    · rfl
    · exact ih
    · rfl

/-- **No byte is dropped unread.** Asking the decoder for packets until it has none comes to the same as
reading byte by byte. -/
theorem handleCalls_eq_receive (c : Connection) (b : Broker) (now : Nat) (ds : Array Delivery)
    (bs : List UInt8) :
    c.handleCalls b now ds bs = receive now c.decoder.maxPacketSize c.decoder.state c.peer b ds bs := by
  induction hn : bs.length using Nat.strongRecOn generalizing c b ds bs with
  | ind n ih =>
    subst hn
    rw [handleCalls]
    by_cases hc : c.peer.isClosed = true
    · rw [if_pos (.inr hc), receive_of_closed hc]
    by_cases hbs : bs = []
    · rw [if_pos (.inl hbs), hbs]
      rfl
    rw [if_neg (by simpa [hbs, isClosed] using hc), receive_eq_next (by simpa using hc)]
    have hlt := @Decoder.State.next_length_lt c.decoder.maxPacketSize c.decoder.state bs
    unfold Decoder.next
    rcases hnext : c.decoder.state.next c.decoder.maxPacketSize bs with ⟨s, e | _ | packet, rest⟩
    · rfl
    · rfl
    · rw [hnext] at hlt
      dsimp only
      rcases Peer.handle { c.peer with keepAlive := c.peer.keepAlive.restart now } b now packet with r | handled
      · rfl
      · exact ih rest.length (hlt (by simp)) _ _ _ _ rfl

/-- What is to be delivered is listed behind what was to be delivered before. -/
theorem receive_behind (now max : Nat) (s : Decoder.State) (p : Peer) (b : Broker) (ds ds' : Array Delivery)
    (bs : List UInt8) :
    receive now max s p b (ds ++ ds') bs =
      { receive now max s p b ds' bs with
        deliveries := ds ++ (receive now max s p b ds' bs).deliveries } := by
  induction s, p, b, bs using bytes_induction now max generalizing ds' with
  | nil s p b => rfl
  | closed s p b bs hclosed => rw [receive_of_closed hclosed, receive_of_closed hclosed]
  | broken s p b byte bs s' e hopen hstep => rw [receive_cons_error hopen hstep, receive_cons_error hopen hstep]
  | more s p b byte bs s' hopen hstep ih =>
    rw [receive_cons_none hopen hstep, receive_cons_none hopen hstep]
    exact ih ds'
  | refused s p b byte bs s' packet r hopen hstep hh =>
    rw [receive_cons_refused hopen hstep hh, receive_cons_refused hopen hstep hh]
  | handled s p b byte bs s' packet h hopen hstep hh ih =>
    rw [receive_cons_handled hopen hstep hh, receive_cons_handled hopen hstep hh, Array.append_assoc]
    exact ih _

/-- What comes of two pieces: the second is looked at only if the first left the connection open. -/
theorem receive_append (now max : Nat) (s : Decoder.State) (p : Peer) (b : Broker) (ds : Array Delivery)
    (as bs : List UInt8) :
    receive now max s p b ds (as ++ bs) =
      let r := receive now max s p b ds as
      if r.connection.isClosed then r
      else receive now r.connection.decoder.maxPacketSize r.connection.decoder.state r.connection.peer
        r.broker r.deliveries bs := by
  induction s, p, b, as using bytes_induction now max generalizing ds with
  | nil s p b =>
    by_cases hp : p.isClosed = true
    · simp [receive, isClosed, hp, receive_of_closed hp]
    · simp [receive, isClosed, hp]
  | closed s p b as hclosed =>
    rw [receive_of_closed hclosed, receive_of_closed hclosed]
    exact (if_pos hclosed).symm
  | broken s p b byte as s' e hopen hstep =>
    rw [List.cons_append, receive_cons_error hopen hstep, receive_cons_error hopen hstep]
    rfl
  | more s p b byte as s' hopen hstep ih =>
    rw [List.cons_append, receive_cons_none hopen hstep, receive_cons_none hopen hstep]
    exact ih ds
  | refused s p b byte as s' packet r hopen hstep hh =>
    rw [List.cons_append, receive_cons_refused hopen hstep hh, receive_cons_refused hopen hstep hh]
    exact (if_pos (Peer.closeOn_isClosed _ r)).symm
  | handled s p b byte as s' packet h hopen hstep hh ih =>
    rw [List.cons_append, receive_cons_handled hopen hstep hh, receive_cons_handled hopen hstep hh]
    exact ih _

/-- What is handled is the first piece, and then the second if the connection is still open. -/
theorem handleBytes_append (c : Connection) (b : Broker) (now : Nat) (as bs : List UInt8) :
    c.handleBytes b now (as ++ bs) =
      let r := c.handleBytes b now as
      if r.connection.isClosed then r
      else
        let r' := r.connection.handleBytes r.broker now bs
        { r' with deliveries := r.deliveries ++ r'.deliveries } := by
  have hbehind (r : Received) := receive_behind now r.connection.decoder.maxPacketSize
    r.connection.decoder.state r.connection.peer r.broker r.deliveries #[] bs
  simp only [Array.append_empty] at hbehind
  have happend := receive_append now c.decoder.maxPacketSize c.decoder.state c.peer b #[] as bs
  dsimp only at happend
  rw [hbehind] at happend
  exact happend

/-- An error closes the connection. -/
theorem isClosed_of_error {now max : Nat} {s : Decoder.State} {p : Peer} {b : Broker} {ds : Array Delivery}
    {bs : List UInt8} (h : (receive now max s p b ds bs).error.isSome = true) :
    (receive now max s p b ds bs).connection.isClosed = true := by
  induction s, p, b, bs using bytes_induction now max generalizing ds with
  | nil s p b => cases h
  | closed s p b bs hclosed =>
    rw [receive_of_closed hclosed]
    exact hclosed
  | broken s p b byte bs s' e hopen hstep =>
    rw [receive_cons_error hopen hstep]
    rfl
  | more s p b byte bs s' hopen hstep ih =>
    rw [receive_cons_none hopen hstep] at h ⊢
    exact ih h
  | refused s p b byte bs s' packet r hopen hstep hh =>
    rw [receive_cons_refused hopen hstep hh]
    exact Peer.closeOn_isClosed _ r
  | handled s p b byte bs s' packet handled hopen hstep hh ih =>
    rw [receive_cons_handled hopen hstep hh] at h ⊢
    exact ih h

/-- A closed connection is left as it is. -/
theorem handleBytes_of_closed {c : Connection} (hc : c.isClosed = true) (b : Broker) (now : Nat)
    (bs : List UInt8) : c.handleBytes b now bs = ⟨c, b, #[], none⟩ :=
  receive_of_closed hc now c.decoder.maxPacketSize c.decoder.state b #[] bs

/-- Pieces come to the same as the whole. -/
theorem handlePieces_eq_handleBytes (c : Connection) (b : Broker) (now : Nat) (pieces : List (List UInt8)) :
    c.handlePieces b now pieces = c.handleBytes b now pieces.flatten := by
  induction pieces generalizing c b with
  | nil => rfl
  | cons piece pieces ih =>
    rw [handlePieces, List.flatten_cons, handleBytes_append]
    dsimp only
    rw [ih]
    by_cases herror : (c.handleBytes b now piece).error.isSome = true
    · have hclosed : (c.handleBytes b now piece).connection.isClosed = true := isClosed_of_error herror
      rw [if_pos herror, if_pos hclosed]
    rw [if_neg herror]
    by_cases hclosed : (c.handleBytes b now piece).connection.isClosed = true
    · rw [if_pos hclosed, handleBytes_of_closed hclosed]
      have hnone : (c.handleBytes b now piece).error = none := by simpa using herror
      simp [← hnone]
    · rw [if_neg hclosed]

end Connection

/-! ### Clients -/

namespace Client.Protocol

/-- Hand over one piece after the other; what is left after an error is kept back. -/
def handlePieces (c : Protocol) (now : Nat) : List (List UInt8) → Except Error Unit × Protocol
  | [] => (.ok (), c)
  | piece :: pieces =>
    match c.handleBytes now piece with
    | (.error e, c) => (.error e, c)
    | (.ok (), c) => c.handlePieces now pieces

/-- Ask the decoder for one packet after the other and handle each. When it has none the rest of the bytes is
dropped. -/
def handleCalls (c : Protocol) (now : Nat) (bs : List UInt8) : Except Error Unit × Protocol :=
  if bs = [] ∨ c.state = .disconnected then (.ok (), c)
  else match _h : c.decoder.next bs with
    | (d, .error e, _) => (.error (.protocol e), ⟨c.link.close (some e.message), d⟩)
    | (d, .ok none, _) => (.ok (), ⟨c.link, d⟩)
    | (d, .ok (some packet), rest) =>
      let l := { c.link with keepAlive := c.link.keepAlive.restart now }
      match l.handle now packet with
      | .error r => (.error r.error, ⟨r.close, d⟩)
      | .ok l => handleCalls ⟨l, d⟩ now rest
termination_by bs.length
decreasing_by exact Decoder.next_length_lt _h

variable {now max : Nat} {s : Decoder.State} {l : Link}

/-- A client that is disconnected looks at nothing. -/
theorem receive_of_disconnected (hl : l.state = .disconnected) (now max : Nat) (s : Decoder.State)
    (bs : List UInt8) : receive now max s l bs = (.ok (), ⟨l, ⟨max, s⟩⟩) := by
  cases bs with
  | nil => rfl
  | cons b bs => rw [receive, if_pos hl]

/-- Bytes up to the first packet or error, and then what is left of them. -/
theorem receive_eq_next (hl : l.state ≠ .disconnected) (bs : List UInt8) :
    receive now max s l bs =
      match s.next max bs with
      | (s, .error e, _) => (.error (.protocol e), ⟨l.close (some e.message), ⟨max, s⟩⟩)
      | (s, .ok none, _) => (.ok (), ⟨l, ⟨max, s⟩⟩)
      | (s, .ok (some packet), rest) =>
        let l := { l with keepAlive := l.keepAlive.restart now }
        match l.handle now packet with
        | .error r => (.error r.error, ⟨r.close, ⟨max, s⟩⟩)
        | .ok l => receive now max s l rest := by
  induction bs generalizing s with
  | nil => rfl
  | cons byte bs ih =>
    rw [receive, if_neg hl, Decoder.State.next]
    rcases s.step max byte with ⟨s, e | _ | packet⟩
    · rfl
    · exact ih
    · rfl

/-- **No byte is dropped unread.** Asking the decoder for packets until it has none comes to the same as
reading byte by byte. -/
theorem handleCalls_eq_handleBytes (c : Protocol) (now : Nat) (bs : List UInt8) :
    c.handleCalls now bs = c.handleBytes now bs := by
  change _ = receive now c.decoder.maxPacketSize c.decoder.state c.link bs
  induction hn : bs.length using Nat.strongRecOn generalizing c bs with
  | ind n ih =>
    subst hn
    rw [handleCalls]
    by_cases hc : c.link.state = .disconnected
    · rw [if_pos (.inr hc), receive_of_disconnected hc]
    by_cases hbs : bs = []
    · rw [if_pos (.inl hbs), hbs]
      rfl
    rw [if_neg (by simpa [hbs, state] using hc), receive_eq_next hc]
    have hlt := @Decoder.State.next_length_lt c.decoder.maxPacketSize c.decoder.state bs
    unfold Decoder.next
    rcases hnext : c.decoder.state.next c.decoder.maxPacketSize bs with ⟨s, e | _ | packet, rest⟩
    · rfl
    · rfl
    · rw [hnext] at hlt
      dsimp only
      rcases Link.handle { c.link with keepAlive := c.link.keepAlive.restart now } now packet with r | l
      · rfl
      · exact ih rest.length (hlt (by simp)) _ _ rfl

/-- What is handled is the first piece, and then the second unless the first brought an error. -/
theorem handleBytes_append (c : Protocol) (now : Nat) (as bs : List UInt8) :
    c.handleBytes now (as ++ bs) =
      match c.handleBytes now as with
      | (.error e, c) => (.error e, c)
      | (.ok (), c) => c.handleBytes now bs := by
  obtain ⟨l, max, s⟩ := c
  have hbytes (c : Protocol) (bs : List UInt8) : c.handleBytes now bs
      = receive now c.decoder.maxPacketSize c.decoder.state c.link bs := rfl
  simp only [hbytes]
  induction as generalizing l s with
  | nil => rfl
  | cons a as ih =>
    rw [List.cons_append, receive, receive]
    by_cases hl : l.state = .disconnected
    · rw [if_pos hl, if_pos hl]
      exact (receive_of_disconnected hl now max s bs).symm
    rw [if_neg hl, if_neg hl]
    rcases s.step max a with ⟨s, e | _ | packet⟩
    · rfl
    · exact ih l s
    · dsimp only
      rcases Link.handle { l with keepAlive := l.keepAlive.restart now } now packet with r | l
      · rfl
      · exact ih l s

/-- An error ends the connection. -/
theorem state_of_error {c c' : Protocol} {now : Nat} {bs : List UInt8} {e : Error}
    (h : c.handleBytes now bs = (.error e, c')) : c'.state = .disconnected := by
  obtain ⟨l, max, s⟩ := c
  change receive now max s l bs = _ at h
  induction bs generalizing l s with
  | nil => cases h
  | cons byte bs ih =>
    rw [receive] at h
    by_cases hl : l.state = .disconnected
    · rw [if_pos hl] at h
      cases h
    rw [if_neg hl] at h
    revert h
    rcases s.step max byte with ⟨s, e | _ | packet⟩
    · rintro ⟨⟩
      rfl
    · exact ih l s
    · dsimp only
      rcases Link.handle { l with keepAlive := l.keepAlive.restart now } now packet with r | l
      · rintro ⟨⟩
        exact r.state_close
      · exact ih l s

/-- Pieces come to the same as the whole. -/
theorem handlePieces_eq_handleBytes (c : Protocol) (now : Nat) (pieces : List (List UInt8)) :
    c.handlePieces now pieces = c.handleBytes now pieces.flatten := by
  induction pieces generalizing c with
  | nil => rfl
  | cons piece pieces ih =>
    rw [handlePieces, List.flatten_cons, handleBytes_append]
    rcases c.handleBytes now piece with ⟨e | _, c⟩
    · rfl
    · exact ih c

end Client.Protocol

end Mqtt
