import Mqtt.Proofs.Ranges
import Mqtt.Proofs.Replies

/-!
# Framing and progress: `PacketDecoder::decode`

A call of the decoder takes all of a buffer or brings something, and a packet takes exactly the bytes that its fixed
header, as it is received, and the length in it announce. The bytes that were taken of the packet that is being read
say where the decoder stands (`Underway`), so this holds of every state that calls without an error lead to
(`Decoder.framing_exact`). The loops of both sides hand what a call left to the next one; since a call that leaves
something has brought a packet, and a packet takes a byte at least, they end with all bytes taken.
-/

namespace Mqtt

namespace Decoder

variable {max : Nat} {s : State} {bs rest : List UInt8}

/-! ### Bytes that are waiting -/

/-- A body waits if its reader does and not all of it has come. -/
theorem State.settle_none {h : FixedHeader} {left : Nat} {r : Reader Packet} (hs : settle h left r = (s, .ok none)) :
    s = .body h left r ∧ left ≠ 0 ∧ ∃ got n next, r = .more got n next := by
  cases r with
  | done p =>
    unfold settle at hs
    dsimp only at hs
    split at hs <;> cases hs
  | fail e => cases hs
  | more got n next =>
    unfold settle at hs
    dsimp only at hs
    split at hs
    · cases hs
    · next hleft =>
      cases hs
      exact ⟨rfl, hleft, got, n, next, rfl⟩

/-- Behind a fixed header the decoder waits for the body only as long as it is not whole. -/
theorem State.proceed_begin_none {h : FixedHeader} (hnext : proceed max (begin max h) bs = (s, .ok none, rest)) :
    (∃ left r, s = .body h left r) ∧ bs.length < h.remainingLength := by
  unfold begin at hnext
  dsimp only at hnext
  split at hnext
  · cases hnext
  split at hnext
  · next r _ =>
    rw [proceed_settle] at hnext
    dsimp only at hnext
    generalize hfed : r.feed (bs.take h.remainingLength) = fed at hnext
    obtain ⟨r', untaken⟩ := fed
    generalize hsettled : settle h (h.remainingLength - ((bs.take h.remainingLength).length - untaken.length)) r'
      = settled at hnext
    obtain ⟨s', y⟩ := settled
    simp only [Prod.mk.injEq] at hnext
    obtain ⟨rfl, rfl, -⟩ := hnext
    obtain ⟨rfl, hleft, got, n, next, rfl⟩ := settle_none hsettled
    obtain rfl := Reader.rest_eq_nil hfed
    refine ⟨⟨_, _, rfl⟩, ?_⟩
    rw [List.length_nil, List.length_take] at hleft
    omega
  · cases hnext

/-- Behind a first byte that names a kind of packet the decoder waits for the length. -/
theorem State.next_first (max : Nat) {b : UInt8} {t : PacketType} (hcode : PacketType.ofCode? (b.toNat / 16) = some t)
    (bs : List UInt8) : State.next max (.header .start) (b :: bs) =
      State.next max (.header (.length t (UInt8.ofNat (b.toNat % 16)) RemainingLength.reader)) bs := by
  rw [next_cons]
  unfold step FixedHeader.Progress.step
  dsimp only
  rw [hcode]
  rfl

theorem exists_reader_eq_more : ∃ got n next, RemainingLength.reader = .more got n next := ⟨_, _, _, rfl⟩

/-- A fixed header that is received begins the body that it announces. -/
theorem State.next_frame (max : Nat) (f : Frame) {t : PacketType}
    (hcode : PacketType.ofCode? (f.first.toNat / 16) = some t) (bs : List UInt8) :
    State.next max (.header .start) (f.bytes ++ bs) =
      proceed max (begin max ⟨t, UInt8.ofNat (f.first.toNat % 16), f.body.length⟩) (f.body ++ bs) := by
  have hread : RemainingLength.reader.feed (f.field ++ (f.body ++ bs)) = (.done f.body.length, f.body ++ bs) :=
    RemainingLength.reads_reader_iff.2 ⟨f.field, f.spells, rfl⟩
  obtain ⟨got, n, next, hmore⟩ := exists_reader_eq_more
  rw [Frame.bytes, List.cons_append, List.append_assoc, next_first max hcode]
  rw [hmore] at hread ⊢
  rw [next_length, hread]

/-- A decoder does not wait behind a first byte that names no kind of packet, and a byte of a packet is behind it as
long as it waits for the rest. -/
theorem State.next_cons_none {b : UInt8} (hnext : State.next max (.header .start) (b :: bs) = (s, .ok none, rest)) :
    (∃ t, PacketType.ofCode? (b.toNat / 16) = some t) ∧
      ((∃ t flags r, s = .header (.length t flags r)) ∨ ∃ h left r, s = .body h left r) := by
  cases hcode : PacketType.ofCode? (b.toNat / 16) with
  | none =>
    rw [next_cons] at hnext
    unfold step FixedHeader.Progress.step at hnext
    dsimp only at hnext
    rw [hcode] at hnext
    cases hnext
  | some t =>
    refine ⟨⟨t, rfl⟩, ?_⟩
    obtain ⟨got, n, next, hmore⟩ := exists_reader_eq_more
    rw [next_first max hcode, hmore, next_length] at hnext
    rcases hfeed : (Reader.more got n next).feed bs with ⟨length | e | ⟨got', n', next'⟩, rest'⟩ <;> rw [hfeed] at hnext
    · obtain ⟨left, r, hbody⟩ := (proceed_begin_none hnext).1
      exact .inr ⟨_, left, r, hbody⟩
    · cases hnext
    · cases hnext
      exact .inl ⟨_, _, _, rfl⟩

/-! ### Packets that are underway -/

/-- What was taken of the packet that is being read leads to where the decoder stands, and has brought nothing. -/
def Underway (d : Decoder) (taken : List UInt8) : Prop :=
  State.next d.maxPacketSize (.header .start) taken = (d.state, .ok none, [])

theorem underway_new (max : Nat) : (new max).Underway [] := rfl

variable {d d' : Decoder} {taken : List UInt8} {y : Yield}

/-- What a call brings is what comes of all that was taken, and then the buffer. -/
theorem Underway.next_eq (h : d.Underway taken) (hnext : d.next bs = (d', y, rest)) :
    State.next d.maxPacketSize (.header .start) (taken ++ bs) = (d'.state, y, rest) ∧
      d'.maxPacketSize = d.maxPacketSize := by
  obtain ⟨hstate, hd⟩ := state_next hnext
  refine ⟨?_, by rw [hd]⟩
  rw [State.next_append, h]
  exact hstate

/-- A call that brings nothing takes the whole buffer. -/
theorem Underway.of_none (h : d.Underway taken) (hnext : d.next bs = (d', .ok none, rest)) :
    rest = [] ∧ d'.Underway (taken ++ bs) := by
  obtain ⟨heq, hmax⟩ := h.next_eq hnext
  have hrest : rest = [] := by
    have hnone := @State.next_rest_of_none d.maxPacketSize (.header .start) (taken ++ bs)
    rw [heq] at hnone
    exact hnone rfl
  rw [Underway, hmax, heq, hrest]
  exact ⟨rfl, rfl⟩

/-- A whole packet is never waited for. -/
theorem Underway.not_whole (h : d.Underway taken) (hnext : d.next bs = (d', .ok none, rest)) (f : Frame) :
    ¬ f.bytes <+: taken ++ bs := by
  rintro ⟨tail, htail⟩
  obtain ⟨heq, -⟩ := h.next_eq hnext
  rw [← htail] at heq
  -- The frame's first byte must name a kind of packet, or the decoder would not wait.
  obtain ⟨t, hcode⟩ : ∃ t, PacketType.ofCode? (f.first.toNat / 16) = some t := by
    rw [Frame.bytes, List.cons_append] at heq
    exact (State.next_cons_none heq).1
  rw [State.next_frame d.maxPacketSize f hcode] at heq
  have hshort := (State.proceed_begin_none heq).2
  dsimp only at hshort
  rw [List.length_append] at hshort
  omega

/-- A packet that is whole is its fixed header as it was received, and the body that it announces. -/
theorem Underway.whole {p : Packet} (h : d.Underway taken) (hnext : d.next bs = (d', .ok (some p), rest)) :
    d' = new d.maxPacketSize ∧ ∃ (used : List UInt8) (f : Frame), bs = used ++ rest ∧ used ≠ [] ∧
      taken ++ used = f.bytes ∧ f.first = p.firstByte ∧ f.body = p.body := by
  obtain ⟨heq, hmax⟩ := h.next_eq hnext
  obtain ⟨hstate, -, -, field, hspells, hbytes⟩ := State.next_start_iff.1 heq
  obtain ⟨used, hused, -⟩ := next_split hnext (by simp)
  have hlt := next_length_lt hnext
  refine ⟨?_, used, ⟨p.firstByte, field, p.body, hspells⟩, hused, ?_, ?_, rfl, rfl⟩
  · obtain ⟨m, s⟩ := d'
    rw [new, ← hmax, ← hstate]
  · rintro rfl
    rw [hused] at hlt
    exact absurd hlt (Nat.lt_irrefl _)
  · rw [hused, ← List.append_assoc] at hbytes
    exact List.append_cancel_right hbytes

/-- The decoder is between two packets if nothing was taken of one. -/
theorem Underway.isIdle_iff (h : d.Underway taken) : d.isIdle = true ↔ taken = [] := by
  constructor
  · intro hidle
    cases taken with
    | nil => rfl
    | cons b bs =>
      rw [isIdle] at hidle
      rcases (State.next_cons_none h).2 with ⟨t, flags, r, hstate⟩ | ⟨h, left, r, hstate⟩
      · rw [hstate] at hidle
        cases hidle
      · rw [hstate] at hidle
        cases hidle
  · rintro rfl
    have hstate : State.header .start = d.state := (Prod.mk.inj h).1
    rw [isIdle, ← hstate]
    rfl

/-! ### Whatever the decoder was handed -/

/-- The decoder after one buffer after the other, and what it has taken of the packet that it is reading; nothing
after an error. -/
def along (d : Decoder) (taken : List UInt8) : List (List UInt8) → Option (Decoder × List UInt8)
  | [] => some (d, taken)
  | buf :: bufs =>
    match d.next buf with
    | (_, .error _, _) => none
    | (d, .ok none, rest) => d.along (taken ++ buf.take (buf.length - rest.length)) bufs
    | (d, .ok (some _), _) => d.along [] bufs

theorem underway_along {bufs : List (List UInt8)} {d₀ : Decoder} {taken₀ : List UInt8} (h₀ : d₀.Underway taken₀)
    (h : d₀.along taken₀ bufs = some (d, taken)) : d.Underway taken ∧ d.maxPacketSize = d₀.maxPacketSize := by
  induction bufs generalizing d₀ taken₀ with
  | nil =>
    cases h
    exact ⟨h₀, rfl⟩
  | cons buf bufs ih =>
    rw [along] at h
    rcases hnext : d₀.next buf with ⟨d₁, e | _ | p, rest⟩ <;> rw [hnext] at h
    · cases h
    · obtain ⟨rfl, hunder⟩ := h₀.of_none hnext
      dsimp only at h
      rw [List.length_nil, Nat.sub_zero, List.take_length] at h
      rw [← (h₀.next_eq hnext).2]
      exact ih hunder h
    · obtain ⟨rfl, -⟩ := h₀.whole hnext
      dsimp only at h
      have hnew := ih (underway_new d₀.maxPacketSize) h
      exact hnew

end Decoder

/-! ### The loops -/

/-- Where a call comes to in a buffer: it leaves what is behind, and if it leaves anything it has taken a byte. -/
theorem Decoder.State.next_drop {max pos : Nat} {s s' : State} {y : Decoder.Yield} {buf rest : List UInt8}
    (hpos : pos ≤ buf.length) (hnext : s.next max (buf.drop pos) = (s', y, rest)) :
    ∃ pos', pos + ((buf.drop pos).length - rest.length) = pos' ∧ pos' ≤ buf.length ∧ buf.drop pos' = rest ∧
      (y = .ok none → pos' = buf.length) ∧ (y ≠ .ok none → pos < pos') := by
  have hlength : (buf.drop pos).length = buf.length - pos := List.length_drop
  by_cases hy : y = .ok none
  · obtain rfl : rest = [] := by
      have hall := @next_rest_of_none max s (buf.drop pos)
      rw [hnext] at hall
      exact hall hy
    refine ⟨buf.length, ?_, Nat.le_refl _, List.drop_length, fun _ => rfl, fun hne => absurd hy hne⟩
    rw [List.length_nil]
    omega
  · obtain ⟨used, hused, -⟩ := next_split hnext hy
    have hlt := @next_length_lt max s (buf.drop pos)
    rw [hnext] at hlt
    have hrest : rest.length < (buf.drop pos).length := hlt hy
    refine ⟨_, rfl, by omega, ?_, fun hnone => absurd hnone hy, fun _ => by omega⟩
    rw [hused, List.length_append, Nat.add_sub_cancel, ← List.drop_drop, hused, List.drop_left]

namespace Connection

open Buffered (Checked from?)

/-- Ask the decoder for one packet after the other and handle each, in `n` passes at most. Where the loop has come to
in the buffer is told as well. -/
def loop (now : Nat) (n : Nat) (c : Connection) (b : Broker) (ds : Array Delivery) (buf : List UInt8) (pos : Nat) :
    Checked (Received × Nat) :=
  if pos < buf.length ∧ c.isClosed = false then
    match n with
    | 0 => .error .endless
    | n + 1 => do
      let bytes ← from? buf pos
      match c.decoder.next bytes with
      | (d, .error e, _) => return (⟨⟨{ c.peer with isClosed := true }, d⟩, b, ds, some e⟩, pos)
      | (d, .ok none, rest) => return (⟨⟨c.peer, d⟩, b, ds, none⟩, pos + (bytes.length - rest.length))
      | (d, .ok (some packet), rest) =>
        let pos := pos + (bytes.length - rest.length)
        let p := { c.peer with keepAlive := c.peer.keepAlive.restart now }
        match p.handle b now packet with
        | .error r =>
          let (p, ds) := r.handled.peer.distribute ds r.handled.output
          return (⟨⟨{ p with isClosed := true }, d⟩, r.handled.broker, ds, some r.error⟩, pos)
        | .ok handled =>
          let (p, ds) := handled.peer.distribute ds handled.output
          loop now n ⟨p, d⟩ handled.broker ds buf pos
  else .ok (⟨c, b, ds, none⟩, pos)

variable {now max n pos : Nat} {buf : List UInt8}

/-- Each pass takes a byte at least, so there are no more passes than bytes. A connection that stays open is behind
the last byte then. -/
theorem loop_eq_receive (c : Connection) (b : Broker) (ds : Array Delivery) (hpos : pos ≤ buf.length)
    (hn : buf.length - pos ≤ n) :
    let r := receive now c.decoder.maxPacketSize c.decoder.state c.peer b ds (buf.drop pos)
    ∃ pos', loop now n c b ds buf pos = .ok (r, pos') ∧ pos' ≤ buf.length ∧
      (r.error = none → r.connection.isClosed = false → pos' = buf.length) := by
  induction n generalizing c b ds pos with
  | zero =>
    obtain rfl : pos = buf.length := by omega
    rw [List.drop_length]
    exact ⟨buf.length, if_neg (fun h => Nat.lt_irrefl _ h.1), Nat.le_refl _, fun _ _ => rfl⟩
  | succ n ih =>
    unfold loop
    by_cases hc : c.peer.isClosed = true
    · rw [if_neg (fun h => absurd (hc.symm.trans h.2) (by decide)), receive_of_closed hc]
      exact ⟨pos, rfl, hpos, fun _ hopen => absurd (hc.symm.trans hopen) (by decide)⟩
    have hopen : c.peer.isClosed = false := by simpa using hc
    by_cases hend : pos = buf.length
    · rw [if_neg (fun h => absurd hend (Nat.ne_of_lt h.1)), hend, List.drop_length]
      exact ⟨buf.length, rfl, Nat.le_refl _, fun _ _ => rfl⟩
    rw [if_pos ⟨by omega, hopen⟩, Buffered.from?_of_le hpos, receive_eq_next hopen]
    dsimp only [bind, Except.bind]
    unfold Decoder.next
    rcases hnext : c.decoder.state.next c.decoder.maxPacketSize (buf.drop pos) with ⟨s, e | _ | packet, rest⟩
    · exact ⟨pos, rfl, hpos, fun herror => nomatch herror⟩
    · obtain ⟨pos', hthere, hpos', -, hnone, -⟩ := Decoder.State.next_drop hpos hnext
      dsimp only
      rw [hthere]
      exact ⟨pos', rfl, hpos', fun _ _ => hnone rfl⟩
    · obtain ⟨pos', hthere, hpos', rfl, -, hsome⟩ := Decoder.State.next_drop hpos hnext
      have hlt : pos < pos' := hsome (by simp)
      dsimp only
      rw [hthere]
      rcases Peer.handle { c.peer with keepAlive := c.peer.keepAlive.restart now } b now packet with r | handled
      · exact ⟨pos', rfl, hpos', fun herror => nomatch herror⟩
      · exact ih _ _ _ hpos' (by omega)

/-- As long as the connection stays open, it takes the stream as the decoder does, and handles all its packets. -/
theorem run_of_receive (s : Decoder.State) (p : Peer) (b : Broker) (ds : Array Delivery) (bytes : List UInt8)
    (herror : (receive now max s p b ds bytes).error = none)
    (hopen : (receive now max s p b ds bytes).connection.isClosed = false) :
    (receive now max s p b ds bytes).connection.decoder = ⟨max, (s.run max bytes).1⟩ ∧
      (operations now max s p b bytes).filterMap Broker.Operation.packet? = (s.run max bytes).2.1 ∧
      (s.run max bytes).2.2 = none := by
  induction s, p, b, bytes using bytes_induction now max generalizing ds with
  | nil s p b => exact ⟨rfl, rfl, rfl⟩
  | closed s p b bytes hclosed =>
    rw [receive_of_closed hclosed] at hopen
    exact absurd (hclosed.symm.trans hopen) (by decide)
  | broken s p b byte bytes s' e hp hstep =>
    rw [receive_cons_error hp hstep] at herror
    cases herror
  | more s p b byte bytes s' hp hstep ih =>
    rw [receive_cons_none hp hstep] at herror hopen ⊢
    rw [operations_cons_none hp hstep, Decoder.State.run, hstep]
    exact ih ds herror hopen
  | refused s p b byte bytes s' packet r hp hstep hh =>
    rw [receive_cons_refused hp hstep hh] at herror
    cases herror
  | handled s p b byte bytes s' packet h hp hstep hh ih =>
    rw [receive_cons_handled hp hstep hh] at herror hopen ⊢
    rw [operations_cons_handled hp hstep hh, Decoder.State.run, hstep]
    obtain ⟨hdecoder, hpackets, hnone⟩ := ih _ herror hopen
    exact ⟨hdecoder, congrArg (packet :: ·) hpackets, hnone⟩

end Connection

namespace Client.Protocol

open Buffered (Checked from?)

/-- Ask the decoder for one packet after the other and handle each, in `n` passes at most. Where the loop has come to
in the buffer is told as well. -/
def loop (now : Nat) (n : Nat) (c : Protocol) (buf : List UInt8) (pos : Nat) :
    Checked ((Except Error Unit × Protocol) × Nat) :=
  if pos < buf.length ∧ c.state ≠ .disconnected then
    match n with
    | 0 => .error .endless
    | n + 1 => do
      let bytes ← from? buf pos
      match c.decoder.next bytes with
      | (d, .error e, _) => return ((.error (.protocol e), ⟨c.link.close (some e.message), d⟩), pos)
      | (d, .ok none, rest) => return ((.ok (), ⟨c.link, d⟩), pos + (bytes.length - rest.length))
      | (d, .ok (some packet), rest) =>
        let pos := pos + (bytes.length - rest.length)
        let l := { c.link with keepAlive := c.link.keepAlive.restart now }
        match l.handle now packet with
        | .error r => return ((.error r.error, ⟨r.close, d⟩), pos)
        | .ok l => loop now n ⟨l, d⟩ buf pos
  else .ok ((.ok (), c), pos)

variable {now max n pos : Nat} {buf : List UInt8}

/-- Each pass takes a byte at least, so there are no more passes than bytes. A client that stays connected is behind
the last byte then. -/
theorem loop_eq_receive (c : Protocol) (hpos : pos ≤ buf.length) (hn : buf.length - pos ≤ n) :
    let r := receive now c.decoder.maxPacketSize c.decoder.state c.link (buf.drop pos)
    ∃ pos', loop now n c buf pos = .ok (r, pos') ∧ pos' ≤ buf.length ∧
      (r.1 = .ok () → r.2.state ≠ .disconnected → pos' = buf.length) := by
  induction n generalizing c pos with
  | zero =>
    obtain rfl : pos = buf.length := by omega
    rw [List.drop_length]
    exact ⟨buf.length, if_neg (fun h => Nat.lt_irrefl _ h.1), Nat.le_refl _, fun _ _ => rfl⟩
  | succ n ih =>
    unfold loop
    by_cases hc : c.link.state = .disconnected
    · rw [if_neg (fun h => h.2 hc), receive_of_disconnected hc]
      exact ⟨pos, rfl, hpos, fun _ hopen => absurd hc hopen⟩
    by_cases hend : pos = buf.length
    · rw [if_neg (fun h => absurd hend (Nat.ne_of_lt h.1)), hend, List.drop_length]
      exact ⟨buf.length, rfl, Nat.le_refl _, fun _ _ => rfl⟩
    rw [if_pos ⟨by omega, hc⟩, Buffered.from?_of_le hpos, receive_eq_next hc]
    dsimp only [bind, Except.bind]
    unfold Decoder.next
    rcases hnext : c.decoder.state.next c.decoder.maxPacketSize (buf.drop pos) with ⟨s, e | _ | packet, rest⟩
    · exact ⟨pos, rfl, hpos, fun herror => nomatch herror⟩
    · obtain ⟨pos', hthere, hpos', -, hnone, -⟩ := Decoder.State.next_drop hpos hnext
      dsimp only
      rw [hthere]
      exact ⟨pos', rfl, hpos', fun _ _ => hnone rfl⟩
    · obtain ⟨pos', hthere, hpos', rfl, -, hsome⟩ := Decoder.State.next_drop hpos hnext
      have hlt : pos < pos' := hsome (by simp)
      dsimp only
      rw [hthere]
      rcases Link.handle { c.link with keepAlive := c.link.keepAlive.restart now } now packet with e | l
      · exact ⟨pos', rfl, hpos', fun herror => nomatch herror⟩
      · exact ih _ hpos' (by omega)

/-- What a client does with one packet after the other, all of them received now. -/
def handleAll (now : Nat) (l : Link) (packets : List Packet) : Except Link.Refusal Link :=
  packets.foldlM (fun l packet => Link.handle { l with keepAlive := l.keepAlive.restart now } now packet) l

/-- As long as the client stays connected, it takes the stream as the decoder does, and handles all its packets. -/
theorem run_of_receive (s : Decoder.State) (l : Link) (bytes : List UInt8)
    (hok : (receive now max s l bytes).1 = .ok ()) (hopen : (receive now max s l bytes).2.state ≠ .disconnected) :
    (receive now max s l bytes).2.decoder = ⟨max, (s.run max bytes).1⟩ ∧
      handleAll now l (s.run max bytes).2.1 = .ok (receive now max s l bytes).2.link ∧
      (s.run max bytes).2.2 = none := by
  induction bytes generalizing s l with
  | nil => exact ⟨rfl, rfl, rfl⟩
  | cons byte bytes ih =>
    rw [receive] at hok hopen ⊢
    rw [Decoder.State.run]
    by_cases hl : l.state = .disconnected
    · rw [if_pos hl] at hopen
      exact absurd hl hopen
    rw [if_neg hl] at hok hopen ⊢
    rcases hstep : s.step max byte with ⟨s, e | _ | packet⟩ <;> rw [hstep] at hok hopen
    · cases hok
    · exact ih s l hok hopen
    · dsimp only at hok hopen ⊢
      rw [handleAll, List.foldlM_cons]
      rcases hh : Link.handle { l with keepAlive := l.keepAlive.restart now } now packet with e | l <;>
        rw [hh] at hok hopen
      · cases hok
      · exact ih s l hok hopen

end Client.Protocol

/-! ### Whatever comes -/

namespace Decoder

open Buffered (Packets)

/-- **Framing is exact and makes progress.** After any calls without an error the decoder is between two packets if
and only if it has taken nothing of one. A call that brings no packet takes the whole buffer, and all that was taken
does not hold a whole packet. A call that brings a packet takes a byte at least; what was taken for the packet in all
calls is its fixed header as it was received and the body that this announces, and the decoder is like new. The
decoder that slices buffers, subtracts and shifts is never out of range and answers the same. The loops of both sides
are through with a buffer after no more passes than it has bytes, and never out of range either; unless the connection
ends they come to the end of the buffer, and every packet in it is handled. -/
theorem framing_exact :
    (∀ (max : Nat) (bufs : List (List UInt8)) (d : Decoder) (taken : List UInt8),
      (new max).along [] bufs = some (d, taken) →
        (d.isIdle = true ↔ taken = []) ∧
        ∀ (buf rest : List UInt8) (d' : Decoder) (y : Yield), d.next buf = (d', y, rest) →
          (y = .ok none → rest = [] ∧ ∀ f : Frame, ¬ f.bytes <+: taken ++ buf) ∧
          ∀ p : Packet, y = .ok (some p) → d' = new max ∧ d'.isIdle = true ∧
            ∃ (used : List UInt8) (f : Frame), buf = used ++ rest ∧ used ≠ [] ∧ taken ++ used = f.bytes ∧
              f.first = p.firstByte ∧ f.body = p.body) ∧
    (∀ (max : Nat) (bufs : List (List UInt8)), (Packets.new max).answers bufs = some ((new max).answers bufs)) ∧
    (∀ (c : Connection) (b : Broker) (now : Nat) (buf : List UInt8),
      let r := c.handleBytes b now buf
      ∃ pos, c.loop now buf.length b #[] buf 0 = .ok (r, pos) ∧ pos ≤ buf.length ∧
        (r.error = none → r.connection.isClosed = false → pos = buf.length ∧
          c.decoder.feed buf = ⟨r.connection.decoder, c.requests b now buf, none⟩)) ∧
    ∀ (c : Client.Protocol) (now : Nat) (buf : List UInt8),
      let r := c.handleBytes now buf
      ∃ pos, c.loop now buf.length buf 0 = .ok (r, pos) ∧ pos ≤ buf.length ∧
        (r.1 = .ok () → r.2.state ≠ .disconnected → pos = buf.length ∧
          ∃ packets, c.decoder.feed buf = ⟨r.2.decoder, packets, none⟩ ∧
            Client.Protocol.handleAll now c.link packets = .ok r.2.link) := by
  refine ⟨fun max bufs d taken h => ?_, answers_eq, fun c b now buf => ?_, fun c now buf => ?_⟩
  · obtain ⟨hunder, hmax⟩ := underway_along (underway_new max) h
    have hlimit : d.maxPacketSize = max := hmax
    refine ⟨hunder.isIdle_iff, fun buf rest d' y hnext => ⟨?_, ?_⟩⟩
    · rintro rfl
      exact ⟨(hunder.of_none hnext).1, hunder.not_whole hnext⟩
    · rintro p rfl
      obtain ⟨hnew, hwhole⟩ := hunder.whole hnext
      exact ⟨hlimit ▸ hnew, isIdle_of_next hnext, hwhole⟩
  · obtain ⟨pos, hloop, hpos, hend⟩ := c.loop_eq_receive b #[] (Nat.zero_le buf.length) (Nat.le_refl buf.length)
    refine ⟨pos, hloop, hpos, fun herror hopen => ⟨hend herror hopen, ?_⟩⟩
    obtain ⟨hdecoder, hpackets, hnone⟩ := Connection.run_of_receive _ _ b #[] buf herror hopen
    have hrequests : c.requests b now buf = _ := hpackets
    have hafter : (c.handleBytes b now buf).connection.decoder = _ := hdecoder
    rw [feed_eq_run, hrequests, hafter, hnone]
  · obtain ⟨pos, hloop, hpos, hend⟩ := c.loop_eq_receive (Nat.zero_le buf.length) (Nat.le_refl buf.length)
    refine ⟨pos, hloop, hpos, fun hok hopen => ⟨hend hok hopen, ?_⟩⟩
    obtain ⟨hdecoder, hpackets, hnone⟩ := Client.Protocol.run_of_receive _ _ buf hok hopen
    have hafter : (c.handleBytes now buf).2.decoder = _ := hdecoder
    rw [feed_eq_run, hafter, hnone]
    exact ⟨_, rfl, hpackets⟩

/-- A PINGREQ that comes in two pieces, the second of which holds the first byte of another packet. -/
theorem framing_exact_pingreq :
    ∃ d, (new 0).along [] [[0xC0]] = some (d, [0xC0]) ∧ d.isIdle = false ∧
      d.next [0x00, 0x30] = (new 0, .ok (some .pingreq), [0x30]) ∧
      ∃ (used : List UInt8) (f : Frame), [0x00, 0x30] = used ++ [0x30] ∧ used ≠ [] ∧ [0xC0] ++ used = f.bytes ∧
        f.first = Packet.pingreq.firstByte ∧ f.body = Packet.pingreq.body := by
  obtain ⟨d, hd⟩ : ∃ d, (new 0).along [] [[0xC0]] = some (d, [0xC0]) := ⟨_, rfl⟩
  obtain ⟨hidle, hcalls⟩ := framing_exact.1 0 [[0xC0]] d [0xC0] hd
  have hnext : d.next [0x00, 0x30] = (new 0, .ok (some .pingreq), [0x30]) := by
    cases hd
    rfl
  refine ⟨d, hd, ?_, hnext, ?_⟩
  · simpa using hidle
  · exact ((hcalls _ _ _ _ hnext).2 .pingreq rfl).2.2

end Decoder

end Mqtt
