import Mqtt.Proofs.ConnectionCuts

/-!
# Packets that are refused: `Connection::handle_packet`

What a client sends is handled packet by packet, and the first one that cannot be read or is not accepted ends
its connection. `Connection.handleBytes_refused` cuts the bytes at that packet: the broker and what is to be
delivered are as the packets before it left them, however far the offending one got, and of the connection itself
nothing changes but that it is closed, behind a CONNACK that says why if there is one.
-/

namespace Mqtt

/-! ### Bytes of one packet -/

namespace Decoder

variable {max : Nat} {s s' : State} {p : Packet}

/-- A call that brings something takes the bytes up to there, and needs no others. -/
theorem State.next_split {bs rest : List UInt8} {y : Yield} (h : s.next max bs = (s', y, rest))
    (hy : y ≠ .ok none) : ∃ taken, bs = taken ++ rest ∧ s.next max taken = (s', y, []) := by
  induction bs generalizing s with
  | nil =>
    simp only [next, Prod.mk.injEq] at h
    exact absurd h.2.1.symm hy
  | cons byte bs ih =>
    rw [next] at h
    rcases hstep : s.step max byte with ⟨s₁, e | _ | packet⟩
    · rw [hstep] at h
      cases h
      exact ⟨[byte], rfl, by simp [next, hstep]⟩
    · rw [hstep] at h
      obtain ⟨taken, rfl, htaken⟩ := ih h
      exact ⟨byte :: taken, rfl, by simp [next, hstep, htaken]⟩
    · rw [hstep] at h
      cases h
      exact ⟨[byte], rfl, by simp [next, hstep]⟩

theorem State.settle_packet {h : FixedHeader} {left : Nat} {r : Reader Packet}
    (hs : settle h left r = (s', .ok (some p))) : s' = .header .start := by
  unfold settle at hs
  split at hs
  · split at hs
    · simpa using (congrArg Prod.fst hs).symm
    · cases hs
  · cases hs
  · split at hs <;> cases hs

/-- Behind a packet the next one can begin. -/
theorem State.step_packet {byte : UInt8} (hs : s.step max byte = (s', .ok (some p))) : s' = .header .start := by
  cases s with
  | header progress =>
    rw [step] at hs
    split at hs
    · unfold begin at hs
      dsimp only at hs
      split at hs
      · cases hs
      · split at hs
        · exact settle_packet hs
        · cases hs
    · cases hs
    · cases hs
  | body h left r => exact settle_packet hs

theorem State.next_packet {bs rest : List UInt8} (h : s.next max bs = (s', .ok (some p), rest)) :
    s' = .header .start := by
  induction bs generalizing s with
  | nil => cases h
  | cons byte bs ih =>
    rw [next] at h
    rcases hstep : s.step max byte with ⟨s₁, e | _ | packet⟩
    · rw [hstep] at h
      cases h
    · rw [hstep] at h
      exact ih h
    · rw [hstep] at h
      cases h
      exact step_packet hstep

variable {d d' : Decoder} {bs rest : List UInt8} {y : Yield}

theorem state_next (h : d.next bs = (d', y, rest)) :
    d.state.next d.maxPacketSize bs = (d'.state, y, rest) ∧ d' = ⟨d.maxPacketSize, d'.state⟩ := by
  rw [next] at h
  generalize d.state.next d.maxPacketSize bs = r at h
  obtain ⟨s, y', rest'⟩ := r
  cases h
  exact ⟨rfl, rfl⟩

theorem next_split (h : d.next bs = (d', y, rest)) (hy : y ≠ .ok none) :
    ∃ taken, bs = taken ++ rest ∧ d.next taken = (d', y, []) := by
  obtain ⟨hnext, hd⟩ := state_next h
  obtain ⟨taken, hbs, htaken⟩ := State.next_split hnext hy
  refine ⟨taken, hbs, ?_⟩
  rw [next, htaken, hd]

/-- Bytes behind those that brought something are left as they are. -/
theorem next_append {taken : List UInt8} (h : d.next taken = (d', y, [])) (hy : y ≠ .ok none) (more : List UInt8) :
    d.next (taken ++ more) = (d', y, more) := by
  obtain ⟨hnext, hd⟩ := state_next h
  rw [next, State.next_append, hnext]
  rcases y with e | _ | packet
  · rw [hd]
    rfl
  · exact absurd rfl hy
  · rw [hd]
    rfl

theorem isIdle_of_next (h : d.next bs = (d', .ok (some p), rest)) : d'.isIdle = true := by
  have hstate : d'.state = .header .start := State.next_packet (state_next h).1
  simp [isIdle, hstate, FixedHeader.Progress.isIdle]

end Decoder

namespace Connection

/-! ### The first packet of some bytes -/

variable {c : Connection} {b : Broker} {now : Nat} {bs rest : List UInt8} {d : Decoder}

/-- The peer once a packet of its client is there: the client has said something. -/
def attentive (c : Connection) (now : Nat) : Peer := { c.peer with keepAlive := c.peer.keepAlive.restart now }

theorem handleBytes_of_none (hc : c.isClosed = false) (h : c.decoder.next bs = (d, .ok none, rest)) :
    c.handleBytes b now bs = ⟨{ c with decoder := d }, b, #[], none⟩ := by
  obtain ⟨hnext, hd⟩ := Decoder.state_next h
  have hreceive := @receive_eq_next now c.decoder.maxPacketSize c.decoder.state c.peer b #[] hc bs
  rw [hnext] at hreceive
  rw [hd]
  exact hreceive

theorem handleBytes_of_error {e : ProtocolError} (hc : c.isClosed = false)
    (h : c.decoder.next bs = (d, .error e, rest)) :
    c.handleBytes b now bs = ⟨⟨{ c.peer with isClosed := true }, d⟩, b, #[], some e⟩ := by
  obtain ⟨hnext, hd⟩ := Decoder.state_next h
  have hreceive := @receive_eq_next now c.decoder.maxPacketSize c.decoder.state c.peer b #[] hc bs
  rw [hnext] at hreceive
  rw [hd]
  exact hreceive

theorem handleBytes_of_refused {packet : Packet} {r : Peer.Refusal} (hc : c.isClosed = false)
    (h : c.decoder.next bs = (d, .ok (some packet), rest)) (hh : (c.attentive now).handle b now packet = .error r) :
    c.handleBytes b now bs = ⟨⟨(c.attentive now).closeOn r, d⟩, b, #[], some r.error⟩ := by
  obtain ⟨hnext, hd⟩ := Decoder.state_next h
  have hreceive := @receive_eq_next now c.decoder.maxPacketSize c.decoder.state c.peer b #[] hc bs
  rw [hnext] at hreceive
  dsimp only at hreceive
  rw [attentive] at hh
  rw [hh] at hreceive
  obtain ⟨hbroker, -, hrest⟩ := Peer.handled_of_refused hh
  obtain ⟨hpeer, hdeliveries⟩ := hrest #[]
  rw [hd, attentive, ← hpeer]
  refine hreceive.trans ?_
  dsimp only
  rw [hbroker, hdeliveries]

/-- A packet is accepted, and the bytes behind it are handled. -/
theorem handleBytes_of_handled {packet : Packet} {h : Peer.Handled} (hc : c.isClosed = false)
    (hnext : c.decoder.next bs = (d, .ok (some packet), rest))
    (hh : (c.attentive now).handle b now packet = .ok h) :
    c.handleBytes b now bs =
      let r := (⟨(h.peer.distribute #[] h.output).1, d⟩ : Connection).handleBytes h.broker now rest
      { r with deliveries := (h.peer.distribute #[] h.output).2 ++ r.deliveries } := by
  obtain ⟨hstate, hd⟩ := Decoder.state_next hnext
  have hreceive := @receive_eq_next now c.decoder.maxPacketSize c.decoder.state c.peer b #[] hc bs
  rw [hstate] at hreceive
  dsimp only at hreceive
  rw [attentive] at hh
  rw [hh] at hreceive
  have hbehind := receive_behind now c.decoder.maxPacketSize d.state (h.peer.distribute #[] h.output).1 h.broker
    (h.peer.distribute #[] h.output).2 #[] rest
  rw [Array.append_empty] at hbehind
  rw [hd]
  exact hreceive.trans hbehind

/-! ### Breaking off -/

/-- What a packet that is refused does: the connection is closed, behind a CONNACK that says why if there is one.
The broker, what is to be delivered, the client's name and its will are as they were before the packet. -/
structure BreaksOff (before after : Received) (code : Option ConnackCode) (e : ProtocolError) : Prop where
  error : after.error = some e
  state : after.connection.peer.state = .closed
  clientId : after.connection.peer.clientId = before.connection.peer.clientId
  will : after.connection.peer.will = before.connection.peer.will
  written : after.connection.peer.outbound.data.toList = before.connection.peer.outbound.data.toList ++
    code.toList.flatMap fun code => (Packet.connack false code).encode
  broker : after.broker = before.broker
  deliveries : after.deliveries = before.deliveries

/-- What was to be delivered before does not matter. -/
theorem BreaksOff.behind {before after : Received} {code : Option ConnackCode} {e : ProtocolError}
    (h : BreaksOff before after code e) (ds : Array Delivery) :
    BreaksOff { before with deliveries := ds ++ before.deliveries }
      { after with deliveries := ds ++ after.deliveries } code e :=
  ⟨h.error, h.state, h.clientId, h.will, h.written, h.broker, congrArg (ds ++ ·) h.deliveries⟩

theorem state_of_isClosed {p : Peer} (h : p.isClosed = true) : p.state = .closed := if_pos h

/-- The bytes end with the packet that breaks the connection off: it cannot be read, or it is refused. -/
inductive Offends (c : Connection) (b : Broker) (now : Nat) (bad : List UInt8) (e : ProtocolError) : Prop
  | unread {d : Decoder} : c.decoder.next bad = (d, .error e, []) → Offends c b now bad e
  | refused {d : Decoder} {packet : Packet} {r : Peer.Refusal} :
      c.decoder.next bad = (d, .ok (some packet), []) → (c.attentive now).handle b now packet = .error r →
      r.error = e → Offends c b now bad e

theorem breaksOff_of_refused {packet : Packet} {r : Peer.Refusal} (hc : c.isClosed = false)
    (hnext : c.decoder.next bs = (d, .ok (some packet), rest))
    (hh : (c.attentive now).handle b now packet = .error r) {code : Option ConnackCode}
    (hcode : r.reply = code.map (.connack false)) :
    BreaksOff ⟨c, b, #[], none⟩ (c.handleBytes b now bs) code r.error := by
  rw [handleBytes_of_refused hc hnext hh]
  refine ⟨rfl, state_of_isClosed (Peer.closeOn_isClosed _ r), ?_, ?_, ?_, rfl, rfl⟩
  · dsimp only
    unfold Peer.closeOn
    split <;> rfl
  · dsimp only
    unfold Peer.closeOn
    split <;> rfl
  · rw [Peer.toList_closeOn, hcode]
    cases code <;> rfl

/-- The first packet is at fault, whatever follows it. -/
theorem Offends.breaksOff {bad : List UInt8} {e : ProtocolError} (ho : c.Offends b now bad e) (hc : c.isClosed = false)
    (rest : List UInt8) : ∃ code, (∀ k ∈ code, k ≠ .accepted) ∧
      BreaksOff ⟨c, b, #[], none⟩ (c.handleBytes b now (bad ++ rest)) code e := by
  cases ho with
  | @unread d hnext =>
    have hafter : c.handleBytes b now (bad ++ rest) = _ :=
      handleBytes_of_error hc (Decoder.next_append hnext (by simp) rest)
    rw [hafter]
    exact ⟨none, by simp, rfl, rfl, rfl, rfl, (List.append_nil _).symm, rfl, rfl⟩
  | @refused d packet r hnext hh he =>
    subst he
    have hnext' := Decoder.next_append hnext (by simp) rest
    cases hreply : r.reply with
    | none => exact ⟨none, by simp, breaksOff_of_refused hc hnext' hh hreply⟩
    | some q =>
      obtain ⟨code, hne, rfl⟩ := Peer.handle_reply hh hreply
      exact ⟨some code, by simpa using hne, breaksOff_of_refused hc hnext' hh hreply⟩

/-- Where bytes end in an error the first packet is at fault, or it is accepted and the error is in the bytes
behind it. -/
theorem first_of_error {e : ProtocolError} (h : (c.handleBytes b now bs).error = some e) : c.isClosed = false ∧
    ((∃ bad rest, bs = bad ++ rest ∧ c.Offends b now bad e) ∨
      ∃ taken rest d packet handled, bs = taken ++ rest ∧ rest.length < bs.length ∧
        c.decoder.next taken = (d, .ok (some packet), []) ∧ (c.attentive now).handle b now packet = .ok handled) := by
  have hc : c.isClosed = false := by
    by_contra hclosed
    rw [handleBytes_of_closed (by simpa using hclosed)] at h
    cases h
  refine ⟨hc, ?_⟩
  rcases hnext : c.decoder.next bs with ⟨d, e' | _ | packet, rest⟩
  · obtain ⟨bad, hbs, hbad⟩ := Decoder.next_split hnext (by simp)
    rw [handleBytes_of_error hc hnext] at h
    cases h
    exact .inl ⟨bad, rest, hbs, .unread hbad⟩
  · rw [handleBytes_of_none hc hnext] at h
    cases h
  · obtain ⟨taken, hbs, htaken⟩ := Decoder.next_split hnext (by simp)
    rcases hh : (c.attentive now).handle b now packet with r | handled
    · rw [handleBytes_of_refused hc hnext hh] at h
      exact .inl ⟨taken, rest, hbs, .refused htaken hh (Option.some.inj h)⟩
    · exact .inr ⟨taken, rest, d, packet, handled, hbs, Decoder.next_length_lt hnext, htaken, hh⟩

/-- The bytes up to the packet at fault. -/
theorem exists_cut {e : ProtocolError} (h : (c.handleBytes b now bs).error = some e) :
    ∃ good bad rest, bs = good ++ (bad ++ rest) ∧
      (c.handleBytes b now good).error = none ∧ (c.handleBytes b now good).connection.isClosed = false ∧
      (good = [] ∨ (c.handleBytes b now good).connection.decoder.isIdle = true) ∧
      (c.handleBytes b now good).connection.Offends (c.handleBytes b now good).broker now bad e ∧
      ∃ code, (∀ k ∈ code, k ≠ .accepted) ∧
        BreaksOff (c.handleBytes b now good) (c.handleBytes b now bs) code e := by
  induction hn : bs.length using Nat.strongRecOn generalizing c b bs with
  | ind n ih =>
    subst hn
    obtain ⟨hc, ⟨bad, rest, rfl, ho⟩ | ⟨taken, rest, d, packet, handled, rfl, hshorter, hnext, hh⟩⟩ := first_of_error h
    · have hnothing : c.handleBytes b now [] = ⟨c, b, #[], none⟩ := rfl
      exact ⟨[], bad, rest, rfl, rfl, hc, .inl rfl, hnothing ▸ ho, hnothing ▸ ho.breaksOff hc rest⟩
    · have hthen (more : List UInt8) := handleBytes_of_handled hc
        (Decoder.next_append hnext (by simp) more) hh
      have hafter := hthen rest
      rw [hafter] at h
      obtain ⟨good, bad, rest', hrest, hnone, hopen, hwhole, hoffends, code, hne, hbreaks⟩ := ih _ hshorter h rfl
      refine ⟨taken ++ good, bad, rest', by rw [hrest, List.append_assoc], ?_⟩
      rw [hthen good, hafter]
      refine ⟨hnone, hopen, .inr ?_, hoffends, code, hne, hbreaks.behind _⟩
      rcases hwhole with rfl | hidle
      · exact Decoder.isIdle_of_next hnext
      · exact hidle

/-- **A packet that is refused changes nothing but its own connection.** Whatever bytes a connection takes in, if
they end in an error they are those of whole packets that are all accepted, then those of the packet at fault, and
then others. The broker with all its sessions, trees and counters and all that is to be delivered to others are
as they are when the first packets were handled and nothing else. So are the client's name and its will, and the
bytes for the client itself but for at most one CONNACK that turns it down. The connection is closed, and no bytes
have any effect any more. -/
theorem handleBytes_refused {e : ProtocolError} (h : (c.handleBytes b now bs).error = some e) :
    ∃ good bad rest, bs = good ++ (bad ++ rest) ∧
      let before := c.handleBytes b now good
      let after := c.handleBytes b now bs
      before.error = none ∧ before.connection.isClosed = false ∧
      (good = [] ∨ before.connection.decoder.isIdle = true) ∧
      before.connection.Offends before.broker now bad e ∧
      (∃ code, (∀ k ∈ code, k ≠ .accepted) ∧ BreaksOff before after code e) ∧
      ∀ b' now' bs', after.connection.handleBytes b' now' bs' = ⟨after.connection, b', #[], none⟩ := by
  obtain ⟨good, bad, rest, hbs, hnone, hopen, hwhole, hoffends, hbreaks⟩ := exists_cut h
  refine ⟨good, bad, rest, hbs, hnone, hopen, hwhole, hoffends, hbreaks, ?_⟩
  intro b' now' bs'
  have herror : (c.handleBytes b now bs).error.isSome = true := by simp [h]
  exact handleBytes_of_closed (isClosed_of_error herror) b' now' bs'

/-- A CONNECT as "c", a PUBACK that names no identifier, and a PINGREQ. -/
def zeroId : List UInt8 :=
  [0x10, 13, 0, 4, 77, 81, 84, 84, 4, 0, 0, 0, 0, 1, 99] ++ ([0x40, 2, 0, 0] ++ [0xc0, 0])

/-- The PUBACK breaks the connection off without a word to the client, and the PINGREQ is not looked at. -/
theorem handleBytes_refused_zeroId :
    let c := Connection.new 2 {} 0
    (c.handleBytes (.new {}) 0 zeroId).error = some (.missingPacketId .puback) ∧
      ∃ good bad rest, zeroId = good ++ (bad ++ rest) ∧
        ∃ code, BreaksOff (c.handleBytes (.new {}) 0 good) (c.handleBytes (.new {}) 0 zeroId) code
          (.missingPacketId .puback) := by
  intro c
  have herror : (c.handleBytes (.new {}) 0 zeroId).error = some (.missingPacketId .puback) := by decide +kernel
  obtain ⟨good, bad, rest, hbytes, -, -, -, -, ⟨code, -, hbreaks⟩, -⟩ := handleBytes_refused herror
  exact ⟨herror, good, bad, rest, hbytes, code, hbreaks⟩

end Connection

end Mqtt
