import Mqtt.Proofs.Handling
import Mqtt.Proofs.Hub

/-!
# Bytes one by one: `Connection::handle_bytes`

What a connection does with the bytes of its client is a matter of five cases for each byte, and of a packet now
and then. They are told apart here and nowhere else: what is said of bytes is proved by these cases
(`Connection.bytes_induction`), with one equation of `Connection.receive` for each.
-/

namespace Mqtt

/-- What is made due for others than the connection itself. -/
def Hub.othersThan (token : Nat) (ds : List Delivery) : List Delivery := ds.filter fun d => !decide (d.token = token)

theorem Peer.token_distribute (p : Peer) (others : Array Delivery) (output : List Delivery) :
    (p.distribute others output).1.token = p.token := by
  rw [distribute_eq]

/-- A client that is refused is told what there is to tell. -/
theorem Peer.toList_closeOn (p : Peer) (r : Refusal) :
    (p.closeOn r).outbound.data.toList = p.outbound.data.toList ++ r.reply.toList.flatMap Packet.encode := by
  unfold closeOn
  cases r.reply with
  | none => simp
  | some q => simp [send, Packet.toBytes]

namespace Connection

/-- Bytes are taken in one by one. Nothing is done for a connection that is closed; otherwise a byte cannot be read,
or completes no packet yet, or completes one, which is refused or accepted. -/
@[elab_as_elim]
theorem bytes_induction (now max : Nat) {motive : Decoder.State → Peer → Broker → List UInt8 → Prop}
    (nil : ∀ s p b, motive s p b [])
    (closed : ∀ s p b bytes, p.isClosed = true → motive s p b bytes)
    (broken : ∀ s p b byte bytes s' e, p.isClosed = false → s.step max byte = (s', .error e) →
      motive s p b (byte :: bytes))
    (more : ∀ s p b byte bytes s', p.isClosed = false → s.step max byte = (s', .ok none) →
      motive s' p b bytes → motive s p b (byte :: bytes))
    (refused : ∀ s p b byte bytes s' packet r, p.isClosed = false → s.step max byte = (s', .ok (some packet)) →
      Peer.handle { p with keepAlive := p.keepAlive.restart now } b now packet = .error r →
      motive s p b (byte :: bytes))
    (handled : ∀ s p b byte bytes s' packet h, p.isClosed = false → s.step max byte = (s', .ok (some packet)) →
      Peer.handle { p with keepAlive := p.keepAlive.restart now } b now packet = .ok h →
      motive s' (h.peer.distribute #[] h.output).1 h.broker bytes → motive s p b (byte :: bytes))
    (s : Decoder.State) (p : Peer) (b : Broker) (bytes : List UInt8) : motive s p b bytes := by
  induction bytes generalizing s p b with
  | nil => exact nil s p b
  | cons byte bytes ih =>
    by_cases hclosed : p.isClosed = true
    · exact closed s p b _ hclosed
    have hopen : p.isClosed = false := by simpa using hclosed
    rcases hstep : s.step max byte with ⟨s', e | _ | packet⟩
    · exact broken s p b byte bytes s' e hopen hstep
    · exact more s p b byte bytes s' hopen hstep (ih s' p b)
    · rcases hh : Peer.handle { p with keepAlive := p.keepAlive.restart now } b now packet with r | h
      · exact refused s p b byte bytes s' packet r hopen hstep hh
      · exact handled s p b byte bytes s' packet h hopen hstep hh (ih _ _ _)

section Equations

variable {now max : Nat} {s s' : Decoder.State} {p : Peer} {b : Broker} {ds : Array Delivery} {byte : UInt8}
  {bytes : List UInt8}

/-- A closed connection looks at nothing. -/
theorem receive_of_closed (hp : p.isClosed = true) (now max : Nat) (s : Decoder.State) (b : Broker)
    (ds : Array Delivery) (bs : List UInt8) :
    receive now max s p b ds bs = ⟨⟨p, ⟨max, s⟩⟩, b, ds, none⟩ := by
  cases bs with
  | nil => rfl
  | cons byte bs => rw [receive, if_pos hp]

theorem receive_cons_error {e : ProtocolError} (hp : p.isClosed = false)
    (hstep : s.step max byte = (s', .error e)) :
    receive now max s p b ds (byte :: bytes) =
      ⟨⟨{ p with isClosed := true }, ⟨max, s'⟩⟩, b, ds, some e⟩ := by
  rw [receive, if_neg (by simp [hp]), hstep]

theorem receive_cons_none (hp : p.isClosed = false) (hstep : s.step max byte = (s', .ok none)) :
    receive now max s p b ds (byte :: bytes) = receive now max s' p b ds bytes := by
  rw [receive, if_neg (by simp [hp]), hstep]

theorem receive_cons_refused {packet : Packet} {r : Peer.Refusal} (hp : p.isClosed = false)
    (hstep : s.step max byte = (s', .ok (some packet)))
    (hh : Peer.handle { p with keepAlive := p.keepAlive.restart now } b now packet = .error r) :
    receive now max s p b ds (byte :: bytes) =
      ⟨⟨Peer.closeOn { p with keepAlive := p.keepAlive.restart now } r, ⟨max, s'⟩⟩, b, ds, some r.error⟩ := by
  obtain ⟨hbroker, -, hpeer⟩ := Peer.handled_of_refused hh
  obtain ⟨hclosed, hothers⟩ := hpeer ds
  rw [receive, if_neg (by simp [hp]), hstep]
  dsimp only
  rw [hh]
  dsimp only
  rw [hclosed, hothers, hbroker]

theorem receive_cons_handled {packet : Packet} {h : Peer.Handled} (hp : p.isClosed = false)
    (hstep : s.step max byte = (s', .ok (some packet)))
    (hh : Peer.handle { p with keepAlive := p.keepAlive.restart now } b now packet = .ok h) :
    receive now max s p b ds (byte :: bytes) =
      receive now max s' (h.peer.distribute #[] h.output).1 h.broker
        (ds ++ (Hub.othersThan h.peer.token h.output).toArray) bytes := by
  rw [receive, if_neg (by simp [hp]), hstep]
  dsimp only
  rw [hh]
  dsimp only
  rw [Peer.distribute_eq, Peer.distribute_eq]
  rfl

end Equations

end Connection

end Mqtt
