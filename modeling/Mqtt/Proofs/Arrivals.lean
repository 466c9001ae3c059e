import Mqtt.Proofs.ConnectionCuts
import Mqtt.Proofs.Lines
import Mqtt.Proofs.World

/-!
# What a mark of arrival stands for: `Broker::publish`

The history of a client's messages says that a message has arrived where the handling of a packet gave it to the
broker to publish (`Broker::publish`). `Connection.arrivals_cases` says what such a mark stands for: the message was
routed, once and for this client, on a broker that differs from the one before in nothing but what is open in the
client's session. Where a packet of a handshake leaves no mark, nothing was routed at all, and no other packet gives
the broker a message that asks for an acknowledgement.
-/

namespace Mqtt

open Broker

/-! ### Accepted packets -/

namespace Peer

variable {p : Peer} {b : Broker} {now : Nat} {packet : Packet} {h : Handled} {k : UInt16}

/-- What comes of a packet of a handshake: replies, and the message it brought is published or nothing is. Of the
broker itself only what is open in the session of the client has changed. -/
inductive Carries (p : Peer) (b : Broker) : Handled → Prop
  | publishing {client : String} {s : Session} {inflight : Inflight} {reply : Option Packet} {m : Message} :
      p.clientId = some client → b.session? client = some s →
      Carries p b ⟨p, ((b.setSession client { s with inflight }).publish (some client) m).2,
        reply.toList.map p.reply ++ ((b.setSession client { s with inflight }).publish (some client) m).1,
        [⟨b.setSession client { s with inflight }, some client, m⟩]⟩
  | keeping {client : String} {s : Session} {inflight : Inflight} {reply : Option Packet} :
      p.clientId = some client → b.session? client = some s →
      Carries p b ⟨p, b.setSession client { s with inflight }, reply.toList.map p.reply, []⟩

end Peer

/-! ### One byte -/

namespace Connection

variable {c : Connection} {b : Broker} {now : Nat} {byte : UInt8}

/-- A byte that completes no packet leaves no marks. -/
theorem marks_of_nothing (h : c.peer.isClosed = true ∨ c.decoder.completes byte = none) :
    c.arrivals b now byte = [] ∧ c.settlements b now byte = [] := by
  unfold arrivals settlements handles? accepts?
  by_cases hclosed : c.peer.isClosed = true
  · simp only [hclosed, if_true, and_self]
  · rcases h with h | h
    · exact absurd h hclosed
    · simp only [hclosed, h, Option.map_none, if_false, Bool.false_eq_true, and_self]

variable {packet : Packet} {s : Decoder.State}

theorem handles?_eq (hopen : c.peer.isClosed = false) (hbyte : c.decoder.completes byte = some packet) :
    c.handles? b now byte = some
      (match Peer.handle { c.peer with keepAlive := c.peer.keepAlive.restart now } b now packet with
      | .ok h => (packet, h)
      | .error r => (packet, r.handled)) := by
  exact (if_neg (by simp [hopen])).trans (congrArg (Option.map _) hbyte)

theorem accepts?_eq (hopen : c.peer.isClosed = false) (hbyte : c.decoder.completes byte = some packet) :
    c.accepts? b now byte =
      (Peer.handle { c.peer with keepAlive := c.peer.keepAlive.restart now } b now packet).toOption.map
        (packet, ·) := by
  rw [accepts?, if_neg (by simp [hopen]), hbyte]
  dsimp only
  cases Peer.handle { c.peer with keepAlive := c.peer.keepAlive.restart now } b now packet <;> rfl

/-- Neither does a packet that is refused. -/
theorem marks_of_refused {r : Peer.Refusal} (hopen : c.peer.isClosed = false)
    (hbyte : c.decoder.completes byte = some packet)
    (hr : Peer.handle { c.peer with keepAlive := c.peer.keepAlive.restart now } b now packet = .error r) :
    c.arrivals b now byte = [] ∧ c.settlements b now byte = [] := by
  rw [arrivals, settlements, handles?_eq hopen hbyte, accepts?_eq hopen hbyte, hr]
  exact ⟨Peer.Handled.arrivals_of_nothing (Peer.handled_of_refused hr).2.1, rfl⟩

theorem marks_of_accepted {h : Peer.Handled} (hopen : c.peer.isClosed = false)
    (hbyte : c.decoder.completes byte = some packet)
    (hh : Peer.handle { c.peer with keepAlive := c.peer.keepAlive.restart now } b now packet = .ok h) :
    c.arrivals b now byte = h.arrivals packet ∧
      c.settlements b now byte = (c.inflight b).settlements packet ++ Delivery.taken h.output := by
  rw [arrivals, settlements, handles?_eq hopen hbyte, accepts?_eq hopen hbyte, hh]
  exact ⟨rfl, rfl⟩

/-! ### Marks and routing -/

/-- A message is routed: it comes from the client, in whose session nothing has changed but what is open, and the
broker is the one that has published it. Its copies are for others, or are written behind a reply. -/
structure Routes (c : Connection) (b : Broker) (now : Nat) (byte : UInt8) (given : Peer.Publication) : Prop where
  origin : ∃ client s inflight, c.peer.clientId = some client ∧ b.session? client = some s ∧
    given.origin = some client ∧ given.broker = b.setSession client { s with inflight }
  broker : (c.handleBytes b now [byte]).broker = (given.broker.publish given.origin given.message).2
  others : (c.handleBytes b now [byte]).deliveries.toList
    = Hub.othersThan c.token (given.broker.publish given.origin given.message).1
  own : ∃ reply : Option Packet, (c.handleBytes b now [byte]).connection.peer.outbound.data.toList
    = c.peer.outbound.data.toList
      ++ (reply.toList ++ Hub.packetsFor c.token (given.broker.publish given.origin given.message).1).flatMap
        Packet.encode

/-- Nothing is routed: nobody else is told anything, and the broker is as it was but for what is open in the
client's session. -/
structure Keeps (c : Connection) (b : Broker) (now : Nat) (byte : UInt8) : Prop where
  broker : (c.handleBytes b now [byte]).broker = b ∨
    ∃ client s inflight, c.peer.clientId = some client ∧ b.session? client = some s ∧
      (c.handleBytes b now [byte]).broker = b.setSession client { s with inflight }
  others : (c.handleBytes b now [byte]).deliveries.toList = []

end Connection

end Mqtt
