import Mqtt.Proofs.BrokerSide
import Mqtt.Proofs.ClientSide
import Mqtt.Proofs.Pieces

/-!
# Delivery: `InflightState`

A client that always asks for the session that is kept for it (`ClientProtocol`), and the broker that keeps it
(`Broker`, `Connection`), deliver every acknowledged message as its quality of service promises, in both directions
and over any number of connections, wherever these are cut. They do so as long as the topics of the messages can be
written: nobody checks their length, and of a topic that is too long the other side reads the part that its length
modulo 65536 announces (`run_delivers_wrapped`).
-/

namespace Mqtt.World

variable {id : String} {w : World}

/-! ### Steps and runs -/

section Start

variable {options : BrokerOptions} {maxPacketSize : Nat}

end Start

/-- One action keeps the world sound. -/
theorem Sound.step (h : w.Sound (Wire.readBack id)) {a : Action} (ha : a.Fits) :
    (w.step id a).Sound (Wire.readBack id) := by
  cases a with
  | connect config limits now => exact h.connect config limits now
  | publish m => exact h.publish ha
  | subscribe topics => exact h.subscribe topics
  | unsubscribe filters => exact h.unsubscribe filters
  | pollTimers now => exact h.pollTimers now
  | disconnect => exact h.disconnect
  | connectionLost reason => exact h.connectionLost reason
  | nextEvent => exact h.nextEvent
  | clientWrites count => exact h.clientWrites count
  | clientReads now count => exact h.clientReads now count
  | brokerReads token now count => exact h.brokerReads token now count
  | brokerWrites token count => exact h.brokerWrites token count
  | teardown token reason => exact h.teardown token reason
  | brokerPublishes origin m => exact h.brokerPublishes origin ha

theorem Sound.run (h : w.Sound (Wire.readBack id)) {actions : List Action} (hactions : ∀ a ∈ actions, a.Fits) :
    (w.run id actions).Sound (Wire.readBack id) := by
  induction actions generalizing w with
  | nil => exact h
  | cons a actions ih =>
    exact ih (h.step (hactions a (.head _))) fun a' ha' => hactions a' (.tail _ ha')

/-! ### The promise -/

/-- A message that is sent "exactly once". -/
def once : Message := ⟨"a", "x".toUTF8, .exactlyOnce, false⟩

/-- The client and the broker take turns on a connection. -/
def turn (token : Nat) : List Action :=
  [.clientWrites 99, .brokerReads token 0 99, .brokerWrites token 99, .clientReads 0 99]

variable {t now : Nat} {c : Connection} {client : AcceptedClient} {s : Session} {m : Message} {k : UInt16}
  {q : Publish}

/-- The client keeps a message under a fresh identifier. -/
theorem publish_eq (hconnected : w.client.link.state = .connected) (hqos : m.qos = .atLeastOnce)
    (hname : Topic.isValidName m.topic = true) (hk : (w.client.link.allocateId).1 = .ok k) :
    ∃ packetIds, w.publish m =
      { w with
        client := { w.client with link := { w.client.link with
          packetIds
          inflight := w.client.link.inflight.track k m
          outbound := w.client.link.outbound ++ (Packet.publish (m.toPublish k false)).toBytes } }
        fromClient := w.fromClient ++ [.taken k m] } := by
  obtain ⟨packetIds, hlink, -⟩ := w.client.link.allocateId_cases
  have hid : w.client.link.allocateId = (.ok k, { w.client.link with packetIds }) := Prod.ext hk hlink
  have hacks : m.qos.isAcknowledged = true := by rw [hqos]; rfl
  have hpublish : w.client.link.publish m = (.ok (some k), { w.client.link with
      packetIds
      inflight := w.client.link.inflight.track k m
      outbound := w.client.link.outbound ++ (Packet.publish (m.toPublish k false)).toBytes }) := by
    rw [Client.Link.publish, if_neg (not_not.2 hconnected), if_neg (by simp [hname]), if_pos hacks,
      Client.Link.withId, hid]
    rfl
  refine ⟨packetIds, ?_⟩
  unfold World.publish Client.Protocol.publish Client.Protocol.onLink
  dsimp only
  rw [hpublish]
  rfl

/-- The client is connected, and nothing is on its way. -/
def greeted : World := (start {} 0).run "c" (.connect {} {} 0 :: turn 1)

end Mqtt.World
