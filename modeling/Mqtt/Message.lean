import Mqtt.Packet

/-!
# Messages

What the broker routes and sessions store: a topic, a payload, the quality of service and the
retain flag. A PUBLISH is a message together with what one transmission of it needs.

Models `Message` with `to_publish` and its conversions from `Publish` and `Will`.
-/

namespace Mqtt

structure Message where
  topic : String
  payload : ByteArray
  qos : QoS
  retain : Bool
  deriving DecidableEq, Inhabited

namespace Message

/-- The PUBLISH that carries the message. Without acknowledgement there is neither an identifier
nor a duplicate mark. -/
def toPublish (m : Message) (id : UInt16) (dup : Bool) : Publish :=
  { dup := dup && m.qos.isAcknowledged, qos := m.qos, retain := m.retain, topic := m.topic,
    packetId := if m.qos.isAcknowledged then some id else none, payload := m.payload }

end Message

/-- The message a PUBLISH carries. -/
def Publish.message (p : Publish) : Message := ⟨p.topic, p.payload, p.qos, p.retain⟩

/-- The message a will leaves. -/
def Will.message (w : Will) : Message := ⟨w.topic, w.payload, w.qos, w.retain⟩

theorem Message.message_toPublish (m : Message) (id : UInt16) (dup : Bool) :
    (m.toPublish id dup).message = m := rfl

end Mqtt
