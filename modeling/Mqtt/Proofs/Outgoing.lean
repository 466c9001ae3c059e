import Mqtt.Proofs.Switchboard

/-!
# What leaves the broker: `Packet::encode`

Two things are asked of messages at the doors of a broker. That they travel: a header can announce the PUBLISH of
each of them, with an identifier if need be. Both doors see to that, so everything a broker writes is well-formed
and is read as it was written (`Switchboard.run_wellFormed`). And that their topics are names: without wildcards,
and not too long. The door of PUBLISH sees to that and the door of wills does not, so the broker sends and keeps
no other topics but those of wills (`Switchboard.run_topics`), and a will with a wildcard gets through
(`Switchboard.strayWill_escapes`).
-/

namespace Mqtt

/-! ### Messages that travel -/

/-- The length of a PUBLISH of the message. -/
def Message.publishLength (m : Message) : Nat :=
  Wire.prefixedLength m.topic.utf8ByteSize + (if m.qos = .atMostOnce then 0 else 2) + m.payload.size

/-- A header can announce the PUBLISH of the message, with an identifier if it is to be acknowledged. -/
def Message.Travels (m : Message) : Prop := Wire.IsText m.topic ∧ m.publishLength ≤ RemainingLength.maxValue

namespace Message

variable {m : Message}

theorem publishLength_toPublish (m : Message) (id : UInt16) (dup : Bool) :
    Packet.publishLength (m.toPublish id dup) = m.publishLength := rfl

theorem Travels.wellFormed (hm : m.Travels) (id : UInt16) (dup : Bool) :
    (Packet.publish (m.toPublish id dup)).WellFormed := by
  refine ⟨⟨hm.1, ?_⟩, ?_⟩
  · simp only [toPublish]
    cases m.qos.isAcknowledged <;> rfl
  · rw [Packet.length_body, Packet.remainingLength, publishLength_toPublish]
    exact hm.2

/-- A lower quality of service takes no more bytes. -/
theorem Travels.outgoing (hm : m.Travels) (q : QoS) (retain : Bool) : (Session.outgoing m q retain).Travels := by
  refine ⟨hm.1, Nat.le_trans ?_ hm.2⟩
  have hlower : m.qos = .atMostOnce → (Session.outgoing m q retain).qos = .atMostOnce := by
    obtain ⟨topic, payload, qos, retain'⟩ := m
    rintro rfl
    cases q <;> rfl
  have hsame : (Session.outgoing m q retain).topic = m.topic ∧ (Session.outgoing m q retain).payload = m.payload :=
    ⟨rfl, rfl⟩
  rw [publishLength, publishLength, hsame.1, hsame.2]
  by_cases hq : m.qos = .atMostOnce
  · simp [hq, hlower hq]
  · rw [if_neg hq]
    split <;> omega

end Message

theorem Publish.message_travels {p : Publish} (hp : (Packet.publish p).WellFormed) : p.message.Travels := by
  refine ⟨hp.fields.1, ?_⟩
  have hlength := hp.length
  rw [Packet.length_body] at hlength
  exact hlength

/-- The fields of a will are short enough for a PUBLISH. -/
theorem Will.message_travels {w : Will} (hw : w.WellFormed) : w.message.Travels := by
  obtain ⟨htopic, hpayload⟩ := hw
  have hshort := htopic.1
  have hlength : w.message.publishLength =
      2 + w.topic.utf8ByteSize + (if w.qos = .atMostOnce then 0 else 2) + w.payload.size := rfl
  refine ⟨htopic, ?_⟩
  rw [hlength, RemainingLength.maxValue]
  split <;> omega

/-- What is asked for is that messages travel. -/
def Doors.travel : Doors where
  limits _ := True
  will := Message.Travels
  message := Message.Travels
  published _ hp _ _ := Publish.message_travels hp
  willed := Will.message_travels
  outgoing q retain hm := hm.outgoing q retain

/-- An identifier is there if one is due, and none is 0; without one nothing is marked as a duplicate. -/
def Packet.Identified : Packet → Prop
  | .publish p =>
    if p.qos.isAcknowledged then ∃ id, p.packetId = some id ∧ id ≠ 0 else p.packetId = none ∧ p.dup = false
  | .puback id | .pubrec id | .pubrel id | .pubcomp id | .suback id _ | .unsuback id => id ≠ 0
  | _ => True

namespace Packet.Told

theorem wellFormed {p : Packet} (h : p.Told Message.Travels) : p.WellFormed := by
  have hshort {q : Packet} (hfit : q.FieldsFit) (hlength : q.remainingLength ≤ 2) : q.WellFormed :=
    ⟨hfit, by rw [Packet.length_body]; exact Nat.le_trans hlength (by decide)⟩
  cases h with
  | publish dup hm _ => exact hm.wellFormed _ dup
  | suback _ hcodes hlength => exact ⟨hcodes, by rw [Packet.length_body]; exact hlength⟩
  | connack | puback | pubrec | pubrel | pubcomp | unsuback => exact hshort trivial (Nat.le_refl 2)
  | pingresp => exact hshort trivial (Nat.zero_le 2)

theorem identified {M : Message → Prop} {p : Packet} (h : p.Told M) : p.Identified := by
  cases h with
  | @publish m id dup _ hid =>
    simp only [Identified, Message.toPublish]
    split
    · next hq => exact ⟨id, rfl, hid hq⟩
    · next hq => simp [hq]
  | puback hid | pubrec hid | pubrel hid | pubcomp hid | suback hid | unsuback hid => exact hid
  | connack | pingresp => trivial

end Packet.Told

/-- **Everything the broker writes is well-formed.** In every run of connections on a new broker, whatever bytes
they bring, each packet that was queued at a connection and each one that waits to be brought to one has fields
and a body that can be announced, is read as it was written, and carries an identifier other than 0 exactly if
it needs one. And the bytes that a client has been given and those that are still to be written to it are, one
behind the other, the packets that were queued at its connection, in this order. -/
theorem Switchboard.run_wellFormed (options : BrokerOptions) (actions : List Action) :
    (∀ d ∈ ((start options).run actions).sent ++ ((start options).run actions).waiting,
      d.packet.WellFormed ∧
        Decoder.decodePacket d.packet.encode = .ok (some (d.packet, d.packet.encode.length)) ∧
        d.packet.Identified) ∧
    ∀ t, ((start options).run actions).drained t ++ ((start options).run actions).pending t =
      (Hub.packetsFor t ((start options).run actions).sent).flatMap Packet.encode := by
  have hlimits : ∀ a ∈ actions, a.Within Doors.travel.limits := fun a _ => by cases a <;> trivial
  have hw := (holding_start (D := Doors.travel) options).run hlimits fun _ _ hm => hm
  refine ⟨fun d hd => ?_, run_logged (.new options) actions⟩
  have htold : d.packet.Told Message.Travels := by
    rcases List.mem_append.1 hd with hd | hd
    · exact hw.sent d hd
    · exact hw.waiting d hd
  exact ⟨htold.wellFormed, Decoder.decodePacket_encode htold.wellFormed, htold.identified⟩

/-! ### Topics -/

/-- The topic is a name that is not too long, or one of these messages has it. -/
def Message.Named (L : Nat) (others : List Message) (m : Message) : Prop :=
  (Topic.isValidName m.topic = true ∧ m.topic.utf8ByteSize ≤ L) ∨ ∃ other ∈ others, other.topic = m.topic

/-- What is asked for is that topics are names, unless they are those of certain wills. -/
def Doors.names (L : Nat) (wills : List Message) : Doors where
  limits l := l.maxTopicLength ≤ L
  will _ := True
  message := Message.Named L wills
  published hlimits _ hname hlength := .inl ⟨hname, Nat.le_trans hlength hlimits⟩
  willed _ := trivial
  outgoing _ _ hm := hm

/-- **The broker sends and keeps no topics but names, and those of wills.** In every run of connections on a new
broker that allow topics of `L` bytes at most, whatever bytes they bring and however they end, each PUBLISH that
was queued at a connection or waits to be brought to one, and each message that is retained, has a topic without
wildcards that is not empty and not too long, unless a will with that topic was published in the run. -/
theorem Switchboard.run_topics (options : BrokerOptions) {L : Nat} {actions : List Action}
    (hactions : ∀ a ∈ actions, a.Within fun limits => limits.maxTopicLength ≤ L) :
    (∀ d ∈ ((start options).run actions).sent ++ ((start options).run actions).waiting,
      ∀ p, d.packet = .publish p → p.message.Named L ((start options).wills actions)) ∧
    ((start options).run actions).hub.broker.retained.Only (Message.Named L ((start options).wills actions)) := by
  have hw := (holding_start (D := Doors.names L ((start options).wills actions)) options).run hactions
    fun m hm _ => .inr ⟨m, hm, rfl⟩
  refine ⟨fun d hd p hp => ?_, hw.broker.retained⟩
  have htold : d.packet.Told (Message.Named L ((start options).wills actions)) := by
    rcases List.mem_append.1 hd with hd | hd
    · exact hw.sent d hd
    · exact hw.waiting d hd
  rw [hp] at htold
  cases htold with
  | publish dup hm _ => exact hm

/-- A client leaves a will for "a/#" that is to be retained, and its connection breaks while another one
subscribes to "a/+". -/
def Switchboard.strayWill : List Action :=
  [.accept 1 {} 0,
    .receive 1 0 [0x10, 21, 0, 4, 77, 81, 84, 84, 4, 0x26, 0, 0, 0, 1, 99, 0, 3, 97, 47, 35, 0, 1, 49],
    .accept 2 {} 0, .receive 2 0 [0x10, 13, 0, 4, 77, 81, 84, 84, 4, 2, 0, 0, 0, 1, 115],
    .receive 2 0 [0x82, 8, 0, 1, 0, 3, 97, 47, 43, 0], .teardown 1 .ungraceful]

/-- The topic that is sent is the topic of the will. -/
theorem Switchboard.run_topics_strayWill :
    (∀ a ∈ strayWill, a.Within fun limits => limits.maxTopicLength ≤ 65535) ∧
      (⟨"a/#", "1".toUTF8, .atMostOnce, false⟩ : Message).Named 65535 ((start {}).wills strayWill) := by
  have hactions : ∀ a ∈ strayWill, a.Within fun limits => limits.maxTopicLength ≤ 65535 := by
    simp [strayWill, Action.Within]
  have hwaits : ⟨2, .publish ⟨false, .atMostOnce, false, "a/#", none, "1".toUTF8⟩⟩ ∈
      ((start {}).run strayWill).sent ++ ((start {}).run strayWill).waiting := by decide +kernel
  exact ⟨hactions, (run_topics {} hactions).1 _ hwaits _ rfl⟩

/-- A will with a wildcard in its topic is sent to a subscriber, and retained. -/
theorem Switchboard.strayWill_escapes :
    Topic.isValidName "a/#" = false ∧
      ((start {}).run strayWill).waiting =
        [⟨2, .publish ⟨false, .atMostOnce, false, "a/#", none, "1".toUTF8⟩⟩] ∧
      ((start {}).run strayWill).hub.broker.retained.matching "a/+" =
        [⟨"a/#", "1".toUTF8, .atMostOnce, true⟩] := by
  decide +kernel

end Mqtt
