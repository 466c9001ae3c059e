import Mathlib.Data.List.Forall2
import Mqtt.Proofs.Lines
import Mqtt.Proofs.Switchboard

/-!
# Replies: `Connection::handle_packet`

What is written to a client is messages and replies. Replies come from three places: the connection makes some, the
handshakes of the session others, and messages may be delivered to the client itself in between. `Peer.Accepts.replies`
says what one packet is answered, whatever else it brings about, and `Connection.handleBytes_replies` that all the
packets of a client are answered one by one in the order in which they came.
-/

namespace Mqtt

/-! ### Requests and replies -/

namespace Packet

/-- The packet is a message. -/
def isPublish : Packet → Bool
  | .publish _ => true
  | _ => false

/-- The packet of a client is to be answered. -/
def asks : Packet → Bool
  | .publish p => p.qos.isAcknowledged
  | .pubrec _ | .pubrel _ | .subscribe _ _ | .unsubscribe _ _ | .pingreq => true
  | _ => false

/-- The answer to a packet of a client. -/
inductive AnsweredBy : Packet → Packet → Prop
  | puback {p : Publish} {id : UInt16} : p.qos = .atLeastOnce → p.packetId = some id →
      AnsweredBy (.publish p) (.puback id)
  /-- A message that came before is answered like a new one. -/
  | pubrec {p : Publish} {id : UInt16} : p.qos = .exactlyOnce → p.packetId = some id →
      AnsweredBy (.publish p) (.pubrec id)
  | pubrel (id : UInt16) : AnsweredBy (.pubrec id) (.pubrel id)
  | pubcomp (id : UInt16) : AnsweredBy (.pubrel id) (.pubcomp id)
  | suback (id : UInt16) {topics : List TopicRequest} {codes : List UInt8} : codes.length = topics.length →
      AnsweredBy (.subscribe id topics) (.suback id codes)
  | unsuback (id : UInt16) (filters : List String) : AnsweredBy (.unsubscribe id filters) (.unsuback id)
  | pingresp : AnsweredBy .pingreq .pingresp

/-- The requests among some packets are answered one by one in their order by what is no message among others. -/
def Replied (requests written : List Packet) : Prop :=
  List.Forall₂ AnsweredBy (requests.filter asks) (written.filter (!·.isPublish))

namespace Replied

variable {requests requests' written written' : List Packet}

theorem append (h : Replied requests written) (h' : Replied requests' written') :
    Replied (requests ++ requests') (written ++ written') := by
  unfold Replied
  rw [List.filter_append, List.filter_append]
  exact List.rel_append h h'

/-- Messages answer nothing. -/
theorem append_messages (h : Replied requests written) {messages : List Packet}
    (hmessages : ∀ q ∈ messages, q.isPublish = true) : Replied requests (written ++ messages) := by
  have hnone : messages.filter (!·.isPublish) = [] := by
    rw [List.filter_eq_nil_iff]
    intro q hq
    simp [hmessages q hq]
  unfold Replied
  rw [List.filter_append, hnone, List.append_nil]
  exact h

theorem nothing {request : Packet} (h : request.asks = false) : Replied [request] [] := by
  simp [Replied, h]

theorem single {request reply : Packet} (h : request.AnsweredBy reply) : Replied [request] [reply] := by
  have hreply : reply.isPublish = false := by cases h <;> rfl
  have hasks : request.asks = true := by
    cases h with
    | puback hq | pubrec hq => exact congrArg QoS.isAcknowledged hq
    | _ => rfl
  simp [Replied, hasks, hreply, h]

end Replied

end Packet

open Packet (Replied)

/-! ### What a packet is answered -/

namespace Inflight

variable {s inflight : Inflight}

theorem getD_zero {id? : Option UInt16} {id : UInt16} (h : id?.getD 0 = id) (hid : id ≠ 0) : id? = some id := by
  cases id? with
  | none => exact absurd h.symm hid
  | some _ => rw [← h]; rfl

theorem Takes.replied {p : Publish} {arrival : Arrival} (h : s.Takes p arrival inflight) :
    Replied [.publish p] arrival.reply.toList := by
  cases h with
  | atMostOnce hq => exact .nothing (congrArg QoS.isAcknowledged hq)
  | atLeastOnce hq hid hne => exact .single (.puback hq (getD_zero hid hne))
  | exactlyOnce hq hid hne => exact .single (.pubrec hq (getD_zero hid hne))

theorem Acks.replied {packet : Packet} {reply : Option Packet} (h : s.Acks packet reply inflight) :
    Replied [packet] reply.toList := by
  cases h with
  | puback | pubcomp => exact .nothing rfl
  | pubrec => exact .single (.pubrel _)
  | pubrel => exact .single (.pubcomp _)

end Inflight

namespace Broker

variable {b b' : Broker}

/-- What the broker sends is messages. -/
theorem Sends.isPublish {M : Message → Prop} {ds : List Delivery} (h : Sends M b ds b') :
    ∀ d ∈ ds, d.packet.isPublish = true := by
  intro d hd
  cases h.delivered d hd with
  | publish => rfl

theorem isPublish_publish (b : Broker) (origin : Option String) (m : Message) :
    ∀ d ∈ (b.publish origin m).1, d.packet.isPublish = true :=
  (b.publish_sends (M := fun _ => True) origin trivial).isPublish

theorem isPublish_subscribe (b : Broker) (client filter : String) (q : QoS) :
    ∀ d ∈ (b.subscribe client filter q).2.1, d.packet.isPublish = true := by
  unfold subscribe
  split
  · exact List.forall_mem_nil _
  · exact (replayRetained_sends (M := fun _ => True) (RetainTree.only_of_forall fun _ => trivial) client filter
      (min q b.options.maxQoS)).isPublish

/-- There is a code for each filter, and nothing but messages is delivered. -/
theorem subscribeAll_replies (client : String) (topics : List TopicRequest) (b : Broker) :
    (Peer.subscribeAll b client topics).1.length = topics.length ∧
      ∀ d ∈ (Peer.subscribeAll b client topics).2.1, d.packet.isPublish = true := by
  induction topics generalizing b with
  | nil => exact ⟨rfl, List.forall_mem_nil _⟩
  | cons t ts ih =>
    obtain ⟨hlength, hmessages⟩ := ih (b.subscribe client t.filter t.qos).2.2
    refine ⟨congrArg (· + 1) hlength, ?_⟩
    intro d hd
    rcases List.mem_append.1 hd with hd | hd
    · exact b.isPublish_subscribe client t.filter t.qos d hd
    · exact hmessages d hd

end Broker

namespace Peer

open Hub (packetsFor)

variable {p : Peer} {b : Broker} {now : Nat} {packet : Packet} {h : Handled}

/-- Replies are for the client itself. -/
theorem replied_reply {requests replies : List Packet} (hreplied : Replied requests replies) :
    Replied requests (packetsFor p.token (replies.map p.reply)) := by
  rw [packetsFor_reply]
  exact hreplied

/-- Messages that it gets besides answer nothing. -/
theorem replied_packetsFor {requests replies : List Packet} {ds : List Delivery} (hreplied : Replied requests replies)
    (hmessages : ∀ d ∈ ds, d.packet.isPublish = true) :
    Replied requests (packetsFor p.token (replies.map p.reply ++ ds)) := by
  rw [Hub.packetsFor_append]
  refine (replied_reply hreplied).append_messages ?_
  intro q hq
  obtain ⟨d, hd, rfl⟩ := List.mem_map.1 hq
  exact hmessages d (List.mem_of_mem_filter hd)

/-- **One packet of a client** that was let in is answered once, or not at all if it asks for nothing. -/
theorem Accepts.replies (ha : Accepts p b now packet h) (hclient : p.client.isSome = true) :
    Replied [packet] (packetsFor p.token h.output) ∧ h.peer.client.isSome = true := by
  have hnone (hp : p.client = none) : False := by
    rw [hp] at hclient
    cases hclient
  cases ha with
  | fresh hp => exact (hnone hp).elim
  | resumed hp => exact (hnone hp).elim
  | routed _ _ htakes => exact ⟨replied_packetsFor htakes.replied (Broker.isPublish_publish _ _ _), hclient⟩
  | repeated _ _ htakes => exact ⟨replied_reply htakes.replied, hclient⟩
  | acknowledged _ _ hacks => exact ⟨replied_reply hacks.replied, hclient⟩
  | @subscribed client id topics =>
    obtain ⟨hlength, hmessages⟩ := Broker.subscribeAll_replies client.id topics b
    exact ⟨replied_packetsFor (.single (.suback id hlength)) hmessages, hclient⟩
  | @unsubscribed _ id filters =>
    have hreply : Replied [.unsubscribe id filters] [.unsuback id] := .single (.unsuback id filters)
    exact ⟨replied_reply hreply, hclient⟩
  | pinged =>
    have hreply : Replied [.pingreq] [.pingresp] := .single .pingresp
    exact ⟨replied_reply hreply, hclient⟩
  | left => exact ⟨.nothing rfl, (isSome_client_handleDisconnect p).trans hclient⟩

end Peer

/-! ### What bytes are answered -/

/-- The packet that an operation handles. -/
def Broker.Operation.packet? : Operation → Option Packet
  | .packet _ _ request => some request
  | _ => none

namespace Connection

open Hub (packetsFor)

variable {now max : Nat} {s : Decoder.State} {p : Peer} {b : Broker} {bytes : List UInt8}

/-- The packets that a connection handles when its client's bytes come in. -/
def requests (c : Connection) (b : Broker) (now : Nat) (bytes : List UInt8) : List Packet :=
  (operations now c.decoder.maxPacketSize c.decoder.state c.peer b bytes).filterMap Broker.Operation.packet?

/-- The packets that it writes to its own client then. -/
def written (c : Connection) (b : Broker) (now : Nat) (bytes : List UInt8) : List Packet :=
  packetsFor c.peer.token (output now c.decoder.maxPacketSize c.decoder.state c.peer b bytes)

theorem receive_replied (now max : Nat) (bytes : List UInt8) (s : Decoder.State) (p : Peer) (b : Broker)
    (ds : Array Delivery) (hclient : p.client.isSome = true) (herror : (receive now max s p b ds bytes).error = none) :
    Replied ((operations now max s p b bytes).filterMap Broker.Operation.packet?)
      (packetsFor p.token (output now max s p b bytes)) := by
  have hnothing : Replied [] [] := .nil
  induction s, p, b, bytes using bytes_induction now max generalizing ds with
  | nil s p b => exact hnothing
  | closed s p b bytes hclosed =>
    rw [operations_of_closed hclosed, output_of_closed hclosed]
    exact hnothing
  | broken s p b byte bytes s' e hopen hstep =>
    rw [receive_cons_error hopen hstep] at herror
    cases herror
  | more s p b byte bytes s' hopen hstep ih =>
    rw [receive_cons_none hopen hstep] at herror
    rw [operations_cons_none hopen hstep, output_cons_none hopen hstep]
    exact ih ds hclient herror
  | refused s p b byte bytes s' packet r hopen hstep hh =>
    rw [receive_cons_refused hopen hstep hh] at herror
    cases herror
  | handled s p b byte bytes s' packet h hopen hstep hh ih =>
    obtain ⟨hreplied, hclient'⟩ := (Peer.handle_ok hh).2.replies hclient
    have hsame := Peer.token_of_handle hh
    have htoken : (h.peer.distribute #[] h.output).1.token = p.token := by
      rw [Peer.token_distribute, hsame]
    have hafter : (h.peer.distribute #[] h.output).1.client.isSome = true := by
      rw [Peer.distribute_eq]
      exact hclient'
    rw [receive_cons_handled hopen hstep hh] at herror
    have hrest := ih _ hafter herror
    rw [htoken] at hrest
    rw [operations_cons_handled hopen hstep hh, output_cons_handled hopen hstep hh, Hub.packetsFor_append]
    exact hreplied.append hrest

/-- **Every request is answered once, in its turn.** A connection whose client was let in takes in bytes without an
error, whatever the broker holds and whatever the bytes bring. Of the packets that are written to its client then,
those that are no messages are one answer to each packet of the client that asks for one, in the order of these,
whichever messages are in between. -/
theorem handleBytes_replies {c : Connection} (hc : c.peer.state = .connected) (b : Broker) (now : Nat)
    {bytes : List UInt8} (herror : (c.handleBytes b now bytes).error = none) :
    (c.handleBytes b now bytes).connection.peer.outbound.data.toList =
        c.peer.outbound.data.toList ++ (c.written b now bytes).flatMap Packet.encode ∧
      Replied (c.requests b now bytes) (c.written b now bytes) := by
  have hclient := (Peer.state_eq_connected_iff.1 hc).2
  have hwritten := (receive_output now c.decoder.maxPacketSize bytes c.decoder.state c.peer b #[]).2
  exact ⟨hwritten, receive_replied now _ bytes _ c.peer b #[] hclient herror⟩

/-- A client subscribes to its own messages, publishes one of each kind and pings. -/
def chatter : List UInt8 :=
  [0x82, 6, 0, 1, 0, 1, 116, 1] ++ [0x30, 3, 0, 1, 116] ++ [0x32, 5, 0, 1, 116, 0, 7] ++
    [0x34, 5, 0, 1, 116, 0, 8] ++ [0x62, 2, 0, 8] ++ [0xc0, 0]

/-- A connection that was let in, with the session of its client. -/
def welcome : Received :=
  (Connection.new 2 {} 0).handleBytes (.new {}) 0 [0x10, 13, 0, 4, 77, 81, 84, 84, 4, 2, 0, 0, 0, 1, 99]

/-- It gets five replies, and three messages in between. -/
theorem handleBytes_replies_chatter :
    let c := welcome.connection
    c.peer.state = .connected ∧ (c.handleBytes welcome.broker 0 chatter).error = none ∧
      (c.written welcome.broker 0 chatter).map Packet.type =
        [.suback, .publish, .puback, .publish, .pubrec, .publish, .pubcomp, .pingresp] ∧
      Replied (c.requests welcome.broker 0 chatter) (c.written welcome.broker 0 chatter) := by
  intro c
  have hc : c.peer.state = .connected := by decide +kernel
  have herror : (c.handleBytes welcome.broker 0 chatter).error = none := by decide +kernel
  exact ⟨hc, herror, by decide +kernel, (handleBytes_replies hc welcome.broker 0 herror).2⟩

end Connection

end Mqtt
