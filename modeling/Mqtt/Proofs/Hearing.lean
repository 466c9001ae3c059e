import Mqtt.Client.Protocol
import Mqtt.Proofs.Handshakes

/-!
# What a client may do with a packet: `ClientProtocol::handle_packet`

The counterpart of `Peer.Accepts` on the client's side. `Link.Hears` lists the ways in which a connected client
accepts a packet, with its replies and with what it reports; a client that is waiting for CONNACK accepts nothing
else, and then sends everything again (`Link.handle_ok`). A packet that is refused has changed nothing when its
handling fails, except that a CONNACK that turns the client down has already closed the connection; either way the
connection is closed once, for the error (`Link.close_of_refused`).
-/

namespace Mqtt.Client.Link

/-- Queueing packets writes them one behind the other, and does nothing else. -/
theorem foldl_send (ps : List Packet) (l : Link) :
    ps.foldl send l = { l with outbound := ps.foldl (fun bytes p => bytes ++ p.toBytes) l.outbound } := by
  induction ps generalizing l with
  | nil => rfl
  | cons p ps ih =>
    rw [List.foldl_cons, ih]
    rfl

/-- The link after a packet: what was answered, what was reported, and the handshakes. -/
def after (l : Link) (replies : List Packet) (events : List Event) (inflight : Inflight) : Link :=
  { l with
    inflight
    outbound := replies.foldl (fun bytes p => bytes ++ p.toBytes) l.outbound
    events := l.events ++ events }

/-- The ways in which a connected client accepts a packet. -/
inductive Hears (l : Link) : Packet → List Packet → List Event → Inflight → Prop
  | message {p : Publish} {deliver : Bool} {reply : Option Packet} {inflight : Inflight} :
      l.inflight.Takes p ⟨deliver, reply⟩ inflight →
      Hears l (.publish p) reply.toList
        (if deliver then [.message p.topic p.payload p.qos p.retain] else []) inflight
  | puback {id : UInt16} {inflight : Inflight} : l.inflight.Acks (.puback id) none inflight →
      Hears l (.puback id) [] (if l.inflight.publishes.contains id then [.acknowledged id] else []) inflight
  | pubrec {id : UInt16} {reply : Packet} {inflight : Inflight} :
      l.inflight.Acks (.pubrec id) (some reply) inflight → Hears l (.pubrec id) [reply] [] inflight
  | pubrel {id : UInt16} {reply : Packet} {inflight : Inflight} :
      l.inflight.Acks (.pubrel id) (some reply) inflight → Hears l (.pubrel id) [reply] [] inflight
  | pubcomp {id : UInt16} {inflight : Inflight} : l.inflight.Acks (.pubcomp id) none inflight →
      Hears l (.pubcomp id) [] (if l.inflight.releases.contains id then [.completed id] else []) inflight
  | subscribed (id : UInt16) (codes : List UInt8) :
      Hears l (.suback id codes) [] [.subscribed id codes] l.inflight
  | unsubscribed (id : UInt16) : Hears l (.unsuback id) [] [.unsubscribed id] l.inflight
  | ponged : Hears l .pingresp [] [] l.inflight

variable {l l' : Link} {now : Nat} {packet : Packet} {r : Refusal}

theorem handle_eq_ok : l.handle now packet = .ok l' ↔ (handlePacket now packet).run l = .ok () l' := by
  unfold handle
  cases (handlePacket now packet).run l <;> simp

theorem handle_eq_error : l.handle now packet = .error r ↔ (handlePacket now packet).run l = .error r.error r.link := by
  obtain ⟨e, l'⟩ := r
  unfold handle
  cases (handlePacket now packet).run l <;> simp

/-! ### Steps -/

theorem run_handleConnack (now : Nat) (present : Bool) (code : ConnackCode) (l : Link) :
    (handleConnack now present code).run l =
      if code ≠ .accepted then
        .error (.connectionRefused code) (l.close (some (Error.connectionRefused code).message))
      else .ok () (({ l with state := .connected, ping := .new l.keepAliveSeconds now } : Link).after l.inflight.resend
        [.connected present] l.inflight) := by
  unfold handleConnack
  by_cases hcode : code ≠ .accepted
  · rw [if_pos hcode, if_pos hcode]
    rfl
  · rw [if_neg hcode, if_neg hcode]
    simp only [EStateM.run_bind, EStateM.run_modify, foldl_send]
    rfl

theorem run_withInflight {α : Type} (f : Inflight.Handshaking α) (l : Link) : (withInflight f).run l =
    match f.run l.inflight with
    | .ok a inflight => .ok a { l with inflight }
    | .error e inflight => .error (.protocol e) { l with inflight } := by
  unfold withInflight
  rw [EStateM.run_bind, EStateM.run_get]
  dsimp only
  cases f.run l.inflight <;> rfl

/-- A step of a handshake, and what is done behind it. -/
theorem run_withInflight_bind {α : Type} (f : Inflight.Handshaking α) (g : α → Handling Unit) (l : Link) :
    (withInflight f >>= g).run l =
      match f.run l.inflight with
      | .ok a inflight => (g a).run { l with inflight }
      | .error e inflight => .error (.protocol e) { l with inflight } := by
  rw [EStateM.run_bind, run_withInflight]
  cases f.run l.inflight <;> rfl

/-- A PUBLISH is answered and reported, or refused without a change. -/
theorem handlePublish_cases (p : Publish) (l : Link) :
    (∃ replies events inflight, l.Hears (.publish p) replies events inflight ∧
      (handlePublish p).run l = .ok () (l.after replies events inflight)) ∨
    ∃ e, (handlePublish p).run l = .error e l := by
  unfold handlePublish
  rw [run_withInflight_bind]
  rcases hf : (Inflight.onPublish p).run l.inflight with ⟨⟨deliver, reply⟩, inflight⟩ | ⟨e, inflight⟩
  · refine .inl ⟨_, _, inflight, .message (Inflight.onPublish_ok hf), ?_⟩
    cases deliver <;> cases reply <;> simp [after, send, report]
  · obtain ⟨-, rfl⟩ := Inflight.onPublish_error hf
    exact .inr ⟨_, rfl⟩

/-- A packet is accepted in one of the ways of `Hears`, or refused without a change. -/
theorem handleConnected_cases (packet : Packet) (l : Link) :
    (∃ replies events inflight, l.Hears packet replies events inflight ∧
      (handleConnected packet).run l = .ok () (l.after replies events inflight)) ∨
    ∃ e, (handleConnected packet).run l = .error e l := by
  cases packet with
  | publish p => exact handlePublish_cases p l
  | puback id =>
    rw [handleConnected, run_withInflight_bind, Inflight.run_onPuback]
    by_cases hid : id = 0
    · exact .inr ⟨_, by rw [if_pos hid]⟩
    · refine .inl ⟨_, _, _, .puback (.puback hid), ?_⟩
      rw [if_neg hid, Std.ExtTreeMap.contains_eq_isSome_getElem?]
      cases l.inflight.publishes[id]? <;> simp [after, report]
  | pubrec id =>
    rw [handleConnected, run_withInflight_bind, Inflight.run_onPubrec]
    by_cases hid : id = 0
    · exact .inr ⟨_, by rw [if_pos hid]⟩
    · exact .inl ⟨_, _, _, .pubrec (.pubrec hid), by rw [if_neg hid]; simp [after, send]⟩
  | pubrel id =>
    rw [handleConnected, run_withInflight_bind, Inflight.run_onPubrel]
    by_cases hid : id = 0
    · exact .inr ⟨_, by rw [if_pos hid]⟩
    · exact .inl ⟨_, _, _, .pubrel (.pubrel hid), by rw [if_neg hid]; simp [after, send]⟩
  | pubcomp id =>
    rw [handleConnected, run_withInflight_bind, Inflight.run_onPubcomp]
    by_cases hid : id = 0
    · exact .inr ⟨_, by rw [if_pos hid]⟩
    · refine .inl ⟨_, _, _, .pubcomp (.pubcomp hid), ?_⟩
      rw [if_neg hid]
      cases l.inflight.releases.contains id <;> simp [after, report]
  | suback id codes =>
    by_cases hid : id = 0
    · exact .inr ⟨_, by rw [handleConnected, if_pos hid]; rfl⟩
    · exact .inl ⟨_, _, _, .subscribed id codes, by rw [handleConnected, if_neg hid]; rfl⟩
  | unsuback id =>
    by_cases hid : id = 0
    · exact .inr ⟨_, by rw [handleConnected, if_pos hid]; rfl⟩
    · exact .inl ⟨_, _, _, .unsubscribed id, by rw [handleConnected, if_neg hid]; rfl⟩
  | pingresp => exact .inl ⟨_, _, _, .ponged, by simp [handleConnected, after]⟩
  | connect | connack | subscribe | unsubscribe | pingreq | disconnect => exact .inr ⟨_, rfl⟩

theorem run_handlePacket (now : Nat) (packet : Packet) (l : Link) : (handlePacket now packet).run l =
    match l.state, packet with
    | .connecting, .connack present code => (handleConnack now present code).run l
    | .connecting, packet => .error (.protocol (.unexpectedPacket packet.type)) l
    | _, packet => (handleConnected packet).run l := by
  unfold handlePacket
  rw [EStateM.run_bind, EStateM.run_get]
  dsimp only
  cases l.state <;> cases packet <;> rfl

/-! ### Whole packets -/

/-- There is nothing else that a packet may come to. -/
theorem handle_cases (l : Link) (now : Nat) (packet : Packet) :
    (∃ l', l.handle now packet = .ok l' ∧
      ((l.state = .connecting ∧ ∃ present, packet = .connack present .accepted ∧
        l' = ({ l with state := .connected, ping := .new l.keepAliveSeconds now } : Link).after l.inflight.resend
          [.connected present] l.inflight) ∨
      (l.state ≠ .connecting ∧ ∃ replies events inflight, l.Hears packet replies events inflight ∧
        l' = l.after replies events inflight))) ∨
    ∃ r, l.handle now packet = .error r ∧ (r.link = l ∨ r.link = l.close (some r.error.message)) := by
  have hrun := run_handlePacket now packet l
  have hconnected := handleConnected_cases packet l
  split at hrun
  · next present code hstate =>
    rw [run_handleConnack] at hrun
    by_cases hcode : code = .accepted
    · subst hcode
      exact .inl ⟨_, handle_eq_ok.2 hrun, .inl ⟨hstate, present, rfl, rfl⟩⟩
    · -- the refusal has closed the connection already
      rw [if_pos hcode] at hrun
      exact .inr ⟨⟨_, _⟩, handle_eq_error.2 hrun, .inr rfl⟩
  · exact .inr ⟨⟨_, _⟩, handle_eq_error.2 hrun, .inl rfl⟩
  · next hstate _ =>
    rcases hconnected with ⟨replies, events, inflight, hhears, hok⟩ | ⟨e, herror⟩
    · exact .inl ⟨_, handle_eq_ok.2 (hrun.trans hok), .inr ⟨hstate, replies, events, inflight, hhears, rfl⟩⟩
    · exact .inr ⟨⟨_, _⟩, handle_eq_error.2 (hrun.trans herror), .inl rfl⟩

/-- A client that waits for CONNACK accepts one that accepts it, and sends everything again. -/
theorem handle_ok (h : l.handle now packet = .ok l') :
    (l.state = .connecting ∧ ∃ present, packet = .connack present .accepted ∧
      l' = ({ l with state := .connected, ping := .new l.keepAliveSeconds now } : Link).after l.inflight.resend
        [.connected present] l.inflight) ∨
    (l.state ≠ .connecting ∧ ∃ replies events inflight, l.Hears packet replies events inflight ∧
      l' = l.after replies events inflight) := by
  rcases l.handle_cases now packet with ⟨l'', hok, hcases⟩ | ⟨r, herror, -⟩
  · cases h.symm.trans hok
    exact hcases
  · cases h.symm.trans herror

theorem Refusal.state_close (r : Refusal) : r.close.state = .disconnected := by
  unfold close
  split
  · next hclosed => exact hclosed
  · rfl

/-- A packet that is refused closes the connection, once. -/
theorem close_of_refused (hopen : l.state ≠ .disconnected) (h : l.handle now packet = .error r) :
    r.close = l.close (some r.error.message) := by
  rcases l.handle_cases now packet with ⟨l', hok, -⟩ | ⟨r', herror, hlink⟩
  · cases h.symm.trans hok
  · cases h.symm.trans herror
    rcases hlink with hsame | hclosed
    · rw [Refusal.close, hsame, if_neg hopen]
    · rw [Refusal.close, hclosed]
      exact if_pos rfl

end Mqtt.Client.Link
