import Mqtt.Proofs.Exchange
import Mqtt.Session

/-!
# Both directions of a conversation

Each of two parties is the sender of one direction and the receiver of the other, and the packets of one
direction travel with the answers of the other. `Linked` puts the two together as one party sees them:
what comes in, what goes out, its own history and that of the other. It is symmetric, so what is said
here of the one who handles a packet is said of client and broker alike.
-/

namespace Mqtt

/-! ### Marks -/

/-- What the history of the other direction says when a packet is handled. -/
def Inflight.arrivals (s : Inflight) : Packet → Log
  | .publish p =>
    match p.packetId, (onPublish p).run s with
    | some id, .ok ⟨true, _⟩ _ => [.arrived id p.message]
    | _, _ => []
  | _ => []

/-- What the history of the own direction says when a packet is handled. -/
def Inflight.settlements (s : Inflight) : Packet → Log
  | .puback id => if s.publishes.contains id then [.acknowledged id] else []
  | .pubcomp id => if s.releases.contains id then [.completed id] else []
  | _ => []

/-- The identifier whose handshake a packet begins or carries on. -/
def Packet.handshake? : Packet → Option UInt16
  | .publish p => p.packetId
  | .puback id | .pubrec id | .pubrel id | .pubcomp id => some id
  | _ => none

/-- A PUBLISH that is not sent again was just kept under its identifier. -/
def Packet.taken? : Packet → Option Mark
  | .publish p => if p.dup then none else p.packetId.map (.taken · p.message)
  | _ => none

theorem Inflight.Takes.arrivals {s s' : Inflight} {p : Publish} {deliver : Bool} {reply : Option Packet}
    (h : s.Takes p ⟨deliver, reply⟩ s') {id : UInt16} (hp : p.packetId = some id) :
    s.arrivals (.publish p) = if deliver then [.arrived id p.message] else [] := by
  rw [Inflight.arrivals, hp, h.onPublish]
  cases deliver <;> rfl

theorem Inflight.arrivals_of_none {s : Inflight} {p : Publish} (hp : p.packetId = none) :
    s.arrivals (.publish p) = [] := by
  rw [Inflight.arrivals, hp]

/-! ### Handling a packet -/

/-- What a party has open, what comes in and goes out, and the histories of both directions. -/
def Linked (own other : Inflight) (incoming outgoing : List Packet) (mine theirs : Log) : Prop :=
  Exchange.Sound ⟨mine, own, other, outgoing, incoming⟩ ∧
    Exchange.Sound ⟨theirs, other, own, incoming, outgoing⟩

variable {own own' other : Inflight} {incoming outgoing : List Packet} {mine theirs : Log}

namespace Linked

theorem empty : Linked .empty .empty [] [] [] [] := ⟨Exchange.sound_empty, Exchange.sound_empty⟩

theorem symm (h : Linked own other incoming outgoing mine theirs) :
    Linked other own outgoing incoming theirs mine := ⟨h.2, h.1⟩

open Exchange

theorem within (h : Linked own other incoming outgoing mine theirs) {incoming' outgoing' : List Packet}
    (hin : Within incoming' incoming) (hout : Within outgoing' outgoing) :
    Linked own other incoming' outgoing' mine theirs :=
  ⟨h.1.within hout hin, h.2.within hin hout⟩

/-- Packets may overtake each other. -/
theorem perm (h : Linked own other incoming outgoing mine theirs) {outgoing' : List Packet}
    (hout : outgoing'.Perm outgoing) : Linked own other incoming outgoing' mine theirs :=
  ⟨h.1.perm hout (.refl incoming), h.2.perm (.refl incoming) hout⟩

/-- A packet that is handled is no longer on its way. -/
theorem dropped {p : Packet} (h : Linked own other (p :: incoming) outgoing mine theirs) :
    Linked own other incoming outgoing mine theirs :=
  h.within (.of_sublist (List.sublist_cons_self p incoming)) (.of_sublist (List.Sublist.refl outgoing))

/-- A PUBLISH is handled. -/
theorem takes {p : Publish} (h : Linked own other (.publish p :: incoming) outgoing mine theirs)
    {deliver : Bool} {reply : Option Packet} (htakes : own.Takes p ⟨deliver, reply⟩ own') :
    Linked own' other incoming (outgoing ++ reply.toList) mine
      (theirs ++ own.arrivals (.publish p)) := by
  cases hp : p.packetId with
  | none =>
    rw [Inflight.arrivals_of_none hp, List.append_nil]
    cases htakes with
    | atMostOnce =>
      rw [Option.toList_none, List.append_nil]
      exact h.dropped
    | atLeastOnce _ hid hne =>
      rw [hp, Option.getD_none] at hid
      exact absurd hid.symm hne
    | exactlyOnce _ hid hne =>
      rw [hp, Option.getD_none] at hid
      exact absurd hid.symm hne
  | some id =>
    rw [htakes.arrivals hp]
    refine ⟨h.dropped.1.congr fun id => ?_, h.2.takes rfl hp htakes⟩
    cases htakes <;> simp [slice]

/-- An acknowledgement is handled. -/
theorem acks {p : Packet} (h : Linked own other (p :: incoming) outgoing mine theirs)
    {reply : Option Packet} (hacks : own.Acks p reply own') :
    Linked own' other incoming (outgoing ++ reply.toList) (mine ++ own.settlements p) theirs := by
  cases hacks with
  | puback =>
    rw [Option.toList_none, List.append_nil]
    exact ⟨h.1.puback rfl, h.dropped.2⟩
  | @pubrec id =>
    rw [show own.settlements (.pubrec id) = [] from rfl, List.append_nil]
    refine ⟨h.1.pubrec rfl, h.dropped.2.congr fun id => ?_⟩
    simp [slice]
  | @pubrel id =>
    rw [show own.settlements (.pubrel id) = [] from rfl, List.append_nil]
    refine ⟨h.dropped.1.congr fun id => ?_, h.2.pubrel rfl⟩
    simp [slice]
  | pubcomp =>
    rw [Option.toList_none, List.append_nil]
    exact ⟨h.1.pubcomp rfl, h.dropped.2⟩

/-- A message is kept and sent. -/
theorem track (h : Linked own other incoming outgoing mine theirs) {m : Message} {id : UInt16}
    (hq : m.qos.isAcknowledged = true) (hfree : own.isInUse id = false) :
    Linked (own.track id m) other incoming (outgoing ++ [.publish (m.toPublish id false)])
      (mine ++ [.taken id m]) theirs := by
  refine ⟨h.1.track hq hfree, h.2.congr fun id => ?_⟩
  simp [slice, Inflight.track]

/-- Everything is sent again. -/
theorem resend (h : Linked own other incoming outgoing mine theirs)
    (hout : ∀ id, outgoing.filter (·.requests id) = [])
    (hin : ∀ id, incoming.filter (·.answers id) = []) :
    Linked own other incoming (outgoing ++ own.resend) mine theirs := by
  refine ⟨h.1.resend hout hin, h.2.congr fun id => ?_⟩
  have hnone : own.resend.filter (·.answers id) = [] := by
    refine List.filter_eq_nil_iff.2 fun p hp => ?_
    rcases mem_resend hp with ⟨_, _, _, rfl⟩ | ⟨_, _, rfl⟩ <;> simp
  simp [slice, hnone]

end Linked

end Mqtt
