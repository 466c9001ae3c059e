import Mqtt.Proofs.Handshakes
import Mqtt.Proofs.Marks

/-!
# One direction of a conversation: `InflightState`

A sender and a receiver exchange packets over two pipes that may lose whatever is in them. For each
identifier `Handshake` says how the history, the open handshakes on both sides and the packets on their
way hang together. Two facts carry it: at most one packet of an identifier is on its way at a time, and
the receiver remembers a message sent "exactly once" until the sender has given its identifier up for
release.

Every step of a handshake keeps it, and so does the loss of packets; sending everything again keeps it
as soon as nothing is on its way.
-/

namespace Mqtt

/-- The packet is the sender's and has to do with the identifier. -/
def Packet.requests (id : UInt16) : Packet → Bool
  | .publish p => p.packetId = some id
  | .pubrel id' => id' = id
  | _ => false

/-- The packet is the receiver's and has to do with the identifier. -/
def Packet.answers (id : UInt16) : Packet → Bool
  | .puback id' | .pubrec id' | .pubcomp id' => id' = id
  | _ => false

namespace Packet

variable (id id' : UInt16) (p : Publish)

@[simp] theorem requests_publish : requests id (.publish p) = decide (p.packetId = some id) := rfl
@[simp] theorem requests_pubrel : requests id (.pubrel id') = decide (id' = id) := rfl
@[simp] theorem requests_puback : requests id (.puback id') = false := rfl
@[simp] theorem requests_pubrec : requests id (.pubrec id') = false := rfl
@[simp] theorem requests_pubcomp : requests id (.pubcomp id') = false := rfl
@[simp] theorem answers_publish : answers id (.publish p) = false := rfl
@[simp] theorem answers_pubrel : answers id (.pubrel id') = false := rfl
@[simp] theorem answers_puback : answers id (.puback id') = decide (id' = id) := rfl
@[simp] theorem answers_pubrec : answers id (.pubrec id') = decide (id' = id) := rfl
@[simp] theorem answers_pubcomp : answers id (.pubcomp id') = decide (id' = id) := rfl

/-- A message has to do with the identifier it is sent under, if it is sent under one. -/
theorem eq_of_requests_toPublish {m : Message} {id id' : UInt16} {dup : Bool}
    (h : requests id (.publish (m.toPublish id' dup)) = true) : m.qos.isAcknowledged = true ∧ id' = id := by
  have hid : (if m.qos.isAcknowledged then some id' else none) = some id := of_decide_eq_true h
  split at hid
  · next hq => exact ⟨hq, Option.some.inj hid⟩
  · cases hid

end Packet

/-- The PUBLISH of a message. -/
def Packet.Carries (m : Message) : Packet → Prop
  | .publish p => p.message = m
  | _ => False

/-- All that has to do with one identifier. -/
structure Slice where
  /-- What the history says the identifier stands for. -/
  lane : Option Lane
  /-- The message the sender keeps. -/
  kept : Option Message
  /-- The sender waits for PUBCOMP. -/
  released : Bool
  /-- The receiver waits for PUBREL. -/
  received : Bool
  /-- On their way to the receiver. -/
  requests : List Packet
  /-- On their way to the sender. -/
  answers : List Packet

/-- A request or its answer is on its way, or neither is. -/
inductive Flight (request answer : Packet → Prop) : List Packet → List Packet → Prop
  | lost : Flight request answer [] []
  | there {p : Packet} : request p → Flight request answer [p] []
  | back {p : Packet} : answer p → Flight request answer [] [p]

theorem eq_of_sublist_singleton {ps : List Packet} {p : Packet} (h : ps.Sublist [p]) :
    ps = [] ∨ ps = [p] := by
  rcases List.sublist_cons_iff.1 h with h | ⟨rest, rfl, hrest⟩
  · exact .inl (List.sublist_nil.1 h)
  · rw [List.sublist_nil.1 hrest]
    exact .inr rfl

theorem Flight.sublist {request answer : Packet → Prop} {there back there' back' : List Packet}
    (h : Flight request answer there back) (hthere : there'.Sublist there) (hback : back'.Sublist back) :
    Flight request answer there' back' := by
  cases h with
  | lost =>
    rw [List.sublist_nil.1 hthere, List.sublist_nil.1 hback]
    exact .lost
  | there hp =>
    rw [List.sublist_nil.1 hback]
    rcases eq_of_sublist_singleton hthere with rfl | rfl
    · exact .lost
    · exact .there hp
  | back hp =>
    rw [List.sublist_nil.1 hthere]
    rcases eq_of_sublist_singleton hback with rfl | rfl
    · exact .lost
    · exact .back hp

/-- Where the message of an identifier can be. -/
inductive Handshake (id : UInt16) : Slice → Prop
  | idle : Handshake id ⟨some .free, none, false, false, [], []⟩
  /-- Sent "at least once" and not acknowledged. -/
  | once {m : Message} {n : Nat} {there back : List Packet} : m.qos = .atLeastOnce →
      Flight (Packet.Carries m) (fun p => p = .puback id ∧ 0 < n) there back →
      Handshake id ⟨some (.busy m n), some m, false, false, there, back⟩
  /-- Sent "exactly once" and perhaps received, without the sender knowing. -/
  | receiving {m : Message} {received : Bool} {there back : List Packet} : m.qos = .exactlyOnce →
      Flight (Packet.Carries m) (fun p => p = .pubrec id ∧ received = true) there back →
      Handshake id ⟨some (.busy m received.toNat), some m, false, received, there, back⟩
  /-- Received, and perhaps forgotten by the receiver, without the sender knowing. -/
  | releasing {m : Message} {received : Bool} {there back : List Packet} : m.qos = .exactlyOnce →
      Flight (· = .pubrel id) (fun p => p = .pubcomp id ∧ received = false) there back →
      Handshake id ⟨some (.busy m 1), none, true, received, there, back⟩

namespace Handshake

variable {id : UInt16} {s : Slice}

theorem sublist (h : Handshake id s) {requests answers : List Packet}
    (hrequests : requests.Sublist s.requests) (hanswers : answers.Sublist s.answers) :
    Handshake id { s with requests, answers } := by
  cases h with
  | idle =>
    rw [List.sublist_nil.1 hrequests, List.sublist_nil.1 hanswers]
    exact .idle
  | once hq hflight => exact .once hq (hflight.sublist hrequests hanswers)
  | receiving hq hflight => exact .receiving hq (hflight.sublist hrequests hanswers)
  | releasing hq hflight => exact .releasing hq (hflight.sublist hrequests hanswers)

/-- At most one packet of an identifier is on its way. -/
theorem single (h : Handshake id s) : s.requests.length ≤ 1 ∧ s.answers.length ≤ 1 := by
  have hflight {request answer : Packet → Prop} {there back : List Packet}
      (h : Flight request answer there back) : there.length ≤ 1 ∧ back.length ≤ 1 := by
    cases h <;> simp
  cases h with
  | idle => simp
  | once _ h | receiving _ h | releasing _ h => exact hflight h

theorem lane_of_kept (h : Handshake id s) {m : Message} (hkept : s.kept = some m) :
    ∃ n, s.lane = some (.busy m n) := by
  cases h with
  | idle | releasing => cases hkept
  | once | receiving =>
    cases hkept
    exact ⟨_, rfl⟩

theorem lane_of_released (h : Handshake id s) (hreleased : s.released = true) :
    ∃ m : Message, m.qos = .exactlyOnce ∧ s.lane = some (.busy m 1) := by
  cases h with
  | idle | once | receiving => cases hreleased
  | releasing hq => exact ⟨_, hq, rfl⟩

/-- The history of every identifier is one that may be. -/
theorem lane_isSome (h : Handshake id s) : s.lane.isSome = true := by
  cases h <;> rfl

/-! What is known once one part is known. -/

theorem free (h : Handshake id s) (hkept : s.kept = none) (hreleased : s.released = false) :
    s = ⟨some .free, none, false, false, [], []⟩ := by
  cases h with
  | idle => rfl
  | once | receiving => cases hkept
  | releasing => cases hreleased

theorem publish (h : Handshake id s) {p : Publish} {rest : List Packet}
    (hs : s.requests = .publish p :: rest) :
    (∃ n, p.qos = .atLeastOnce ∧
      s = ⟨some (.busy p.message n), some p.message, false, false, [.publish p], []⟩) ∨
    (∃ received : Bool, p.qos = .exactlyOnce ∧
      s = ⟨some (.busy p.message received.toNat), some p.message, false, received, [.publish p], []⟩) := by
  cases h with
  | idle => cases hs
  | once hq hflight =>
    cases hflight with
    | lost | back => cases hs
    | there hp =>
      cases hs
      cases hp
      exact .inl ⟨_, hq, rfl⟩
  | receiving hq hflight =>
    cases hflight with
    | lost | back => cases hs
    | there hp =>
      cases hs
      cases hp
      exact .inr ⟨_, hq, rfl⟩
  | releasing hq hflight =>
    cases hflight with
    | lost | back => cases hs
    | there hp =>
      cases hs
      cases hp

theorem pubrel (h : Handshake id s) {id' : UInt16} {rest : List Packet}
    (hs : s.requests = .pubrel id' :: rest) :
    ∃ (m : Message) (received : Bool), m.qos = .exactlyOnce ∧
      s = ⟨some (.busy m 1), none, true, received, [.pubrel id], []⟩ := by
  cases h with
  | idle => cases hs
  | once hq hflight | receiving hq hflight =>
    cases hflight with
    | lost | back => cases hs
    | there hp =>
      cases hs
      cases hp
  | releasing hq hflight =>
    cases hflight with
    | lost | back => cases hs
    | there hp =>
      cases hp
      exact ⟨_, _, hq, rfl⟩

/-- What the sender hears is the answer to what it waits for. -/
theorem answer (h : Handshake id s) {p : Packet} {rest : List Packet} (hs : s.answers = p :: rest) :
    (∃ (m : Message) (n : Nat), m.qos = .atLeastOnce ∧ 0 < n ∧ p = .puback id ∧
      s = ⟨some (.busy m n), some m, false, false, [], [p]⟩) ∨
    (∃ m : Message, m.qos = .exactlyOnce ∧ p = .pubrec id ∧
      s = ⟨some (.busy m 1), some m, false, true, [], [p]⟩) ∨
    (∃ m : Message, m.qos = .exactlyOnce ∧ p = .pubcomp id ∧
      s = ⟨some (.busy m 1), none, true, false, [], [p]⟩) := by
  cases h with
  | idle => cases hs
  | once hq hflight =>
    cases hflight with
    | lost | there => cases hs
    | back hp =>
      cases hs
      exact .inl ⟨_, _, hq, hp.2, hp.1, rfl⟩
  | receiving hq hflight =>
    cases hflight with
    | lost | there => cases hs
    | back hp =>
      cases hs
      obtain ⟨hp, rfl⟩ := hp
      exact .inr (.inl ⟨_, hq, hp, rfl⟩)
  | releasing hq hflight =>
    cases hflight with
    | lost | there => cases hs
    | back hp =>
      cases hs
      obtain ⟨hp, rfl⟩ := hp
      exact .inr (.inr ⟨_, hq, hp, rfl⟩)

/-- When nothing is on its way, what the sender keeps may be. -/
theorem resend (h : Handshake id s) {publishes releases : List Packet} (hanswers : s.answers = [])
    (hpublishes : publishes = [] ∨ ∃ m, s.kept = some m ∧ publishes = [.publish (m.toPublish id true)])
    (hreleases : releases = [] ∨ s.released = true ∧ releases = [.pubrel id]) :
    Handshake id { s with requests := publishes ++ releases } := by
  have hcarries (m : Message) : Packet.Carries m (.publish (m.toPublish id true)) := m.message_toPublish id true
  cases h with
  | idle =>
    rcases hpublishes with rfl | ⟨m, hkept, -⟩
    · rcases hreleases with rfl | ⟨hreleased, -⟩
      · exact .idle
      · cases hreleased
    · cases hkept
  | once hq =>
    subst hanswers
    rcases hreleases with rfl | ⟨hreleased, -⟩
    · rcases hpublishes with rfl | ⟨m, hkept, rfl⟩
      · exact .once hq .lost
      · cases hkept
        exact .once hq (.there (hcarries _))
    · cases hreleased
  | receiving hq =>
    subst hanswers
    rcases hreleases with rfl | ⟨hreleased, -⟩
    · rcases hpublishes with rfl | ⟨m, hkept, rfl⟩
      · exact .receiving hq .lost
      · cases hkept
        exact .receiving hq (.there (hcarries _))
    · cases hreleased
  | releasing hq =>
    subst hanswers
    rcases hpublishes with rfl | ⟨m, hkept, -⟩
    · rcases hreleases with rfl | ⟨-, rfl⟩
      · exact .releasing hq .lost
      · exact .releasing hq (.there rfl)
    · cases hkept

end Handshake

/-- The history tells what the sender keeps. -/
structure Log.Tracked (log : Log) (s : Inflight) : Prop where
  /-- A message that is kept is the one for which its identifier was taken last, -/
  kept : ∀ (id : UInt16) (m : Message), s.publishes[id]? = some m →
    ∃ before after, log = before ++ .taken id m :: after ∧ ∀ x ∈ after, x.takes id = false
  /-- one that waits for PUBCOMP was passed on, -/
  released : ∀ id : UInt16, s.releases.contains id = true →
    ∃ before m after, log = before ++ .taken id m :: after ∧ (∀ x ∈ after, x.takes id = false) ∧
      m.qos = .exactlyOnce ∧ arrivals (life id after) = [m]
  /-- and no other is given up before it is settled. -/
  settled : ∀ before (id : UInt16) m after, log = before ++ .taken id m :: after →
    s.isInUse id = false ∨ (∃ x ∈ after, x.takes id = true) →
    .acknowledged id ∈ life id after ∨ .completed id ∈ life id after

/-- One direction: its history, the open handshakes of both sides and what is on its way. -/
structure Exchange where
  log : Log
  sender : Inflight
  receiver : Inflight
  there : List Packet
  back : List Packet

namespace Exchange

def slice (x : Exchange) (id : UInt16) : Slice :=
  { lane := x.log.lane id
    kept := x.sender.publishes[id]?
    released := x.sender.releases.contains id
    received := x.receiver.received.contains id
    requests := x.there.filter (·.requests id)
    answers := x.back.filter (·.answers id) }

/-- The handshake of every identifier is where it can be. -/
def Sound (x : Exchange) : Prop := ∀ id, Handshake id (x.slice id)

variable {x x' : Exchange} {id : UInt16}

theorem Sound.congr (h : x.Sound) (hsame : ∀ id, x'.slice id = x.slice id) : x'.Sound := by
  intro id
  rw [hsame]
  exact h id

/-- A step that has to do with one identifier. -/
theorem Sound.change (h : x.Sound) (id : UInt16) (hothers : ∀ other, id ≠ other → x'.slice other = x.slice other)
    (hid : Handshake id (x'.slice id)) : x'.Sound := by
  intro other
  by_cases hother : id = other
  · exact hother ▸ hid
  · rw [hothers other hother]
    exact h other

theorem sound_empty : Sound ⟨[], .empty, .empty, [], []⟩ := fun id => by
  have hslice : slice ⟨[], .empty, .empty, [], []⟩ id = ⟨some .free, none, false, false, [], []⟩ := by
    simp [slice, Inflight.empty]
  rw [hslice]
  exact .idle

/-- The history keeps the promise. -/
theorem Sound.kept (h : x.Sound) : x.log.Kept := Log.kept_of_lane fun id => (h id).lane_isSome

/-- The history tells what the sender keeps. -/
theorem Sound.tracked (h : x.Sound) : x.log.Tracked x.sender where
  kept id m hm := by
    obtain ⟨n, hbusy⟩ := (h id).lane_of_kept hm
    obtain ⟨before, after, hlog, hafter, -⟩ := Log.taken_of_lane hbusy
    exact ⟨before, after, hlog, hafter⟩
  released id hid := by
    obtain ⟨m, hq, hbusy⟩ := (h id).lane_of_released hid
    obtain ⟨before, after, hlog, hafter, harrivals⟩ := Log.taken_of_lane hbusy
    exact ⟨before, m, after, hlog, hafter, hq, harrivals⟩
  settled before id m after hlog hnext := by
    have hlane : (x.log.lane id).isSome := (h id).lane_isSome
    rw [hlog] at hlane
    refine Log.settled_of_lane hlane (hnext.imp_left fun hfree => ?_)
    unfold Inflight.isInUse at hfree
    rw [Bool.or_eq_false_iff, Std.ExtTreeMap.contains_eq_isSome_getElem?, Option.isSome_eq_false_iff,
      Option.isNone_iff_eq_none] at hfree
    rw [← hlog]
    exact congrArg Slice.lane ((h id).free hfree.1 hfree.2)

/-! ### Losing packets -/

/-- There is no more of any handshake in a pipe than in another. -/
def Within (ps qs : List Packet) : Prop :=
  ∀ id, (ps.filter (·.requests id)).Sublist (qs.filter (·.requests id)) ∧
    (ps.filter (·.answers id)).Sublist (qs.filter (·.answers id))

theorem Within.of_sublist {ps qs : List Packet} (h : ps.Sublist qs) : Within ps qs :=
  fun _ => ⟨h.filter _, h.filter _⟩

theorem Within.append {ps qs ps' qs' : List Packet} (h : Within ps qs) (h' : Within ps' qs') :
    Within (ps ++ ps') (qs ++ qs') := by
  intro id
  simp only [List.filter_append]
  exact ⟨(h id).1.append (h' id).1, (h id).2.append (h' id).2⟩

/-- **Whatever is on its way may be lost.** -/
theorem Sound.within (h : x.Sound) {there back : List Packet} (hthere : Within there x.there)
    (hback : Within back x.back) : ({ x with there, back } : Exchange).Sound :=
  fun id => (h id).sublist (hthere id).1 (hback id).2

/-- Where one packet is all there is, there is no order. -/
theorem eq_of_perm {ps qs : List Packet} (h : ps.Perm qs) (hqs : qs.length ≤ 1) : ps = qs := by
  rcases Nat.le_one_iff_eq_zero_or_eq_one.1 hqs with hlength | hlength
  · obtain rfl := List.length_eq_zero_iff.1 hlength
    exact h.eq_nil
  · obtain ⟨q, rfl⟩ := List.length_eq_one_iff.1 hlength
    exact List.perm_singleton.1 h

/-- Packets may overtake each other: those of one identifier do not meet. -/
theorem Sound.perm (h : x.Sound) {there back : List Packet} (hthere : there.Perm x.there)
    (hback : back.Perm x.back) : ({ x with there, back } : Exchange).Sound := by
  refine h.congr fun id => ?_
  obtain ⟨hrequests, hanswers⟩ := (h id).single
  simp only [slice] at hrequests hanswers
  simp only [slice, eq_of_perm (hthere.filter _) hrequests, eq_of_perm (hback.filter _) hanswers]

/-! ### Taking an identifier -/

/-- The sender takes an identifier that no open handshake of its own holds. -/
theorem Sound.track (h : x.Sound) {m : Message} (hq : m.qos.isAcknowledged = true)
    (hfree : x.sender.isInUse id = false) :
    ({ x with
        log := x.log ++ [.taken id m]
        sender := x.sender.track id m
        there := x.there ++ [.publish (m.toPublish id false)] } : Exchange).Sound := by
  rw [Inflight.isInUse, Bool.or_eq_false_iff] at hfree
  have hkept := Std.ExtTreeMap.getElem?_eq_none_of_contains_eq_false hfree.1
  have hid := (h id).free hkept hfree.2
  simp only [slice, Slice.mk.injEq] at hid
  obtain ⟨hlane, -, hreleased, hreceived, hrequests, hanswers⟩ := hid
  refine h.change id (fun other hother => ?_) ?_
  · simp [slice, Log.lane_append, Log.laneStep, Mark.id, Inflight.track, hother, Message.toPublish, hq,
      Std.ExtTreeMap.getElem?_insert]
  · have hslice : slice { x with
        log := x.log ++ [.taken id m]
        sender := x.sender.track id m
        there := x.there ++ [.publish (m.toPublish id false)] } id =
        ⟨some (.busy m 0), some m, false, false, [.publish (m.toPublish id false)], []⟩ := by
      simp only [slice, Log.lane_taken hlane, Inflight.track, Std.ExtTreeMap.getElem?_insert_self,
        hreleased, hreceived, List.filter_append, hrequests, hanswers]
      simp [Message.toPublish, hq]
    have hcarries : Packet.Carries m (.publish (m.toPublish id false)) := m.message_toPublish id false
    rw [hslice]
    cases hm : m.qos with
    | atMostOnce => simp [hm, QoS.isAcknowledged] at hq
    | atLeastOnce => exact .once hm (.there hcarries)
    | exactlyOnce => exact @Handshake.receiving id m false _ _ hm (.there hcarries)

/-! ### What the receiver does -/

/-- A message of quality "at least once" reaches the receiver, be it for the first time or not. -/
theorem Sound.takes_atLeastOnce (h : x.Sound) {p : Publish} {rest : List Packet} {n : Nat}
    (hthere : x.there = .publish p :: rest) (hp : p.packetId = some id) (hq : p.qos = .atLeastOnce)
    (hid : x.slice id = ⟨some (.busy p.message n), some p.message, false, false, [.publish p], []⟩) :
    ({ x with
        log := x.log ++ [.arrived id p.message]
        there := rest, back := x.back ++ [.puback id] } : Exchange).Sound := by
  simp only [slice, Slice.mk.injEq, hthere] at hid
  obtain ⟨hlane, hkept, hreleased, hreceived, hrequests, hanswers⟩ := hid
  have hrest : rest.filter (·.requests id) = [] := by simpa [hp] using hrequests
  refine h.change id (fun other hother => ?_) ?_
  · simp [slice, Log.lane_append, Log.laneStep, Mark.id, hother, hthere, hp]
  · have hslice : slice { x with
        log := x.log ++ [.arrived id p.message]
        there := rest, back := x.back ++ [.puback id] } id =
        ⟨some (.busy p.message (n + 1)), some p.message, false, false, [], [.puback id]⟩ := by
      have honce : p.message.qos = .exactlyOnce → n = 0 := fun hq' => by
        rw [show p.message.qos = p.qos from rfl, hq] at hq'
        cases hq'
      simp only [slice, Log.lane_arrived hlane honce, hkept, hreleased, hreceived, hrest,
        List.filter_append, hanswers]
      simp
    exact hslice ▸ .once hq (.back ⟨rfl, n.succ_pos⟩)

/-- A message of quality "exactly once" reaches the receiver, which passes it on unless it has it already. -/
theorem Sound.takes_exactlyOnce (h : x.Sound) {p : Publish} {rest : List Packet} {received : Bool}
    (hthere : x.there = .publish p :: rest) (hp : p.packetId = some id) (hq : p.qos = .exactlyOnce)
    (hid : x.slice id =
      ⟨some (.busy p.message received.toNat), some p.message, false, received, [.publish p], []⟩) :
    ({ x with
        log := x.log ++ if !received then [.arrived id p.message] else []
        receiver := { x.receiver with received := x.receiver.received.insert id }
        there := rest, back := x.back ++ [.pubrec id] } : Exchange).Sound := by
  simp only [slice, Slice.mk.injEq, hthere] at hid
  obtain ⟨hlane, hkept, hreleased, hreceived, hrequests, hanswers⟩ := hid
  have hrest : rest.filter (·.requests id) = [] := by simpa [hp] using hrequests
  refine h.change id (fun other hother => ?_) ?_
  · cases received <;> simp [slice, Log.lane_append, Log.laneStep, Mark.id, hother, hthere, hp]
  · have hslice : slice { x with
        log := x.log ++ if !received then [.arrived id p.message] else []
        receiver := { x.receiver with received := x.receiver.received.insert id }
        there := rest, back := x.back ++ [.pubrec id] } id =
        ⟨some (.busy p.message 1), some p.message, false, true, [], [.pubrec id]⟩ := by
      have harrived : Log.lane id (x.log ++ if !received then [.arrived id p.message] else [])
          = some (.busy p.message 1) := by
        cases received with
        | true => simpa using hlane
        | false => exact Log.lane_arrived hlane fun _ => rfl
      simp only [slice, harrived, hkept, hreleased, hrest, List.filter_append, hanswers]
      simp
    exact hslice ▸ @Handshake.receiving id p.message true _ _ hq (.back ⟨rfl, rfl⟩)

/-- A PUBLISH reaches the receiver. -/
theorem Sound.takes (h : x.Sound) {p : Publish} {rest : List Packet} (hthere : x.there = .publish p :: rest)
    (hp : p.packetId = some id) {deliver : Bool} {reply : Option Packet} {receiver : Inflight}
    (htakes : x.receiver.Takes p ⟨deliver, reply⟩ receiver) :
    ({ x with
        log := x.log ++ if deliver then [.arrived id p.message] else []
        receiver, there := rest, back := x.back ++ reply.toList } : Exchange).Sound := by
  have hfirst : (x.slice id).requests = .publish p :: rest.filter (·.requests id) := by
    simp [slice, hthere, hp]
  rcases (h id).publish hfirst with ⟨n, hq, hid⟩ | ⟨received, hq, hid⟩
  · cases htakes with
    | atMostOnce hq' => rw [hq] at hq'; cases hq'
    | exactlyOnce hq' => rw [hq] at hq'; cases hq'
    | @atLeastOnce id' _ hid' =>
      obtain rfl : id = id' := by rw [← hid', hp, Option.getD_some]
      exact h.takes_atLeastOnce hthere hp hq hid
  · cases htakes with
    | atMostOnce hq' => rw [hq] at hq'; cases hq'
    | atLeastOnce hq' => rw [hq] at hq'; cases hq'
    | @exactlyOnce id' _ hid' =>
      obtain rfl : id = id' := by rw [← hid', hp, Option.getD_some]
      have hreceived : x.receiver.received.contains id = received := congrArg Slice.received hid
      rw [hreceived]
      exact h.takes_exactlyOnce hthere hp hq hid

/-- PUBREL reaches the receiver. -/
theorem Sound.pubrel (h : x.Sound) {rest : List Packet} (hthere : x.there = .pubrel id :: rest) :
    ({ x with
        receiver := { x.receiver with received := x.receiver.received.erase id }
        there := rest, back := x.back ++ [.pubcomp id] } : Exchange).Sound := by
  have hfirst : (x.slice id).requests = .pubrel id :: rest.filter (·.requests id) := by
    simp [slice, hthere]
  obtain ⟨m, received, hq, hid⟩ := (h id).pubrel hfirst
  simp only [slice, Slice.mk.injEq, hthere] at hid
  obtain ⟨hlane, hkept, hreleased, -, hrequests, hanswers⟩ := hid
  have hrest : rest.filter (·.requests id) = [] := by simpa using hrequests
  refine h.change id (fun other hother => ?_) ?_
  · simp [slice, hother, hthere]
  · have hslice : slice { x with
        receiver := { x.receiver with received := x.receiver.received.erase id }
        there := rest, back := x.back ++ [.pubcomp id] } id =
        ⟨some (.busy m 1), none, true, false, [], [.pubcomp id]⟩ := by
      simp only [slice, hlane, hkept, hreleased, hrest, List.filter_append, hanswers]
      simp
    exact hslice ▸ .releasing hq (.back ⟨rfl, rfl⟩)

/-! ### What the sender does -/

/-- PUBACK reaches the sender. -/
theorem Sound.puback (h : x.Sound) {rest : List Packet} (hback : x.back = .puback id :: rest) :
    ({ x with
        log := x.log ++ if x.sender.publishes.contains id then [.acknowledged id] else []
        sender := { x.sender with publishes := x.sender.publishes.erase id }
        back := rest } : Exchange).Sound := by
  have hfirst : (x.slice id).answers = .puback id :: rest.filter (·.answers id) := by
    simp [slice, hback]
  rcases (h id).answer hfirst with ⟨m, n, hq, hn, -, hid⟩ | ⟨m, -, hother, -⟩ | ⟨m, -, hother, -⟩
  · simp only [slice, Slice.mk.injEq, hback] at hid
    obtain ⟨hlane, hkept, hreleased, hreceived, hrequests, hanswers⟩ := hid
    have hrest : rest.filter (·.answers id) = [] := by simpa using hanswers
    have hcontains : x.sender.publishes.contains id = true := by
      rw [Std.ExtTreeMap.contains_eq_isSome_getElem?, hkept]
      rfl
    rw [if_pos hcontains]
    refine h.change id (fun other hother => ?_) ?_
    · simp [slice, Log.lane_append, Log.laneStep, Mark.id, hother, hback,
        Std.ExtTreeMap.getElem?_erase]
    · have hslice : slice { x with
          log := x.log ++ [.acknowledged id]
          sender := { x.sender with publishes := x.sender.publishes.erase id }
          back := rest } id = ⟨some .free, none, false, false, [], []⟩ := by
        simp only [slice, Log.lane_acknowledged hlane hq hn, hreleased, hreceived, hrequests, hrest,
          Std.ExtTreeMap.getElem?_erase_self]
      exact hslice ▸ .idle
  · cases hother
  · cases hother

/-- PUBREC reaches the sender. -/
theorem Sound.pubrec (h : x.Sound) {rest : List Packet} (hback : x.back = .pubrec id :: rest) :
    ({ x with
        sender := { x.sender with
          publishes := x.sender.publishes.erase id, releases := x.sender.releases.insert id }
        there := x.there ++ [.pubrel id], back := rest } : Exchange).Sound := by
  have hfirst : (x.slice id).answers = .pubrec id :: rest.filter (·.answers id) := by
    simp [slice, hback]
  rcases (h id).answer hfirst with ⟨m, n, -, -, hother, -⟩ | ⟨m, hq, -, hid⟩ | ⟨m, -, hother, -⟩
  · cases hother
  · simp only [slice, Slice.mk.injEq, hback] at hid
    obtain ⟨hlane, hkept, hreleased, hreceived, hrequests, hanswers⟩ := hid
    have hrest : rest.filter (·.answers id) = [] := by simpa using hanswers
    refine h.change id (fun other hother => ?_) ?_
    · simp [slice, hother, hback, Std.ExtTreeMap.getElem?_erase]
    · have hslice : slice { x with
          sender := { x.sender with
            publishes := x.sender.publishes.erase id, releases := x.sender.releases.insert id }
          there := x.there ++ [.pubrel id], back := rest } id =
          ⟨some (.busy m 1), none, true, true, [.pubrel id], []⟩ := by
        simp only [slice, hlane, hreceived, hrest, List.filter_append, hrequests]
        simp
      exact hslice ▸ .releasing hq (.there rfl)
  · cases hother

/-- PUBCOMP reaches the sender. -/
theorem Sound.pubcomp (h : x.Sound) {rest : List Packet} (hback : x.back = .pubcomp id :: rest) :
    ({ x with
        log := x.log ++ if x.sender.releases.contains id then [.completed id] else []
        sender := { x.sender with
          publishes := x.sender.publishes.erase id, releases := x.sender.releases.erase id }
        back := rest } : Exchange).Sound := by
  have hfirst : (x.slice id).answers = .pubcomp id :: rest.filter (·.answers id) := by
    simp [slice, hback]
  rcases (h id).answer hfirst with ⟨m, n, -, -, hother, -⟩ | ⟨m, -, hother, -⟩ | ⟨m, hq, -, hid⟩
  · cases hother
  · cases hother
  · simp only [slice, Slice.mk.injEq, hback] at hid
    obtain ⟨hlane, -, hreleased, hreceived, hrequests, hanswers⟩ := hid
    have hrest : rest.filter (·.answers id) = [] := by simpa using hanswers
    rw [if_pos hreleased]
    refine h.change id (fun other hother => ?_) ?_
    · simp [slice, Log.lane_append, Log.laneStep, Mark.id, hother, hback,
        Std.ExtTreeMap.getElem?_erase]
    · have hslice : slice { x with
          log := x.log ++ [.completed id]
          sender := { x.sender with
            publishes := x.sender.publishes.erase id, releases := x.sender.releases.erase id }
          back := rest } id = ⟨some .free, none, false, false, [], []⟩ := by
        simp only [slice, Log.lane_completed hlane hq, hreceived, hrequests, hrest,
          Std.ExtTreeMap.getElem?_erase_self]
        simp
      exact hslice ▸ .idle

/-! ### Sending everything again -/

theorem mem_resend {s : Inflight} {p : Packet} (h : p ∈ s.resend) :
    (∃ (id : UInt16) (m : Message), s.publishes[id]? = some m ∧ p = .publish (m.toPublish id true)) ∨
      ∃ id ∈ s.releases, p = .pubrel id := by
  rcases List.mem_append.1 h with h | h
  · obtain ⟨⟨id, m⟩, hmem, rfl⟩ := List.mem_map.1 h
    exact .inl ⟨id, m, Std.ExtTreeMap.mem_toList_iff_getElem?_eq_some.1 hmem, rfl⟩
  · obtain ⟨id, hmem, rfl⟩ := List.mem_map.1 h
    exact .inr ⟨id, Std.ExtTreeSet.mem_toList.1 hmem, rfl⟩

/-- Of elements with different keys at most one has a certain key. -/
theorem filter_of_pairwise {α : Type} {key : α → UInt16} {p : α → Bool} {xs : List α}
    (hxs : xs.Pairwise fun a b => key a ≠ key b) (hp : ∀ a, p a = true → key a = id) :
    xs.filter p = [] ∨ ∃ a ∈ xs, p a = true ∧ xs.filter p = [a] := by
  have hfilter := hxs.filter p
  have hmem : ∀ a ∈ xs.filter p, a ∈ xs ∧ p a = true := fun a => List.mem_filter.1
  match h : xs.filter p with
  | [] => exact .inl rfl
  | [a] =>
    rw [h] at hmem
    exact .inr ⟨a, (hmem a (.head _)).1, (hmem a (.head _)).2, rfl⟩
  | a :: b :: rest =>
    rw [h] at hfilter hmem
    have ha := hp a (hmem a (.head _)).2
    have hb := hp b (hmem b (.tail _ (.head _))).2
    exact absurd (ha.trans hb.symm) (List.rel_of_pairwise_cons hfilter (.head _))

/-- Of the messages to be sent again one at most has an identifier, -/
theorem resend_publishes (s : Inflight) (id : UInt16) :
    (s.publishes.toList.map fun (id, m) => Packet.publish (m.toPublish id true)).filter (·.requests id) = [] ∨
      ∃ m, s.publishes[id]? = some m ∧
        (s.publishes.toList.map fun (id, m) => Packet.publish (m.toPublish id true)).filter
          (·.requests id) = [.publish (m.toPublish id true)] := by
  have hkey : ∀ entry : UInt16 × Message,
      (Packet.publish (entry.2.toPublish entry.1 true)).requests id = true → entry.1 = id :=
    fun _ hentry => (Packet.eq_of_requests_toPublish hentry).2
  have hdistinct := s.publishes.distinct_keys_toList
  simp only [Std.compare_eq_iff_eq] at hdistinct
  rw [List.filter_map]
  rcases filter_of_pairwise hdistinct hkey with hnil | ⟨⟨id', m⟩, hmem, hid, hone⟩
  · exact .inl (congrArg (List.map _) hnil)
  · have hsame : id' = id := hkey (id', m) hid
    subst hsame
    exact .inr ⟨m, Std.ExtTreeMap.mem_toList_iff_getElem?_eq_some.1 hmem, congrArg (List.map _) hone⟩

/-- and so one at most of the identifiers to be released again. -/
theorem resend_releases (s : Inflight) (id : UInt16) :
    (s.releases.toList.map Packet.pubrel).filter (·.requests id) = [] ∨
      s.releases.contains id = true ∧
        (s.releases.toList.map Packet.pubrel).filter (·.requests id) = [.pubrel id] := by
  have hkey : ∀ id', (Packet.pubrel id').requests id = true → id' = id := fun id' h => of_decide_eq_true h
  have hdistinct := s.releases.distinct_toList
  simp only [Std.compare_eq_iff_eq] at hdistinct
  rw [List.filter_map]
  rcases filter_of_pairwise hdistinct hkey with hnil | ⟨id', hmem, hid, hone⟩
  · exact .inl (congrArg (List.map _) hnil)
  · have hsame : id' = id := hkey id' hid
    subst hsame
    exact .inr ⟨Std.ExtTreeSet.contains_iff_mem.2 (Std.ExtTreeSet.mem_toList.1 hmem),
      congrArg (List.map _) hone⟩

/-- **Everything may be sent again** as soon as nothing is on its way. -/
theorem Sound.resend (h : x.Sound) (hthere : ∀ id, x.there.filter (·.requests id) = [])
    (hback : ∀ id, x.back.filter (·.answers id) = []) :
    ({ x with there := x.there ++ x.sender.resend } : Exchange).Sound := by
  intro id
  have hid := (h id).resend (hback id) (resend_publishes x.sender id) (resend_releases x.sender id)
  have hrequests := hthere id
  unfold slice at *
  simp only [Inflight.resend, List.filter_append, hrequests, List.nil_append]
  exact hid

end Exchange

end Mqtt
