import Mqtt.Proofs.Handing

/-!
# In which order messages go out: `Session::send_publish`

While one connection owns a session, messages come to be sent and the client acknowledges. A message that finds
all 65535 identifiers in use waits, and a later one may find an identifier that was given back meanwhile:
`play_inOrder_iff` says that messages go out in the order in which they came exactly as long as no message finds
a free identifier while others wait. What went out at once and what waits are each in order in any case, and so
is what goes out when the client is brought up to date. `crowded_overtaken` is a run in which a message is
overtaken.
-/

namespace Mqtt

/-- The message of a PUBLISH that is sent for the first time and is to be acknowledged. -/
def Delivery.first? (d : Delivery) : Option Message :=
  match d.packet with
  | .publish p => if !p.dup && p.qos.isAcknowledged then some p.message else none
  | _ => none

/-- The messages that some deliveries bring for the first time, as far as they are to be acknowledged. -/
def Delivery.firsts (ds : List Delivery) : List Message := ds.filterMap first?

namespace Session

/-- What happens to a session while a connection owns it. -/
inductive Event where
  /-- A message comes to be sent. -/
  | message (x : Sending)
  | puback (id : UInt16)
  | pubrec (id : UInt16)
  | pubcomp (id : UInt16)

/-- The session after a step of a handshake, whether it succeeds or fails. -/
def afterHandshake {α : Type} (s : Session) : EStateM.Result ProtocolError Inflight α → Session
  | .ok _ inflight | .error _ inflight => { s with inflight }

def step (s : Session) : Event → Option Delivery × Session
  | .message x => s.send x.message x.qos x.retain
  | .puback id => (none, s.afterHandshake ((Inflight.onPuback id).run s.inflight))
  | .pubrec id => (none, s.afterHandshake ((Inflight.onPubrec id).run s.inflight))
  | .pubcomp id => (none, s.afterHandshake ((Inflight.onPubcomp id).run s.inflight))

/-- One event after the other, with what goes out. -/
def play (s : Session) : List Event → List Delivery × Session
  | [] => ([], s)
  | e :: es => ((s.step e).1.toList ++ ((s.step e).2.play es).1, ((s.step e).2.play es).2)

/-- The messages that came to be sent with an acknowledgement, as they are to go out. -/
def given (es : List Event) : List Message :=
  es.filterMap fun
    | .message x => if x.outgoing.qos.isAcknowledged then some x.outgoing else none
    | _ => none

/-- The message goes out although earlier ones still wait. -/
def Overtakes (s : Session) : Event → Prop
  | .message x => x.outgoing.qos.isAcknowledged = true ∧ s.queue ≠ [] ∧
      (s.send x.message x.qos x.retain).1.isSome = true
  | _ => False

/-- No message goes out before an earlier one that still waits. -/
def InOrder : Session → List Event → Prop
  | _, [] => True
  | s, e :: es => ¬ s.Overtakes e ∧ (s.step e).2.InOrder es

variable {s : Session} {token : Nat} {es : List Event}

/-! ### Steps -/

theorem play_append_fst (s : Session) (es es' : List Event) :
    (s.play (es ++ es')).1 = (s.play es).1 ++ ((s.play es).2.play es').1 := by
  induction es generalizing s with
  | nil => rfl
  | cons e es ih => rw [List.cons_append, play, play, ih, List.append_assoc]

theorem play_append_snd (s : Session) (es es' : List Event) :
    (s.play (es ++ es')).2 = ((s.play es).2.play es').2 := by
  induction es generalizing s with
  | nil => rfl
  | cons e es ih => rw [List.cons_append, play, play, ih]

theorem given_append (es es' : List Event) : given (es ++ es') = given es ++ given es' :=
  List.filterMap_append

/-- What may happen at a step: a handshake goes on, a message waits because no identifier is free, a message
goes out under a free one, or a message that is not to be acknowledged goes out. -/
inductive Moves (s : Session) : Event → Option Delivery → Session → Prop
  | handshake {e : Event} {s' : Session} : (∀ x, e ≠ .message x) → s'.owner = s.owner →
      s'.queue = s.queue → Moves s e none s'
  | waits {x : Sending} {s' : Session} : x.outgoing.qos.isAcknowledged = true → s.Exhausted →
      s'.owner = s.owner → s'.inflight = s.inflight →
      s'.queue = (s.enqueue x.outgoing).queue → Moves s (.message x) none s'
  | goes {x : Sending} {d : Delivery} {s' : Session} : x.outgoing.qos.isAcknowledged = true → ¬ s.Exhausted →
      s'.owner = s.owner → s'.queue = s.queue → d.first? = some x.outgoing → Moves s (.message x) (some d) s'
  | passes {x : Sending} {d : Delivery} : x.outgoing.qos.isAcknowledged = false → d.first? = none →
      Moves s (.message x) (some d) s

theorem afterHandshake_moves {α : Type} {e : Event} (he : ∀ x, e ≠ .message x)
    (r : EStateM.Result ProtocolError Inflight α) : s.Moves e none (s.afterHandshake r) := by
  rcases r with ⟨_, inflight⟩ | ⟨_, inflight⟩
  · exact .handshake he rfl rfl
  · exact .handshake he rfl rfl

theorem step_moves (howner : s.owner = some token) (e : Event) : s.Moves e (s.step e).1 (s.step e).2 := by
  cases e with
  | message x =>
    have houtcome := s.send_outcome x.message x.qos x.retain
    rw [step]
    generalize s.send x.message x.qos x.retain = sent at houtcome ⊢
    obtain ⟨d, s'⟩ := sent
    cases houtcome with
    | absent hnone =>
      rw [howner] at hnone
      cases hnone
    | exhausted _ hq hall => exact .waits hq hall rfl rfl rfl
    | tracked _ hq hid hfree =>
      refine .goes hq (fun hall => ?_) rfl rfl ?_
      · rw [hall _ hid] at hfree
        cases hfree
      · have hqos : (outgoing x.message x.qos x.retain).qos.isAcknowledged = true := hq
        simp [Delivery.first?, Message.toPublish, Sending.outgoing, hqos, Publish.message]
    | passed _ hq =>
      have hqos : (outgoing x.message x.qos x.retain).qos.isAcknowledged = false := hq
      exact .passes hq (by simp [Delivery.first?, Message.toPublish, hqos])
  | puback | pubrec | pubcomp => exact afterHandshake_moves (fun _ h => by cases h) _

theorem step_owner (howner : s.owner = some token) (e : Event) : (s.step e).2.owner = some token := by
  have hmoves := step_moves howner e
  generalize s.step e = r at hmoves
  obtain ⟨d, s'⟩ := r
  cases hmoves with
  | handshake _ h | waits _ _ h | goes _ _ h => exact h.trans howner
  | passes => exact howner

/-- A message that finds no free identifier waits. -/
theorem step_of_exhausted (howner : s.owner = some token) {x : Sending}
    (hq : x.outgoing.qos.isAcknowledged = true) (hall : s.Exhausted) :
    (s.step (.message x)).1 = none ∧ (s.step (.message x)).2.inflight = s.inflight ∧
      (s.step (.message x)).2.queue = (s.enqueue x.outgoing).queue := by
  have hmoves := step_moves howner (.message x)
  generalize s.step (.message x) = r at hmoves
  obtain ⟨d, s'⟩ := r
  cases hmoves with
  | handshake he => exact absurd rfl (he x)
  | waits _ _ _ hinflight hqueue => exact ⟨rfl, hinflight, hqueue⟩
  | goes _ hfree => exact absurd hall hfree
  | passes hq' =>
    rw [hq] at hq'
    cases hq'

/-- A message that finds a free identifier goes out. -/
theorem step_of_free (howner : s.owner = some token) {x : Sending}
    (hq : x.outgoing.qos.isAcknowledged = true) (hfree : ¬ s.Exhausted) :
    (∃ d, (s.step (.message x)).1 = some d ∧ d.first? = some x.outgoing) ∧
      (s.step (.message x)).2.queue = s.queue := by
  have hmoves := step_moves howner (.message x)
  generalize s.step (.message x) = r at hmoves
  obtain ⟨d, s'⟩ := r
  cases hmoves with
  | handshake he => exact absurd rfl (he x)
  | waits _ hall => exact absurd hall hfree
  | goes _ _ _ hqueue hfirst => exact ⟨⟨_, rfl, hfirst⟩, hqueue⟩
  | passes hq' =>
    rw [hq] at hq'
    cases hq'

/-- A message overtakes if it finds a free identifier while others wait. -/
theorem overtakes_iff (howner : s.owner = some token) (x : Sending) :
    s.Overtakes (.message x) ↔ x.outgoing.qos.isAcknowledged = true ∧ s.queue ≠ [] ∧ ¬ s.Exhausted := by
  have hmoves := step_moves howner (.message x)
  rw [step] at hmoves
  rw [Overtakes]
  generalize s.send x.message x.qos x.retain = r at hmoves
  obtain ⟨d, s'⟩ := r
  cases hmoves with
  | handshake he => exact absurd rfl (he x)
  | waits _ hall => simp [hall]
  | goes hq hfree => simp [hq, hfree]
  | passes hq => simp [hq]

/-! ### Runs -/

theorem inOrder_iff (howner : s.owner = some token) (es : List Event) :
    s.InOrder es ↔ ∀ es₁ x es₂, es = es₁ ++ .message x :: es₂ → x.outgoing.qos.isAcknowledged = true →
      (s.play es₁).2.queue = [] ∨ (s.play es₁).2.Exhausted := by
  induction es generalizing s with
  | nil =>
    refine ⟨fun _ es₁ x es₂ hsplit => ?_, fun _ => trivial⟩
    cases es₁ <;> cases hsplit
  | cons e es ih =>
    rw [InOrder, ih (step_owner howner e)]
    constructor
    · rintro ⟨hfirst, hrest⟩ es₁ x es₂ hsplit hq
      cases es₁ with
      | nil =>
        obtain ⟨rfl, rfl⟩ := List.cons.inj hsplit
        rw [overtakes_iff howner] at hfirst
        by_contra hneither
        exact hfirst ⟨hq, not_or.1 hneither⟩
      | cons e' es₁ =>
        obtain ⟨rfl, rfl⟩ := List.cons.inj hsplit
        exact hrest es₁ x es₂ rfl hq
    · intro hall
      refine ⟨?_, fun es₁ x es₂ hsplit => hall (e :: es₁) x es₂ (by rw [hsplit, List.cons_append])⟩
      cases e with
      | message x =>
        rw [overtakes_iff howner]
        rintro ⟨hq, hwaits, hfree⟩
        exact (hall [] x es rfl hq).elim hwaits hfree
      | puback | pubrec | pubcomp => exact not_false

theorem given_cons (e : Event) (es : List Event) : given (e :: es) = given [e] ++ given es :=
  given_append [e] es

theorem given_message {x : Sending} (hq : x.outgoing.qos.isAcknowledged = true) :
    given [.message x] = [x.outgoing] := by
  simp [given, hq]

theorem given_handshake {e : Event} (he : ∀ x, e ≠ .message x) : given [e] = [] := by
  cases e with
  | message x => exact absurd rfl (he x)
  | puback | pubrec | pubcomp => rfl

theorem firsts_play (s : Session) (e : Event) (es : List Event) :
    Delivery.firsts (s.play (e :: es)).1 =
      (s.step e).1.toList.filterMap Delivery.first? ++ Delivery.firsts ((s.step e).2.play es).1 :=
  List.filterMap_append

/-- What goes out goes out in order. -/
theorem firsts_sublist (howner : s.owner = some token) (es : List Event) :
    (Delivery.firsts (s.play es).1).Sublist (given es) := by
  induction es generalizing s with
  | nil => exact .slnil
  | cons e es ih =>
    have hrest := ih (step_owner howner e)
    rw [firsts_play, given_cons]
    have hmoves := step_moves howner e
    generalize s.step e = r at hmoves hrest
    obtain ⟨d, s'⟩ := r
    refine List.Sublist.append ?_ hrest
    cases hmoves with
    | handshake => exact List.nil_sublist _
    | waits => exact List.nil_sublist _
    | goes hq _ _ _ hfirst => simp [given_message hq, hfirst]
    | passes _ hfirst => simp [hfirst]

/-- What waits waits in order, behind what waited before. -/
theorem queue_sublist (howner : s.owner = some token) (es : List Event) :
    ((s.play es).2.queue).Sublist (s.queue ++ given es) := by
  induction es generalizing s with
  | nil => simp [play, given]
  | cons e es ih =>
    have hrest := ih (step_owner howner e)
    refine hrest.trans ?_
    rw [given_cons, ← List.append_assoc]
    refine List.Sublist.append_right ?_ _
    have hmoves := step_moves howner e
    generalize s.step e = r at hmoves
    obtain ⟨d, s'⟩ := r
    dsimp only at hmoves ⊢
    cases hmoves with
    | handshake _ _ hqueue | goes _ _ _ hqueue =>
      rw [hqueue]
      exact List.sublist_append_left _ _
    | waits hq _ _ _ hqueue =>
      rw [given_message hq, ← s.overflow_append_enqueue, hqueue]
      exact List.sublist_append_right _ _
    | passes => exact List.sublist_append_left _ _

/-- As long as the order is kept, what came is what went out and then what waits. Once a message waits no other
goes out. -/
theorem InOrder.split (h : s.InOrder es) (howner : s.owner = some token) :
    ∃ waiting, s.queue ++ given es = Delivery.firsts (s.play es).1 ++ waiting ∧
      (s.play es).2.queue <:+ waiting ∧ (s.queue ≠ [] → Delivery.firsts (s.play es).1 = []) := by
  induction es generalizing s with
  | nil => exact ⟨s.queue, List.append_nil _, List.suffix_rfl, fun _ => rfl⟩
  | cons e es ih =>
    obtain ⟨hfirst, hrest⟩ := h
    obtain ⟨waiting, hsplit, hsuffix, hnone⟩ := ih hrest (step_owner howner e)
    rw [firsts_play, given_cons]
    have hqueue : (s.play (e :: es)).2.queue = ((s.step e).2.play es).2.queue := rfl
    rw [hqueue]
    have hmoves := step_moves howner e
    generalize s.step e = r at hmoves hsplit hsuffix hnone
    obtain ⟨d, s'⟩ := r
    dsimp only at hmoves hsplit hsuffix hnone ⊢
    cases hmoves with
    | handshake he _ hqueue =>
      rw [hqueue] at hsplit hnone
      rw [given_handshake he]
      exact ⟨waiting, hsplit, hsuffix, hnone⟩
    | @waits x _ hq _ _ _ hqueue =>
      have hnone := hnone (hqueue ▸ s.enqueue_ne_nil x.outgoing)
      rw [hnone] at hsplit ⊢
      refine ⟨s.overflow ++ waiting, ?_, hsuffix.trans (List.suffix_append _ _), fun _ => rfl⟩
      rw [given_message hq, ← List.append_assoc, ← s.overflow_append_enqueue, ← hqueue, List.append_assoc, hsplit]
      rfl
    | @goes x d _ hq hfree _ hqueue hd =>
      have hempty : s.queue = [] := by
        rw [overtakes_iff howner] at hfirst
        by_contra hwaits
        exact hfirst ⟨hq, hwaits, hfree⟩
      rw [hqueue, hempty, List.nil_append] at hsplit
      refine ⟨waiting, ?_, hsuffix, fun hwaits => absurd hempty hwaits⟩
      rw [given_message hq, hempty, hsplit]
      simp [hd]
    | @passes x d hq hd =>
      have hgiven : given [.message x] = [] := by simp [given, hq]
      rw [hgiven, Option.toList_some, List.filterMap_cons_none hd]
      exact ⟨waiting, hsplit, hsuffix, hnone⟩

theorem play_owner (howner : s.owner = some token) (es : List Event) : (s.play es).2.owner = some token := by
  induction es generalizing s with
  | nil => exact howner
  | cons e es ih => exact ih (step_owner howner e)

/-- A message that comes while others wait and an identifier is free is sent before them. -/
theorem overtaken (howner : s.owner = some token) {x : Sending} (hq : x.outgoing.qos.isAcknowledged = true)
    (hwaits : (s.play es).2.queue ≠ []) (hfree : ¬ (s.play es).2.Exhausted) :
    (s.play (es ++ [.message x])).2.queue = (s.play es).2.queue ∧
      x.outgoing ∈ Delivery.firsts (s.play (es ++ [.message x])).1 ∧ ¬ s.InOrder (es ++ [.message x]) := by
  obtain ⟨⟨d, hd, hfirst⟩, hsame⟩ := step_of_free (play_owner howner es) hq hfree
  refine ⟨?_, ?_, fun h => ?_⟩
  · rw [play_append_snd]
    exact hsame
  · rw [play_append_fst, Delivery.firsts, List.filterMap_append, List.mem_append]
    refine .inr (List.mem_filterMap.2 ⟨d, ?_, hfirst⟩)
    rw [play, hd]
    exact .head _
  · exact ((inOrder_iff howner _).1 h es x [] rfl hq).elim hwaits hfree

/-! ### Bringing the client up to date -/

theorem play_messages (s : Session) (xs : List Sending) : s.play (xs.map .message) = s.sendAll xs := by
  induction xs generalizing s with
  | nil => rfl
  | cons x xs ih => rw [List.map_cons, play, ih]; rfl

/-- Messages alone keep their order: an identifier that was in use stays in use. -/
theorem inOrder_messages (howner : s.owner = some token) (h : s.queue = [] ∨ s.Exhausted) (xs : List Sending) :
    s.InOrder (xs.map .message) := by
  induction xs generalizing s with
  | nil => trivial
  | cons x xs ih =>
    refine ⟨?_, ih (step_owner howner _) ?_⟩
    · rw [overtakes_iff howner]
      exact fun ⟨_, hwaits, hfree⟩ => h.elim hwaits hfree
    · have hmoves := step_moves howner (.message x)
      generalize s.step (.message x) = r at hmoves
      obtain ⟨d, s'⟩ := r
      dsimp only at hmoves ⊢
      cases hmoves with
      | handshake he => exact absurd rfl (he x)
      | waits _ hall _ hinflight =>
        refine .inr fun id hid => ?_
        rw [hinflight]
        exact hall id hid
      | goes _ hfree _ hqueue => exact .inl (hqueue.trans (h.resolve_right hfree))
      | passes => exact h

/-- What is sent again is not sent for the first time. -/
theorem firsts_resend (s : Inflight) (token : Nat) :
    Delivery.firsts (s.resend.map (Delivery.mk token)) = [] := by
  rw [Delivery.firsts, List.filterMap_eq_nil_iff]
  intro d hd
  obtain ⟨p, hp, rfl⟩ := List.mem_map.1 hd
  rcases List.mem_append.1 hp with hp | hp
  · obtain ⟨⟨id, m⟩, -, rfl⟩ := List.mem_map.1 hp
    cases hq : m.qos.isAcknowledged <;> simp [Delivery.first?, Message.toPublish, hq]
  · obtain ⟨id, -, rfl⟩ := List.mem_map.1 hp
    rfl

theorem firsts_append (ds es : List Delivery) :
    Delivery.firsts (ds ++ es) = Delivery.firsts ds ++ Delivery.firsts es := List.filterMap_append

/-- Who comes back is sent what is retained and then what waited, in order, as far as there are identifiers; the
rest waits on. -/
theorem restartSession_split {b : Broker} {client : String} (hs : b.session? client = some s)
    (howner : s.owner = some token) :
    ∃ waiting s', given ((b.restarted client s).map .message) =
        Delivery.firsts (b.restartSession client).1 ++ waiting ∧
      (b.restartSession client).2.session? client = some s' ∧ s'.queue <:+ waiting := by
  have hdropped : s.dropQueue.owner = some token := howner
  obtain ⟨waiting, hsplit, hsuffix, -⟩ :=
    (inOrder_messages hdropped (.inl rfl) (b.restarted client s)).split hdropped
  rw [play_messages] at hsplit hsuffix
  refine ⟨waiting, (s.dropQueue.sendAll (b.restarted client s)).2, ?_, ?_, hsuffix⟩
  · rw [Broker.restartSession_eq hs howner, firsts_append, firsts_resend, List.append_nil, ← hsplit]
    rfl
  · rw [Broker.restartSession_eq hs howner]
    simp

/-- **Messages go out in the order in which they came exactly as long as no message finds a free identifier while
others wait.** While a connection owns a session, whatever messages come and whatever the client acknowledges:
if the order is kept, what waited and what came is what went out for the first time and then what waits. Whether
it is kept or not, what went out at once is in order, and so is what waits. Whenever a session is brought up to
date, what is due goes out in order and the rest of it waits. -/
theorem play_inOrder_iff (howner : s.owner = some token) (es : List Event) :
    (s.InOrder es ↔ ∀ es₁ x es₂, es = es₁ ++ .message x :: es₂ → x.outgoing.qos.isAcknowledged = true →
      (s.play es₁).2.queue = [] ∨ (s.play es₁).2.Exhausted) ∧
    (s.InOrder es → ∃ waiting, s.queue ++ given es = Delivery.firsts (s.play es).1 ++ waiting ∧
      (s.play es).2.queue <:+ waiting) ∧
    (Delivery.firsts (s.play es).1).Sublist (given es) ∧
    ((s.play es).2.queue).Sublist (s.queue ++ given es) ∧
    ∀ (b : Broker) (client : String) (s' : Session) (token' : Nat), b.session? client = some s' →
      s'.owner = some token' →
      ∃ waiting s'', given ((b.restarted client s').map .message) =
          Delivery.firsts (b.restartSession client).1 ++ waiting ∧
        (b.restartSession client).2.session? client = some s'' ∧ s''.queue <:+ waiting := by
  refine ⟨inOrder_iff howner es, fun h => ?_, firsts_sublist howner es, queue_sublist howner es,
    fun b client s' token' hs' howner' => restartSession_split hs' howner'⟩
  obtain ⟨waiting, hsplit, hsuffix, -⟩ := h.split howner
  exact ⟨waiting, hsplit, hsuffix⟩

/-- A message for the topic "a", to be acknowledged. -/
def telling (text : String) : Sending := ⟨⟨"a", text.toUTF8, .atLeastOnce, false⟩, .atLeastOnce, false⟩

theorem telling_isAcknowledged (text : String) : (telling text).outgoing.qos.isAcknowledged = true := rfl

/-- Two messages go out in order when the first is acknowledged in between. -/
theorem play_inOrder_iff_answered :
    (Session.new 1 false 0).owner = some 1 ∧
      (Session.new 1 false 0).InOrder [.message (telling "1"), .puback 1, .message (telling "2")] ∧
      ∃ waiting, [(telling "1").outgoing, (telling "2").outgoing] =
          Delivery.firsts ((Session.new 1 false 0).play
            [.message (telling "1"), .puback 1, .message (telling "2")]).1 ++ waiting ∧
        ((Session.new 1 false 0).play
          [.message (telling "1"), .puback 1, .message (telling "2")]).2.queue <:+ waiting := by
  have hempty : ((Session.new 1 false 0).play [.message (telling "1"), .puback 1]).2.queue = [] := by
    decide +kernel
  have horder : (Session.new 1 false 0).InOrder [.message (telling "1"), .puback 1, .message (telling "2")] :=
    ⟨fun h => h.2.1 rfl, not_false, fun h => h.2.1 hempty, trivial⟩
  exact ⟨rfl, horder, (play_inOrder_iff rfl _).2.1 horder⟩

/-! ### A session whose identifiers run out -/

/-- All identifiers up to a number are in use, and nothing waits. -/
structure Crowd (n : Nat) (s : Session) : Prop where
  owner : s.owner = some 1
  maxQueued : s.maxQueued = 0
  queue : s.queue = []
  next : s.packetIds.next.toNat = n % 65535 + 1
  publishes : ∀ id : UInt16, s.inflight.publishes.contains id = true ↔ 1 ≤ id.toNat ∧ id.toNat ≤ n
  releases : s.inflight.releases = ∅

theorem crowd_new : Crowd 0 (.new 1 false 0) := by
  refine ⟨rfl, rfl, rfl, rfl, fun id => ?_, rfl⟩
  have hempty : (Session.new 1 false 0).inflight.publishes.contains id = false := Std.ExtTreeMap.contains_empty
  rw [hempty]
  constructor
  · intro h
    cases h
  · omega

theorem Crowd.isInUse {n : Nat} (h : Crowd n s) (id : UInt16) :
    s.inflight.isInUse id = true ↔ 1 ≤ id.toNat ∧ id.toNat ≤ n := by
  rw [Inflight.isInUse, h.releases, Bool.or_eq_true, h.publishes]
  simp

/-- One more message takes one more identifier. -/
theorem Crowd.step {n : Nat} (h : Crowd n s) (hn : n < 65535) {x : Sending}
    (hq : x.outgoing.qos.isAcknowledged = true) : Crowd (n + 1) (s.step (.message x)).2 := by
  have hnext := h.next
  have hfree : s.inflight.isInUse s.packetIds.next = false := by
    rw [Bool.eq_false_iff, Ne, h.isInUse]
    omega
  have hqos : (min x.message.qos x.qos).isAcknowledged = true := hq
  have hsent : (s.step (.message x)).2 =
      { s with packetIds := s.packetIds.take.2, inflight := s.inflight.track s.packetIds.next x.outgoing } := by
    rw [Session.step, send]
    simp only [h.owner, hqos, PacketIds.allocate_of_free hfree, if_true]
    rfl
  rw [hsent]
  refine ⟨h.owner, h.maxQueued, h.queue, ?_, fun id => ?_, h.releases⟩
  · have hsucc := PacketIds.toNat_successor s.packetIds.next_ne_zero
    change (PacketIds.successor s.packetIds.next).toNat = _
    omega
  · rw [Inflight.track, Std.ExtTreeMap.contains_insert, Bool.or_eq_true, h.publishes]
    rw [beq_iff_eq, Std.LawfulEqCmp.compare_eq_iff_eq, ← UInt16.toNat_inj]
    omega

theorem Crowd.exhausted (h : Crowd 65535 s) : s.Exhausted := fun id hid => by
  have hpos := PacketIds.toNat_ne_zero hid
  have hlt := id.toNat_lt
  rw [h.isInUse]
  omega

theorem crowd_replicate {x : Sending} (hq : x.outgoing.qos.isAcknowledged = true) {n : Nat} (hn : n ≤ 65535) :
    Crowd n ((Session.new 1 false 0).play (List.replicate n (.message x))).2 := by
  induction n with
  | zero => exact crowd_new
  | succ n ih =>
    rw [List.replicate_succ', play_append_snd]
    exact (ih (Nat.le_of_succ_le hn)).step hn hq

/-- An acknowledgement gives its identifier back. -/
theorem Crowd.puback {n : Nat} (h : Crowd n s) {s' : Session} (hinflight : s'.inflight = s.inflight) :
    ¬ (s'.step (.puback 1)).2.Exhausted := by
  intro hall
  have hused := hall 1 (by decide)
  have hafter : (s'.step (.puback 1)).2.inflight =
      { s.inflight with publishes := s.inflight.publishes.erase 1 } := by
    rw [← hinflight]
    rfl
  rw [hafter, Inflight.isInUse, h.releases, Bool.or_eq_true] at hused
  simp at hused

/-- So many messages that no identifier is left. -/
def filling : List Event := List.replicate 65535 (.message (telling "0"))

/-- A message has to wait, and then an identifier is given back. -/
def turning : List Event := [.message (telling "1"), .puback 1]

theorem crowd_filling : Crowd 65535 ((Session.new 1 false 0).play filling).2 := by
  rw [filling]
  exact crowd_replicate (telling_isAcknowledged "0") (Nat.le_refl 65535)

theorem Crowd.turned (h : Crowd 65535 s) :
    (s.play turning).2.queue = [(telling "1").outgoing] ∧ ¬ (s.play turning).2.Exhausted := by
  obtain ⟨-, hinflight, hqueue⟩ := step_of_exhausted h.owner (telling_isAcknowledged "1") h.exhausted
  have hwaits : (s.enqueue (telling "1").outgoing).queue = [(telling "1").outgoing] := by
    simp [enqueue, h.queue, h.maxQueued]
  simp only [turning, play]
  exact ⟨hqueue.trans hwaits, h.puback hinflight⟩

/-- A message waits while an identifier is free. -/
theorem turned : ((Session.new 1 false 0).play (filling ++ turning)).2.queue = [(telling "1").outgoing] ∧
    ¬ ((Session.new 1 false 0).play (filling ++ turning)).2.Exhausted := by
  rw [play_append_snd]
  exact crowd_filling.turned

/-- No identifier is left, a message has to wait, an identifier is given back, and one more message comes. -/
def crowded : List Event := filling ++ turning ++ [.message (telling "2")]

/-- The later message finds the identifier that was given back, and goes out while the earlier one waits. -/
theorem crowded_overtaken :
    ((Session.new 1 false 0).play crowded).2.queue = [(telling "1").outgoing] ∧
      (telling "2").outgoing ∈ Delivery.firsts ((Session.new 1 false 0).play crowded).1 ∧
      ¬ (Session.new 1 false 0).InOrder crowded := by
  obtain ⟨hqueue, hfree⟩ := turned
  have hwaits : ((Session.new 1 false 0).play (filling ++ turning)).2.queue ≠ [] := by
    rw [hqueue]
    exact List.cons_ne_nil _ _
  obtain ⟨hsame, hgone, hturned⟩ := overtaken rfl (telling_isAcknowledged "2") hwaits hfree
  rw [crowded]
  exact ⟨hsame.trans hqueue, hgone, hturned⟩

end Session

end Mqtt
