import Mathlib.Data.List.Nodup
import Mqtt.Proofs.Outcomes
import Mqtt.Proofs.Sessions

/-!
# What is handed to one session: `Broker::publish`, `subscribe`, `restart_session`

Publishing, subscribing and bringing a client up to date hand messages to sessions. Seen from the session of one
client each of them is a list of sendings, made one after the other (`Session.sendAll`): those that the retained
messages or the subscriptions of the moment make due. Everything that is said about one session rests on the
equations of this module and not on the loops of the broker.
-/

namespace Mqtt

/-- A message that is to go to a client, at no more than a quality of service and with a retain flag. -/
structure Sending where
  message : Message
  qos : QoS
  retain : Bool

/-- The message as it goes out. -/
def Sending.outgoing (x : Sending) : Message := Session.outgoing x.message x.qos x.retain

namespace Session

/-- Make one sending after the other; the deliveries in order. -/
def sendAll (s : Session) : List Sending → List Delivery × Session
  | [] => ([], s)
  | x :: xs =>
    let (d, s) := s.send x.message x.qos x.retain
    let (ds, s) := s.sendAll xs
    (d.toList ++ ds, s)

theorem sendAll_cons (s : Session) (x : Sending) (xs : List Sending) :
    s.sendAll (x :: xs) =
      ((s.send x.message x.qos x.retain).1.toList ++ ((s.send x.message x.qos x.retain).2.sendAll xs).1,
        ((s.send x.message x.qos x.retain).2.sendAll xs).2) := rfl

theorem sendAll_append (s : Session) (xs ys : List Sending) :
    s.sendAll (xs ++ ys) =
      ((s.sendAll xs).1 ++ ((s.sendAll xs).2.sendAll ys).1, ((s.sendAll xs).2.sendAll ys).2) := by
  induction xs generalizing s with
  | nil => rfl
  | cons x xs ih =>
    rw [List.cons_append, sendAll_cons, sendAll_cons, ih, List.append_assoc]

/-- Sendings leave a session with its owner. -/
theorem sendAll_hold (s : Session) (xs : List Sending) : (s.sendAll xs).2.hold = s.hold := by
  induction xs generalizing s with
  | nil => rfl
  | cons x xs ih => rw [sendAll_cons, ih, send_hold]

/-- A message that waited is sent again as it is. -/
def again (m : Message) : Sending := ⟨m, m.qos, false⟩

end Session

namespace Broker

variable {b : Broker} {client : String} {s : Session}

/-! ### One session -/

theorem setSession_session? (hs : b.session? client = some s) : b.setSession client s = b := by
  have hsessions : b.sessions.insert client s = b.sessions := by
    apply Std.ExtTreeMap.ext_getElem?
    intro other
    rw [Std.ExtTreeMap.getElem?_insert]
    split
    · next h => rw [← Std.LawfulEqCmp.eq_of_compare h]; exact hs.symm
    · rfl
  rw [setSession, hsessions]

theorem setSession_setSession (b : Broker) (client : String) (s s' : Session) :
    (b.setSession client s).setSession client s' = b.setSession client s' := by
  have hsessions : (b.sessions.insert client s).insert client s' = b.sessions.insert client s' := by
    apply Std.ExtTreeMap.ext_getElem?
    intro other
    simp only [Std.ExtTreeMap.getElem?_insert]
    split <;> rfl
  rw [setSession, setSession, hsessions]
  rfl

theorem sendTo_eq (hs : b.session? client = some s) (m : Message) (q : QoS) (retain : Bool) :
    b.sendTo client m q retain = ((s.send m q retain).1, b.setSession client (s.send m q retain).2) := by
  rw [sendTo, hs]

/-- Sending again and again to one client changes its session, and nothing else. -/
theorem each_sendTo {α : Type} (hs : b.session? client = some s) (f : α → Sending) (xs : List α) :
    b.each (fun b x => b.sendTo client (f x).message (f x).qos (f x).retain) xs =
      ((s.sendAll (xs.map f)).1, b.setSession client (s.sendAll (xs.map f)).2) := by
  induction xs generalizing b s with
  | nil => exact Prod.ext_iff.2 ⟨rfl, (setSession_session? hs).symm⟩
  | cons x xs ih =>
    have hsent : (b.setSession client (s.send (f x).message (f x).qos (f x).retain).2).session? client =
        some (s.send (f x).message (f x).qos (f x).retain).2 := by simp
    rw [each_cons, sendTo_eq hs, ih hsent, List.map_cons, Session.sendAll_cons, setSession_setSession]

/-! ### Publishing -/

/-- What publishing a message hands to a client. -/
def published (b : Broker) (origin : Option String) (m : Message) (client : String) : List Sending :=
  ((b.receivers origin m.topic).filter (·.1 = client)).map fun r => ⟨m, r.2, false⟩

theorem session?_sendTo (b : Broker) (client other : String) (m : Message) (q : QoS) (retain : Bool) :
    (b.sendTo client m q retain).2.session? other =
      if client = other then (b.session? other).map fun s => (s.send m q retain).2 else b.session? other := by
  by_cases hother : client = other
  · subst hother
    rw [if_pos rfl]
    cases hs : b.session? client with
    | none => simp [sendTo, hs]
    | some s => simp [sendTo, hs]
  · rw [if_neg hother, sendTo]
    cases b.session? client with
    | none => rfl
    | some s => exact (session?_setSession b client other _).trans (if_neg hother)

/-- Of all sendings a client gets its own. -/
theorem session?_each_sendTo {α : Type} (b : Broker) (receiver : α → String) (f : α → Sending) (xs : List α)
    (client : String) :
    (b.each (fun b x => b.sendTo (receiver x) (f x).message (f x).qos (f x).retain) xs).2.session? client =
      (b.session? client).map fun s => (s.sendAll ((xs.filter (receiver · = client)).map f)).2 := by
  induction xs generalizing b with
  | nil => simp [each_eq_foldl, Session.sendAll]
  | cons x xs ih =>
    rw [each_cons, ih, session?_sendTo]
    by_cases hx : receiver x = client
    · simp [hx, Session.sendAll_cons, Function.comp_def]
    · simp [hx]

theorem session?_route (b : Broker) (m : Message) (receivers : List (String × QoS)) (client : String) :
    (b.route m receivers).2.session? client = (b.session? client).map fun s =>
      (s.sendAll ((receivers.filter (·.1 = client)).map fun r => ⟨m, r.2, false⟩)).2 :=
  session?_each_sendTo b Prod.fst (fun r => ⟨m, r.2, false⟩) receivers client

@[simp] theorem session?_afterRetain (b : Broker) (m : Message) (client : String) :
    (b.afterRetain m).session? client = b.session? client := by
  unfold afterRetain
  split <;> rfl

@[simp] theorem receivers_afterRetain (b : Broker) (m : Message) (origin : Option String) (topic : String) :
    (b.afterRetain m).receivers origin topic = b.receivers origin topic := by
  unfold afterRetain
  split <;> rfl

/-- Publishing is retaining and then routing. -/
theorem publish_eq (b : Broker) (origin : Option String) (m : Message) :
    b.publish origin m = (b.afterRetain m).route m (b.receivers origin m.topic) := by
  rw [← receivers_afterRetain b m]
  rfl

theorem session?_publish (b : Broker) (origin : Option String) (m : Message) (client : String) :
    (b.publish origin m).2.session? client =
      (b.session? client).map fun s => (s.sendAll (b.published origin m client)).2 := by
  rw [publish_eq, session?_route, session?_afterRetain]
  rfl

/-- No client is listed twice. -/
theorem nodup_receivers (b : Broker) (origin : Option String) (topic : String) :
    ((b.receivers origin topic).map (·.1)).Nodup := by
  refine List.pairwise_map.2 (((b.subscriptions.subscribers topic).distinct_keys_toList.filter _).imp ?_)
  intro r r' hne heq
  refine hne ?_
  rw [heq]
  exact Std.ReflCmp.compare_self

/-- A client that is listed is handed the message once, -/
theorem published_of_mem {origin : Option String} {m : Message} {q : QoS}
    (h : (client, q) ∈ b.receivers origin m.topic) : b.published origin m client = [⟨m, q, false⟩] := by
  have hnodup := b.nodup_receivers origin m.topic
  obtain ⟨before, after, hreceivers⟩ := List.append_of_mem h
  rw [hreceivers, List.map_append, List.map_cons, List.nodup_middle, List.nodup_cons, List.mem_append, not_or] at hnodup
  have hnone {rs : List (String × QoS)} (hrs : client ∉ rs.map (·.1)) : rs.filter (·.1 = client) = [] := by
    rw [List.filter_eq_nil_iff]
    intro r hr heq
    exact hrs (List.mem_map.2 ⟨r, hr, of_decide_eq_true heq⟩)
  rw [published, hreceivers, List.filter_append, List.filter_cons, hnone hnodup.1.1, hnone hnodup.1.2]
  simp

/-- and no other is handed anything. -/
theorem published_of_notMem {origin : Option String} {m : Message}
    (h : ∀ q, (client, q) ∉ b.receivers origin m.topic) : b.published origin m client = [] := by
  rw [published, List.filter_eq_nil_iff.2, List.map_nil]
  rintro ⟨other, q⟩ hr heq
  exact h q (of_decide_eq_true heq ▸ hr)

/-! ### Retained messages -/

/-- The retained messages that a subscription makes due. -/
def replayed (b : Broker) (filter : String) (q : QoS) : List Sending :=
  (b.retained.matching filter).map fun m => ⟨m, q, true⟩

theorem session?_replayRetained (b : Broker) (client filter : String) (q : QoS) (other : String) :
    (b.replayRetained client filter q).2.session? other =
      if client = other then (b.session? other).map fun s => (s.sendAll (b.replayed filter q)).2
      else b.session? other := by
  have h := session?_each_sendTo b (fun _ => client) (fun m => ⟨m, q, true⟩) (b.retained.matching filter) other
  rw [replayRetained, h]
  by_cases hother : client = other
  · rw [if_pos hother, List.filter_eq_self.2 fun _ _ => decide_eq_true hother]
    rfl
  · rw [if_neg hother, List.filter_eq_nil_iff.2 fun _ _ => by simpa using hother]
    exact Option.map_id'

/-- The retained messages that match each filter in some order, such as that in which a walk of the tree meets them. -/
abbrev Walk := String → List Message

/-- The retained messages of a client's subscriptions, in the order of a walk. -/
def walked (walk : Walk) (lines : List (String × QoS)) : List Sending :=
  lines.flatMap fun line => (walk line.1).map fun m => ⟨m, line.2, true⟩

/-- One round of the replay of a client's subscriptions, in the order of a walk. -/
def walkStep (walk : Walk) (client : String) (made : List Delivery × Broker) (line : String × QoS) :
    List Delivery × Broker :=
  (made.1 ++ (made.2.each (fun b m => b.sendTo client m line.2 true) (walk line.1)).1,
    (made.2.each (fun b m => b.sendTo client m line.2 true) (walk line.1)).2)

theorem foldl_walkStep_eq (walk : Walk) (hs : b.session? client = some s) (lines : List (String × QoS))
    (made : List Delivery) :
    lines.foldl (walkStep walk client) (made, b) =
      (made ++ (s.sendAll (walked walk lines)).1, b.setSession client (s.sendAll (walked walk lines)).2) := by
  induction lines generalizing b s made with
  | nil =>
    refine Prod.ext_iff.2 ⟨(List.append_nil made).symm, (setSession_session? hs).symm⟩
  | cons line lines ih =>
    have hline := each_sendTo hs (fun m => ⟨m, line.2, true⟩) (walk line.1)
    have hall : walked walk (line :: lines) = (walk line.1).map (fun m => ⟨m, line.2, true⟩) ++ walked walk lines := rfl
    dsimp only at hline
    generalize (walk line.1).map (fun m => (⟨m, line.2, true⟩ : Sending)) = sendings at hline hall
    have hafter : (b.setSession client (s.sendAll sendings).2).session? client = some (s.sendAll sendings).2 := by simp
    rw [List.foldl_cons, walkStep]
    dsimp only
    rw [hline, ih hafter, setSession_setSession, hall, Session.sendAll_append, List.append_assoc]

/-- The retained messages of a client's subscriptions. -/
def replayedAll (b : Broker) (lines : List (String × QoS)) : List Sending :=
  lines.flatMap fun line => b.replayed line.1 line.2

/-- The broker walks its tree in one of the orders, and finds the same messages for every subscription. -/
theorem foldl_replayStep_eq_walk (client : String) (lines : List (String × QoS)) (made : List Delivery) (b : Broker) :
    lines.foldl (replayStep client) (made, b) = lines.foldl (walkStep b.retained.matching client) (made, b) := by
  induction lines generalizing made b with
  | nil => rfl
  | cons line lines ih =>
    have hretained : (b.replayRetained client line.1 line.2).2.retained = b.retained :=
      (replayRetained_sends (M := fun _ => True) (RetainTree.only_of_forall fun _ => trivial) client line.1
        line.2).retained
    rw [List.foldl_cons, List.foldl_cons, replayStep, ih, hretained]
    rfl

/-- What a client that came back is sent: the retained messages of its subscriptions, then what waited. -/
def restarted (b : Broker) (client : String) (s : Session) : List Sending :=
  b.replayedAll (b.subscriptions.subscriptions client) ++ s.queue.map Session.again

/-- Bring a client up to date, and replay the retained messages in the order of a walk. -/
def restartWalking (walk : Walk) (b : Broker) (client : String) : List Delivery × Broker :=
  match b.session? client with
  | none => ([], b)
  | some s =>
    match s.owner with
    | none => ([], b)
    | some token =>
      let replayed := (b.subscriptions.subscriptions client).foldl (walkStep walk client)
        ([], b.setSession client s.dropQueue)
      let queued := replayed.2.each (fun b m => b.sendTo client m m.qos false) s.queue
      (replayed.1 ++ queued.1 ++ s.inflight.resend.map (Delivery.mk token), queued.2)

/-- The broker itself walks in one of the orders. -/
theorem restartSession_eq_walking (b : Broker) (client : String) :
    b.restartSession client = b.restartWalking b.retained.matching client := by
  unfold restartWalking
  cases hs : b.session? client with
  | none =>
    unfold restartSession
    rw [hs]
  | some s =>
    cases howner : s.owner with
    | none =>
      unfold restartSession
      rw [hs]
      dsimp only
      rw [howner]
    | some token =>
      rw [restartSession_eq_replay hs howner, foldl_replayStep_eq_walk]
      dsimp only
      rw [howner]
      rfl

/-- **Bringing a client up to date** is sending, and then what was not acknowledged before. -/
theorem restartWalking_eq (walk : Walk) {token : Nat} (hs : b.session? client = some s)
    (howner : s.owner = some token) :
    let due := walked walk (b.subscriptions.subscriptions client) ++ s.queue.map Session.again
    b.restartWalking walk client =
      ((s.dropQueue.sendAll due).1 ++ s.inflight.resend.map (Delivery.mk token),
        b.setSession client (s.dropQueue.sendAll due).2) := by
  let s₁ := (s.dropQueue.sendAll (walked walk (b.subscriptions.subscriptions client))).2
  have htaken : (b.setSession client s.dropQueue).session? client = some s.dropQueue := by simp
  have hreplayed : (b.setSession client s₁).session? client = some s₁ := by simp
  have hlines : (b.subscriptions.subscriptions client).foldl (walkStep walk client)
      ([], b.setSession client s.dropQueue) =
      ((s.dropQueue.sendAll (walked walk (b.subscriptions.subscriptions client))).1, b.setSession client s₁) := by
    rw [foldl_walkStep_eq walk htaken, setSession_setSession]
    rfl
  have hqueue : (b.setSession client s₁).each (fun b m => b.sendTo client m m.qos false) s.queue =
      ((s₁.sendAll (s.queue.map Session.again)).1,
        b.setSession client (s₁.sendAll (s.queue.map Session.again)).2) := by
    rw [← setSession_setSession b client s₁ (s₁.sendAll (s.queue.map Session.again)).2]
    exact each_sendTo hreplayed Session.again s.queue
  unfold restartWalking
  rw [hs]
  dsimp only
  rw [howner]
  dsimp only
  rw [hlines, Session.sendAll_append]
  dsimp only
  rw [hqueue]

theorem restartSession_eq {token : Nat} (hs : b.session? client = some s) (howner : s.owner = some token) :
    b.restartSession client =
      ((s.dropQueue.sendAll (b.restarted client s)).1
          ++ s.inflight.resend.map (Delivery.mk token),
        b.setSession client (s.dropQueue.sendAll (b.restarted client s)).2) :=
  (b.restartSession_eq_walking client).trans (restartWalking_eq b.retained.matching hs howner)

end Broker

end Mqtt
