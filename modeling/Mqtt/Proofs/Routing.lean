import Mqtt.Broker
import Mqtt.Proofs.Entries
import Mqtt.Proofs.Outcomes

/-!
# What routing may do: `Session::send_publish`

Publishing, replaying retained messages and bringing a client up to date are all made of one thing,
done again and again: sending a message to the session of a client. `Broker.Sends M b ds b'` says that
`b` becomes `b'` in this way and delivers `ds`, and that every message sent satisfies `M`. What is true
of one sending is carried over a whole routing by induction on it, so nothing else has to look into the
loops of the broker.
-/

namespace Mqtt.Broker

variable {M : Message → Prop}

/-- From one broker to another by sending messages to clients, with what is delivered. -/
inductive Sends (M : Message → Prop) : Broker → List Delivery → Broker → Prop
  | nil (b : Broker) : Sends M b [] b
  | cons {m : Message} (hm : M m) (client : String) (q : QoS) (retain : Bool) {b b' : Broker}
      {ds : List Delivery} :
      Sends M (b.sendTo client m q retain).2 ds b' →
        Sends M b ((b.sendTo client m q retain).1.toList ++ ds) b'

theorem Sends.trans {b₁ b₂ b₃ : Broker} {ds es : List Delivery} (h : Sends M b₁ ds b₂)
    (h' : Sends M b₂ es b₃) : Sends M b₁ (ds ++ es) b₃ := by
  induction h with
  | nil => exact h'
  | cons hm client q retain _ ih =>
    rw [List.append_assoc]
    exact .cons hm client q retain (ih h')

theorem sendTo_retained (b : Broker) (client : String) (m : Message) (q : QoS) (retain : Bool) :
    (b.sendTo client m q retain).2.retained = b.retained := by
  unfold sendTo
  split <;> rfl

theorem Sends.retained {b b' : Broker} {ds : List Delivery} (h : Sends M b ds b') :
    b'.retained = b.retained := by
  induction h with
  | nil => rfl
  | cons _ _ _ _ _ ih => rw [ih, sendTo_retained]

/-! ### The loops of the broker -/

/-- One round of `each`: what was made so far, the last first, and the broker. -/
def eachStep {α : Type} (act : Broker → α → Option Delivery × Broker) (made : List Delivery × Broker)
    (x : α) : List Delivery × Broker :=
  ((act made.2 x).1.toList ++ made.1, (act made.2 x).2)

theorem each_eq_foldl {α : Type} (act : Broker → α → Option Delivery × Broker) (b : Broker)
    (xs : List α) :
    b.each act xs =
      ((xs.foldl (eachStep act) ([], b)).1.reverse, (xs.foldl (eachStep act) ([], b)).2) := by
  refine congrArg (fun r : List Delivery × Broker => (r.1.reverse, r.2)) ?_
  refine congrArg (fun f => xs.foldl f ([], b)) (funext fun made => funext fun x => ?_)
  unfold eachStep
  rcases hx : act made.2 x with ⟨_ | d, b'⟩ <;> simp [hx]

/-- What was made before does not change what is made after. -/
theorem foldl_eachStep {α : Type} (act : Broker → α → Option Delivery × Broker) (xs : List α) :
    ∀ (made : List Delivery) (b : Broker),
      xs.foldl (eachStep act) (made, b) = ((b.each act xs).1.reverse ++ made, (b.each act xs).2) := by
  induction xs with
  | nil => simp [each_eq_foldl]
  | cons x xs ih =>
    intro made b
    rw [each_eq_foldl, List.foldl_cons, List.foldl_cons]
    simp only [eachStep, ih, List.append_nil]
    simp

theorem each_cons {α : Type} (act : Broker → α → Option Delivery × Broker) (b : Broker) (x : α)
    (xs : List α) :
    b.each act (x :: xs) =
      ((act b x).1.toList ++ ((act b x).2.each act xs).1, ((act b x).2.each act xs).2) := by
  rw [each_eq_foldl, List.foldl_cons]
  simp only [eachStep, foldl_eachStep, List.append_nil]
  cases (act b x).1 <;> simp

theorem each_sends {α : Type} {act : Broker → α → Option Delivery × Broker} {xs : List α}
    (hact : ∀ x ∈ xs, ∃ client m q retain, M m ∧ ∀ b, act b x = b.sendTo client m q retain)
    (b : Broker) : Sends M b (b.each act xs).1 (b.each act xs).2 := by
  induction xs generalizing b with
  | nil => exact .nil b
  | cons x xs ih =>
    rw [each_cons]
    obtain ⟨client, m, q, retain, hm, hx⟩ := hact x (.head _)
    rw [hx]
    exact .cons hm client q retain (ih (fun y hy => hact y (.tail _ hy)) _)

theorem route_sends (b : Broker) {m : Message} (hm : M m) (receivers : List (String × QoS)) :
    Sends M b (b.route m receivers).1 (b.route m receivers).2 :=
  each_sends (fun r _ => ⟨r.1, m, r.2, false, hm, fun _ => rfl⟩) b

theorem replayRetained_sends {b : Broker} (hb : b.retained.Only M) (client filter : String) (q : QoS) :
    Sends M b (b.replayRetained client filter q).1 (b.replayRetained client filter q).2 :=
  each_sends (fun m hm => ⟨client, m, q, true, hb.matching hm, fun _ => rfl⟩) b

/-- A broker after it retained a message, or not. -/
def afterRetain (b : Broker) (m : Message) : Broker :=
  if m.retain && b.options.retainAvailable then { b with retained := b.retained.retain m } else b

/-- Publishing is retaining and then sending. -/
theorem publish_sends (b : Broker) (origin : Option String) {m : Message} (hm : M m) :
    Sends M (b.afterRetain m) (b.publish origin m).1 (b.publish origin m).2 :=
  route_sends _ hm _

/-- One round of the replay of a client's subscriptions. -/
def replayStep (client : String) (made : List Delivery × Broker) (line : String × QoS) :
    List Delivery × Broker :=
  (made.1 ++ (made.2.replayRetained client line.1 line.2).1,
    (made.2.replayRetained client line.1 line.2).2)

theorem foldl_replayStep (client : String) (lines : List (String × QoS)) :
    ∀ (made : List Delivery) (b : Broker), b.retained.Only M → ∃ ds,
      (lines.foldl (replayStep client) (made, b)).1 = made ++ ds ∧
        Sends M b ds (lines.foldl (replayStep client) (made, b)).2 := by
  induction lines with
  | nil => exact fun made b _ => ⟨[], by simp, .nil b⟩
  | cons line lines ih =>
    intro made b hb
    have hline := replayRetained_sends hb client line.1 line.2
    obtain ⟨ds, hds, hsends⟩ := ih (made ++ (b.replayRetained client line.1 line.2).1)
      (b.replayRetained client line.1 line.2).2 (hline.retained ▸ hb)
    refine ⟨(b.replayRetained client line.1 line.2).1 ++ ds, ?_, hline.trans hsends⟩
    rw [← List.append_assoc]
    exact hds

/-- The retained messages are replayed to the session without its queue, and then the queue is sent. -/
theorem restartSession_eq_replay {b : Broker} {client : String} {s : Session} {token : Nat}
    (hs : b.session? client = some s) (htoken : s.owner = some token) :
    b.restartSession client =
      let replayed := (b.subscriptions.subscriptions client).foldl (replayStep client)
        ([], b.setSession client s.dropQueue)
      let queued := replayed.2.each (fun b m => b.sendTo client m m.qos false) s.queue
      (replayed.1 ++ queued.1 ++ s.inflight.resend.map (Delivery.mk token), queued.2) := by
  obtain ⟨owner, clean, packetIds, maxQueued, queue, inflight⟩ := s
  obtain rfl : owner = some token := htoken
  rw [restartSession, hs]
  rfl

/-- **Bringing a client up to date.** Its queue is taken, what is due is sent, and what the client had
not acknowledged before comes last. -/
theorem restartSession_sends {b : Broker} {client : String} {s : Session} {token : Nat}
    (hb : b.retained.Only M) (hs : b.session? client = some s) (htoken : s.owner = some token)
    (hqueue : ∀ m ∈ s.queue, M m) :
    ∃ ds, (b.restartSession client).1 = ds ++ s.inflight.resend.map (Delivery.mk token) ∧
      Sends M (b.setSession client { s with queue := [] }) ds (b.restartSession client).2 := by
  obtain ⟨ds, hds, hsends⟩ := foldl_replayStep client (b.subscriptions.subscriptions client) []
    (b.setSession client s.dropQueue) hb
  rw [restartSession_eq_replay hs htoken]
  dsimp only
  rw [hds, List.nil_append]
  refine ⟨_, rfl, hsends.trans (each_sends (fun m hm => ?_) _)⟩
  exact ⟨client, m, m.qos, false, hqueue m hm, fun _ => rfl⟩

end Mqtt.Broker
