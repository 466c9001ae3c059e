import Mqtt.Proofs.Reception
import Mqtt.Proofs.Retained

/-!
# How the trees of a broker change: `SubscriptionTree`, `RetainTree`

A broker changes because a packet is accepted, a session is released or a message is published, and for no
other reason: `Broker.Stable` collects what a property has to survive to hold of every run. The two trees
change in even fewer ways, one change or one retained message after the other (`Broker.Edits`), so what is
known of a tree after any changes is known of the trees of every broker that a run can lead to.
-/

namespace Mqtt

/-! ### What survives everything -/

/-- A property of a broker that nothing its connections do can break. -/
structure Broker.Stable (P : Broker → Prop) : Prop where
  accept : ∀ {p : Peer} {b : Broker} {now : Nat} {packet : Packet} {h : Peer.Handled},
    Peer.Accepts p b now packet h → P b → P h.broker
  release : ∀ {b : Broker} (client : String) (token : Nat), P b → P (b.releaseSession client token)
  publish : ∀ {b : Broker} (origin : Option String) (m : Message), P b → P (b.publish origin m).2

namespace Broker.Stable

variable {P : Broker → Prop}

/-- Bytes reach the broker as packets that are accepted, and not at all otherwise. -/
theorem receive (hP : Stable P) (now max : Nat) (bytes : List UInt8) (s : Decoder.State) (p : Peer) (b : Broker)
    (ds : Array Delivery) (hb : P b) : P (Connection.receive now max s p b ds bytes).broker := by
  induction s, p, b, bytes using Connection.bytes_induction now max generalizing ds with
  | nil s p b => exact hb
  | closed s p b bytes hclosed =>
    rw [Connection.receive_of_closed hclosed]
    exact hb
  | broken s p b byte bytes s' e hopen hstep =>
    rw [Connection.receive_cons_error hopen hstep]
    exact hb
  | more s p b byte bytes s' hopen hstep ih =>
    rw [Connection.receive_cons_none hopen hstep]
    exact ih ds hb
  | refused s p b byte bytes s' packet r hopen hstep hh =>
    rw [Connection.receive_cons_refused hopen hstep hh]
    exact hb
  | handled s p b byte bytes s' packet h hopen hstep hh ih =>
    rw [Connection.receive_cons_handled hopen hstep hh]
    exact ih _ (hP.accept (Peer.handle_ok hh).2 hb)

theorem teardown (hP : Stable P) (c : Connection) {b : Broker} (hb : P b) (reason : CloseReason) :
    P (c.teardown b reason).2.1 := by
  rw [Connection.teardown_eq]
  cases htorn : c.peer.tornDown with
  | true => exact hb
  | false =>
    simp only [Bool.false_eq_true, if_false]
    cases hclient : c.peer.client with
    | none => exact hb
    | some client =>
      have hreleased := hP.release client.id c.peer.token hb
      cases hwill : client.will with
      | none =>
        simp only [hwill]
        exact hreleased
      | some will =>
        by_cases hreason : reason = .ungraceful
        · simp only [hwill, hreason, if_true]
          exact hP.publish (some client.id) will hreleased
        · simp only [hwill, hreason, if_false]
          exact hreleased

/-- One action keeps the property. -/
theorem step (hP : Stable P) {h : Hub} (hb : P h.broker) (a : Hub.Action) : P (h.step a).broker := by
  cases a with
  | accept token limits now =>
    rw [Hub.step, Hub.accept]
    split <;> exact hb
  | receive token now bytes =>
    rw [Hub.step, Hub.receive]
    split
    · exact hb
    · next c hc =>
      rw [Hub.broker_dispatch, Hub.broker_setConnection]
      exact hP.receive now c.decoder.maxPacketSize bytes c.decoder.state c.peer h.broker #[] hb
  | teardown token reason =>
    rw [Hub.step, Hub.teardown]
    split
    · exact hb
    · next c hc =>
      rw [Hub.broker_dispatch, Hub.broker_setConnection]
      exact hP.teardown c hb reason
  | written token count =>
    rw [Hub.step, Hub.written]
    split <;> exact hb
  | publish origin m =>
    have hpublished := hP.publish origin m hb
    rw [Hub.step, Hub.publish, Hub.broker_dispatch]
    dsimp only
    exact hpublished

/-- Every run keeps the property. -/
theorem run (hP : Stable P) {h : Hub} (hb : P h.broker) (actions : List Hub.Action) :
    P (h.run actions).broker := by
  induction actions generalizing h with
  | nil => exact hb
  | cons a actions ih => exact ih (hP.step hb a)

end Broker.Stable

/-! ### Changes of the trees -/

namespace Broker

/-- The trees of the second broker are those of the first after some changes and some messages. -/
structure Edits (b b' : Broker) : Prop where
  subscriptions : ∃ changes : List SubscriptionTree.Change,
    b'.subscriptions = changes.foldl SubscriptionTree.change b.subscriptions
  retained : ∃ ms : List Message, b'.retained = ms.foldl RetainTree.retain b.retained

theorem edits_of_eq {b b' : Broker} (hsubscriptions : b'.subscriptions = b.subscriptions)
    (hretained : b'.retained = b.retained) : Edits b b' :=
  ⟨⟨[], hsubscriptions⟩, ⟨[], hretained⟩⟩

theorem edits_of_change {b b' : Broker} (c : SubscriptionTree.Change)
    (hsubscriptions : b'.subscriptions = b.subscriptions.change c) (hretained : b'.retained = b.retained) :
    Edits b b' :=
  ⟨⟨[c], hsubscriptions⟩, ⟨[], hretained⟩⟩

theorem Edits.trans {b₁ b₂ b₃ : Broker} (h : Edits b₁ b₂) (h' : Edits b₂ b₃) : Edits b₁ b₃ := by
  obtain ⟨⟨cs, hcs⟩, ms, hms⟩ := h
  obtain ⟨⟨cs', hcs'⟩, ms', hms'⟩ := h'
  refine ⟨⟨cs ++ cs', ?_⟩, ms ++ ms', ?_⟩
  · rw [hcs', hcs, List.foldl_append]
  · rw [hms', hms, List.foldl_append]

theorem Sends.edits {M : Message → Prop} {b b' : Broker} {ds : List Delivery} (h : Sends M b ds b') :
    Edits b b' :=
  edits_of_eq h.frame.subscriptions h.retained

theorem publish_edits (b : Broker) (origin : Option String) (m : Message) : Edits b (b.publish origin m).2 := by
  have hretain : Edits b (b.afterRetain m) := by
    unfold afterRetain
    split
    · exact ⟨⟨[], rfl⟩, ⟨[m], rfl⟩⟩
    · exact edits_of_eq rfl rfl
  exact hretain.trans (publish_sends b origin (M := fun _ => True) trivial).edits

theorem subscribe_edits (b : Broker) (client filter : String) (q : QoS) :
    Edits b (b.subscribe client filter q).2.2 := by
  unfold subscribe
  split
  · exact edits_of_eq rfl rfl
  · let b₁ : Broker :=
      { b with subscriptions := (b.subscriptions.subscribe filter client (min q b.options.maxQoS)).2 }
    have hadd : Edits b b₁ := edits_of_change (.subscribe filter client (min q b.options.maxQoS)) rfl rfl
    have hsends := replayRetained_sends (b := b₁) (M := fun _ => True)
      (RetainTree.only_of_forall fun _ => trivial) client filter (min q b.options.maxQoS)
    exact hadd.trans hsends.edits

theorem subscribeAll_edits (client : String) (topics : List TopicRequest) (b : Broker) :
    Edits b (Peer.subscribeAll b client topics).2.2 := by
  induction topics generalizing b with
  | nil => exact edits_of_eq rfl rfl
  | cons t ts ih => exact (subscribe_edits b client t.filter t.qos).trans (ih _)

theorem unsubscribe_foldl_edits (client : String) (filters : List String) (b : Broker) :
    Edits b (filters.foldl (fun b filter => b.unsubscribe client filter) b) := by
  induction filters generalizing b with
  | nil => exact edits_of_eq rfl rfl
  | cons filter filters ih =>
    have hdrop : Edits b (b.unsubscribe client filter) := edits_of_change (.unsubscribe filter client) rfl rfl
    exact hdrop.trans (ih (b.unsubscribe client filter))

theorem releaseSession_edits (b : Broker) (client : String) (token : Nat) :
    Edits b (b.releaseSession client token) := by
  unfold releaseSession
  split
  · exact edits_of_eq rfl rfl
  · split
    · split
      · exact edits_of_change (.unsubscribeAll client) rfl rfl
      · refine edits_of_eq (modifySession_subscriptions b client _) ?_
        unfold retainSession modifySession
        split <;> rfl
    · exact edits_of_eq rfl rfl

theorem restartSession_edits {b : Broker} {client : String} {s : Session} {token : Nat}
    (hs : b.session? client = some s) (htoken : s.owner = some token) : Edits b (b.restartSession client).2 := by
  obtain ⟨ds, -, hsends⟩ := restartSession_sends (M := fun _ => True)
    (RetainTree.only_of_forall fun _ => trivial) hs htoken fun _ _ => trivial
  have hqueue : Edits b (b.setSession client { s with queue := [] }) := edits_of_eq rfl rfl
  exact hqueue.trans hsends.edits

end Broker

open Broker

/-- An accepted packet edits the trees. -/
theorem Peer.Accepts.edits {p : Peer} {b : Broker} {now : Nat} {packet : Packet} {h : Handled}
    (ha : Accepts p b now packet h) : Edits b h.broker := by
  cases ha with
  | @fresh c id n => exact edits_of_change (.unsubscribeAll id) rfl rfl
  | @resumed c s _ _ _ hs howner =>
    have hrenewed : Edits b (b.setSession c.clientId (s.renew p.token)) := edits_of_eq rfl rfl
    exact hrenewed.trans (restartSession_edits (s := s.renew p.token) (by simp) rfl)
  | @routed client s publish reply inflight =>
    have hkeep : Edits b (b.setSession client.id { s with inflight }) := edits_of_eq rfl rfl
    have hroute := publish_edits (b.setSession client.id { s with inflight }) (some client.id) publish.message
    dsimp only
    exact hkeep.trans hroute
  | repeated | acknowledged => exact edits_of_eq rfl rfl
  | @subscribed client id topics => exact subscribeAll_edits client.id topics b
  | @unsubscribed client id filters => exact unsubscribe_foldl_edits client.id filters b
  | pinged | left => exact edits_of_eq rfl rfl

namespace Broker

theorem stable_edits (b₀ : Broker) : Stable (Edits b₀) where
  accept ha hb := hb.trans ha.edits
  release client token hb := hb.trans (releaseSession_edits _ client token)
  publish origin m hb := hb.trans (publish_edits _ origin m)

/-- **Every run is a row of edits.** After any run that began with nothing, the subscriptions are those that
some changes make of an empty tree, and the retained messages those that are left of some messages. -/
theorem run_edits (options : BrokerOptions) (actions : List Hub.Action) :
    Edits (.new options) ((Hub.start (.new options)).run actions).broker :=
  (stable_edits (.new options)).run (edits_of_eq rfl rfl) actions

/-- Trees that came about by edits hold what tables hold. -/
theorem Edits.files {options : BrokerOptions} {b : Broker} (hb : Edits (.new options) b) :
    ∃ lines held, b.subscriptions.Files lines ∧ b.retained.Files held := by
  obtain ⟨⟨changes, hchanges⟩, ms, hms⟩ := hb
  rw [hchanges, hms]
  exact ⟨_, _, SubscriptionTree.files_empty.foldl changes, RetainTree.files_empty.foldl ms⟩

end Broker

end Mqtt
