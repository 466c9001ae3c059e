import Mqtt.Proofs.Handing
import Mqtt.Proofs.Ownership

/-!
# The order in which subscribers are visited: `Broker::publish`

The subscribers of a topic stand in a table, and a broker may go through a table in any order. Each visit reads and
writes the session of one client, and no client is visited twice, so two visits next to each other can change places:
`Broker.route_perm` follows the exchanges that lead from one order to the other.

`Broker.publishVisiting_perm` says what does not depend on the order: the broker afterwards, which deliveries are made,
and what each connection gets in which order.
-/

namespace Mqtt

namespace Broker

/-- Publish a message and visit the subscribers of its topic as they are listed. -/
def publishVisiting (b : Broker) (origin : Option String) (m : Message) (visits : List (String × QoS)) :
    List Delivery × Broker :=
  (b.afterRetain m).route m (visits.filter fun (client, _) => b.options.reflect || origin ≠ some client)

/-- The connection owns the session of one client at most. -/
def OwnsOne (b : Broker) (token : Nat) : Prop :=
  ∀ client client' s s', b.session? client = some s → b.session? client' = some s' →
    s.owner = some token → s'.owner = some token → client = client'

/-- Two ways to deliver that come to the same: the broker is the same afterwards, the same deliveries are made, and
those for each of the given connections are made in the same order. -/
structure Agrees (tokens : Nat → Prop) (r r' : List Delivery × Broker) : Prop where
  broker : r.2 = r'.2
  deliveries : r.1.Perm r'.1
  order : ∀ token, tokens token → r.1.filter (·.token = token) = r'.1.filter (·.token = token)

variable {b : Broker} {m : Message} {client client' : String} {q q' : QoS} {retain retain' : Bool}

namespace Agrees

variable {tokens tokens' : Nat → Prop} {r r' r'' : List Delivery × Broker}

theorem refl (r : List Delivery × Broker) : Agrees tokens r r := ⟨rfl, .refl _, fun _ _ => rfl⟩

theorem trans (h : Agrees tokens r r') (h' : Agrees tokens r' r'') : Agrees tokens r r'' where
  broker := h.broker.trans h'.broker
  deliveries := h.deliveries.trans h'.deliveries
  order := fun token htoken => (h.order token htoken).trans (h'.order token htoken)

theorem mono (h : Agrees tokens r r') (hsub : ∀ token, tokens' token → tokens token) : Agrees tokens' r r' :=
  ⟨h.broker, h.deliveries, fun token htoken => h.order token (hsub token htoken)⟩

/-- The same deliveries may be made before. -/
theorem append_left (ds : List Delivery) (h : Agrees tokens r r') :
    Agrees tokens (ds ++ r.1, r.2) (ds ++ r'.1, r'.2) where
  broker := h.broker
  deliveries := h.deliveries.append_left ds
  order := by
    intro token htoken
    rw [List.filter_append, List.filter_append, h.order token htoken]

end Agrees

/-! ### One visit -/

theorem sendTo_fst (b : Broker) (client : String) (m : Message) (q : QoS) (retain : Bool) :
    (b.sendTo client m q retain).1 = (b.session? client).bind fun s => (s.send m q retain).1 := by
  rw [sendTo]
  cases b.session? client <;> rfl

theorem sendTo_snd (b : Broker) (client : String) (m : Message) (q : QoS) (retain : Bool) :
    (b.sendTo client m q retain).2 = b.modifySession client fun s => (s.send m q retain).2 := by
  rw [sendTo, modifySession]
  cases b.session? client <;> rfl

theorem setSession_comm (hne : client ≠ client') (s s' : Session) :
    (b.setSession client s).setSession client' s' = (b.setSession client' s').setSession client s := by
  have hsessions : (b.sessions.insert client s).insert client' s' = (b.sessions.insert client' s').insert client s := by
    apply Std.ExtTreeMap.ext_getElem?
    intro other
    simp only [Std.ExtTreeMap.getElem?_insert, Std.compare_eq_iff_eq]
    by_cases hother : client' = other
    · have hclient : client ≠ other := fun h => hne (h.trans hother.symm)
      simp [hother, hclient]
    · simp [hother]
  simp only [setSession, hsessions]

/-- Sessions of different clients may be changed in either order. -/
theorem modifySession_comm (hne : client ≠ client') (f f' : Session → Session) :
    (b.modifySession client f).modifySession client' f' = (b.modifySession client' f').modifySession client f := by
  have hother : (b.modifySession client f).session? client' = b.session? client' := by
    rw [session?_modifySession, if_neg hne]
  have hother' : (b.modifySession client' f').session? client = b.session? client := by
    rw [session?_modifySession, if_neg hne.symm]
  cases hs : b.session? client with
  | none =>
    rw [modifySession_eq_of_none f hs, modifySession_eq_of_none f (hother'.trans hs)]
  | some s =>
    cases hs' : b.session? client' with
    | none =>
      rw [modifySession_eq_of_none f' hs', modifySession_eq_of_none f' (hother.trans hs')]
    | some s' =>
      rw [modifySession_eq_of_some f' (hother.trans hs'), modifySession_eq_of_some f hs,
        modifySession_eq_of_some f (hother'.trans hs), modifySession_eq_of_some f' hs', setSession_comm hne]

/-- A visit delivers what it would deliver if another client had not been visited before. -/
theorem sendTo_fst_sendTo (hne : client ≠ client') :
    ((b.sendTo client m q retain).2.sendTo client' m q' retain').1 = (b.sendTo client' m q' retain').1 := by
  rw [sendTo_fst, sendTo_fst, session?_sendTo, if_neg hne]

/-- What a visit delivers is for the connection that owns the session. -/
theorem owner_of_sendTo {d : Delivery} (hd : (b.sendTo client m q retain).1 = some d) :
    ∃ s, b.session? client = some s ∧ s.owner = some d.token := by
  rw [sendTo_fst] at hd
  obtain ⟨s, hs, hsent⟩ := Option.bind_eq_some_iff.1 hd
  refine ⟨s, hs, ?_⟩
  have houtcome := s.send_outcome m q retain
  rw [hsent] at houtcome
  generalize (s.send m q retain).2 = s' at houtcome
  cases houtcome with
  | tracked howner => exact howner
  | passed howner => exact howner

/-- Sending leaves every session with its owner. -/
theorem OwnsOne.sendTo {token : Nat} (h : b.OwnsOne token) : (b.sendTo client m q retain).2.OwnsOne token := by
  intro c c' s s' hs hs' howner howner'
  have hframe := sendTo_frame b client m q retain
  have hhold := hframe.hold c ▸ hold?_eq_some_iff.2 ⟨s, hs, howner, rfl⟩
  have hhold' := hframe.hold c' ▸ hold?_eq_some_iff.2 ⟨s', hs', howner', rfl⟩
  obtain ⟨s₁, hs₁, howner₁, -⟩ := hold?_eq_some_iff.1 hhold
  obtain ⟨s₂, hs₂, howner₂, -⟩ := hold?_eq_some_iff.1 hhold'
  exact h c c' s₁ s₂ hs₁ hs₂ howner₁ howner₂

/-! ### Two orders -/

theorem route_cons (b : Broker) (m : Message) (r : String × QoS) (visits : List (String × QoS)) :
    b.route m (r :: visits) =
      ((b.sendTo r.1 m r.2 false).1.toList ++ ((b.sendTo r.1 m r.2 false).2.route m visits).1,
        ((b.sendTo r.1 m r.2 false).2.route m visits).2) :=
  each_cons _ b r visits

/-- Two visits next to each other may change places. A connection gets something from one of them at most, unless it
owns the sessions of both clients. -/
theorem route_swap {x y : String × QoS} (hne : x.1 ≠ y.1) (visits : List (String × QoS)) :
    Agrees b.OwnsOne (b.route m (x :: y :: visits)) (b.route m (y :: x :: visits)) := by
  have hsame : ((b.sendTo x.1 m x.2 false).2.sendTo y.1 m y.2 false).2
      = ((b.sendTo y.1 m y.2 false).2.sendTo x.1 m x.2 false).2 := by
    simp only [sendTo_snd]
    exact modifySession_comm hne _ _
  simp only [route_cons, sendTo_fst_sendTo hne, sendTo_fst_sendTo hne.symm, hsame, ← List.append_assoc]
  refine ⟨rfl, List.perm_append_comm.append_right _, fun token htoken => ?_⟩
  simp only [List.filter_append]
  congr 1
  -- Were both deliveries for this connection, it would own both sessions.
  cases hx : (b.sendTo x.1 m x.2 false).1 with
  | none => simp
  | some d =>
    cases hy : (b.sendTo y.1 m y.2 false).1 with
    | none => simp
    | some e =>
      obtain ⟨s, hs, howner⟩ := owner_of_sendTo hx
      obtain ⟨s', hs', howner'⟩ := owner_of_sendTo hy
      by_cases hd : d.token = token
      · have he : e.token ≠ token := by
          intro he
          exact hne (htoken x.1 y.1 s s' hs hs' (hd ▸ howner) (he ▸ howner'))
        simp [he]
      · simp [hd]

/-- Visits of clients that are all different come to the same in any order. -/
theorem route_perm {visits visits' : List (String × QoS)} (hperm : visits.Perm visits')
    (hnodup : (visits.map (·.1)).Nodup) : Agrees b.OwnsOne (b.route m visits) (b.route m visits') := by
  induction hperm generalizing b with
  | nil => exact .refl _
  | cons x _ ih =>
    rw [route_cons, route_cons]
    have hrest := ih (b := (b.sendTo x.1 m x.2 false).2) (List.nodup_cons.1 hnodup).2
    exact (hrest.mono fun token htoken => htoken.sendTo).append_left _
  | swap x y visits =>
    have hne : y.1 ≠ x.1 := by
      intro heq
      simp [heq] at hnodup
    exact route_swap hne visits
  | trans hfirst _ ih ih' => exact (ih hnodup).trans (ih' ((hfirst.map (·.1)).nodup_iff.1 hnodup))

/-- A connection serves one client. -/
theorem Owned.ownsOne {who : Nat → Option Standing} (h : b.Owned who) (token : Nat) : b.OwnsOne token := by
  intro client client' s s' hs hs' howner howner'
  obtain ⟨standing, hwho, hserves⟩ :=
    (h.owner client token).1 ⟨s.cleanSession, hold?_eq_some_iff.2 ⟨s, hs, howner, rfl⟩⟩
  obtain ⟨standing', hwho', hserves'⟩ :=
    (h.owner client' token).1 ⟨s'.cleanSession, hold?_eq_some_iff.2 ⟨s', hs', howner', rfl⟩⟩
  obtain rfl := Option.some.inj (hwho.symm.trans hwho')
  exact Option.some.inj (hserves.1.symm.trans hserves'.1)

/-! ### Publishing -/

theorem OwnsOne.afterRetain {token : Nat} (h : b.OwnsOne token) (m : Message) : (b.afterRetain m).OwnsOne token := by
  simpa [OwnsOne] using h

/-- **Routing does not depend on the order of the visits.** In whatever two orders the subscribers of a topic are
visited, publishing leads to the same broker, and to the same deliveries up to their order. A connection gets its own
deliveries in the same order, if it does not own the sessions of two clients; and it never does in a run of a broker
that starts without owners, whatever its connections do. The broker itself visits in one of these orders. -/
theorem publishVisiting_perm (b : Broker) (origin : Option String) (m : Message) {visits visits' : List (String × QoS)}
    (hvisits : visits.Perm (b.subscriptions.subscribers m.topic).toList)
    (hvisits' : visits'.Perm (b.subscriptions.subscribers m.topic).toList) :
    (b.publishVisiting origin m visits).2 = (b.publishVisiting origin m visits').2 ∧
    (b.publishVisiting origin m visits).1.Perm (b.publishVisiting origin m visits').1 ∧
    (∀ token, b.OwnsOne token →
      (b.publishVisiting origin m visits).1.filter (·.token = token)
        = (b.publishVisiting origin m visits').1.filter (·.token = token)) ∧
    (∀ (start : Broker) (actions : List Hub.Action), start.Initial → ((Hub.start start).run actions).broker = b →
      ∀ token, (b.publishVisiting origin m visits).1.filter (·.token = token)
        = (b.publishVisiting origin m visits').1.filter (·.token = token)) ∧
    b.publish origin m = b.publishVisiting origin m (b.subscriptions.subscribers m.topic).toList := by
  have hnodup : ((visits.filter fun (client, _) => b.options.reflect || origin ≠ some client).map (·.1)).Nodup := by
    refine List.Nodup.sublist (List.filter_sublist.map _) ((hvisits.map (·.1)).nodup_iff.2 ?_)
    refine List.pairwise_map.2 ((b.subscriptions.subscribers m.topic).distinct_keys_toList.imp ?_)
    intro r r' hne heq
    exact hne (Std.compare_eq_iff_eq.2 heq)
  have hperm := (hvisits.trans hvisits'.symm).filter fun (client, _) => b.options.reflect || origin ≠ some client
  have hagrees : Agrees (b.afterRetain m).OwnsOne (b.publishVisiting origin m visits)
      (b.publishVisiting origin m visits') := route_perm hperm hnodup
  have horder (token : Nat) (htoken : b.OwnsOne token) := hagrees.order token (htoken.afterRetain m)
  refine ⟨hagrees.broker, hagrees.deliveries, horder, ?_, b.publish_eq origin m⟩
  rintro start actions hstart rfl token
  exact horder token ((hstart.owned.run actions).agreed.ownsOne token)

/-- Two clients with sessions and subscriptions to "t". -/
def twoSubscribers : Broker :=
  { ((new {}).newSession "a" 1 true).newSession "b" 2 true with
    subscriptions := ((SubscriptionTree.empty.subscribe "t" "a" .atLeastOnce).2.subscribe "t" "b" .atMostOnce).2 }

/-- Both orders are orders of the subscribers, and the deliveries come in different orders. -/
theorem publishVisiting_perm_twoSubscribers :
    let m : Message := ⟨"t", "x".toUTF8, .atLeastOnce, false⟩
    let visits := [("a", QoS.atLeastOnce), ("b", QoS.atMostOnce)]
    visits.Perm (twoSubscribers.subscriptions.subscribers m.topic).toList ∧
      (twoSubscribers.publishVisiting none m visits).1 ≠ (twoSubscribers.publishVisiting none m visits.reverse).1 ∧
      (twoSubscribers.publishVisiting none m visits).2 = (twoSubscribers.publishVisiting none m visits.reverse).2 := by
  intro m visits
  have hvisits : visits.Perm (twoSubscribers.subscriptions.subscribers m.topic).toList := by decide +kernel
  have hreverse := (List.reverse_perm visits).trans hvisits
  exact ⟨hvisits, by decide +kernel, (publishVisiting_perm twoSubscribers none m hvisits hreverse).1⟩

end Broker

end Mqtt
