import Mqtt.Proofs.Journal

/-!
# The events of a connection: `ClientEvent`

What the application is told falls into the lives of the connections, one behind the other. A life begins when a
connection is opened, without a word, and ends with `Event.disconnected`. `Living` says what was told of a life so
far, by the state of the client. A turn lets a life go on or ends it (`Link.Moves.living`), so each connection that
was opened has told of its end exactly once, or is still there (`Journal.run_lives`).
-/

namespace Mqtt.Client

/-- The event tells neither of the beginning nor of the end of a connection. -/
def Event.isOrdinary : Event → Bool
  | .connected _ | .disconnected _ => false
  | .message _ _ _ _ | .subscribed _ _ | .unsubscribed _ | .acknowledged _ | .completed _ => true

def Event.isDisconnected : Event → Bool
  | .disconnected _ => true
  | _ => false

/-- The events of a connection that is over: it ended before it was accepted, or after. -/
inductive Life : List Event → Prop
  | refused (reason : Option String) : Life [.disconnected reason]
  | accepted (present : Bool) {body : List Event} (reason : Option String) : (∀ e ∈ body, e.isOrdinary = true) →
      Life (.connected present :: body ++ [.disconnected reason])

/-- The events so far of the connection there is, if there is one. -/
inductive Living : State → List Event → Prop
  | none : Living .disconnected []
  | awaiting : Living .connecting []
  | accepted (present : Bool) {body : List Event} : (∀ e ∈ body, e.isOrdinary = true) →
      Living .connected (.connected present :: body)

/-- How many connections there are at the moment. -/
def State.connections : State → Nat
  | .disconnected => 0
  | .connecting | .connected => 1

theorem countP_ordinary {es : List Event} (h : ∀ e ∈ es, e.isOrdinary = true) :
    es.countP Event.isDisconnected = 0 := by
  refine List.countP_eq_zero.2 fun e he => ?_
  have hordinary := h e he
  cases e with
  | connected | disconnected => cases hordinary
  | message | subscribed | unsubscribed | acknowledged | completed => exact Bool.false_ne_true

/-- A life ends once. -/
theorem Life.countP_disconnected {es : List Event} (h : Life es) : es.countP Event.isDisconnected = 1 := by
  cases h with
  | refused => rfl
  | accepted present reason hbody =>
    rw [List.countP_append, List.countP_cons, countP_ordinary hbody]
    rfl

theorem Living.countP_disconnected {s : State} {es : List Event} (h : Living s es) :
    es.countP Event.isDisconnected = 0 := by
  cases h with
  | none | awaiting => rfl
  | accepted present hbody =>
    rw [List.countP_cons, countP_ordinary hbody]
    rfl

/-- What a connected client reports of a packet is ordinary. -/
theorem Link.Hears.ordinary {l : Link} {packet : Packet} {replies : List Packet} {events : List Event}
    {inflight : Inflight} (h : l.Hears packet replies events inflight) : ∀ e ∈ events, e.isOrdinary = true := by
  have hone {e : Event} (he : e.isOrdinary = true) (b : Bool) :
      ∀ e' ∈ (if b then [e] else []), e'.isOrdinary = true := by
    cases b <;> simp [he]
  cases h with
  | message => exact hone rfl _
  | puback => exact hone rfl _
  | pubcomp => exact hone rfl _
  | subscribed | unsubscribed => exact List.forall_mem_singleton.2 rfl
  | pubrec | pubrel | ponged => exact fun _ he => nomatch he

/-- A turn lets a life go on, or ends it. -/
theorem Link.Moves.living {makes : Packet → Prop} {l : Link} {packet : Option Packet} {qs : List Packet}
    {es : List Event} {s : State} {inflight : Inflight} (h : l.Moves makes packet qs es s inflight)
    {last : List Event} (hlast : Living l.state last) :
    (Living s (last ++ es) ∧ s.connections = l.state.connections) ∨
      (Life (last ++ es) ∧ s = .disconnected ∧ l.state.connections = 1) := by
  cases h with
  | rests | asks | keeps =>
    rw [List.append_nil]
    exact .inl ⟨hlast, rfl⟩
  | ends reason hopen =>
    right
    cases hstate : l.state with
    | disconnected => exact absurd hstate hopen
    | connecting =>
      rw [hstate] at hlast
      cases hlast
      exact ⟨.refused reason, rfl, rfl⟩
    | connected =>
      rw [hstate] at hlast
      cases hlast with
      | accepted present hbody => exact ⟨.accepted present reason hbody, rfl, rfl⟩
  | joins present hstate =>
    rw [hstate] at hlast ⊢
    cases hlast
    exact .inl ⟨.accepted present (fun _ he => nomatch he), rfl⟩
  | hears hstate hhears =>
    rw [hstate] at hlast ⊢
    cases hlast with
    | accepted present hbody =>
      refine .inl ⟨.accepted present fun e he => ?_, rfl⟩
      exact (List.mem_append.1 he).elim (hbody e) (hhears.ordinary e)

namespace Journal

/-- The events of a journal are those of the connections that are over, and of the one there is. -/
structure Lives (j : Journal) (lives : List (List Event)) (last : List Event) : Prop where
  events : j.events = lives.flatten ++ last
  ended : ∀ life ∈ lives, Life life
  living : Living j.client.link.state last
  opened : j.opened = lives.length + j.client.link.state.connections

theorem lives_start (inflight : Inflight) (maxPacketSize : Nat) : (start inflight maxPacketSize).Lives [] [] where
  events := rfl
  ended _ h := nomatch h
  living := .none
  opened := rfl

variable {j j' : Journal} {lives : List (List Event)} {last : List Event}

theorem Lives.opens {config : Config} (h : j.Lives lives last) (ho : j.Opens config j') : j'.Lives lives [] := by
  have hnone : last = [] := by
    have hliving := h.living
    rw [ho.before] at hliving
    cases hliving
    rfl
  refine ⟨?_, h.ended, ?_, ?_⟩
  · rw [ho.events, h.events, hnone]
  · rw [ho.after]
    exact .awaiting
  · rw [ho.opened, h.opened, ho.before, ho.after]
    rfl

theorem Lives.turn {makes : Packet → Prop} {packet : Option Packet} {qs : List Packet} {es : List Event}
    (h : j.Lives lives last) (ht : j.Turn makes j' packet qs es) : ∃ lives' last', j'.Lives lives' last' := by
  rcases ht.moves.living h.living with ⟨hliving, hsame⟩ | ⟨hlife, hstate, hone⟩
  · refine ⟨lives, last ++ es, ?_, h.ended, hliving, ?_⟩
    · rw [ht.events, h.events, List.append_assoc]
    · rw [ht.opened, h.opened, hsame]
  · refine ⟨lives ++ [last ++ es], [], ?_, ?_, ?_, ?_⟩
    · rw [ht.events, h.events, List.flatten_append, List.flatten_singleton, List.append_nil, List.append_assoc]
    · intro life hmem
      rcases List.mem_append.1 hmem with hmem | hmem
      · exact h.ended life hmem
      · rw [List.mem_singleton.1 hmem]
        exact hlife
    · rw [hstate]
      exact .none
    · rw [ht.opened, h.opened, hstate, hone, List.length_append]
      rfl

/-- One event tells of the end of each connection that is over, and none of the one there is. -/
theorem Lives.countP_disconnected (h : j.Lives lives last) : j.events.countP Event.isDisconnected = lives.length := by
  have hover : lives.flatten.countP Event.isDisconnected = lives.length := by
    have hlives := h.ended
    clear h
    induction lives with
    | nil => rfl
    | cons life lives ih =>
      rw [List.flatten_cons, List.countP_append, (hlives life (.head _)).countP_disconnected,
        ih fun life hmem => hlives life (.tail _ hmem), List.length_cons, Nat.add_comm]
  rw [h.events, List.countP_append, hover, h.living.countP_disconnected, Nat.add_zero]

/-- **Every connection that was started ends once.** After any calls of a new client, with any handshakes of an
earlier run and whatever bytes, all events that there ever were are the lives of the connections that were opened,
in their order. Each of them that is over is `disconnected` alone, or `connected`, then any events of messages and
acknowledgements, then `disconnected`. The last may be without its end, and is so exactly as long as the client is
not disconnected; there are as many `disconnected` events as connections were opened, or one less as long as that
is so. -/
theorem run_lives (inflight : Inflight) (maxPacketSize : Nat) (calls : List Call) :
    let j := (start inflight maxPacketSize).run calls
    ∃ (lives : List (List Event)) (last : List Event),
      j.events = lives.flatten ++ last ∧ (∀ life ∈ lives, Life life) ∧ Living j.client.state last ∧
      j.opened = lives.length + (if j.client.state = .disconnected then 0 else 1) ∧
      j.opened = j.events.countP Event.isDisconnected + (if j.client.state = .disconnected then 0 else 1) := by
  intro j
  have hlives : ∃ lives last, j.Lives lives last :=
    run_induction (P := fun j => ∃ lives last, j.Lives lives last) calls
      (fun _ ho ⟨lives, _, h⟩ => ⟨lives, [], h.opens ho⟩) (fun ht ⟨_, _, h⟩ => h.turn ht)
      ⟨[], [], lives_start inflight maxPacketSize⟩
  obtain ⟨lives, last, h⟩ := hlives
  have hconnections : j.client.link.state.connections = if j.client.state = .disconnected then 0 else 1 := by
    rw [Protocol.state]
    cases j.client.link.state <;> rfl
  refine ⟨lives, last, h.events, h.ended, h.living, ?_, ?_⟩
  · rw [h.opened, hconnections]
  · rw [h.countP_disconnected, h.opened, hconnections]

/-- A connection is refused, and the next one is lost. -/
example : ((start .empty 0).run [.connect {} 0, .receive 0 [0x20, 2, 0, 5], .connect {} 0,
    .receive 0 [0x20, 2, 0, 0], .nextEvent, .connectionLost "gone"]).events =
      [.disconnected (some "Connection refused: NotAuthorized"), .connected false, .disconnected (some "gone")] := by
  decide +kernel

end Journal

end Mqtt.Client
