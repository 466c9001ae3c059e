import Mathlib.Order.MinMax
import Mqtt.Proofs.Journal

/-!
# The timers of a client: `poll_timers`, `next_deadline`

A client with a connection asks the broker for a sign of life now and then, and gives up when it has heard nothing for
too long. Two timers say when. They are wound, stopped and restarted by different calls (`Link.Winds`), and
`nextDeadline` is the earlier of the two. `Journal.pollTimers_deadline` says that it is the moment from which on there
is something to do, neither earlier nor later, and that it lies behind the last poll ever after. So an application
that sleeps until then makes progress each time it wakes.
-/

namespace Mqtt

/-! ### One timer -/

namespace PingTimer

/-- A timer that runs has an interval. -/
def Paced : PingTimer → Prop
  | stopped => True
  | running interval _ => 0 < interval

theorem paced_new (seconds : UInt16) (now : Nat) : (new seconds now).Paced := by
  unfold new
  split
  · next hpos =>
    have hseconds : 0 < seconds.toNat := hpos
    change 0 < seconds.toNat * 1000
    omega
  · trivial

theorem lt_deadline_new {seconds : UInt16} {t now d : Nat} (ht : t ≤ now) (hd : (new seconds now).deadline = some d) :
    t < d := by
  have hpaced := paced_new seconds now
  unfold new at hd hpaced
  split at hd
  · next hpos =>
    rw [if_pos hpos] at hpaced
    cases hd
    exact Nat.lt_of_le_of_lt ht (Nat.lt_add_of_pos_right hpaced)
  · cases hd

/-- Nothing happens before the deadline. -/
theorem poll_of_lt {p : PingTimer} {now : Nat} (h : ∀ d, p.deadline = some d → now < d) : p.poll now = (false, p) := by
  cases p with
  | stopped => rfl
  | running interval next => rw [poll, if_neg (Nat.not_le.2 (h next rfl))]

/-- From the deadline on a request is due, and the next one an interval later. -/
theorem poll_of_le {p : PingTimer} {now d : Nat} (hd : p.deadline = some d) (hle : d ≤ now) :
    ∃ interval, p = running interval d ∧ p.poll now = (true, running interval (now + interval)) := by
  cases p with
  | stopped => cases hd
  | running interval next =>
    cases hd
    exact ⟨interval, rfl, if_pos hle⟩

theorem Paced.poll {p : PingTimer} (h : p.Paced) (now : Nat) : (p.poll now).2.Paced := by
  cases p with
  | stopped => trivial
  | running interval next =>
    rw [PingTimer.poll]
    split <;> exact h

/-- Once it was polled a timer is ahead of the time. -/
theorem Paced.lt_deadline_poll {p : PingTimer} (h : p.Paced) {now d : Nat} (hd : (p.poll now).2.deadline = some d) :
    now < d := by
  cases p with
  | stopped => cases hd
  | running interval next =>
    have hpos : 0 < interval := h
    rw [PingTimer.poll] at hd
    split at hd
    · cases hd
      omega
    · next hlater =>
      cases hd
      exact Nat.not_le.1 hlater

end PingTimer

namespace KeepAlive

theorem timeout_new {seconds : UInt16} {now x : Nat} (hx : (new seconds now).timeout = some x) : 0 < x := by
  unfold new at hx
  dsimp only at hx
  split at hx
  · next hpos =>
    have hseconds : 0 < seconds.toNat := hpos
    cases hx
    omega
  · cases hx

/-- A timer that was restarted at `now` or later expires after that. -/
theorem lt_deadline {k : KeepAlive} (hpos : ∀ x, k.timeout = some x → 0 < x) {t d : Nat} (ht : t ≤ k.lastActivity)
    (hd : k.deadline = some d) : t < d := by
  obtain ⟨x, hx, rfl⟩ := Option.map_eq_some_iff.1 hd
  have hx := hpos x hx
  omega

theorem not_isExpired {k : KeepAlive} {now : Nat} : k.isExpired now = false ↔ ∀ d, k.deadline = some d → now < d := by
  rw [← Bool.not_eq_true, isExpired_iff]
  simp

end KeepAlive

namespace Client

namespace Link

variable {l l' : Link} {t now : Nat}

/-! ### Both timers -/

/-- What the next deadline hangs on. -/
def timers (l : Link) : State × PingTimer × KeepAlive := (l.state, l.ping, l.keepAlive)

/-- Nothing is due at `t`. -/
def Asleep (t : Nat) (l : Link) : Prop := ∀ d, l.nextDeadline = some d → t < d

/-- Timers that run take their time. -/
structure Wound (l : Link) : Prop where
  ping : l.ping.Paced
  keepAlive : ∀ x, l.keepAlive.timeout = some x → 0 < x

theorem asleep_of_disconnected (h : l.state = .disconnected) : l.Asleep t := by
  intro d hd
  rw [nextDeadline, if_pos h] at hd
  cases hd

/-- Nothing is due on a connection if neither timer is. -/
theorem asleep_iff (h : l.state ≠ .disconnected) :
    l.Asleep t ↔ (∀ d, l.ping.deadline = some d → t < d) ∧ ∀ d, l.keepAlive.deadline = some d → t < d := by
  unfold Asleep nextDeadline
  rw [if_neg h]
  cases l.ping.deadline <;> cases l.keepAlive.deadline <;> simp

/-- Either there is nothing to do, or the broker was silent for too long, or else it is asked for a sign of life. -/
theorem pollTimers_cases (l : Link) (now : Nat) :
    (l.Asleep now ∧ l.pollTimers now = (.ok (), l)) ∨
    (¬ l.Asleep now ∧ (∃ d, l.keepAlive.deadline = some d ∧ d ≤ now) ∧
      l.pollTimers now = (.error .keepAliveTimeout, l.close (some Error.keepAliveTimeout.message))) ∨
    (¬ l.Asleep now ∧ (∀ d, l.keepAlive.deadline = some d → now < d) ∧
      l.pollTimers now = (.ok (), ({ l with ping := (l.ping.poll now).2 } : Link).send .pingreq)) := by
  unfold pollTimers
  by_cases hstate : l.state = .disconnected
  · rw [if_pos hstate]
    exact .inl ⟨asleep_of_disconnected hstate, rfl⟩
  rw [if_neg hstate, asleep_iff hstate]
  by_cases hexpired : l.keepAlive.isExpired now = true
  · rw [if_pos hexpired]
    obtain ⟨d, hd, hle⟩ := KeepAlive.isExpired_iff.1 hexpired
    exact .inr (.inl ⟨fun h => absurd (h.2 d hd) (Nat.not_lt.2 hle), ⟨d, hd, hle⟩, rfl⟩)
  rw [if_neg hexpired]
  have hheard := KeepAlive.not_isExpired.1 (Bool.eq_false_iff.2 hexpired)
  by_cases hping : ∀ d, l.ping.deadline = some d → now < d
  · rw [PingTimer.poll_of_lt hping]
    exact .inl ⟨⟨hping, hheard⟩, rfl⟩
  · obtain ⟨d, hd, hle⟩ : ∃ d, l.ping.deadline = some d ∧ d ≤ now := by simpa using hping
    obtain ⟨interval, -, hpoll⟩ := PingTimer.poll_of_le hd hle
    rw [hpoll]
    exact .inr (.inr ⟨fun h => hping h.1, hheard, rfl⟩)

/-! ### What calls do to the timers -/

/-- The ways in which the timers change, none of them before `t`. -/
inductive Winds (t : Nat) (l l' : Link) : Prop
  | rests : l'.timers = l.timers → Winds t l l'
  /-- The connection ends. -/
  | ends : l'.state = .disconnected → l'.ping = .stopped → l'.keepAlive.timeout = l.keepAlive.timeout → Winds t l l'
  /-- A connection is opened, and the broker is to answer. -/
  | opens {seconds : UInt16} {now : Nat} : t ≤ now → l'.ping = .stopped → l'.keepAlive = .new seconds now → Winds t l l'
  /-- The connection is accepted: requests begin. -/
  | joins {seconds : UInt16} {now : Nat} : t ≤ now → l'.ping = .new seconds now →
      l'.keepAlive = l.keepAlive.restart now → Winds t l l'
  /-- A packet came. -/
  | hears {now : Nat} : t ≤ now → l'.state = l.state → l'.ping = l.ping → l'.keepAlive = l.keepAlive.restart now →
      Winds t l l'
  /-- A request is made. -/
  | asks {now : Nat} : t ≤ now → l'.state = l.state → l'.ping = (l.ping.poll now).2 → l'.keepAlive = l.keepAlive →
      Winds t l l'

theorem Winds.wound (h : Winds t l l') (hl : l.Wound) : l'.Wound := by
  cases h with
  | rests h =>
    obtain ⟨-, hping, hkeepAlive⟩ : l'.state = l.state ∧ l'.ping = l.ping ∧ l'.keepAlive = l.keepAlive := by
      simpa [timers] using h
    exact ⟨hping ▸ hl.ping, hkeepAlive ▸ hl.keepAlive⟩
  | ends _ hping htimeout => exact ⟨hping ▸ trivial, htimeout ▸ hl.keepAlive⟩
  | opens _ hping hnew => exact ⟨hping ▸ trivial, fun x hx => KeepAlive.timeout_new (hnew ▸ hx)⟩
  | joins _ hping hrestart => exact ⟨hping ▸ PingTimer.paced_new _ _, hrestart ▸ hl.keepAlive⟩
  | hears _ _ hping hrestart => exact ⟨hping ▸ hl.ping, hrestart ▸ hl.keepAlive⟩
  | asks _ _ hping hkeepAlive => exact ⟨hping ▸ hl.ping.poll _, hkeepAlive ▸ hl.keepAlive⟩

/-- What was not due at `t` is not made due at `t` by what happens later. -/
theorem Winds.asleep (h : Winds t l l') (hl : l.Wound) (hasleep : l.Asleep t) : l'.Asleep t := by
  by_cases hstate' : l'.state = .disconnected
  · exact asleep_of_disconnected hstate'
  have hwound := h.wound hl
  have hbefore (hstate : l'.state = l.state) := (asleep_iff (hstate ▸ hstate')).1 hasleep
  rw [asleep_iff hstate']
  cases h with
  | rests h =>
    obtain ⟨hstate, hping, hkeepAlive⟩ : l'.state = l.state ∧ l'.ping = l.ping ∧ l'.keepAlive = l.keepAlive := by
      simpa [timers] using h
    rw [hping, hkeepAlive]
    exact hbefore hstate
  | ends hstate => exact absurd hstate hstate'
  | opens ht hping hnew =>
    refine ⟨?_, fun d => KeepAlive.lt_deadline hwound.keepAlive (hnew ▸ ht)⟩
    rw [hping]
    nofun
  | joins ht hping hrestart =>
    refine ⟨fun d hd => PingTimer.lt_deadline_new ht (hping ▸ hd), fun d => ?_⟩
    exact KeepAlive.lt_deadline hwound.keepAlive (hrestart ▸ ht)
  | hears ht hstate hping hrestart =>
    rw [hping]
    exact ⟨(hbefore hstate).1, fun d => KeepAlive.lt_deadline hwound.keepAlive (hrestart ▸ ht)⟩
  | asks ht hstate hping hkeepAlive =>
    rw [hkeepAlive]
    exact ⟨fun d hd => Nat.lt_of_le_of_lt ht (hl.ping.lt_deadline_poll (hping ▸ hd)), (hbefore hstate).2⟩

theorem winds_close (l : Link) (reason : Option String) : Winds t l (l.close reason) := .ends rfl rfl rfl

/-- Once the timers were polled nothing is due. -/
theorem Wound.asleep_pollTimers (hl : l.Wound) (now : Nat) : (l.pollTimers now).2.Asleep now := by
  rcases l.pollTimers_cases now with ⟨hasleep, h⟩ | ⟨-, -, h⟩ | ⟨hdue, hheard, h⟩
  · rw [h]
    exact hasleep
  · rw [h]
    exact asleep_of_disconnected rfl
  · have hstate : l.state ≠ .disconnected := fun hstate => hdue (asleep_of_disconnected hstate)
    rw [h]
    exact (asleep_iff (by exact hstate)).2 ⟨fun d => hl.ping.lt_deadline_poll, hheard⟩

theorem winds_pollTimers (l : Link) (ht : t ≤ now) : Winds t l (l.pollTimers now).2 := by
  rcases l.pollTimers_cases now with ⟨-, h⟩ | ⟨-, -, h⟩ | ⟨-, -, h⟩
  · rw [h]
    exact .rests rfl
  · rw [h]
    exact l.winds_close _
  · rw [h]
    exact .asks ht rfl rfl rfl

/-! Requests leave the timers alone. -/

theorem timers_withId {α : Type} {f : UInt16 → Link → α × Link} (hf : ∀ id l, (f id l).2.timers = l.timers)
    (l : Link) : (l.withId f).2.timers = l.timers := by
  obtain ⟨packetIds, ⟨e, hid⟩ | ⟨id, -, -, hid⟩⟩ := l.withId_cases f
  · rw [hid]
    rfl
  · rw [hid]
    exact hf id _

theorem timers_subscribe (l : Link) (topics : List TopicRequest) : (l.subscribe topics).2.timers = l.timers := by
  unfold subscribe
  split
  · rfl
  split
  · rfl
  · exact timers_withId (fun _ _ => rfl) l

theorem timers_unsubscribe (l : Link) (filters : List String) : (l.unsubscribe filters).2.timers = l.timers := by
  unfold unsubscribe
  split
  · rfl
  split
  · rfl
  · exact timers_withId (fun _ _ => rfl) l

theorem timers_publish (l : Link) (m : Message) : (l.publish m).2.timers = l.timers := by
  unfold publish
  split
  · rfl
  split
  · rfl
  split
  · exact timers_withId (fun _ _ => rfl) l
  · rfl

theorem winds_disconnect (l : Link) : Winds t l l.disconnect := by
  unfold disconnect
  split
  · exact .rests rfl
  · exact .ends rfl rfl rfl

theorem winds_connectionLost (l : Link) (reason : String) : Winds t l (l.connectionLost reason) := by
  unfold connectionLost
  split
  · exact .rests rfl
  · exact l.winds_close _

/-- CONNACK starts the requests, and no other packet touches the timers. -/
theorem timers_handle {packet : Packet} (h : l.handle now packet = .ok l') :
    l'.keepAlive = l.keepAlive ∧ ((l'.state = l.state ∧ l'.ping = l.ping) ∨ l'.ping = .new l.keepAliveSeconds now) := by
  rcases handle_ok h with ⟨-, present, rfl, rfl⟩ | ⟨-, replies, events, inflight, -, rfl⟩
  · exact ⟨rfl, .inr rfl⟩
  · exact ⟨rfl, .inl ⟨rfl, rfl⟩⟩

/-- A packet that is accepted. -/
theorem winds_handle {packet : Packet} (ht : t ≤ now)
    (h : Link.handle { l with keepAlive := l.keepAlive.restart now } now packet = .ok l') : Winds t l l' := by
  obtain ⟨hkeepAlive, ⟨hstate, hping⟩ | hping⟩ := timers_handle h
  · exact .hears ht hstate hping hkeepAlive
  · exact .joins ht hping hkeepAlive

end Link

/-- When a call is made, if that matters. -/
def Call.time? : Call → Option Nat
  | .connect _ now | .receive now _ | .pollTimers now => some now
  | _ => none

/-- No call is made before `t`. -/
def Call.NotBefore (t : Nat) (calls : List Call) : Prop := ∀ k ∈ calls, ∀ now, k.time? = some now → t ≤ now

section Induction

variable {P : Link → Prop} {t : Nat} (hP : ∀ {l l' : Link}, Link.Winds t l l' → P l → P l')

include hP

/-- What the timers keep, a client keeps that takes in bytes. -/
theorem Protocol.receive_winds {now : Nat} (ht : t ≤ now) (max : Nat) (s : Decoder.State) {l : Link} (hl : P l)
    (bytes : List UInt8) : P (receive now max s l bytes).2.link := by
  induction bytes generalizing s l with
  | nil => exact hl
  | cons byte bytes ih =>
    rw [receive]
    split
    · exact hl
    next hopen =>
    rcases s.step max byte with ⟨s', e | _ | packet⟩
    · exact hP (l.winds_close _) hl
    · exact ih s' hl
    · dsimp only
      rcases hh : Link.handle { l with keepAlive := l.keepAlive.restart now } now packet with r | l'
      · have hclosed :
            Link.Winds t l (Link.close { l with keepAlive := l.keepAlive.restart now } (some r.error.message)) :=
          .ends rfl rfl rfl
        rw [← Link.close_of_refused (l := { l with keepAlive := l.keepAlive.restart now }) hopen hh] at hclosed
        exact hP hclosed hl
      · exact ih s' (hP (Link.winds_handle ht hh) hl)

namespace Journal

variable {j : Journal}

theorem call_winds (k : Call) (hk : ∀ now, k.time? = some now → t ≤ now) (hj : P j.client.link) :
    P (j.call k).client.link := by
  cases k with
  | connect config now =>
    rw [call, connect]
    unfold Protocol.connect
    dsimp only
    split
    · next h =>
      split at h
      · cases h
        exact hj
      · cases h
    · next h =>
      split at h
      · cases h
      · cases h
        exact hP (.opens (hk now rfl) rfl rfl) hj
  | disconnect => exact hP (j.client.link.winds_disconnect) hj
  | publish m => exact hP (.rests (j.client.link.timers_publish m)) hj
  | subscribe topics => exact hP (.rests (j.client.link.timers_subscribe topics)) hj
  | unsubscribe filters => exact hP (.rests (j.client.link.timers_unsubscribe filters)) hj
  | receive now bytes =>
    rw [client_receive]
    exact Protocol.receive_winds hP (hk now rfl) _ _ hj bytes
  | pollTimers now => exact hP (j.client.link.winds_pollTimers (hk now rfl)) hj
  | connectionLost reason => exact hP (j.client.link.winds_connectionLost reason) hj
  | nextEvent =>
    refine hP (.rests ?_) hj
    rw [call, Protocol.nextEvent]
    cases j.client.link.events <;> rfl
  | written count =>
    have hwritten : Link.Winds t j.client.link (j.call (.written count)).client.link := .rests rfl
    exact hP hwritten hj

/-- What the timers keep, every run keeps that does not begin before `t`. -/
theorem run_winds (calls : List Call) (hcalls : Call.NotBefore t calls) (hj : P j.client.link) :
    P (j.run calls).client.link := by
  induction calls generalizing j with
  | nil => exact hj
  | cons k calls ih =>
    exact ih (fun k' hk' => hcalls k' (.tail _ hk')) (call_winds hP k (hcalls k (.head _)) hj)

end Journal

end Induction

/-! ### Waking up -/

namespace Journal

variable {j : Journal}

/-- An application sleeps until the next deadline, or somewhat longer, polls the timers, and does whatever it likes
before it sleeps again: the times at which it wakes. -/
inductive Wakes : Journal → List Nat → Prop
  | rests (j : Journal) : Wakes j []
  | wakes {j : Journal} {d now : Nat} {calls : List Call} {times : List Nat} : j.client.link.nextDeadline = some d →
      d ≤ now → Call.NotBefore now calls → Wakes ((j.call (.pollTimers now)).run calls) times → Wakes j (now :: times)

/-- A new client has no timers. -/
theorem wound_run (inflight : Inflight) (max : Nat) (calls : List Call) :
    ((start inflight max).run calls).client.link.Wound := by
  have hstart : (start inflight max).client.link.Wound := ⟨trivial, nofun⟩
  exact run_winds (t := 0) (fun hwinds hl => hwinds.wound hl) calls (fun _ _ _ _ => Nat.zero_le _) hstart

/-- The deadline stays behind the last poll, whatever happens after it. -/
theorem rested_run (hj : j.client.link.Wound) (now : Nat) {calls : List Call} (hcalls : Call.NotBefore now calls) :
    let l := ((j.call (.pollTimers now)).run calls).client.link
    l.Wound ∧ l.Asleep now := by
  have hpolled : (j.call (.pollTimers now)).client.link.Wound :=
    (j.client.link.winds_pollTimers (Nat.le_refl now)).wound hj
  exact run_winds (P := fun l => l.Wound ∧ l.Asleep now)
    (fun hwinds hl => ⟨hwinds.wound hl.1, hwinds.asleep hl.1 hl.2⟩) calls hcalls
    ⟨hpolled, hj.asleep_pollTimers now⟩

theorem Wakes.increasing {times : List Nat} (h : j.Wakes times) (hj : j.client.link.Wound) :
    times.Pairwise (· < ·) ∧ ∀ t, j.client.link.Asleep t → ∀ now ∈ times, t < now := by
  induction h with
  | rests j => exact ⟨.nil, fun _ _ => List.forall_mem_nil _⟩
  | @wakes j d now calls times hd hle hcalls _ ih =>
    obtain ⟨hwound, hasleep⟩ := rested_run hj now hcalls
    obtain ⟨hpairwise, hlater⟩ := ih hwound
    refine ⟨.cons (hlater now hasleep) hpairwise, fun t ht => ?_⟩
    have hnow : t < now := Nat.lt_of_lt_of_le (ht d hd) hle
    exact List.forall_mem_cons.2 ⟨hnow, fun now' hnow' => Nat.lt_trans hnow (hlater now hasleep now' hnow')⟩

/-- **The next deadline is when there is something to do.** Whatever a client was called for, polling its timers
before the deadline, or when there is none, does nothing at all. From the deadline on it closes the connection if the
broker was silent for too long, and otherwise queues one PINGREQ and nothing else; it never does both. After a poll
the deadline is later than the poll, and stays so whatever is called in between, at no earlier times. So an
application that sleeps until the deadline never wakes twice at one time. -/
theorem pollTimers_deadline (inflight : Inflight) (max : Nat) (calls : List Call) :
    let j := (start inflight max).run calls
    let c := j.client
    (∀ now, (∀ d, c.link.nextDeadline = some d → now < d) → c.pollTimers now = (.ok (), c)) ∧
      (∀ now d, c.link.nextDeadline = some d → d ≤ now →
        ((∃ e, c.link.keepAlive.deadline = some e ∧ e ≤ now) ∧
          c.pollTimers now = (.error .keepAliveTimeout,
            { c with link := { c.link with
              state := .disconnected
              ping := .stopped
              events := c.link.events ++ [.disconnected (some Error.keepAliveTimeout.message)] } })) ∨
        ((∀ e, c.link.keepAlive.deadline = some e → now < e) ∧
          ∃ ping, c.pollTimers now = (.ok (),
            { c with link := { c.link with ping, outbound := c.link.outbound ++ Packet.pingreq.toBytes } }))) ∧
      (∀ now later, Call.NotBefore now later →
        ∀ d, ((j.call (.pollTimers now)).run later).client.link.nextDeadline = some d → now < d) ∧
      ∀ times, j.Wakes times → times.Pairwise (· < ·) := by
  intro j c
  have hwound : c.link.Wound := wound_run inflight max calls
  refine ⟨?_, ?_, fun now later hlater => (rested_run hwound now hlater).2, fun times h => (h.increasing hwound).1⟩
  · intro now hasleep
    rcases c.link.pollTimers_cases now with ⟨-, h⟩ | ⟨hdue, -⟩ | ⟨hdue, -⟩
    · rw [Protocol.pollTimers, Protocol.onLink, h]
    · exact absurd hasleep hdue
    · exact absurd hasleep hdue
  · intro now d hd hle
    rcases c.link.pollTimers_cases now with ⟨hasleep, -⟩ | ⟨-, hsilent, h⟩ | ⟨-, hheard, h⟩
    · exact absurd (hasleep d hd) (Nat.not_lt.2 hle)
    · refine .inl ⟨hsilent, ?_⟩
      rw [Protocol.pollTimers, Protocol.onLink, h]
      rfl
    · refine .inr ⟨hheard, (c.link.ping.poll now).2, ?_⟩
      rw [Protocol.pollTimers, Protocol.onLink, h]
      rfl

/-- A client that asks for a period of one second is let in, and hears nothing more. -/
def forsaken : List Call := [.connect { keepAlive := 1 } 0, .receive 100 [0x20, 2, 0, 0]]

/-- It asks for a sign of life a second after it was let in, and gives up half a second later. -/
theorem pollTimers_deadline_forsaken :
    let j := (start .empty 0).run forsaken
    j.client.link.nextDeadline = some 1100 ∧ j.client.pollTimers 1099 = (.ok (), j.client) ∧
      j.Wakes [1100, 1600] ∧ [1100, 1600].Pairwise (· < ·) := by
  intro j
  have hfirst : j.client.link.nextDeadline = some 1100 := by decide +kernel
  have hsecond : ((j.call (.pollTimers 1100)).run []).client.link.nextDeadline = some 1600 := by decide +kernel
  obtain ⟨hidle, -, -, hwakes⟩ := pollTimers_deadline .empty 0 forsaken
  have hnever (now : Nat) : Call.NotBefore now [] := fun _ hk => nomatch hk
  have hagain : ((j.call (.pollTimers 1100)).run []).Wakes [1600] :=
    .wakes hsecond (Nat.le_refl 1600) (hnever 1600) (.rests _)
  have htimes : j.Wakes [1100, 1600] := .wakes hfirst (Nat.le_refl 1100) (hnever 1100) hagain
  refine ⟨hfirst, hidle 1099 fun d hd => ?_, htimes, hwakes _ htimes⟩
  obtain rfl : 1100 = d := Option.some.inj (hfirst.symm.trans hd)
  decide

end Journal

end Client

end Mqtt
