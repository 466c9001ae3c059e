import Mqtt.Proofs.LastWill
import Mqtt.Proofs.Replies

/-!
# Clients that fall silent: `KeepAlive`

A connection that has let its client in gives it up when the client says nothing for too long. What counts is
complete packets: each puts the deadline off, whether it is accepted or not, and the bytes of a packet that is still
incomplete do not. What a connection's timer shows is told by the CONNECT that was accepted and the time at which
the client was last heard (`Peer.Watches`). A `Vigil` writes both down call by call, and `Vigil.run_deadline` reads
the deadline off them.
-/

namespace Mqtt

/-- The CONNECT that a packet is. -/
def Packet.connect? : Packet → Option Connect
  | .connect c => some c
  | _ => none

/-! ### The period that is kept with a client -/

namespace KeepAlive

/-- The seconds that a server which allows at most `max` keeps with a client that asked for `requested`. A client that
asks for none is not watched, and a limit of 0 is none. -/
def period (max requested : Nat) : Nat :=
  if requested = 0 then 0 else if max = 0 then requested else min requested max

theorem toNat_effective (max requested : UInt16) :
    (effective max requested).toNat = period max.toNat requested.toNat := by
  have hzero (n : UInt16) : n = 0 ↔ n.toNat = 0 := UInt16.toNat_inj.symm
  unfold effective period
  by_cases hrequested : requested.toNat = 0
  · simp [hzero, hrequested]
  by_cases hmax : max.toNat = 0
  · simp [hzero, hrequested, hmax]
  rw [if_neg (by simp [hzero, hrequested, hmax]), if_neg hrequested, if_neg hmax]
  by_cases hle : requested ≤ max
  · rw [if_pos hle, Nat.min_eq_left (UInt16.le_iff_toNat_le.1 hle)]
  · have hlt : max.toNat < requested.toNat := by simpa [UInt16.le_iff_toNat_le] using hle
    rw [if_neg hle, Nat.min_eq_right (Nat.le_of_lt hlt)]

/-- A timer that was started or restarted at `t` runs one and a half periods from there, unless it is off. -/
theorem deadline_new (seconds : UInt16) (t : Nat) :
    (new seconds t).deadline = if seconds.toNat = 0 then none else some (t + 1500 * seconds.toNat) := by
  have hpos : seconds > 0 ↔ seconds.toNat ≠ 0 := by
    rw [gt_iff_lt, UInt16.lt_iff_toNat_lt, UInt16.toNat_zero, Nat.pos_iff_ne_zero]
  unfold new deadline
  by_cases hzero : seconds.toNat = 0
  · rw [if_neg (by simp [hpos, hzero]), if_pos hzero]
    rfl
  · rw [if_pos (hpos.2 hzero), if_neg hzero, Option.map_some, Nat.mul_comm]

end KeepAlive

/-! ### What the timer shows -/

namespace Peer

variable {p q : Peer} {limits : ConnectionLimits} {heard : Option Nat} {greeted : List Connect}

/-- How a connection watches its client, by the CONNECTs that were accepted and the time at which the client was last
heard: not at all before it is let in, and from then on with the period that its CONNECT and the limits allow. -/
inductive Watches (limits : ConnectionLimits) (p : Peer) : Option Nat → List Connect → Prop
  | stranger {heard : Option Nat} : p.limits = limits → p.client = none → p.keepAlive.timeout = none →
      Watches limits p heard []
  | guest {t : Nat} {c : Connect} : p.client.isSome = true →
      p.keepAlive = .new (KeepAlive.effective limits.maxKeepAlive c.keepAlive) t → Watches limits p (some t) [c]

namespace Watches

theorem congr (h : p.Watches limits heard greeted) (hlimits : q.limits = p.limits) (hclient : q.client = p.client)
    (htimer : q.keepAlive = p.keepAlive) : q.Watches limits heard greeted := by
  cases h with
  | stranger hl hnone htimeout => exact .stranger (hlimits.trans hl) (hclient.trans hnone) (htimer ▸ htimeout)
  | guest hsome hnew => exact .guest (hclient ▸ hsome) (htimer.trans hnew)

/-- A complete packet restarts the timer. -/
theorem restart (h : p.Watches limits heard greeted) (now : Nat) :
    Watches limits { p with keepAlive := p.keepAlive.restart now } (some now) greeted := by
  cases h with
  | stranger hl hnone htimeout => exact .stranger hl hnone htimeout
  | guest hsome hnew => exact .guest hsome (congrArg (KeepAlive.restart · now) hnew)

/-- A packet that is accepted starts the timer if it is the CONNECT, and leaves it alone otherwise. -/
theorem handled {b : Broker} {now : Nat} {packet : Packet} {h : Handled} (hp : p.Watches limits (some now) greeted)
    (ha : Accepts p b now packet h) : h.peer.Watches limits (some now) (greeted ++ packet.connect?.toList) := by
  have hnothing {client : AcceptedClient} (hclient : p.client = some client) (hnone : packet.connect? = none)
      (hlimits : h.peer.limits = p.limits) (hafter : h.peer.client.isSome = true)
      (htimer : h.peer.keepAlive = p.keepAlive) :
      h.peer.Watches limits (some now) (greeted ++ packet.connect?.toList) := by
    rw [hnone, Option.toList_none, List.append_nil]
    cases hp with
    | stranger _ hstranger => rw [hstranger] at hclient; cases hclient
    | guest _ hnew => exact .guest hafter (htimer.trans hnew)
  have hintroduced {c : Connect} {id : String} (hclient : p.client = none) :
      (p.introduce now c id).Watches limits (some now) (greeted ++ [c]) := by
    cases hp with
    | stranger hlimits => exact .guest rfl (hlimits ▸ rfl)
    | guest hsome => rw [hclient] at hsome; cases hsome
  cases ha with
  | fresh hclient => exact hintroduced hclient
  | resumed hclient => exact hintroduced hclient
  | routed hclient | repeated hclient | subscribed hclient | unsubscribed hclient | pinged hclient =>
    exact hnothing hclient rfl rfl (by simp [hclient]) rfl
  | acknowledged hclient _ hacks => exact hnothing hclient (by cases hacks <;> rfl) rfl (by simp [hclient]) rfl
  | left hclient => exact hnothing hclient rfl rfl (by simp [hclient]) rfl

theorem deadline_of_nil (h : p.Watches limits heard []) : p.keepAlive.deadline = none := by
  cases h with
  | stranger _ _ htimeout => rw [KeepAlive.deadline, htimeout, Option.map_none]

theorem deadline_of_mem {c : Connect} (h : p.Watches limits heard greeted) (hc : c ∈ greeted) :
    let e := KeepAlive.period limits.maxKeepAlive.toNat c.keepAlive.toNat
    ∃ t, heard = some t ∧ p.keepAlive.deadline = if e = 0 then none else some (t + 1500 * e) := by
  cases h with
  | stranger => cases hc
  | @guest t c _ hnew =>
    obtain rfl := List.mem_singleton.1 hc
    refine ⟨t, rfl, ?_⟩
    rw [hnew, KeepAlive.deadline_new, KeepAlive.toNat_effective]

end Watches

end Peer

namespace Connection

section Bytes

variable {now max : Nat} {s s' : Decoder.State} {p : Peer} {b : Broker} {byte : UInt8} {bytes : List UInt8}

/-! ### Packets that are complete, and packets that are accepted -/

/-- The packets that a client's bytes complete, until the connection is closed. -/
def completed (now max : Nat) (s : Decoder.State) (p : Peer) (b : Broker) (bytes : List UInt8) : List Packet :=
  (operations now max s p b bytes).filterMap Broker.Operation.packet?

theorem accepted_cons_refused {packet : Packet} {r : Peer.Refusal} (hp : p.isClosed = false)
    (hstep : s.step max byte = (s', .ok (some packet)))
    (hh : Peer.handle { p with keepAlive := p.keepAlive.restart now } b now packet = .error r) :
    accepted now max s p b (byte :: bytes) = [] := by
  rw [accepted, operations_cons_refused hp hstep hh]
  simp [Broker.moments, Broker.Moment.acceptedPacket?, hh]

theorem accepted_cons_handled {packet : Packet} {h : Peer.Handled} (hp : p.isClosed = false)
    (hstep : s.step max byte = (s', .ok (some packet)))
    (hh : Peer.handle { p with keepAlive := p.keepAlive.restart now } b now packet = .ok h) :
    accepted now max s p b (byte :: bytes) =
      packet :: accepted now max s' (h.peer.distribute #[] h.output).1 h.broker bytes := by
  rw [accepted, operations_cons_handled hp hstep hh, accepted, Broker.moments, Broker.operate, hh]
  simp [Broker.Moment.acceptedPacket?, hh]

/-- What the timer shows after some bytes: the client was heard if they completed a packet. -/
theorem watches_receive {limits : ConnectionLimits} {heard : Option Nat} {greeted : List Connect}
    (bytes : List UInt8) (ds : Array Delivery) (hp : p.Watches limits heard greeted) :
    (receive now max s p b ds bytes).connection.peer.Watches limits
      (if (completed now max s p b bytes).isEmpty then heard else some now)
      (greeted ++ (accepted now max s p b bytes).filterMap Packet.connect?) := by
  have hsame {p' : Peer} (hp' : p'.Watches limits heard greeted) : p'.Watches limits heard (greeted ++ []) := by
    rwa [List.append_nil]
  induction s, p, b, bytes using bytes_induction now max generalizing ds heard greeted with
  | nil s p b => exact hsame hp
  | closed s p b bytes hclosed =>
    rw [completed, accepted, operations_of_closed hclosed, receive_of_closed hclosed]
    exact hsame hp
  | broken s p b byte bytes s' e hopen hstep =>
    rw [completed, accepted, operations_cons_error hopen hstep, receive_cons_error hopen hstep]
    exact hsame (hp.congr rfl rfl rfl)
  | more s p b byte bytes s' hopen hstep ih =>
    rw [completed, accepted, operations_cons_none hopen hstep, receive_cons_none hopen hstep]
    exact ih ds hp hsame
  | refused s p b byte bytes s' packet r hopen hstep hh =>
    have hheard := hp.restart now
    rw [accepted_cons_refused hopen hstep hh, completed, operations_cons_refused hopen hstep hh,
      receive_cons_refused hopen hstep hh, List.filterMap_nil, List.append_nil]
    refine hheard.congr ?_ ?_ ?_ <;> (unfold Peer.closeOn; split <;> rfl)
  | handled s p b byte bytes s' packet h hopen hstep hh ih =>
    have hheard := ((hp.restart now).handled (Peer.handle_ok hh).2)
    have hdistributed := hheard.congr (q := (h.peer.distribute #[] h.output).1)
      (by rw [Peer.distribute_eq]) (by rw [Peer.distribute_eq]; rfl) (by rw [Peer.distribute_eq])
    have hthen := ih (ds ++ (Hub.othersThan h.peer.token h.output).toArray) hdistributed
      (fun hp' => by rwa [List.append_nil])
    rw [ite_self, List.append_assoc] at hthen
    rw [accepted_cons_handled hopen hstep hh, completed, operations_cons_handled hopen hstep hh,
      receive_cons_handled hopen hstep hh]
    cases packet <;> exact hthen

/-- Bytes that complete no packet leave the timer alone. -/
theorem keepAlive_receive (bytes : List UInt8) (ds : Array Delivery) (hnone : completed now max s p b bytes = []) :
    (receive now max s p b ds bytes).connection.peer.keepAlive = p.keepAlive := by
  induction s, p, b, bytes using bytes_induction now max with
  | nil s p b => rfl
  | closed s p b bytes hclosed => rw [receive_of_closed hclosed]
  | broken s p b byte bytes s' e hopen hstep => rw [receive_cons_error hopen hstep]
  | more s p b byte bytes s' hopen hstep ih =>
    rw [completed, operations_cons_none hopen hstep] at hnone
    rw [receive_cons_none hopen hstep]
    exact ih hnone
  | refused s p b byte bytes s' packet r hopen hstep hh =>
    rw [completed, operations_cons_refused hopen hstep hh] at hnone
    cases hnone
  | handled s p b byte bytes s' packet h hopen hstep hh ih =>
    rw [completed, operations_cons_handled hopen hstep hh] at hnone
    cases hnone

end Bytes

end Connection

/-! ### Watching a client -/

/-- A connection, when a call last brought a complete packet of its client, and the CONNECTs that it accepted. -/
structure Vigil where
  connection : Connection
  heard : Option Nat
  greeted : List Connect

namespace Vigil

/-- Bytes that come in, with the time and whatever the broker holds by then. -/
structure Call where
  broker : Broker
  now : Nat
  bytes : List UInt8

/-- A client that has just opened its stream. -/
def start (token : Nat) (limits : ConnectionLimits) (now : Nat) : Vigil := ⟨.new token limits now, none, []⟩

def call (v : Vigil) (k : Call) : Vigil :=
  let c := v.connection
  { connection := (c.handleBytes k.broker k.now k.bytes).connection
    heard := if (c.requests k.broker k.now k.bytes).isEmpty then v.heard else some k.now
    greeted := v.greeted ++
      (Connection.accepted k.now c.decoder.maxPacketSize c.decoder.state c.peer k.broker k.bytes).filterMap
        Packet.connect? }

def run (v : Vigil) (calls : List Call) : Vigil := calls.foldl call v

theorem watches_run {limits : ConnectionLimits} {v : Vigil} (calls : List Call)
    (hv : v.connection.peer.Watches limits v.heard v.greeted) :
    (v.run calls).connection.peer.Watches limits (v.run calls).heard (v.run calls).greeted := by
  induction calls generalizing v with
  | nil => exact hv
  | cons k calls ih => exact ih (Connection.watches_receive k.bytes #[] hv)

/-- **A client is given up when nothing complete has come from it for one and a half periods.** Bytes come to a new
connection in any pieces and at any times, and the broker may hold something else each time. Before a CONNECT is
accepted there is no deadline. After it there is none either if the period is 0, and otherwise it is one and a half
periods behind the latest call that brought a complete packet, accepted or not. Bytes that complete no packet never
move it, whatever they are and whenever they come, and it has expired from the deadline on. -/
theorem run_deadline (token : Nat) (limits : ConnectionLimits) (begun : Nat) (calls : List Call) :
    let v := (start token limits begun).run calls
    (v.greeted = [] → v.connection.deadline = none) ∧
      (∀ connect ∈ v.greeted,
        let e := KeepAlive.period limits.maxKeepAlive.toNat connect.keepAlive.toNat
        (v.connection.deadline = none ↔ e = 0) ∧
          ∃ t, v.heard = some t ∧ (e ≠ 0 → v.connection.deadline = some (t + 1500 * e))) ∧
      (∀ b now bytes, v.connection.requests b now bytes = [] →
        (v.connection.handleBytes b now bytes).connection.deadline = v.connection.deadline) ∧
      ∀ now, v.connection.isExpired now = true ↔ ∃ d, v.connection.deadline = some d ∧ d ≤ now := by
  intro v
  have hstart : (start token limits begun).connection.peer.Watches limits none [] := .stranger rfl rfl rfl
  have hv : v.connection.peer.Watches limits v.heard v.greeted := watches_run calls hstart
  refine ⟨?_, ?_, ?_, fun now => KeepAlive.isExpired_iff⟩
  · intro hnone
    rw [hnone] at hv
    exact hv.deadline_of_nil
  · intro connect hconnect e
    obtain ⟨t, ht, hdeadline⟩ := hv.deadline_of_mem hconnect
    refine ⟨?_, t, ht, fun he => hdeadline.trans (if_neg he)⟩
    change v.connection.peer.keepAlive.deadline = if e = 0 then none else some (t + 1500 * e) at hdeadline
    rw [Connection.deadline, hdeadline, ite_eq_left_iff]
    exact ⟨fun h => by_contra fun he => Option.some_ne_none _ (h he), fun he hne => absurd he hne⟩
  · intro b now bytes hnone
    exact congrArg KeepAlive.deadline (Connection.keepAlive_receive bytes #[] hnone)

/-- A client asks for sixty seconds with its CONNECT in two pieces, and half a PINGREQ follows. -/
def halting : List Call :=
  [⟨.new {}, 100, [0x10, 13, 0, 4, 77, 81, 84]⟩, ⟨.new {}, 200, [84, 4, 2, 0, 60, 0, 1, 99]⟩, ⟨.new {}, 5000, [0xc0]⟩]

/-- A server that allows twenty seconds waits for thirty, from the second piece on. -/
theorem run_deadline_halting :
    let v := (start 2 { maxKeepAlive := 20 } 0).run halting
    v.greeted.map (·.keepAlive) = [60] ∧ v.heard = some 200 ∧ v.connection.deadline = some 30200 := by
  intro v
  have hgreeted : v.greeted.map (·.keepAlive) = [60] := by decide +kernel
  have hheard : v.heard = some 200 := by decide +kernel
  obtain ⟨connect, hconnect, hk⟩ : ∃ connect ∈ v.greeted, connect.keepAlive = 60 := by
    simpa [hgreeted] using (List.mem_map (f := fun c : Connect => c.keepAlive) (b := 60) (l := v.greeted)).1
  obtain ⟨-, t, ht, hdeadline⟩ := (run_deadline 2 { maxKeepAlive := 20 } 0 halting).2.1 connect hconnect
  rw [hk] at hdeadline
  obtain rfl : 200 = t := Option.some.inj (hheard.symm.trans ht)
  exact ⟨hgreeted, hheard, hdeadline (by decide)⟩

end Vigil

end Mqtt
