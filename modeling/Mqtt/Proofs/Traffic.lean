import Mqtt.Client.Protocol
import Mqtt.Proofs.Lines
import Mqtt.Proofs.Serving

/-!
# What is on its way between a client and its broker

A client has one connection after the other. What it still listens to is the newest, but bytes of an
older one may still be read by the broker, and the broker may even accept a CONNECT that the client has
given up long ago. `Traffic.Orderly` says what can be on its way all the same: nothing of a handshake on
a connection that was not accepted, no answer to a client that waits for CONNACK, and nothing of a
handshake on the connection that owns the session once a newer one was accepted.

So both sides may send everything again where they do: `Orderly.client_may_resend` and
`Orderly.broker_may_resend`.
-/

namespace Mqtt

/-- There is nothing of any handshake. -/
def Quiet (ps : List Packet) : Prop := ∀ p ∈ ps, p.Plain

namespace Quiet

variable {ps qs : List Packet}

theorem nil : Quiet [] := List.forall_mem_nil _

theorem append (hps : Quiet ps) (hqs : Quiet qs) : Quiet (ps ++ qs) := fun p hp =>
  (List.mem_append.1 hp).elim (hps p) (hqs p)

theorem subset (hqs : Quiet qs) (h : ps ⊆ qs) : Quiet ps := fun p hp => hqs p (h hp)

theorem requests (h : Quiet ps) (id : UInt16) : ps.filter (·.requests id) = [] :=
  List.filter_eq_nil_iff.2 fun p hp => by simp [(h p hp id).1]

theorem answers (h : Quiet ps) (id : UInt16) : ps.filter (·.answers id) = [] :=
  List.filter_eq_nil_iff.2 fun p hp => by simp [(h p hp id).2]

theorem within (h : Quiet ps) (qs : List Packet) : Exchange.Within ps qs := Exchange.within_of_plain h qs

end Quiet

/-! What is read where packets were written is as quiet as they are. -/

theorem Packet.Becomes.connack {p : Packet} {present : Bool} {code : ConnackCode}
    (h : p.Becomes (.connack present code)) : p = .connack present code := by
  cases p with
  | connack => exact h.symm
  | publish | puback | pubrec | pubrel | pubcomp => exact nomatch h
  | connect =>
    obtain ⟨c, hc, -⟩ := h
    cases hc
  | suback | subscribe | unsubscribe | unsuback | pingreq | pingresp | disconnect => exact nomatch h

theorem Packet.Becomes.answers {p q : Packet} (h : p.Becomes q) {id : UInt16} (hp : p.answers id = false) :
    q.answers id = false := by
  cases hrequests : p.requests id with
  | true => exact h.eq (.inl hrequests) ▸ hp
  | false => exact (h.plain ⟨hrequests, hp⟩).2

theorem Quiet.read {ps qs : List Packet} (hps : Quiet ps) (h : Packet.Read ps qs) : Quiet qs := by
  intro q hq k
  obtain ⟨p, hp, hbecomes⟩ := h.mem hq
  exact hbecomes.plain (hps p hp k)

/-- What is on its way, and how far client and broker have come. -/
structure Traffic where
  state : Client.State
  /-- The newest connection. -/
  newest : Nat
  /-- The connection that owns the client's session. -/
  owner : Option Nat
  /-- A CONNECT was accepted on the connection. -/
  accepted : Nat → Prop
  /-- What the broker is going to read on each connection. -/
  rising : Nat → List Packet
  /-- What the client is going to read. -/
  falling : List Packet

namespace Traffic

/-- What the broker is going to read on the connection that owns the session. -/
def climbing (v : Traffic) : List Packet :=
  match v.owner with
  | some t => v.rising t
  | none => []

/-- What can be on its way. -/
structure Orderly (v : Traffic) : Prop where
  bound : ∀ t, v.accepted t → t ≤ v.newest
  owned : ∀ t, v.owner = some t → v.accepted t
  silent : ∀ t, ¬v.accepted t → Quiet (v.rising t)
  connecting : v.state = .connecting →
    Quiet (v.rising v.newest) ∧ ∀ p ∈ v.falling, ∀ k, p.answers k = false
  connected : v.state = .connected → v.accepted v.newest
  early : ¬v.accepted v.newest →
    Quiet v.falling ∧ ∀ present, Packet.connack present .accepted ∉ v.falling
  last : ∀ t, v.owner = some t → ¬Quiet (v.rising t) → ∀ t', v.accepted t' → t' ≤ t

/-- What is left when something is lost or given up. -/
structure Less (v' v : Traffic) : Prop where
  state : v'.state = v.state ∨ v'.state = .disconnected
  newest : v'.newest = v.newest
  owner : v'.owner = v.owner ∨ v'.owner = none
  accepted : ∀ t, v'.accepted t ↔ v.accepted t
  rising : ∀ t, v'.rising t ⊆ v.rising t
  falling : v'.falling ⊆ v.falling

variable {v v' : Traffic}

namespace Orderly

/-- Whatever is on its way may be lost, the connection be given up and the session released. -/
theorem less (h : v.Orderly) (hless : v'.Less v) : v'.Orderly where
  bound t ht := by
    rw [hless.newest]
    exact h.bound t ((hless.accepted t).1 ht)
  owned t ht := by
    rcases hless.owner with howner | howner
    · exact (hless.accepted t).2 (h.owned t (howner ▸ ht))
    · rw [howner] at ht
      cases ht
  silent t ht := (h.silent t fun haccepted => ht ((hless.accepted t).2 haccepted)).subset (hless.rising t)
  connecting hstate := by
    rcases hless.state with hsame | hsame
    · obtain ⟨hquiet, hanswers⟩ := h.connecting (hsame ▸ hstate)
      rw [hless.newest]
      exact ⟨hquiet.subset (hless.rising v.newest), fun p hp => hanswers p (hless.falling hp)⟩
    · rw [hsame] at hstate
      cases hstate
  connected hstate := by
    rcases hless.state with hsame | hsame
    · rw [hless.newest]
      exact (hless.accepted v.newest).2 (h.connected (hsame ▸ hstate))
    · rw [hsame] at hstate
      cases hstate
  early hnew := by
    obtain ⟨hquiet, hconnack⟩ := h.early fun haccepted =>
      hnew (hless.newest ▸ (hless.accepted v.newest).2 haccepted)
    exact ⟨hquiet.subset hless.falling, fun present hmem => hconnack present (hless.falling hmem)⟩
  last t ht hloud t' ht' := by
    rcases hless.owner with howner | howner
    · exact h.last t (howner ▸ ht) (fun hquiet => hloud (hquiet.subset (hless.rising t))) t'
        ((hless.accepted t').1 ht')
    · rw [howner] at ht
      cases ht

/-- The client says something; of a handshake only when it is connected. -/
theorem speaks (h : v.Orderly) {qs : List Packet} (hqs : Quiet qs ∨ v.state = .connected) :
    ({ v with rising := fun t => if t = v.newest then v.rising t ++ qs else v.rising t } : Traffic).Orderly where
  bound := h.bound
  owned := h.owned
  silent t ht := by
    dsimp only
    split
    · next hnewest =>
      subst hnewest
      rcases hqs with hquiet | hstate
      · exact (h.silent _ ht).append hquiet
      · exact absurd (h.connected hstate) ht
    · exact h.silent t ht
  connecting hstate := by
    obtain ⟨hquiet, hanswers⟩ := h.connecting hstate
    refine ⟨?_, hanswers⟩
    dsimp only
    rw [if_pos rfl]
    rcases hqs with hqs | hconnected
    · exact hquiet.append hqs
    · cases hconnected.symm.trans hstate
  connected := h.connected
  early := h.early
  last t ht hloud t' ht' := by
    by_cases hnewest : t = v.newest
    · rw [hnewest]
      exact h.bound t' ht'
    · dsimp only at hloud
      rw [if_neg hnewest] at hloud
      exact h.last t ht hloud t' ht'

/-- The client learns that its CONNECT was accepted. -/
theorem joins (h : v.Orderly) (haccepted : v.accepted v.newest) :
    ({ v with state := .connected } : Traffic).Orderly where
  bound := h.bound
  owned := h.owned
  silent := h.silent
  connecting hstate := nomatch hstate
  connected _ := haccepted
  early := h.early
  last := h.last

/-- The broker says something on the newest connection: before it has accepted a CONNECT nothing of a
handshake and not that it has, and no answers to a client that has said nothing. -/
theorem hears (h : v.Orderly) (qs : List Packet)
    (hearly : ¬v.accepted v.newest → Quiet qs ∧ ∀ present, Packet.connack present .accepted ∉ qs)
    (hanswers : v.state = .connecting → ∀ q ∈ qs, ∀ k, q.answers k = false) :
    ({ v with falling := v.falling ++ qs } : Traffic).Orderly where
  bound := h.bound
  owned := h.owned
  silent := h.silent
  connecting hstate := by
    obtain ⟨hquiet, hfalling⟩ := h.connecting hstate
    refine ⟨hquiet, fun p hp => ?_⟩
    rcases List.mem_append.1 hp with hp | hp
    · exact hfalling p hp
    · exact hanswers hstate p hp
  connected := h.connected
  early hnew := by
    obtain ⟨hquiet, hconnack⟩ := h.early hnew
    obtain ⟨hquiet', hconnack'⟩ := hearly hnew
    refine ⟨hquiet.append hquiet', fun present hmem => ?_⟩
    rcases List.mem_append.1 hmem with hmem | hmem
    · exact hconnack present hmem
    · exact hconnack' present hmem
  last := h.last

/-- A CONNECT is accepted on a connection, which need not be the newest. -/
theorem accepts (h : v.Orderly) {t : Nat} (ht : t ≤ v.newest) (hnew : ¬v.accepted t) :
    ({ v with owner := some t, accepted := fun t' => t' = t ∨ v.accepted t' } : Traffic).Orderly where
  bound t' ht' := by
    rcases ht' with rfl | ht'
    · exact ht
    · exact h.bound t' ht'
  owned t' ht' := .inl (Option.some.inj ht').symm
  silent t' ht' := h.silent t' fun haccepted => ht' (.inr haccepted)
  connecting := h.connecting
  connected hstate := .inr (h.connected hstate)
  early hearly := h.early fun haccepted => hearly (.inr haccepted)
  last t' ht' hloud := by
    cases ht'
    exact absurd (h.silent t hnew) hloud

/-- The client opens a new connection, and what the broker said on the last one is lost. -/
theorem opens (h : v.Orderly) (hquiet : Quiet (v.rising (v.newest + 1))) :
    ({ v with state := .connecting, newest := v.newest + 1, falling := [] } : Traffic).Orderly where
  bound t ht := Nat.le_succ_of_le (h.bound t ht)
  owned := h.owned
  silent := h.silent
  connecting _ := ⟨hquiet, List.forall_mem_nil _⟩
  connected hstate := nomatch hstate
  early _ := ⟨.nil, fun _ => List.not_mem_nil⟩
  last := h.last

/-- **A client that learns that it was accepted may send everything again**: nothing that it sent
before is going to be read, and no answer to it is on its way. -/
theorem client_may_resend (h : v.Orderly) (hstate : v.state = .connecting)
    (haccepted : v.accepted v.newest) (k : UInt16) :
    v.climbing.filter (·.requests k) = [] ∧ v.falling.filter (·.answers k) = [] := by
  obtain ⟨hquiet, hanswers⟩ := h.connecting hstate
  refine ⟨?_, List.filter_eq_nil_iff.2 fun p hp => by simp [hanswers p hp k]⟩
  unfold climbing
  cases howner : v.owner with
  | none => rfl
  | some t =>
    -- the owner is the newest connection, or an older one on which the client never got further
    by_cases hloud : Quiet (v.rising t)
    · exact hloud.requests k
    · have hnewest := h.last t howner hloud v.newest haccepted
      have hbound := h.bound t (h.owned t howner)
      have hsame : t = v.newest := by omega
      exact absurd (hsame ▸ hquiet) hloud

/-- **A broker that accepts a CONNECT on the newest connection may send everything again.** -/
theorem broker_may_resend (h : v.Orderly) (hnew : ¬v.accepted v.newest) (k : UInt16) :
    v.falling.filter (·.requests k) = [] ∧ (v.rising v.newest).filter (·.answers k) = [] :=
  ⟨(h.early hnew).1.requests k, (h.silent v.newest hnew).answers k⟩

end Orderly

end Traffic

end Mqtt
