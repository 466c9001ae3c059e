import Mqtt.Proofs.Lines
import Mqtt.Proofs.Ownership
import Mqtt.Proofs.Traffic
import Mqtt.Proofs.World

/-!
# What holds between a client and its broker

`World.Sound` is the invariant of a world: who owns the session, what the broker stores, what can be on
its way, and that the conversation of client and broker is linked over the connection that owns the
session. The bytes on every line are seen as the packets they are going to bring, those included that
are still to be written.

An action changes one side only. `Sound.speaks` is for the client: it says something, and perhaps hears
something first. `Sound.hears` is for the broker, and for bytes that merely move.
-/

namespace Mqtt

/-- All of a connection that decides what it makes of its bytes. -/
def Connection.gist (c : Connection) : Option AcceptedClient × Bool × Decoder :=
  (c.peer.client, c.peer.isClosed, c.decoder)

namespace World

/-! ### What is on its way -/

/-- Bytes on their way to the broker on a connection, with those that are still to be written. -/
def rise (w : World) (t : Nat) : List UInt8 :=
  w.up t ++ if t = w.newest then w.client.link.outbound.data.toList else []

/-- Bytes on their way to the client, with those that are still to be written. -/
def fall (w : World) : List UInt8 := w.down ++ w.outbound w.newest

/-- What the broker is going to read on a connection; one that is closed it does not read. -/
def rising (w : World) (t : Nat) : List Packet :=
  match w.hub.connections[t]? with
  | some c => if c.peer.isClosed then [] else c.decoder.coming (w.rise t)
  | none => []

/-- What the client is going to read. -/
def falling (w : World) : List Packet :=
  if w.client.link.state = .disconnected then [] else w.client.decoder.coming w.fall

/-- A CONNECT was accepted on the connection. -/
def Joined (w : World) (t : Nat) : Prop :=
  ∃ c, w.hub.connections[t]? = some c ∧ c.peer.client.isSome = true

def traffic (id : String) (w : World) : Traffic :=
  { state := w.client.link.state
    newest := w.newest
    owner := w.hub.broker.ownerOf id
    accepted := w.Joined
    rising := w.rising
    falling := w.falling }

/-- What holds between a client and its broker after every action. -/
structure Sound (id : String) (w : World) : Prop where
  owned : w.hub.Owned
  sole : w.hub.broker.Sole id
  /-- There is no connection after the newest, and none was accepted for anybody else. -/
  peers : ∀ (t : Nat) (c : Connection), w.hub.connections[t]? = some c →
    t ≤ w.newest ∧ (c.peer.client.isSome = true → c.peer.Introduced id)
  ahead : ∀ t, w.newest < t → w.up t = []
  greets : ∀ t, ∀ p ∈ w.rising t, p.Greets id
  fits : w.client.link.Fits
  upAligned : ∀ c : Connection, w.hub.connections[w.newest]? = some c → c.peer.isClosed = false →
    c.decoder.Aligned (w.rise w.newest)
  downAligned : w.client.link.state ≠ .disconnected → w.client.decoder.Aligned w.fall
  orderly : (w.traffic id).Orderly
  linked : Linked w.client.link.inflight (w.hub.broker.inflightOf id) w.falling (w.traffic id).climbing
    w.fromClient w.fromBroker

variable {id : String} {w : World}

theorem rising_of_open {t : Nat} {c : Connection} (hc : w.hub.connections[t]? = some c)
    (hopen : c.peer.isClosed = false) : w.rising t = c.decoder.coming (w.rise t) := by
  simp [rising, hc, hopen]

theorem rising_of_closed {t : Nat} {c : Connection} (hc : w.hub.connections[t]? = some c)
    (hclosed : c.peer.isClosed = true) : w.rising t = [] := by
  simp [rising, hc, hclosed]

/-! Connections that are the same but for what was queued. -/

variable {w' : World} {t : Nat}

theorem exists_of_gist (hgist : (w'.hub.connections[t]?).map (·.gist) = (w.hub.connections[t]?).map (·.gist))
    {c : Connection} (hc : w'.hub.connections[t]? = some c) :
    ∃ c', w.hub.connections[t]? = some c' ∧ c'.peer.client = c.peer.client ∧
      c'.peer.isClosed = c.peer.isClosed ∧ c'.decoder = c.decoder := by
  rw [hc] at hgist
  obtain ⟨c', hc', hsame⟩ := Option.map_eq_some_iff.1 hgist.symm
  exact ⟨c', hc', congrArg (·.1) hsame, congrArg (·.2.1) hsame, congrArg (·.2.2) hsame⟩

theorem rising_congr (hgist : (w'.hub.connections[t]?).map (·.gist) = (w.hub.connections[t]?).map (·.gist))
    (hrise : w'.rise t = w.rise t) : w'.rising t = w.rising t := by
  have hrising (w : World) : w.rising t = match (w.hub.connections[t]?).map (·.gist) with
      | some (_, closed, d) => if closed then [] else d.coming (w.rise t)
      | none => [] := by
    unfold rising
    cases w.hub.connections[t]? <;> rfl
  rw [hrising, hrising, hgist, hrise]

theorem joined_congr (hgist : (w'.hub.connections[t]?).map (·.gist) = (w.hub.connections[t]?).map (·.gist)) :
    w'.Joined t ↔ w.Joined t := by
  constructor
  · rintro ⟨c, hc, hclient⟩
    obtain ⟨c', hc', hsame, -⟩ := exists_of_gist hgist hc
    exact ⟨c', hc', hsame ▸ hclient⟩
  · rintro ⟨c, hc, hclient⟩
    obtain ⟨c', hc', hsame, -⟩ := exists_of_gist hgist.symm hc
    exact ⟨c', hc', hsame ▸ hclient⟩

/-! ### The client's side -/

/-- Only the client has done something, and has said `qs`. -/
structure Speaks (w : World) (qs : List Packet) (w' : World) : Prop where
  hub : w'.hub = w.hub
  newest : w'.newest = w.newest
  up : w'.up = w.up
  outbound : w'.client.link.outbound.data.toList
    = w.client.link.outbound.data.toList ++ qs.flatMap Packet.encode

variable {qs : List Packet}

theorem Speaks.rise (h : w.Speaks qs w') (t : Nat) :
    w'.rise t = w.rise t ++ if t = w.newest then qs.flatMap Packet.encode else [] := by
  unfold World.rise
  rw [h.newest, h.up]
  split
  · rw [h.outbound, List.append_assoc]
  · simp

/-- What the client says stands behind all that it said before on the newest connection. -/
theorem Speaks.rising (h : w.Speaks qs w') (hsound : w.Sound id) (hqs : ∀ q ∈ qs, Client.Link.Speaks id q) :
    ∃ qs', Packet.Read qs qs' ∧
      (∀ t, w'.rising t = if t = w.newest then w.rising t ++ qs' else w.rising t) ∧
      ∀ c : Connection, w.hub.connections[w.newest]? = some c → c.peer.isClosed = false →
        c.decoder.Aligned (w'.rise w.newest) := by
  have hothers {t : Nat} (ht : t ≠ w.newest) : w'.rising t = w.rising t := by
    unfold World.rising
    rw [h.rise, h.hub, if_neg ht, List.append_nil]
  have hnothing (hnewest : w'.rising w.newest = w.rising w.newest) (t : Nat) :
      w'.rising t = if t = w.newest then w.rising t ++ [] else w.rising t := by
    by_cases ht : t = w.newest
    · rw [if_pos ht, ht, hnewest, List.append_nil]
    · rw [if_neg ht, hothers ht]
  cases hc : w.hub.connections[w.newest]? with
  | none =>
    refine ⟨[], .refused qs, hnothing ?_, fun c hc => nomatch hc⟩
    simp [World.rising, h.hub, hc]
  | some c =>
    have hc' : w'.hub.connections[w.newest]? = some c := by rw [h.hub, hc]
    cases hclosed : c.peer.isClosed with
    | true =>
      refine ⟨[], .refused qs, hnothing ?_, fun c' hc' hopen => ?_⟩
      · rw [rising_of_closed hc hclosed, rising_of_closed hc' hclosed]
      · cases hc'
        rw [hclosed] at hopen
        cases hopen
    | false =>
      obtain ⟨haligned, qs', hcoming, hread⟩ := (hsound.upAligned c hc hclosed).write fun q hq => (hqs q hq).1
      have hrise : w'.rise w.newest = w.rise w.newest ++ qs.flatMap Packet.encode := by
        rw [h.rise, if_pos rfl]
      refine ⟨qs', hread, fun t => ?_, fun c' hc' _ => ?_⟩
      · by_cases ht : t = w.newest
        · rw [if_pos ht, ht, rising_of_open hc hclosed, rising_of_open hc' hclosed, hrise, hcoming]
        · rw [if_neg ht, hothers ht]
      · cases hc'
        rw [hrise]
        exact haligned

/-- **Whatever the client does** keeps the world sound if it keeps the conversation, and says nothing of a
handshake unless it is connected. -/
theorem Sound.speaks (h : w.Sound id) (hw : w.Speaks qs w') (hqs : ∀ q ∈ qs, Client.Link.Speaks id q)
    (hstate : w'.client.link.state = .connected ∧ w.Joined w.newest ∨
      (w'.client.link.state = w.client.link.state ∨ w'.client.link.state = .disconnected) ∧ Quiet qs)
    (hfalling : w'.falling ⊆ w.falling)
    (haligned : w'.client.link.state ≠ .disconnected → w'.client.decoder.Aligned w'.fall)
    (hfits : w'.client.link.Fits)
    (hlinked : Linked w'.client.link.inflight (w.hub.broker.inflightOf id) w'.falling
      ((w.traffic id).climbing ++ qs) w'.fromClient w'.fromBroker) : w'.Sound id := by
  obtain ⟨qs', hread, hrising, hup⟩ := hw.rising h hqs
  have hjoined (t : Nat) : w'.Joined t ↔ w.Joined t := by
    unfold Joined
    rw [hw.hub]
  have howner : (w'.traffic id).owner = (w.traffic id).owner := by
    unfold traffic
    rw [hw.hub]
  have hsame (t : Nat) : w'.rising t ⊆ if t = w.newest then w.rising t ++ qs' else w.rising t := by
    rw [hrising t]
    exact fun _ hp => hp
  refine ⟨hw.hub ▸ h.owned, hw.hub ▸ h.sole, ?_, ?_, ?_, hfits, ?_, haligned, ?_, ?_⟩
  · rw [hw.hub, hw.newest]
    exact h.peers
  · rw [hw.newest, hw.up]
    exact h.ahead
  · intro t p hp
    have hp := hsame t hp
    split at hp
    · rcases List.mem_append.1 hp with hp | hp
      · exact h.greets t p hp
      · obtain ⟨q, hq, hbecomes⟩ := hread.mem hp
        exact hbecomes.greets (hqs q hq).2
    · exact h.greets t p hp
  · rw [hw.hub, hw.newest]
    exact hup
  · rcases hstate with ⟨hconnected, hnewest⟩ | ⟨hstate, hquiet⟩
    · exact ((h.orderly.joins hnewest).speaks (.inr rfl)).less
        ⟨.inl hconnected, hw.newest, .inl howner, hjoined, hsame, hfalling⟩
    · exact (h.orderly.speaks (.inl (hquiet.read hread))).less
        ⟨hstate, hw.newest, .inl howner, hjoined, hsame, hfalling⟩
  · have hclimbing : Exchange.Within (w'.traffic id).climbing ((w.traffic id).climbing ++ qs) := by
      unfold Traffic.climbing
      rw [howner]
      cases (w.traffic id).owner with
      | none => exact Quiet.nil.within _
      | some t =>
        dsimp only [traffic]
        rw [hrising t]
        split
        · exact (Exchange.Within.refl _).append hread.within
        · exact .of_sublist (List.sublist_append_left _ _)
    rw [hw.hub]
    exact hlinked.within (.refl _) hclimbing

/-! ### The broker's side -/

/-- What the client is going to read once more was queued for it. -/
theorem Sound.falling_of_fall (h : w.Sound id) (hstate : w'.client.link.state = w.client.link.state)
    (hdecoder : w'.client.decoder = w.client.decoder)
    (hfall : w'.fall = w.fall ++ qs.flatMap Packet.encode) (hqs : ∀ q ∈ qs, q.Writable) :
    (∃ qs', Packet.Read qs qs' ∧ w'.falling = w.falling ++ qs') ∧
      (w'.client.link.state ≠ .disconnected → w'.client.decoder.Aligned w'.fall) := by
  unfold falling
  rw [hstate, hdecoder, hfall]
  by_cases hconnected : w.client.link.state = .disconnected
  · rw [if_pos hconnected, if_pos hconnected]
    exact ⟨⟨[], .refused qs, rfl⟩, fun hne => absurd hconnected hne⟩
  · rw [if_neg hconnected, if_neg hconnected]
    obtain ⟨haligned, qs', hcoming, hread⟩ := (h.downAligned hconnected).write hqs
    exact ⟨⟨qs', hread, hcoming⟩, fun _ => haligned⟩

/-- **Whatever the broker does** keeps the world sound if it keeps the conversation, and says nothing of
it to a connection that was not accepted. -/
theorem Sound.hears (h : w.Sound id) (qs : List Packet) (hstate : w'.client.link.state = w.client.link.state)
    (hinflight : w'.client.link.inflight = w.client.link.inflight)
    (hdecoder : w'.client.decoder = w.client.decoder) (hnewest : w'.newest = w.newest)
    (hahead : ∀ t, w.newest < t → w'.up t = [])
    (howned : w'.hub.Owned) (hsole : w'.hub.broker.Sole id)
    (hpeers : ∀ (t : Nat) (c : Connection), w'.hub.connections[t]? = some c →
      t ≤ w.newest ∧ (c.peer.client.isSome = true → c.peer.Introduced id))
    (hrising : ∀ t, w'.rising t ⊆ w.rising t)
    (hup : ∀ c : Connection, w'.hub.connections[w.newest]? = some c → c.peer.isClosed = false →
      c.decoder.Aligned (w'.rise w.newest))
    (hfall : w'.fall = w.fall ++ qs.flatMap Packet.encode) (hqs : ∀ q ∈ qs, q.Writable)
    (horderly : ({ w'.traffic id with falling := w.falling } : Traffic).Orderly)
    (hearly : ¬w'.Joined w.newest → Quiet qs ∧ ∀ present, Packet.connack present .accepted ∉ qs)
    (hanswers : w.client.link.state = .connecting → ∀ q ∈ qs, ∀ k, q.answers k = false)
    (hlinked : Linked w.client.link.inflight (w'.hub.broker.inflightOf id) (w.falling ++ qs)
      (w'.traffic id).climbing w'.fromClient w'.fromBroker) : w'.Sound id := by
  obtain ⟨⟨qs', hread, hfalling⟩, hdown⟩ := h.falling_of_fall hstate hdecoder hfall hqs
  refine ⟨howned, hsole, ?_, ?_, ?_, ?_, ?_, hdown, ?_, ?_⟩
  · rw [hnewest]
    exact hpeers
  · rw [hnewest]
    exact hahead
  · exact fun t p hp => h.greets t p (hrising t hp)
  · intro k m hm
    exact h.fits k m (hinflight ▸ hm)
  · rw [hnewest]
    exact hup
  · have hheard := horderly.hears qs' (fun hnew => ?_) fun hconnecting q hq k => ?_
    · refine hheard.less ⟨.inl rfl, rfl, .inl rfl, fun _ => .rfl, fun _ _ hp => hp, ?_⟩
      intro p hp
      exact hfalling ▸ hp
    · obtain ⟨hquiet, hconnack⟩ := hearly (hnewest ▸ hnew)
      refine ⟨hquiet.read hread, fun present hmem => ?_⟩
      obtain ⟨p, hp, hbecomes⟩ := hread.mem hmem
      exact hconnack present (hbecomes.connack ▸ hp)
    · obtain ⟨p, hp, hbecomes⟩ := hread.mem hq
      exact hbecomes.answers (hanswers (hstate ▸ hconnecting) p hp k)
  · rw [hinflight, hfalling]
    exact hlinked.within ((Exchange.Within.refl _).append hread.within) (.refl _)

/-- **Bytes that merely move** are on their way as before. -/
theorem Sound.moves (h : w.Sound id) (hstate : w'.client.link.state = w.client.link.state)
    (hinflight : w'.client.link.inflight = w.client.link.inflight)
    (hdecoder : w'.client.decoder = w.client.decoder) (hnewest : w'.newest = w.newest)
    (hahead : ∀ t, w.newest < t → w'.up t = []) (howned : w'.hub.Owned)
    (hbroker : w'.hub.broker = w.hub.broker)
    (hgist : ∀ t : Nat, (w'.hub.connections[t]?).map (·.gist) = (w.hub.connections[t]?).map (·.gist))
    (hrise : ∀ t, w'.rise t = w.rise t) (hfall : w'.fall = w.fall)
    (hmine : w'.fromClient = w.fromClient) (htheirs : w'.fromBroker = w.fromBroker) : w'.Sound id := by
  have hrising : w'.rising = w.rising := funext fun t => rising_congr (hgist t) (hrise t)
  have hless (t : Nat) : w'.rising t ⊆ w.rising t := by
    rw [hrising]
    exact fun _ hp => hp
  refine h.hears [] hstate hinflight hdecoder hnewest hahead howned (hbroker ▸ h.sole) (fun t c hc => ?_)
    hless (fun c hc hopen => ?_) ?_ (List.forall_mem_nil _) ?_ (fun _ => ⟨.nil, fun _ => List.not_mem_nil⟩)
    (fun _ => List.forall_mem_nil _) ?_
  · obtain ⟨c', hc', hclient, -⟩ := exists_of_gist (hgist t) hc
    obtain ⟨hbound, hintroduced⟩ := h.peers t c' hc'
    refine ⟨hbound, fun hjoined => ?_⟩
    unfold Peer.Introduced at *
    rw [← hclient] at hjoined ⊢
    exact hintroduced hjoined
  · obtain ⟨c', hc', -, hclosed, hreader⟩ := exists_of_gist (hgist w.newest) hc
    rw [hrise, ← hreader]
    exact h.upAligned c' hc' (hclosed.trans hopen)
  · rw [hfall]
    exact (List.append_nil _).symm
  · exact h.orderly.less ⟨.inl hstate, hnewest, .inl (congrArg (·.ownerOf id) hbroker),
      fun t => joined_congr (hgist t), hless, fun _ hp => hp⟩
  · have hclimbing : (w'.traffic id).climbing = (w.traffic id).climbing := by
      unfold Traffic.climbing traffic
      dsimp only
      rw [hbroker, hrising]
    rw [hclimbing, hbroker, hmine, htheirs, List.append_nil]
    exact h.linked

end World

end Mqtt
