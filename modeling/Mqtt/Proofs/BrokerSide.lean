import Mqtt.Proofs.Arrivals
import Mqtt.Proofs.Soundness

/-!
# What the broker does: `Connection::handle_bytes`, `teardown`

Every action of the broker keeps the world sound: the bytes it writes and reads, the messages it
publishes, and the connections it ends.
-/

namespace Mqtt.World

open Broker

variable {id : String} {w : World}

/-! ### Publishing -/

/-- The broker after it had something to say to the owner of the session. -/
def fed (w : World) (b : Broker) (ds : List Delivery) : World :=
  { w with
    hub := ({ w.hub with broker := b } : Hub).dispatch ds
    fromBroker := w.fromBroker ++ Delivery.taken ds }

theorem connections_fed (w : World) (b : Broker) (ds : List Delivery) (t : Nat) :
    (w.fed b ds).hub.connections[t]? = (w.hub.connections[t]?).map fun c =>
      { c with peer := { c.peer with
          outbound := (Hub.packetsFor t ds).foldl (fun bytes p => bytes ++ p.toBytes) c.peer.outbound } } := by
  unfold fed
  rw [Hub.connections_dispatch]
  congr 1
  funext c
  exact Connection.foldl_send _ c

theorem gist_fed (w : World) (b : Broker) (ds : List Delivery) (t : Nat) :
    ((w.fed b ds).hub.connections[t]?).map (·.gist) = (w.hub.connections[t]?).map (·.gist) := by
  rw [connections_fed]
  cases w.hub.connections[t]? <;> rfl

theorem rising_fed (w : World) (b : Broker) (ds : List Delivery) : (w.fed b ds).rising = w.rising :=
  funext fun t => rising_congr (w.gist_fed b ds t) rfl

theorem joined_fed (w : World) (b : Broker) (ds : List Delivery) (t : Nat) :
    (w.fed b ds).Joined t ↔ w.Joined t := joined_congr (w.gist_fed b ds t)

/-- What the broker has to say reaches the client if its newest connection owns the session. -/
theorem Sound.fall_fed (h : w.Sound id) {b : Broker} {ds : List Delivery}
    (hfeeds : Feeds id w.hub.broker ds b) :
    (w.fed b ds).fall = w.fall ++ (Hub.packetsFor w.newest ds).flatMap Packet.encode := by
  have hfall : (w.fed b ds).fall = w.down ++ (w.fed b ds).outbound w.newest := rfl
  rw [hfall]
  unfold fall outbound
  rw [connections_fed]
  cases hc : w.hub.connections[w.newest]? with
  | some c =>
    dsimp only [Option.map_some]
    rw [toList_foldl_append, List.append_assoc]
  | none =>
    have hnone : Hub.packetsFor w.newest ds = [] := Hub.packetsFor_of_ne fun d hd htoken => by
      obtain ⟨c, hc', -⟩ := h.orderly.owned d.token (hfeeds.mem hd).1
      rw [htoken, hc] at hc'
      cases hc'
    rw [hnone]
    simp

theorem Sound.fed (h : w.Sound id) {b : Broker} {ds : List Delivery} (hfeeds : Feeds id w.hub.broker ds b)
    (howned : (w.fed b ds).hub.Owned) : (w.fed b ds).Sound id := by
  have hbroker : (w.fed b ds).hub.broker = b := Hub.broker_dispatch _ _
  have howner : ((w.fed b ds).traffic id).owner = (w.traffic id).owner := by
    dsimp only [traffic]
    rw [hbroker, hfeeds.ownerOf]
  have hclimbing : ((w.fed b ds).traffic id).climbing = (w.traffic id).climbing := by
    unfold Traffic.climbing
    rw [howner]
    dsimp only [traffic]
    rw [rising_fed]
  have hless (t : Nat) : (w.fed b ds).rising t ⊆ w.rising t := by
    rw [rising_fed]
    exact fun _ hp => hp
  refine h.hears _ rfl rfl rfl rfl h.ahead howned ?_ (fun t c hc => ?_) hless (fun c hc hopen => ?_)
    (h.fall_fed hfeeds) (fun q hq => ?_) ?_ (fun hnew => ?_) (fun _ q hq k => ?_) ?_
  · rw [hbroker]
    exact hfeeds.sole h.sole
  · rw [connections_fed, Option.map_eq_some_iff] at hc
    obtain ⟨c, hc, rfl⟩ := hc
    exact h.peers t c hc
  · rw [connections_fed, Option.map_eq_some_iff] at hc
    obtain ⟨c, hc, rfl⟩ := hc
    exact h.upAligned c hc hopen
  · obtain ⟨d, hd, rfl⟩ := List.mem_map.1 hq
    exact (hfeeds.mem (List.mem_filter.1 hd).1).2.1
  · exact h.orderly.less ⟨.inl rfl, rfl, .inl howner, w.joined_fed b ds, hless, fun _ hp => hp⟩
  · have hnone : Hub.packetsFor w.newest ds = [] := Hub.packetsFor_of_ne fun d hd htoken =>
      hnew ((w.joined_fed b ds _).2 (htoken ▸ h.orderly.owned d.token (hfeeds.mem hd).1))
    rw [hnone]
    exact ⟨.nil, fun _ => List.not_mem_nil⟩
  · obtain ⟨d, hd, rfl⟩ := List.mem_map.1 hq
    obtain ⟨-, -, p, hp⟩ := hfeeds.mem (List.mem_filter.1 hd).1
    rw [hp]
    rfl
  · rw [hbroker, hclimbing]
    have hlinked := (hfeeds.linked h.linked.symm).symm
    refine hlinked.within ((Exchange.Within.refl _).append (.of_sublist ?_)) (.refl _)
    exact (List.filter_sublist (p := (·.token = w.newest)) (l := ds)).map _

theorem Sound.brokerPublishes (h : w.Sound id) (origin : Option String) {m : Message} (hm : m.Fits) :
    (w.brokerPublishes origin m).Sound id := by
  have howned := h.owned.publish origin m
  have hfeeds := publish_feeds h.sole.others origin hm
  unfold World.brokerPublishes
  unfold Hub.publish at howned ⊢
  generalize w.hub.broker.publish origin m = r at howned hfeeds ⊢
  exact h.fed hfeeds howned

/-! ### Writing -/

theorem connections_brokerWrites (w : World) (token count t : Nat) :
    (w.brokerWrites token count).hub.connections[t]? =
      (w.hub.connections[t]?).map fun c => if token = t then c.consume count else c := by
  unfold World.brokerWrites Hub.written
  dsimp only
  cases hc : w.hub.connections[token]? with
  | none =>
    by_cases ht : token = t
    · simp [← ht, hc]
    · simp [ht]
  | some c =>
    dsimp only
    rw [Hub.connections_setConnection]
    by_cases ht : token = t
    · simp [← ht, hc]
    · simp [ht]

/-- Bytes that are written to the newest connection are on their way as before. -/
theorem fall_brokerWrites (w : World) (token count : Nat) : (w.brokerWrites token count).fall = w.fall := by
  have hfall : (w.brokerWrites token count).fall
      = (if token = w.newest then w.down ++ (w.outbound token).take count else w.down)
        ++ (w.brokerWrites token count).outbound w.newest := rfl
  rw [hfall]
  unfold fall outbound
  rw [connections_brokerWrites]
  by_cases ht : token = w.newest
  · simp only [if_pos ht]
    rw [ht]
    cases w.hub.connections[w.newest]? with
    | none => simp
    | some c =>
      dsimp only [Option.map_some, Connection.consume]
      rw [toList_extract, List.append_assoc, List.take_append_drop]
  · simp only [if_neg ht]
    cases w.hub.connections[w.newest]? <;> rfl

theorem Sound.brokerWrites (h : w.Sound id) (token count : Nat) : (w.brokerWrites token count).Sound id := by
  refine h.moves rfl rfl rfl rfl h.ahead (h.owned.written token count) ?_ (fun t => ?_) (fun _ => rfl)
    (w.fall_brokerWrites token count) rfl rfl
  · unfold World.brokerWrites Hub.written
    dsimp only
    split <;> rfl
  · rw [connections_brokerWrites]
    cases w.hub.connections[t]? with
    | none => rfl
    | some c => by_cases ht : token = t <;> simp [ht, Connection.gist, Connection.consume, Peer.client]

/-! ### One connection -/

/-- The broker after something happened on one connection, and the marks it left. -/
def turned (w : World) (t : Nat) (c : Connection) (b : Broker) (up : Nat → List UInt8) (mine theirs : Log) :
    World :=
  { w with
    hub := ({ w.hub with broker := b } : Hub).setConnection t c
    up
    fromClient := w.fromClient ++ mine
    fromBroker := w.fromBroker ++ theirs }

variable {t : Nat} {c c' : Connection} {b : Broker} {up : Nat → List UInt8} {mine theirs : Log}
  {qs : List Packet}

theorem connections_turned (x : Nat) : (w.turned t c b up mine theirs).hub.connections[x]? =
    if t = x then some c else w.hub.connections[x]? := Hub.connections_setConnection _ t x c

theorem rising_turned_of_ne {x : Nat} (hx : x ≠ t) (hup : up x = w.up x) :
    (w.turned t c b up mine theirs).rising x = w.rising x := by
  refine rising_congr ?_ ?_
  · rw [connections_turned, if_neg (Ne.symm hx)]
  · unfold rise turned
    dsimp only
    rw [hup]

theorem joined_turned (x : Nat) : (w.turned t c b up mine theirs).Joined x ↔
    (x = t ∧ c.peer.client.isSome = true) ∨ (x ≠ t ∧ w.Joined x) := by
  unfold Joined
  rw [connections_turned]
  by_cases hx : x = t
  · simp [hx]
  · simp [hx, Ne.symm hx]

theorem fall_turned (hc : w.hub.connections[t]? = some c)
    (hout : c'.peer.outbound.data.toList = c.peer.outbound.data.toList ++ qs.flatMap Packet.encode) :
    (w.turned t c' b up mine theirs).fall
      = w.fall ++ (if t = w.newest then qs else []).flatMap Packet.encode := by
  have hfall : (w.turned t c' b up mine theirs).fall
      = w.down ++ (w.turned t c' b up mine theirs).outbound w.newest := rfl
  rw [hfall]
  unfold fall outbound
  rw [connections_turned]
  by_cases ht : t = w.newest
  · rw [if_pos ht, if_pos ht, ← ht, hc]
    dsimp only
    rw [hout, List.append_assoc]
  · rw [if_neg ht, if_neg ht, List.flatMap_nil, List.append_nil]

/-- Something happens on one connection. -/
theorem Sound.turned (h : w.Sound id) (qs : List Packet) (hc : w.hub.connections[t]? = some c)
    (hup : ∀ x, x ≠ t → up x = w.up x) (howned : (w.turned t c' b up mine theirs).hub.Owned)
    (hsole : b.Sole id) (hintroduced : c'.peer.client.isSome = true → c'.peer.Introduced id)
    (hrising : (w.turned t c' b up mine theirs).rising t ⊆ w.rising t)
    (haligned : t = w.newest → c'.peer.isClosed = false →
      c'.decoder.Aligned ((w.turned t c' b up mine theirs).rise t))
    (hout : c'.peer.outbound.data.toList = c.peer.outbound.data.toList ++ qs.flatMap Packet.encode)
    (hqs : ∀ q ∈ qs, q.Writable)
    (horderly : ({ (w.turned t c' b up mine theirs).traffic id with falling := w.falling } : Traffic).Orderly)
    (hearly : t = w.newest → c'.peer.client.isSome = false →
      Quiet qs ∧ ∀ present, Packet.connack present .accepted ∉ qs)
    (hanswers : t = w.newest → w.client.link.state = .connecting → ∀ q ∈ qs, ∀ k, q.answers k = false)
    (hlinked : Linked w.client.link.inflight (b.inflightOf id)
      (w.falling ++ if t = w.newest then qs else [])
      ((w.turned t c' b up mine theirs).traffic id).climbing (w.fromClient ++ mine) (w.fromBroker ++ theirs)) :
    (w.turned t c' b up mine theirs).Sound id := by
  have hbound := (h.peers t c hc).1
  refine h.hears (if t = w.newest then qs else []) rfl rfl rfl rfl (fun x hx => ?_) howned hsole
    (fun x cx hcx => ?_) (fun x => ?_) (fun cx hcx hopen => ?_) (fall_turned hc hout) (fun q hq => ?_)
    horderly (fun hnew => ?_) (fun hconnecting q hq => ?_) hlinked
  · have hne : x ≠ t := fun hx' => by omega
    exact (hup x hne).trans (h.ahead x hx)
  · rw [connections_turned] at hcx
    split at hcx
    · next hx =>
      cases hcx
      exact ⟨hx ▸ hbound, hintroduced⟩
    · exact h.peers x cx hcx
  · by_cases hx : x = t
    · exact hx ▸ hrising
    · rw [rising_turned_of_ne hx (hup x hx)]
      exact fun _ hp => hp
  · rw [connections_turned] at hcx
    split at hcx
    · next ht =>
      cases hcx
      exact ht ▸ haligned ht hopen
    · next ht =>
      have hrise : (w.turned t c' b up mine theirs).rise w.newest = w.rise w.newest := by
        unfold rise World.turned
        dsimp only
        rw [hup _ (Ne.symm ht)]
      rw [hrise]
      exact h.upAligned cx hcx hopen
  · split at hq
    · exact hqs q hq
    · cases hq
  · split
    · next ht =>
      refine hearly ht (Bool.eq_false_iff.2 fun hclient => hnew ?_)
      exact (joined_turned _).2 (.inl ⟨ht.symm, hclient⟩)
    · exact ⟨.nil, fun _ => List.not_mem_nil⟩
  · split at hq
    · next ht => exact hanswers ht hconnecting q hq
    · cases hq

theorem Sound.introduced (h : w.Sound id) (hc : w.hub.connections[t]? = some c) {p : Peer}
    (hclient : p.client = c.peer.client) (hjoined : c.peer.client.isSome = true) : p.Introduced id := by
  have hsome := (h.peers t c hc).2 hjoined
  unfold Peer.Introduced at *
  rw [hclient]
  exact hsome

/-- Something happens on one connection that does not concern the session. -/
theorem Sound.turned_idle (h : w.Sound id) (c' : Connection) (up : Nat → List UInt8) (qs : List Packet)
    (hc : w.hub.connections[t]? = some c)
    (hup : ∀ x, x ≠ t → up x = w.up x)
    (howned : (w.turned t c' w.hub.broker up [] []).hub.Owned) (hclient : c'.peer.client = c.peer.client)
    (hrising : ((w.turned t c' w.hub.broker up [] []).rising t).Sublist (w.rising t))
    (haligned : t = w.newest → c'.peer.isClosed = false →
      c'.decoder.Aligned ((w.turned t c' w.hub.broker up [] []).rise t))
    (hout : c'.peer.outbound.data.toList = c.peer.outbound.data.toList ++ qs.flatMap Packet.encode)
    (hqs : ∀ q ∈ qs, q.Writable ∧ q.Plain ∧ ∀ present, q ≠ .connack present .accepted) :
    (w.turned t c' w.hub.broker up [] []).Sound id := by
  have hquiet : Quiet qs := fun q hq => (hqs q hq).2.1
  have hall (x : Nat) : ((w.turned t c' w.hub.broker up [] []).rising x).Sublist (w.rising x) := by
    by_cases hx : x = t
    · exact hx ▸ hrising
    · have hsame : (w.turned t c' w.hub.broker up [] []).rising x = w.rising x :=
        rising_turned_of_ne hx (hup x hx)
      exact hsame ▸ .refl _
  have hjoined (x : Nat) : (w.turned t c' w.hub.broker up [] []).Joined x ↔ w.Joined x := by
    rw [joined_turned, hclient]
    by_cases hx : x = t
    · simp [hx, Joined, hc]
    · simp [hx]
  refine h.turned qs hc hup howned h.sole (fun hsome => h.introduced hc hclient (hclient ▸ hsome))
    hrising.subset haligned hout (fun q hq => (hqs q hq).1) ?_
    (fun _ _ => ⟨hquiet, fun present hmem => (hqs _ hmem).2.2 present rfl⟩)
    (fun _ _ q hq k => (hquiet q hq k).2) ?_
  · exact h.orderly.less ⟨.inl rfl, rfl, .inl rfl, hjoined, fun x => (hall x).subset, fun _ hp => hp⟩
  · rw [List.append_nil, List.append_nil]
    refine h.linked.within ?_ (.of_sublist ?_)
    · have hquiet' : Quiet (if t = w.newest then qs else []) := by
        split
        · exact hquiet
        · exact .nil
      have hwithin := (Exchange.Within.refl w.falling).append (hquiet'.within [])
      rw [List.append_nil w.falling] at hwithin
      exact hwithin
    · unfold Traffic.climbing
      have howner : ((w.turned t c' w.hub.broker up [] []).traffic id).owner = (w.traffic id).owner := rfl
      rw [howner]
      cases (w.traffic id).owner with
      | none => exact .refl _
      | some x => exact hall x

/-! ### Reading -/

variable {byte : UInt8} {rest : List UInt8} {s : Decoder.State}

theorem setUp_of_ne {x : Nat} (hx : x ≠ t) : w.setUp t rest x = w.up x := if_neg hx

theorem rising_turned : (w.turned t c b up mine theirs).rising t =
    if c.peer.isClosed then [] else c.decoder.coming ((w.turned t c b up mine theirs).rise t) := by
  unfold rising
  rw [connections_turned, if_pos rfl]

/-- A connection is closed, and what its client is told of that does not concern the session. -/
theorem Sound.turned_closed (h : w.Sound id) (c' : Connection) (up : Nat → List UInt8) (qs : List Packet)
    (hc : w.hub.connections[t]? = some c)
    (hup : ∀ x, x ≠ t → up x = w.up x)
    (howned : (w.turned t c' w.hub.broker up [] []).hub.Owned) (hclosed : c'.peer.isClosed = true)
    (hclient : c'.peer.client = c.peer.client)
    (hout : c'.peer.outbound.data.toList = c.peer.outbound.data.toList ++ qs.flatMap Packet.encode)
    (hqs : ∀ q ∈ qs, q.Writable ∧ q.Plain ∧ ∀ present, q ≠ .connack present .accepted) :
    (w.turned t c' w.hub.broker up [] []).Sound id := by
  have hnone : (w.turned t c' w.hub.broker up [] []).rising t = [] := by rw [rising_turned, if_pos hclosed]
  refine h.turned_idle c' up qs hc hup howned hclient (hnone ▸ List.nil_sublist _) (fun _ hopen => ?_) hout hqs
  rw [hclosed] at hopen
  cases hopen

/-- A byte of an open connection is read, and may complete a packet. -/
structure Reads (w : World) (t : Nat) (c : Connection) (byte : UInt8) (rest : List UInt8) (s : Decoder.State)
    (packet : Option Packet) : Prop where
  connection : w.hub.connections[t]? = some c
  isOpen : c.peer.isClosed = false
  up : w.up t = byte :: rest
  step : c.decoder.state.step c.decoder.maxPacketSize byte = (s, .ok packet)

/-- A byte takes its packet off the line. -/
theorem Sound.rise_turned (h : w.Sound id) {packet : Option Packet} (hreads : w.Reads t c byte rest s packet)
    (c' : Connection) (b : Broker) (mine theirs : Log) (hd : c'.decoder = ⟨c.decoder.maxPacketSize, s⟩) :
    w.rising t = packet.toList
        ++ c'.decoder.coming ((w.turned t c' b (w.setUp t rest) mine theirs).rise t) ∧
      (t = w.newest → c'.decoder.Aligned ((w.turned t c' b (w.setUp t rest) mine theirs).rise t)) := by
  have hrise : w.rise t = byte :: (w.turned t c' b (w.setUp t rest) mine theirs).rise t := by
    unfold rise World.turned setUp
    dsimp only
    rw [hreads.up, if_pos rfl]
    rfl
  rw [rising_of_open hreads.connection hreads.isOpen, hrise, hd]
  refine ⟨Decoder.coming_cons hreads.step, fun ht => ?_⟩
  have haligned := h.upAligned c (ht ▸ hreads.connection) hreads.isOpen
  rw [← ht, hrise] at haligned
  exact haligned.tail hreads.step

/-- A byte is read that completes no packet. -/
theorem Sound.turned_more (h : w.Sound id) (hreads : w.Reads t c byte rest s none)
    (howned : (w.turned t ⟨c.peer, ⟨c.decoder.maxPacketSize, s⟩⟩ w.hub.broker (w.setUp t rest) [] []).hub.Owned) :
    (w.turned t ⟨c.peer, ⟨c.decoder.maxPacketSize, s⟩⟩ w.hub.broker (w.setUp t rest) [] []).Sound id := by
  obtain ⟨hcoming, haligned⟩ := h.rise_turned hreads ⟨c.peer, ⟨c.decoder.maxPacketSize, s⟩⟩ w.hub.broker [] [] rfl
  refine h.turned_idle _ (w.setUp t rest) [] hreads.connection (fun x hx => setUp_of_ne hx) howned rfl ?_
    (fun ht _ => haligned ht) (by simp) (List.forall_mem_nil _)
  rw [hcoming, rising_turned, if_neg (by simp [hreads.isOpen])]
  exact .refl _

/-- A connection that was accepted and is not torn down owns the session. -/
theorem Sound.owner (h : w.Sound id) (hc : w.hub.connections[t]? = some c) (hclient : c.peer.client.isSome = true)
    (hup : c.peer.tornDown = false) : w.hub.broker.ownerOf id = some t := by
  obtain ⟨client, hsome, hid, -⟩ := (h.peers t c hc).2 hclient
  have hserves : c.peer.standing.Serves id := ⟨hid ▸ Peer.clientId_of_client hsome, hup⟩
  have hstanding : w.hub.standing? t = some c.peer.standing := by simp [Hub.standing?, hc]
  obtain ⟨clean, hhold⟩ := (h.owned.agreed.owner id t).2 ⟨_, hstanding, hserves⟩
  obtain ⟨session, hs, howner, -⟩ := hold?_eq_some_iff.1 hhold
  rw [ownerOf_eq hs, howner]

/-- The connection after an accepted packet: what is for its client is queued. -/
def answered (r : Peer.Handled) (d : Decoder) : Connection :=
  { peer := { r.peer with
      outbound := (Hub.packetsFor r.peer.token r.output).foldl (fun bytes q => bytes ++ q.toBytes)
        r.peer.outbound }
    decoder := d }

variable {p : Peer} {r : Peer.Handled} {packet : Packet} {now : Nat}

/-- A packet is accepted that keeps the conversation. -/
theorem Sound.turned_accepted (h : w.Sound id) (hreads : w.Reads t c byte rest s (some packet))
    (htoken : p.token = t) (hpeer : p.outbound = c.peer.outbound) (hserves : Peer.Serves id p packet r)
    (howned : (w.turned t (answered r ⟨c.decoder.maxPacketSize, s⟩) r.broker (w.setUp t rest) mine theirs).hub.Owned)
    (hplain : t = w.newest → w.client.link.state = .connecting → packet.Plain)
    (horderly : ∀ rising : Nat → List Packet, (∀ x, rising x ⊆ w.rising x) →
      ({ state := w.client.link.state, newest := w.newest, owner := some t,
         accepted := fun x => x = t ∨ w.Joined x, rising, falling := w.falling } : Traffic).Orderly)
    (hlinked : ∀ incoming, w.rising t = packet :: incoming →
      Linked (r.broker.inflightOf id) w.client.link.inflight incoming
        (w.falling ++ if t = w.newest then r.output.map (·.packet) else []) (w.fromBroker ++ theirs)
        (w.fromClient ++ mine)) :
    (w.turned t (answered r ⟨c.decoder.maxPacketSize, s⟩) r.broker (w.setUp t rest) mine theirs).Sound id := by
  generalize hc' : answered r ⟨c.decoder.maxPacketSize, s⟩ = c' at howned ⊢
  have hpackets : Hub.packetsFor r.peer.token r.output = r.output.map (·.packet) :=
    Hub.packetsFor_of_token fun d hd => (hserves.output d hd).1.trans hserves.token.symm
  have hintroduced : c'.peer.Introduced id := hc' ▸ hserves.introduced
  obtain ⟨hcoming, haligned⟩ := h.rise_turned hreads c' r.broker mine theirs (by rw [← hc']; rfl)
  have hless : ((w.turned t c' r.broker (w.setUp t rest) mine theirs).rising t).Sublist
      (c'.decoder.coming ((w.turned t c' r.broker (w.setUp t rest) mine theirs).rise t)) := by
    rw [rising_turned]
    split
    · exact List.nil_sublist _
    · exact .refl _
  have hrising : (w.turned t c' r.broker (w.setUp t rest) mine theirs).rising t ⊆ w.rising t := by
    rw [hcoming]
    exact fun _ hq => .tail _ (hless.subset hq)
  have howner : ((w.turned t c' r.broker (w.setUp t rest) mine theirs).traffic id).owner = some t :=
    hserves.owner.trans (congrArg some htoken)
  refine h.turned (r.output.map (·.packet)) hreads.connection (fun x hx => setUp_of_ne hx) howned hserves.sole
    (fun _ => hintroduced) hrising (fun ht _ => haligned ht) ?_ (fun q hq => ?_) ?_ (fun _ hnone => ?_)
    (fun ht hconnecting q hq k => ?_) ?_
  · rw [← hc', answered, hpackets, hserves.outbound, hpeer]
    exact toList_foldl_append _ _
  · obtain ⟨d, hd, rfl⟩ := List.mem_map.1 hq
    exact (hserves.output d hd).2
  · refine (horderly (w.turned t c' r.broker (w.setUp t rest) mine theirs).rising fun x => ?_).less
      ⟨.inl rfl, rfl, .inl howner, fun x => ?_, fun _ _ hq => hq, fun _ hq => hq⟩
    · by_cases hx : x = t
      · exact hx ▸ hrising
      · rw [rising_turned_of_ne hx (setUp_of_ne hx)]
        exact fun _ hq => hq
    · obtain ⟨client, hclient, -⟩ := hintroduced
      refine (joined_turned x).trans ?_
      by_cases hx : x = t <;> simp [hx, hclient]
  · obtain ⟨client, hclient, -⟩ := hintroduced
    rw [hclient] at hnone
    cases hnone
  · obtain ⟨d, hd, rfl⟩ := List.mem_map.1 hq
    exact hserves.answers (fun k => (hplain ht hconnecting k).1) d hd k
  · have hclimbing : ((w.turned t c' r.broker (w.setUp t rest) mine theirs).traffic id).climbing
        = (w.turned t c' r.broker (w.setUp t rest) mine theirs).rising t := by
      unfold Traffic.climbing
      rw [howner]
      rfl
    rw [hclimbing]
    exact (hlinked _ hcoming).symm.within (.refl _) (.of_sublist hless)

theorem Sound.mem_rising (h : w.Sound id) (hreads : w.Reads t c byte rest s (some packet)) :
    packet ∈ w.rising t := by
  rw [(h.rise_turned hreads ⟨c.peer, ⟨c.decoder.maxPacketSize, s⟩⟩ w.hub.broker [] [] rfl).1]
  exact .head _

/-- A packet is accepted that such a byte completes. The peer is the one that accepts it. -/
structure Heeds (w : World) (t : Nat) (c : Connection) (byte : UInt8) (rest : List UInt8) (s : Decoder.State)
    (p : Peer) (now : Nat) (packet : Packet) (r : Peer.Handled) : Prop
    extends w.Reads t c byte rest s (some packet) where
  accepts : p.Accepts w.hub.broker now packet r
  topics : packet.TopicsFit
  token : p.token = t
  outbound : p.outbound = c.peer.outbound
  client : p.client = c.peer.client

/-- The world once a packet is accepted, with the marks it left. -/
def heeded (w : World) (t : Nat) (c : Connection) (rest : List UInt8) (s : Decoder.State)
    (packet : Packet) (r : Peer.Handled) : World :=
  w.turned t (answered r ⟨c.decoder.maxPacketSize, s⟩) r.broker (w.setUp t rest) (r.arrivals packet)
    ((c.inflight w.hub.broker).settlements packet ++ Delivery.taken r.output)

/-- A packet is accepted on a connection that was accepted before. -/
theorem Sound.heeded_served (h : w.Sound id) (hheeds : w.Heeds t c byte rest s p now packet r)
    (hjoined : c.peer.client.isSome = true) (howned : (w.heeded t c rest s packet r).hub.Owned) :
    (w.heeded t c rest s packet r).Sound id := by
  have hc := hheeds.connection
  have howner := h.owner hc hjoined ((h.owned.proper t c hc).up hheeds.isOpen)
  have hintroduced := h.introduced hc hheeds.client hjoined
  have hserves := hheeds.accepts.serves h.sole (howner.trans (congrArg some hheeds.token.symm)) hintroduced
    hheeds.topics
  refine h.turned_accepted hheeds.toReads hheeds.token hheeds.outbound hserves howned
    (fun ht hconnecting => ?_) (fun rising hrising => ?_) fun incoming hincoming => ?_
  · have hmem := h.mem_rising hheeds.toReads
    rw [ht] at hmem
    exact (h.orderly.connecting hconnecting).1 packet hmem
  · refine h.orderly.less ⟨.inl rfl, rfl, .inl howner.symm, fun x => ?_, hrising, fun _ hq => hq⟩
    constructor
    · rintro (rfl | hx)
      · exact ⟨c, hc, hjoined⟩
      · exact hx
    · exact .inr
  · have hclimbing : (w.traffic id).climbing = packet :: incoming := by
      unfold Traffic.climbing
      rw [show (w.traffic id).owner = some t from howner]
      exact hincoming
    have hlinked := hheeds.accepts.linked h.sole hintroduced hheeds.topics (hclimbing ▸ h.linked.symm)
    obtain ⟨client, hclient, hid, -⟩ := hintroduced
    have hinflight : c.inflight w.hub.broker = w.hub.broker.inflightOf id := by
      rw [Connection.inflight, Peer.clientId_of_client (hheeds.client.symm.trans hclient), ← hid]
    have harrivals : r.arrivals packet = (w.hub.broker.inflightOf id).arrivals packet := by
      rw [hheeds.accepts.arrivals hclient, hid]
    rw [← harrivals, ← hinflight, List.append_assoc] at hlinked
    refine hlinked.within (.refl _) ((Exchange.Within.refl _).append ?_)
    split
    · exact .refl _
    · exact Quiet.nil.within _

/-- A CONNECT is accepted. -/
theorem Sound.heeded_welcomed (h : w.Sound id) (hheeds : w.Heeds t c byte rest s p now packet r)
    (hnew : c.peer.client = none) (howned : (w.heeded t c rest s packet r).hub.Owned) :
    (w.heeded t c rest s packet r).Sound id := by
  have hclient : p.client = none := hheeds.client.trans hnew
  have hc := hheeds.connection
  have hnot : ¬w.Joined t := by
    rintro ⟨c', hc', hjoined⟩
    rw [hc] at hc'
    cases hc'
    rw [hnew] at hjoined
    cases hjoined
  have hgreets := h.greets t packet (h.mem_rising hheeds.toReads)
  obtain ⟨connect, rfl⟩ := hheeds.accepts.connect hclient
  obtain ⟨b₁, ds, hwelcomed⟩ := hheeds.accepts.welcomed hclient h.sole hgreets hheeds.topics
  have hquiet := h.orderly.silent t hnot
  refine h.turned_accepted hheeds.toReads hheeds.token hheeds.outbound (hwelcomed.serves h.sole) howned
    (fun _ _ _ => ⟨rfl, rfl⟩) (fun rising hrising => ?_) fun incoming hincoming => ?_
  · have hless : ({ w.traffic id with rising } : Traffic).Orderly :=
      h.orderly.less ⟨.inl rfl, rfl, .inl rfl, fun _ => .rfl, hrising, fun _ hq => hq⟩
    exact hless.accepts (h.peers t c hc).1 hnot
  · have hclimbing : (w.traffic id).climbing = [] := by
      unfold Traffic.climbing
      rw [show (w.traffic id).owner = none from hwelcomed.free]
    have hlinked := h.linked.symm
    rw [hclimbing] at hlinked
    have hincomingQuiet : Quiet incoming := by
      dsimp only [traffic] at hquiet
      rw [hincoming] at hquiet
      exact fun q hq => hquiet q (.tail _ hq)
    have harrivals : r.arrivals (.connect connect) = [] := rfl
    have hsettlements : (c.inflight w.hub.broker).settlements (.connect connect) = [] := rfl
    rw [harrivals, hsettlements, List.append_nil, List.nil_append]
    by_cases ht : t = w.newest
    · subst ht
      have hmay := h.orderly.broker_may_resend hnot
      rw [if_pos rfl]
      exact (hwelcomed.linked h.sole (fun k => (hmay k).1) (fun _ => rfl) hlinked).within
        (hincomingQuiet.within []) (.refl _)
    · rw [if_neg ht, List.append_nil]
      exact (hwelcomed.linked_of_lost h.sole hlinked).within (hincomingQuiet.within []) (.refl _)

/-- Whatever is accepted, the replies are for the connection that brought it. -/
theorem Sound.token_of_output (h : w.Sound id) (hheeds : w.Heeds t c byte rest s p now packet r) :
    ∀ d ∈ r.output, d.token = r.peer.token := by
  have hc := hheeds.connection
  have hserves : Peer.Serves id p packet r := by
    cases hjoined : c.peer.client.isSome with
    | true =>
      have howner := h.owner hc hjoined ((h.owned.proper t c hc).up hheeds.isOpen)
      exact hheeds.accepts.serves h.sole (howner.trans (congrArg some hheeds.token.symm))
        (h.introduced hc hheeds.client hjoined) hheeds.topics
    | false =>
      have hnew : p.client = none := hheeds.client.trans (Option.not_isSome_iff_eq_none.1 (by simp [hjoined]))
      obtain ⟨b₁, ds, hwelcomed⟩ := hheeds.accepts.welcomed hnew h.sole
        (h.greets t packet (h.mem_rising hheeds.toReads)) hheeds.topics
      exact hwelcomed.serves h.sole
  exact fun d hd => (hserves.output d hd).1.trans hserves.token.symm

/-! ### What one byte comes to -/

theorem receive_byte (hc : w.hub.connections[t]? = some c) (now : Nat) (byte : UInt8) :
    w.hub.receive t now [byte] =
      let r := Connection.receive now c.decoder.maxPacketSize c.decoder.state c.peer w.hub.broker #[] [byte]
      (({ w.hub with broker := r.broker } : Hub).setConnection t r.connection).dispatch r.deliveries.toList := by
  unfold Hub.receive
  rw [hc]
  rfl

/-- A connection that is closed loses the byte. -/
theorem brokerReadsByte_of_closed (hup : w.up t = byte :: rest) (hc : w.hub.connections[t]? = some c)
    (hclosed : c.peer.isClosed = true) :
    w.brokerReadsByte t now = w.turned t c w.hub.broker (w.setUp t rest) [] [] := by
  obtain ⟨hmine, htheirs⟩ : c.arrivals w.hub.broker now byte = [] ∧ c.settlements w.hub.broker now byte = [] :=
    Connection.marks_of_nothing (.inl hclosed)
  rw [brokerReadsByte_eq hup hc, hmine, htheirs, receive_byte hc, Connection.receive, if_pos hclosed]
  rfl

/-- The byte makes the stream unreadable, and the connection closes. -/
theorem brokerReadsByte_of_malformed {e : ProtocolError} (hup : w.up t = byte :: rest)
    (hc : w.hub.connections[t]? = some c) (hopen : c.peer.isClosed = false)
    (hstep : c.decoder.state.step c.decoder.maxPacketSize byte = (s, .error e)) :
    w.brokerReadsByte t now =
      w.turned t ⟨{ c.peer with isClosed := true }, ⟨c.decoder.maxPacketSize, s⟩⟩ w.hub.broker (w.setUp t rest)
        [] [] := by
  obtain ⟨hmine, htheirs⟩ : c.arrivals w.hub.broker now byte = [] ∧ c.settlements w.hub.broker now byte = [] :=
    Connection.marks_of_nothing (.inr (by rw [Decoder.completes, hstep]))
  rw [brokerReadsByte_eq hup hc, hmine, htheirs, receive_byte hc, Connection.receive, if_neg (by simp [hopen]),
    hstep]
  rfl

/-- More bytes are needed. -/
theorem Reads.brokerReadsByte_of_more (h : w.Reads t c byte rest s none) (now : Nat) :
    w.brokerReadsByte t now =
      w.turned t ⟨c.peer, ⟨c.decoder.maxPacketSize, s⟩⟩ w.hub.broker (w.setUp t rest) [] [] := by
  obtain ⟨hmine, htheirs⟩ : c.arrivals w.hub.broker now byte = [] ∧ c.settlements w.hub.broker now byte = [] :=
    Connection.marks_of_nothing (.inr (by rw [Decoder.completes, h.step]))
  rw [brokerReadsByte_eq h.up h.connection, hmine, htheirs, receive_byte h.connection, Connection.receive,
    if_neg (by simp [h.isOpen]), h.step]
  rfl

/-- The packet is refused: the connection closes with what its client is told, and nothing else changes. -/
theorem Reads.brokerReadsByte_of_refused {refusal : Peer.Refusal} (h : w.Reads t c byte rest s (some packet))
    (hr : Peer.handle { c.peer with keepAlive := c.peer.keepAlive.restart now } w.hub.broker now packet =
      .error refusal) :
    w.brokerReadsByte t now =
      w.turned t ⟨Peer.closeOn { c.peer with keepAlive := c.peer.keepAlive.restart now } refusal,
        ⟨c.decoder.maxPacketSize, s⟩⟩ w.hub.broker (w.setUp t rest) [] [] := by
  obtain ⟨hbroker, -, hpeer⟩ := Peer.handled_of_refused hr
  obtain ⟨hpeer, hothers⟩ := hpeer #[]
  obtain ⟨hmine, htheirs⟩ := Connection.marks_of_refused h.isOpen (by rw [Decoder.completes, h.step]) hr
  rw [brokerReadsByte_eq h.up h.connection, hmine, htheirs, receive_byte h.connection, Connection.receive,
    if_neg (by simp [h.isOpen]), h.step]
  dsimp only
  rw [hr]
  dsimp only
  rw [hpeer, hothers, hbroker]
  rfl

/-- The packet is accepted. -/
theorem Reads.brokerReadsByte_of_accepted (h : w.Reads t c byte rest s (some packet))
    (hr : Peer.handle { c.peer with keepAlive := c.peer.keepAlive.restart now } w.hub.broker now packet = .ok r)
    (htokens : ∀ d ∈ r.output, d.token = r.peer.token) :
    w.brokerReadsByte t now = w.heeded t c rest s packet r := by
  have hnone : r.output.filter (fun d => !decide (d.token = r.peer.token)) = [] :=
    List.filter_eq_nil_iff.2 fun d hd => by simp [htokens d hd]
  obtain ⟨hmine, htheirs⟩ := Connection.marks_of_accepted h.isOpen (by rw [Decoder.completes, h.step]) hr
  rw [brokerReadsByte_eq h.up h.connection, hmine, htheirs, receive_byte h.connection, Connection.receive,
    if_neg (by simp [h.isOpen]), h.step]
  dsimp only
  rw [hr]
  dsimp only
  rw [Peer.distribute_eq, hnone]
  rfl

/-- What a client is told of a packet that is refused does not concern the session. -/
theorem refused_plain {p : Peer} {b : Broker} {refusal : Peer.Refusal} (hr : p.Rejects b refusal) :
    ∀ q ∈ refusal.reply.toList, q.Writable ∧ q.Plain ∧ ∀ present, q ≠ .connack present .accepted := by
  intro q hq
  cases hr with
  | silently => cases hq
  | turnedDown _ hcode =>
    cases List.mem_singleton.1 hq
    refine ⟨trivial, fun _ => ⟨rfl, rfl⟩, fun present hsame => ?_⟩
    cases hsame
    exact hcode rfl

/-- A packet keeps the world sound, whether it is accepted or refused. -/
theorem Sound.reads_packet (h : w.Sound id) (hreads : w.Reads t c byte rest s (some packet)) (hfit : packet.TopicsFit)
    (howned : (w.brokerReadsByte t now).hub.Owned) : (w.brokerReadsByte t now).Sound id := by
  rcases hhandle : Peer.handle { c.peer with keepAlive := c.peer.keepAlive.restart now } w.hub.broker now
    packet with refusal | r
  · rw [hreads.brokerReadsByte_of_refused hhandle] at howned ⊢
    exact h.turned_closed _ _ refusal.reply.toList hreads.connection (fun x hx => setUp_of_ne hx) howned
      (Peer.closeOn_isClosed _ refusal) (Peer.client_closeOn _ refusal) (Peer.toList_closeOn _ refusal)
      (refused_plain (Peer.handle_rejects hhandle))
  · obtain ⟨-, haccepts⟩ := Peer.handle_ok hhandle
    obtain ⟨htoken, -⟩ := h.owned.settled hreads.connection
    have hheeds : w.Heeds t c byte rest s { c.peer with keepAlive := c.peer.keepAlive.restart now } now packet r :=
      ⟨hreads, haccepts, hfit, htoken, rfl, rfl⟩
    rw [hreads.brokerReadsByte_of_accepted hhandle (h.token_of_output hheeds)] at howned ⊢
    cases hclient : c.peer.client with
    | none => exact h.heeded_welcomed hheeds hclient howned
    | some client => exact h.heeded_served hheeds (by rw [hclient]; rfl) howned

theorem Sound.brokerReadsByte (h : w.Sound id) (t now : Nat) : (w.brokerReadsByte t now).Sound id := by
  rcases hup : w.up t with _ | ⟨byte, rest⟩
  · rw [brokerReadsByte_idle (.inl hup)]
    exact h
  rcases hc : w.hub.connections[t]? with _ | c
  · rw [brokerReadsByte_idle (.inr hc)]
    exact h
  have howned : (w.brokerReadsByte t now).hub.Owned := by
    rw [brokerReadsByte_eq hup hc]
    exact h.owned.receive t now [byte]
  by_cases hclosed : c.peer.isClosed = true
  · rw [brokerReadsByte_of_closed hup hc hclosed] at howned ⊢
    exact h.turned_closed c (w.setUp t rest) [] hc (fun x hx => setUp_of_ne hx) howned hclosed rfl (by simp)
      (List.forall_mem_nil _)
  have hopen : c.peer.isClosed = false := by simpa using hclosed
  rcases hstep : c.decoder.state.step c.decoder.maxPacketSize byte with ⟨s, e | _ | packet⟩
  · rw [brokerReadsByte_of_malformed hup hc hopen hstep] at howned ⊢
    exact h.turned_closed ⟨{ c.peer with isClosed := true }, ⟨c.decoder.maxPacketSize, s⟩⟩ (w.setUp t rest) [] hc
      (fun x hx => setUp_of_ne hx) howned rfl rfl (by simp) (List.forall_mem_nil _)
  · have hreads : w.Reads t c byte rest s none := ⟨hc, hopen, hup, hstep⟩
    rw [hreads.brokerReadsByte_of_more] at howned ⊢
    exact h.turned_more hreads howned
  · have hsound : (c.decoder.state.step c.decoder.maxPacketSize byte).2.Sound :=
      (Decoder.State.step_sound (h.owned.proper t c hc).sound byte).2
    rw [hstep] at hsound
    exact h.reads_packet ⟨hc, hopen, hup, hstep⟩ hsound howned

theorem Sound.brokerReads (h : w.Sound id) (t now count : Nat) : (w.brokerReads t now count).Sound id := by
  induction count generalizing w with
  | zero => exact h
  | succ count ih => exact ih (h.brokerReadsByte t now)

/-! ### Ending a connection -/

/-- The owner of the session is gone, and nothing it sent is read any more. -/
theorem Sound.turned_released (h : w.Sound id) (hc : w.hub.connections[t]? = some c)
    (hclosed : c'.peer.isClosed = true) (hjoined : c.peer.client.isSome = true)
    (hintroduced : c'.peer.Introduced id) (hout : c'.peer.outbound = c.peer.outbound) (hsole : b.Sole id)
    (hfree : b.ownerOf id = none) (howned : (w.turned t c' b w.up [] []).hub.Owned)
    (hlinked : Linked w.client.link.inflight (b.inflightOf id) w.falling (w.traffic id).climbing w.fromClient
      w.fromBroker) : (w.turned t c' b w.up [] []).Sound id := by
  have hsome : c'.peer.client.isSome = true := by
    obtain ⟨client, hclient, -⟩ := hintroduced
    rw [hclient]
    rfl
  have hnone : (w.turned t c' b w.up [] []).rising t = [] := by
    rw [rising_turned, if_pos hclosed]
  have hrising (x : Nat) : (w.turned t c' b w.up [] []).rising x ⊆ w.rising x := by
    by_cases hx : x = t
    · rw [hx, hnone]
      exact List.nil_subset _
    · rw [rising_turned_of_ne hx rfl]
      exact fun _ hp => hp
  refine h.turned [] hc (fun _ _ => rfl) howned hsole (fun _ => hintroduced) (hrising t) (fun _ hopen => ?_) ?_
    (List.forall_mem_nil _) ?_ (fun _ hnew => ?_) (fun _ _ => List.forall_mem_nil _) ?_
  · rw [hclosed] at hopen
    cases hopen
  · rw [hout, List.flatMap_nil, List.append_nil]
  · have hsame (x : Nat) : (w.turned t c' b w.up [] []).Joined x ↔ w.Joined x := by
      rw [joined_turned]
      by_cases hx : x = t
      · simp [hx, hsome, Joined, hc, hjoined]
      · simp [hx]
    exact h.orderly.less ⟨.inl rfl, rfl, .inr hfree, hsame, hrising, fun _ hp => hp⟩
  · rw [hsome] at hnew
    cases hnew
  · have hclimbing : ((w.turned t c' b w.up [] []).traffic id).climbing = [] := by
      unfold Traffic.climbing
      rw [show ((w.turned t c' b w.up [] []).traffic id).owner = none from hfree]
    rw [hclimbing, ite_self, List.append_nil, List.append_nil, List.append_nil]
    exact hlinked.within (.refl _) (Quiet.nil.within _)

/-- The end of a connection that had nothing to say to anybody. -/
theorem teardown_eq {reason : CloseReason} (hc : w.hub.connections[t]? = some c)
    (h : c.teardown w.hub.broker reason = (c', b, [])) : w.teardown t reason = w.turned t c' b w.up [] [] := by
  unfold World.teardown Hub.teardown turned
  rw [hc]
  dsimp only
  rw [h, List.append_nil, List.append_nil]
  exact congrArg (World.mk w.client _ w.newest w.up w.down w.fromClient) (List.append_nil _)

/-- The end of a connection that was accepted releases the session, and then its will is published. -/
theorem teardown_feeds {client : AcceptedClient} (hclient : c.peer.client = some client)
    (hup : c.peer.tornDown = false) (hwill : ∀ m, client.will = some m → m.Fits)
    (hothers : ∀ other, other ≠ id → (b.releaseSession client.id c.peer.token).session? other = none)
    (reason : CloseReason) :
    ∃ ds b', Feeds id (b.releaseSession client.id c.peer.token) ds b' ∧
      c.teardown b reason = (c.ended, b', ds) := by
  rw [Connection.teardown_eq, if_neg (by simp [hup]), hclient]
  dsimp only
  cases hw : client.will with
  | none => exact ⟨[], _, .refl _, rfl⟩
  | some m =>
    dsimp only
    split
    · exact ⟨_, _, publish_feeds hothers (some client.id) (hwill m hw), rfl⟩
    · exact ⟨[], _, .refl _, rfl⟩

/-- A connection that was torn down is torn down again. -/
theorem Sound.teardown_again (h : w.Sound id) (hc : w.hub.connections[t]? = some c)
    (htorn : c.peer.tornDown = true) {reason : CloseReason} (howned : (w.teardown t reason).hub.Owned) :
    (w.teardown t reason).Sound id := by
  have hnothing : c.teardown w.hub.broker reason = (c, w.hub.broker, []) := by
    rw [Connection.teardown_eq, if_pos htorn]
  rw [teardown_eq hc hnothing] at howned ⊢
  have hsame : (w.turned t c w.hub.broker w.up [] []).rising t = w.rising t := by
    refine rising_congr ?_ rfl
    rw [connections_turned, if_pos rfl, hc]
  refine h.turned_idle c w.up [] hc (fun _ _ => rfl) howned rfl (hsame ▸ .refl _) (fun ht hopen => ?_) (by simp)
    (List.forall_mem_nil _)
  rw [ht]
  exact h.upAligned c (ht ▸ hc) hopen

/-- A connection ends that had not been accepted. -/
theorem Sound.teardown_new (h : w.Sound id) (hc : w.hub.connections[t]? = some c) (hup : c.peer.tornDown = false)
    (hclient : c.peer.client = none) {reason : CloseReason} (howned : (w.teardown t reason).hub.Owned) :
    (w.teardown t reason).Sound id := by
  have hclosed : c.teardown w.hub.broker reason = (c.ended, w.hub.broker, []) := by
    rw [Connection.teardown_eq, if_neg (by simp [hup]), hclient]
  have hsame : c.ended.peer.client = c.peer.client := by rw [Connection.client_ended, hclient, Option.map_none]
  rw [teardown_eq hc hclosed] at howned ⊢
  exact h.turned_closed _ w.up [] hc (fun _ _ => rfl) howned rfl hsame (by simp [Connection.ended])
    (List.forall_mem_nil _)

/-- The owner of the session ends. Whatever its will is, there is nobody to hear it. -/
theorem Sound.teardown_owner {client : AcceptedClient} (h : w.Sound id) (hc : w.hub.connections[t]? = some c)
    (hup : c.peer.tornDown = false) (hclient : c.peer.client = some client) {reason : CloseReason}
    (howned : (w.teardown t reason).hub.Owned) : (w.teardown t reason).Sound id := by
  obtain ⟨htoken, -⟩ := h.owned.settled hc
  have hjoined : c.peer.client.isSome = true := by rw [hclient]; rfl
  obtain ⟨client', hclient', rfl, hwill⟩ := (h.peers t c hc).2 hjoined
  rw [hclient] at hclient'
  cases hclient'
  obtain ⟨hsole, hfree, hinflight⟩ := h.sole.released (h.owner hc hjoined hup)
  rw [← htoken] at hsole hfree hinflight
  obtain ⟨ds, b, hfeeds, hreleased⟩ := teardown_feeds hclient hup hwill hsole.others reason
  have hnone : ds = [] := List.eq_nil_iff_forall_not_mem.2 fun d hd => by
    have howner := (hfeeds.mem hd).1
    rw [hfree] at howner
    cases howner
  subst hnone
  rw [teardown_eq hc hreleased] at howned ⊢
  have hlinked := h.linked.symm
  rw [← hinflight] at hlinked
  have hended : c.ended.peer.client = some { client with will := none } := by
    rw [Connection.client_ended, hclient, Option.map_some]
  refine h.turned_released hc rfl hjoined ⟨_, hended, rfl, fun m hm => by cases hm⟩ rfl (hfeeds.sole hsole)
    (hfeeds.ownerOf.trans hfree) howned ?_
  simpa [Delivery.taken] using (hfeeds.linked hlinked).symm

theorem Sound.teardown (h : w.Sound id) (t : Nat) (reason : CloseReason) : (w.teardown t reason).Sound id := by
  have howned : (w.teardown t reason).hub.Owned := h.owned.teardown t reason
  cases hc : w.hub.connections[t]? with
  | none =>
    unfold World.teardown Hub.teardown
    rw [hc]
    dsimp only
    rw [List.append_nil]
    exact h
  | some c =>
    by_cases htorn : c.peer.tornDown = true
    · exact h.teardown_again hc htorn howned
    have hup : c.peer.tornDown = false := by simpa using htorn
    cases hclient : c.peer.client with
    | none => exact h.teardown_new hc hup hclient howned
    | some client => exact h.teardown_owner hc hup hclient howned

end Mqtt.World
