import Mqtt.Proofs.Soundness

/-!
# What the client does: `ClientProtocol`

Every action of the client keeps the world sound: its calls, the bytes it writes and reads, and its
connections.
-/

namespace Mqtt.World

open Client (Link)

variable {id : String} {w : World}

/-! ### Calls -/

/-- A client that has read nothing goes on with what is on its way, or gives it up. -/
theorem Sound.falling_of_link (h : w.Sound id) (w' : World) (hfall : w'.fall = w.fall)
    (hdecoder : w'.client.decoder = w.client.decoder)
    (hstate : w'.client.link.state = w.client.link.state ∨ w'.client.link.state = .disconnected) :
    (w'.falling = w.falling ∨ w'.falling = []) ∧
      (w'.client.link.state ≠ .disconnected → w'.client.decoder.Aligned w'.fall) := by
  unfold falling
  rw [hfall, hdecoder]
  rcases hstate with hsame | hgone
  · rw [hsame]
    exact ⟨.inl rfl, h.downAligned⟩
  · rw [if_pos hgone]
    exact ⟨.inr rfl, fun hne => absurd hgone hne⟩

theorem Sound.calls (h : w.Sound id) {l : Link} {qs : List Packet} {mark : Log}
    (hcalls : w.client.link.Calls qs mark l) :
    ({ w with client := { w.client with link := l }, fromClient := w.fromClient ++ mark } : World).Sound
      id := by
  have hstate : l.state = w.client.link.state ∨ l.state = .disconnected := by
    cases hcalls with
    | idle hstate | asks hstate => exact hstate
    | keeps hconnected hconnected' => exact .inl (hconnected'.trans hconnected.symm)
  obtain ⟨hfalling, haligned⟩ := h.falling_of_link
    { w with client := { w.client with link := l }, fromClient := w.fromClient ++ mark } rfl rfl hstate
  refine h.speaks ⟨rfl, rfl, rfl, hcalls.outbound⟩ (hcalls.speaks id) ?_ ?_ haligned (hcalls.fits h.fits) ?_
  · cases hcalls with
    | idle => exact .inr ⟨hstate, .nil⟩
    | asks _ _ _ hplain =>
      refine .inr ⟨hstate, fun q hq => ?_⟩
      cases List.mem_singleton.1 hq
      exact hplain
    | keeps hconnected hconnected' => exact .inl ⟨hconnected', h.orderly.connected hconnected⟩
  · rcases hfalling with hsame | hnone
    · rw [hsame]
      exact fun _ hp => hp
    · rw [hnone]
      exact List.nil_subset _
  · have hlinked := hcalls.linked h.linked
    rcases hfalling with hsame | hnone
    · rw [hsame]
      exact hlinked
    · rw [hnone]
      exact hlinked.within (Quiet.nil.within _) (.refl _)

/-- A call that keeps no message leaves no mark. -/
theorem Sound.calls_nil (h : w.Sound id) {l : Link} {qs : List Packet} (hcalls : w.client.link.Calls qs [] l) :
    ({ w with client := { w.client with link := l } } : World).Sound id := by
  have hcalled := h.calls hcalls
  rw [List.append_nil] at hcalled
  exact hcalled

theorem Sound.publish (h : w.Sound id) {m : Message} (hm : m.Fits) : (w.publish m).Sound id := by
  obtain ⟨qs, hcalls⟩ := w.client.link.publish_calls hm
  exact h.calls hcalls

theorem Sound.subscribe (h : w.Sound id) (topics : List TopicRequest) :
    ({ w with client := (w.client.subscribe topics).2 } : World).Sound id := by
  obtain ⟨qs, hcalls⟩ := w.client.link.subscribe_calls topics
  exact h.calls_nil hcalls

theorem Sound.unsubscribe (h : w.Sound id) (filters : List String) :
    ({ w with client := (w.client.unsubscribe filters).2 } : World).Sound id := by
  obtain ⟨qs, hcalls⟩ := w.client.link.unsubscribe_calls filters
  exact h.calls_nil hcalls

theorem Sound.pollTimers (h : w.Sound id) (now : Nat) :
    ({ w with client := (w.client.pollTimers now).2 } : World).Sound id := by
  obtain ⟨qs, hcalls⟩ := w.client.link.pollTimers_calls now
  exact h.calls_nil hcalls

theorem Sound.disconnect (h : w.Sound id) : ({ w with client := w.client.disconnect } : World).Sound id := by
  obtain ⟨qs, hcalls⟩ := w.client.link.disconnect_calls
  exact h.calls_nil hcalls

theorem Sound.connectionLost (h : w.Sound id) (reason : String) :
    ({ w with client := w.client.connectionLost reason } : World).Sound id :=
  h.calls_nil (w.client.link.connectionLost_calls reason)

theorem Sound.nextEvent (h : w.Sound id) : ({ w with client := w.client.nextEvent.2 } : World).Sound id := by
  unfold Client.Protocol.nextEvent
  split
  · exact h
  · exact h.calls_nil (.idle (.inl rfl) rfl rfl)

/-! ### Writing -/

/-- Bytes that are written are on their way as before. -/
theorem rise_clientWrites (w : World) (count : Nat) (t : Nat) : (w.clientWrites count).rise t = w.rise t := by
  unfold rise clientWrites setUp Client.Protocol.consume
  dsimp only
  by_cases ht : t = w.newest
  · rw [if_pos ht, if_pos ht, if_pos ht, toList_extract, List.append_assoc, List.take_append_drop, ht]
  · rw [if_neg ht, if_neg ht, if_neg ht]

theorem Sound.clientWrites (h : w.Sound id) (count : Nat) : (w.clientWrites count).Sound id := by
  refine h.moves rfl rfl rfl rfl (fun t ht => ?_) h.owned rfl (fun _ => rfl) (w.rise_clientWrites count) rfl rfl rfl
  have hne : t ≠ w.newest := Nat.ne_of_gt ht
  simp [World.clientWrites, setUp, hne, h.ahead t ht]

/-! ### Reading -/

/-- The client has read a byte: the client after it, and the marks it left. -/
def heard (w : World) (client : Client.Protocol) (down : List UInt8) (mine theirs : Log) : World :=
  { w with client, down, fromClient := w.fromClient ++ mine, fromBroker := w.fromBroker ++ theirs }

variable {client : Client.Protocol} {l : Link} {down : List UInt8} {b : UInt8} {s : Decoder.State}
  {mine theirs : Log}

theorem falling_heard (hstate : client.link.state ≠ .disconnected) :
    (w.heard client down mine theirs).falling
      = client.decoder.coming (w.heard client down mine theirs).fall := if_neg hstate

/-- A byte takes its packet off the line. -/
theorem Sound.fall_heard (h : w.Sound id) (client : Client.Protocol) (mine theirs : Log)
    (hopen : w.client.link.state ≠ .disconnected)
    (hdown : w.down = b :: down) {packet : Option Packet}
    (hstep : w.client.decoder.state.step w.client.decoder.maxPacketSize b = (s, .ok packet))
    (hd : client.decoder = ⟨w.client.decoder.maxPacketSize, s⟩) :
    w.falling = packet.toList ++ client.decoder.coming (w.heard client down mine theirs).fall ∧
      client.decoder.Aligned (w.heard client down mine theirs).fall := by
  have hfall : w.fall = b :: (w.heard client down mine theirs).fall := by
    unfold fall
    rw [hdown]
    rfl
  have haligned := h.downAligned hopen
  rw [hfall] at haligned
  rw [hd, falling, if_neg hopen, hfall]
  exact ⟨Decoder.coming_cons hstep, haligned.tail hstep⟩

/-- A client that listens no longer misses nothing. -/
theorem Sound.heard_nothing (h : w.Sound id) (hlink : client.link.inflight = w.client.link.inflight)
    (hout : client.link.outbound = w.client.link.outbound) (hstate : client.link.state = .disconnected) :
    (w.heard client down [] []).Sound id := by
  have hfalling : (w.heard client down [] []).falling = [] := if_pos hstate
  have hsaid : w.Speaks [] (w.heard client down [] []) := by
    refine ⟨rfl, rfl, rfl, ?_⟩
    rw [List.flatMap_nil, List.append_nil]
    exact congrArg (·.data.toList) hout
  refine h.speaks hsaid (List.forall_mem_nil _) (.inr ⟨.inr hstate, .nil⟩) ?_ (fun hne => absurd hstate hne) ?_ ?_
  · rw [hfalling]
    exact List.nil_subset _
  · intro k m hm
    exact h.fits k m (hlink ▸ hm)
  · have hlinked := h.linked.within (Quiet.nil.within _) (.refl _)
    rw [hfalling]
    simp only [heard, hlink, List.append_nil]
    exact hlinked

/-- A byte in the middle of a packet. -/
theorem Sound.heard_part (h : w.Sound id) (hopen : w.client.link.state ≠ .disconnected)
    (hdown : w.down = b :: down)
    (hstep : w.client.decoder.state.step w.client.decoder.maxPacketSize b = (s, .ok none)) :
    (w.heard ⟨w.client.link, ⟨w.client.decoder.maxPacketSize, s⟩⟩ down [] []).Sound id := by
  generalize hclient : (⟨w.client.link, ⟨w.client.decoder.maxPacketSize, s⟩⟩ : Client.Protocol) = client
  have hlink : client.link = w.client.link := by rw [← hclient]
  obtain ⟨hcoming, haligned⟩ :=
    h.fall_heard client [] [] hopen hdown hstep (by rw [← hclient])
  have hfalling : (w.heard client down [] []).falling = w.falling := by
    rw [falling_heard (hlink ▸ hopen), hcoming]
    rfl
  have hsaid : w.Speaks [] (w.heard client down [] []) := ⟨rfl, rfl, rfl, by simp [heard, hlink]⟩
  refine h.speaks hsaid (List.forall_mem_nil _) (.inr ⟨.inl ?_, .nil⟩) ?_ (fun _ => haligned) ?_ ?_
  · exact congrArg Link.state hlink
  · rw [hfalling]
    exact fun _ hp => hp
  · exact hlink ▸ h.fits
  · rw [hfalling]
    simp only [heard, hlink, List.append_nil]
    exact h.linked

/-- A client that is connected hears a packet, and what it says to that keeps the conversation. -/
theorem Sound.heard_spoken (h : w.Sound id) (hopen : w.client.link.state ≠ .disconnected)
    (hdown : w.down = b :: down) {packet : Packet}
    (hstep : w.client.decoder.state.step w.client.decoder.maxPacketSize b = (s, .ok (some packet)))
    {qs : List Packet} {mine theirs : Log}
    (hout : l.outbound.data.toList = w.client.link.outbound.data.toList ++ qs.flatMap Packet.encode)
    (hqs : ∀ q ∈ qs, Link.Speaks id q) (hconnected : l.state = .connected) (hjoined : w.Joined w.newest)
    (hfits : l.Fits) (hlinked : ∀ incoming, w.falling = packet :: incoming →
      Linked l.inflight (w.hub.broker.inflightOf id) incoming ((w.traffic id).climbing ++ qs)
        (w.fromClient ++ mine) (w.fromBroker ++ theirs)) :
    (w.heard ⟨l, ⟨w.client.decoder.maxPacketSize, s⟩⟩ down mine theirs).Sound id := by
  generalize hclient : (⟨l, ⟨w.client.decoder.maxPacketSize, s⟩⟩ : Client.Protocol) = client
  have hlink : client.link = l := by rw [← hclient]
  subst hlink
  obtain ⟨hcoming, haligned⟩ := h.fall_heard client mine theirs hopen hdown
    hstep (by rw [← hclient])
  rw [← falling_heard (by rw [hconnected]; decide)] at hcoming
  refine h.speaks ⟨rfl, rfl, rfl, hout⟩ hqs (.inl ⟨hconnected, hjoined⟩) ?_ (fun _ => haligned) hfits
    (hlinked _ hcoming)
  rw [hcoming]
  exact List.subset_cons_self packet _

/-- What the client says and reports when it hears a packet. -/
theorem Sound.heard_packet (h : w.Sound id) (hopen : w.client.link.state ≠ .disconnected)
    (hdown : w.down = b :: down) {packet : Packet}
    (hstep : w.client.decoder.state.step w.client.decoder.maxPacketSize b = (s, .ok (some packet)))
    {keepAlive : KeepAlive} {now : Nat}
    (hhandle : ({ w.client.link with keepAlive } : Link).handle now packet = .ok l) :
    ∃ events, l.events = w.client.link.events ++ events ∧
      (w.heard ⟨l, ⟨w.client.decoder.maxPacketSize, s⟩⟩ down (events.filterMap Client.Event.settlement?)
        (events.filterMap (Client.Event.arrival? packet))).Sound id := by
  rcases Link.handle_ok hhandle with ⟨hconnecting, present, rfl, rfl⟩ | ⟨hstate, qs, events, inflight, hhears, rfl⟩
  · have hmem : Packet.connack present .accepted ∈ w.falling := by
      rw [(h.fall_heard ⟨w.client.link, ⟨w.client.decoder.maxPacketSize, s⟩⟩ [] [] hopen hdown hstep rfl).1]
      exact .head _
    have hjoined : w.Joined w.newest := Classical.not_not.1 fun hnew => (h.orderly.early hnew).2 present hmem
    refine ⟨[.connected present], rfl, h.heard_spoken hopen hdown hstep (toList_foldl_append _ _) (h.fits.resend id) rfl
      hjoined h.fits fun incoming hincoming => ?_⟩
    have hmay := h.orderly.client_may_resend hconnecting hjoined
    have hfalling (k : UInt16) : incoming.filter (·.answers k) = [] := by
      have hnone := (hmay k).2
      dsimp only [traffic] at hnone
      rw [hincoming] at hnone
      exact hnone
    have hresent := (hincoming ▸ h.linked).dropped.resend (fun k => (hmay k).1) hfalling
    have hmine : [Client.Event.connected present].filterMap Client.Event.settlement? = [] := rfl
    have htheirs : [Client.Event.connected present].filterMap
        (Client.Event.arrival? (.connack present .accepted)) = [] := rfl
    rw [hmine, htheirs, List.append_nil, List.append_nil]
    exact hresent
  · have hconnected : w.client.link.state = .connected := by
      cases hs : w.client.link.state with
      | connected => rfl
      | connecting => exact absurd hs hstate
      | disconnected => exact absurd hs hopen
    refine ⟨events, rfl, h.heard_spoken hopen hdown hstep (toList_foldl_append _ _) (hhears.speaks id) hconnected
      (h.orderly.connected hconnected) (fun k m hm => hhears.fits h.fits hm) fun incoming hincoming => ?_⟩
    exact hhears.linked (hincoming ▸ h.linked)

/-- A byte that ends the connection is reported as such, and leaves no mark. -/
theorem Sound.heard_closed (h : w.Sound id) {keepAlive : KeepAlive} {reason : Option String}
    {d : Decoder} (packets : List Packet) :
    (w.heard ⟨({ w.client.link with keepAlive } : Link).close reason, d⟩ down
      ((({ w.client.link with keepAlive } : Link).close reason).events.drop
        w.client.link.events.length |>.filterMap Client.Event.settlement?)
      (packets.flatMap fun packet => (({ w.client.link with keepAlive } : Link).close reason).events.drop
        w.client.link.events.length |>.filterMap (Client.Event.arrival? packet))).Sound id := by
  have hevents : (({ w.client.link with keepAlive } : Link).close reason).events.drop
      w.client.link.events.length = [.disconnected reason] := List.drop_left
  have harrivals : (packets.flatMap fun packet => [Client.Event.disconnected reason].filterMap
      (Client.Event.arrival? packet)) = [] := List.flatMap_eq_nil_iff.2 fun _ _ => rfl
  rw [hevents, harrivals]
  exact h.heard_nothing rfl rfl rfl

theorem Sound.clientReadsByte (h : w.Sound id) (now : Nat) : (w.clientReadsByte now).Sound id := by
  unfold World.clientReadsByte
  split
  · exact h
  next b down hdown =>
    dsimp only
    have hbytes : w.client.handleBytes now [b] = Client.Protocol.receive now w.client.decoder.maxPacketSize
        w.client.decoder.state w.client.link [b] := rfl
    rw [hbytes, Client.Protocol.receive, Decoder.completes]
    by_cases hopen : w.client.link.state = .disconnected
    · rw [if_pos hopen]
      have hevents : w.client.link.events.drop w.client.link.events.length = [] := List.drop_length
      dsimp only
      rw [hevents]
      have hnone : ∀ packets : List Packet,
          (packets.flatMap fun packet => [].filterMap (Client.Event.arrival? packet)) = [] :=
        fun packets => List.flatMap_eq_nil_iff.2 fun _ _ => rfl
      rw [hnone]
      exact h.heard_nothing rfl rfl hopen
    · rw [if_neg hopen]
      rcases hstep : w.client.decoder.state.step w.client.decoder.maxPacketSize b with ⟨s, e | _ | packet⟩
      · exact h.heard_closed []
      · have hevents : w.client.link.events.drop w.client.link.events.length = [] := List.drop_length
        dsimp only [Client.Protocol.receive]
        rw [hevents]
        exact h.heard_part hopen hdown hstep
      · dsimp only
        rcases hhandle : Link.handle { w.client.link with keepAlive := w.client.link.keepAlive.restart now } now
          packet with r | l
        · dsimp only
          have hlive : ({ w.client.link with keepAlive := w.client.link.keepAlive.restart now } : Link).state ≠
              .disconnected := hopen
          rw [Link.close_of_refused hlive hhandle]
          exact h.heard_closed [packet]
        · obtain ⟨events, hevents, hsound⟩ := h.heard_packet hopen hdown hstep hhandle
          dsimp only [Client.Protocol.receive]
          have hone : (some packet).toList.flatMap (fun packet =>
              events.filterMap (Client.Event.arrival? packet))
                = events.filterMap (Client.Event.arrival? packet) := List.append_nil _
          rw [hevents, List.drop_left, hone]
          exact hsound

theorem Sound.clientReads (h : w.Sound id) (now count : Nat) : (w.clientReads now count).Sound id := by
  induction count generalizing w with
  | zero => exact h
  | succ count ih => exact ih (h.clientReadsByte now)

/-! ### Connections -/

/-- The client opens a connection. -/
def opened (w : World) (client : Client.Protocol) (limits : ConnectionLimits) (now : Nat) : World :=
  { w with client, hub := w.hub.accept (w.newest + 1) limits now, newest := w.newest + 1, down := [] }

variable (client) (limits : ConnectionLimits) (now : Nat)

theorem Sound.connections_opened (h : w.Sound id) (t : Nat) :
    (w.opened client limits now).hub.connections[t]? =
      if w.newest + 1 = t then some (.new t limits now) else w.hub.connections[t]? := by
  have hnone : w.hub.connections[w.newest + 1]? = none := by
    cases hc : w.hub.connections[w.newest + 1]? with
    | none => rfl
    | some c => exact absurd (h.peers _ c hc).1 (Nat.not_succ_le_self w.newest)
  unfold opened Hub.accept
  rw [hnone]
  dsimp only
  rw [Hub.connections_setConnection]
  split
  · next ht => rw [ht]
  · rfl

/-- An older connection brings at most what it did: what was still to be written to it is lost. -/
theorem Sound.rising_opened (h : w.Sound id) {t : Nat} (ht : w.newest + 1 ≠ t) :
    (w.opened client limits now).rising t <+: w.rising t := by
  have hrise : (w.opened client limits now).rise t = w.up t := by
    unfold rise opened
    dsimp only
    rw [if_neg (Ne.symm ht), List.append_nil]
  unfold rising
  rw [h.connections_opened, if_neg ht, hrise]
  cases w.hub.connections[t]? with
  | none => exact List.prefix_refl []
  | some c =>
    dsimp only
    split
    · exact List.prefix_refl []
    · exact Decoder.coming_append_prefix c.decoder (w.up t) _

/-- The new connection brings the packet with which it is opened, if anything. -/
theorem Sound.rising_new (h : w.Sound id) {p : Packet} (hp : p.Writable)
    (hout : client.link.outbound.data.toList = p.encode) :
    ∃ qs, Packet.Read [p] qs ∧ (w.opened client limits now).rising (w.newest + 1) = qs ∧
      (Decoder.new limits.maxPacketSize).Aligned ((w.opened client limits now).rise (w.newest + 1)) := by
  have hrise : (w.opened client limits now).rise (w.newest + 1) = [] ++ [p].flatMap Packet.encode := by
    unfold rise opened
    dsimp only
    rw [if_pos rfl, h.ahead _ (Nat.lt_succ_self _), hout, List.flatMap_cons, List.flatMap_nil, List.append_nil]
  have hone : ∀ p' ∈ [p], p'.Writable := fun p' hp' => List.mem_singleton.1 hp' ▸ hp
  obtain ⟨haligned, qs, hcoming, hread⟩ := (Decoder.aligned_new limits.maxPacketSize).write hone
  refine ⟨qs, hread, ?_, hrise ▸ haligned⟩
  have hc := h.connections_opened client limits now (w.newest + 1)
  rw [if_pos rfl] at hc
  rw [rising_of_open hc rfl, hrise]
  exact hcoming

theorem broker_opened : (w.opened client limits now).hub.broker = w.hub.broker := by
  unfold opened Hub.accept
  cases w.hub.connections[w.newest + 1]? <;> rfl

/-- Nothing was written to the new connection. -/
theorem Sound.fall_opened (h : w.Sound id) :
    (w.opened client limits now).fall = [] ∧ (w.opened client limits now).falling = [] := by
  have hfall : (w.opened client limits now).fall = [] := by
    unfold fall outbound
    rw [h.connections_opened, if_pos (show w.newest + 1 = (w.opened client limits now).newest from rfl)]
    rfl
  refine ⟨hfall, ?_⟩
  unfold falling
  rw [hfall]
  split <;> rfl

/-- The new connection is not accepted yet. -/
theorem Sound.joined_opened (h : w.Sound id) (t : Nat) :
    (w.opened client limits now).Joined t ↔ w.Joined t := by
  unfold Joined
  rw [h.connections_opened]
  split
  · next ht =>
    constructor
    · rintro ⟨c, hc, hclient⟩
      cases hc
      cases hclient
    · rintro ⟨c, hc, -⟩
      exact absurd (h.peers t c hc).1 (by omega)
  · rfl

/-- The old connections bring less, the new one is opened, and the client says what it brings. -/
theorem Sound.orderly_opened (h : w.Sound id) (hstate : client.link.state = .connecting)
    (hquiet : Quiet ((w.opened client limits now).rising (w.newest + 1))) :
    ((w.opened client limits now).traffic id).Orderly := by
  have hless : ({ w.traffic id with rising := fun t =>
      if t = w.newest + 1 then [] else (w.opened client limits now).rising t } : Traffic).Orderly := by
    refine h.orderly.less ⟨.inl rfl, rfl, .inl rfl, fun _ => .rfl, fun t => ?_, fun _ hp => hp⟩
    dsimp only
    split
    · exact List.nil_subset _
    · next ht => exact (h.rising_opened client limits now (Ne.symm ht)).subset
  have hopens := hless.opens (by dsimp only [traffic]; rw [if_pos rfl]; exact Quiet.nil)
  have howner : ((w.opened client limits now).traffic id).owner = (w.traffic id).owner :=
    congrArg (·.ownerOf id) (broker_opened client limits now)
  refine (hopens.speaks (.inl hquiet)).less
    ⟨.inl hstate, rfl, .inl howner, h.joined_opened client limits now, fun t => ?_, ?_⟩
  · dsimp only [traffic]
    by_cases ht : t = w.newest + 1
    · simp only [if_pos ht]
      rw [ht]
      exact fun _ hp => hp
    · simp only [if_neg ht]
      exact fun _ hp => hp
  · dsimp only [traffic]
    rw [(h.fall_opened client limits now).2]
    exact List.nil_subset _

/-- The owner of the session is an older connection. -/
theorem Sound.climbing_opened (h : w.Sound id) :
    ((w.opened client limits now).traffic id).climbing.Sublist (w.traffic id).climbing := by
  unfold Traffic.climbing
  have howner : ((w.opened client limits now).traffic id).owner = (w.traffic id).owner :=
    congrArg (·.ownerOf id) (broker_opened client limits now)
  rw [howner]
  cases ht : (w.traffic id).owner with
  | none => exact .refl _
  | some t =>
    have hbound : t ≤ w.newest := h.orderly.bound t (h.orderly.owned t ht)
    exact (h.rising_opened client limits now (by omega)).sublist

/-- The client gives its last connection up, if there was one, and opens another. -/
theorem Sound.opened (h : w.Sound id) {p : Packet} (hp : Link.Speaks id p) (hplain : p.Plain)
    (hout : client.link.outbound.data.toList = p.encode) (hstate : client.link.state = .connecting)
    (hinflight : client.link.inflight = w.client.link.inflight)
    (hdecoder : client.decoder = .new client.decoder.maxPacketSize) :
    (w.opened client limits now).Sound id := by
  have hconnections := h.connections_opened client limits now
  obtain ⟨hfall, hfalling⟩ := h.fall_opened client limits now
  obtain ⟨qs, hread, hnew, haligned⟩ := h.rising_new client limits now hp.1 hout
  have hquiet : Quiet qs := Quiet.read (fun q hq => List.mem_singleton.1 hq ▸ hplain) hread
  refine ⟨h.owned.accept _ _ _, ?_, fun t c hc => ?_, fun t ht => ?_, fun t q hq => ?_, ?_, fun c hc _ => ?_,
    fun _ => ?_, h.orderly_opened client limits now hstate (hnew ▸ hquiet), ?_⟩
  · rw [broker_opened]
    exact h.sole
  · rw [hconnections] at hc
    split at hc
    · next ht =>
      cases hc
      exact ⟨ht ▸ Nat.le_refl _, fun hclient => Bool.noConfusion hclient⟩
    · obtain ⟨hbound, hintroduced⟩ := h.peers t c hc
      exact ⟨Nat.le_succ_of_le hbound, hintroduced⟩
  · exact h.ahead t (Nat.lt_of_succ_lt ht)
  · by_cases ht : w.newest + 1 = t
    · rw [← ht, hnew] at hq
      obtain ⟨p', hp', hbecomes⟩ := hread.mem hq
      cases List.mem_singleton.1 hp'
      exact hbecomes.greets hp.2
    · exact h.greets t q ((h.rising_opened client limits now ht).subset hq)
  · intro k m hm
    exact h.fits k m (hinflight ▸ hm)
  · rw [show (w.opened client limits now).newest = w.newest + 1 from rfl, hconnections, if_pos rfl] at hc
    cases hc
    exact haligned
  · rw [hfall, show (w.opened client limits now).client = client from rfl, hdecoder]
    exact Decoder.aligned_new _
  · rw [hfalling, broker_opened, show (w.opened client limits now).client.link.inflight =
      w.client.link.inflight from hinflight]
    exact h.linked.within (Quiet.nil.within _) (.of_sublist (h.climbing_opened client limits now))

/-- The client connects. The broker knows it under what is read of its identifier. -/
theorem Sound.connect (h : w.Sound (Wire.readBack id)) (config : Client.Config) (limits : ConnectionLimits)
    (now : Nat) : (w.connect id config limits now).Sound (Wire.readBack id) := by
  unfold World.connect Client.Protocol.connect
  by_cases hstate : w.client.link.state ≠ .disconnected
  · dsimp only
    rw [if_pos hstate]
    exact h
  dsimp only
  rw [if_neg hstate]
  have hname : protocolName.utf8ByteSize ≤ 65535 := by decide
  refine h.opened _ limits now (p := Link.connectPacket { config with clientId := id, cleanSession := false })
    ⟨hname, rfl, rfl⟩ (fun _ => ⟨rfl, rfl⟩) ?_ rfl rfl rfl
  exact (congrArg (·.data.toList) ByteArray.empty_append).trans (Packet.toList_toBytes _)

end Mqtt.World
