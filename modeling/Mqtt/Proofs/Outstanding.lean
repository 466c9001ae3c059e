import Mqtt.Proofs.FailedCalls
import Mqtt.Proofs.Journal

/-!
# Requests that wait for their answers: `ClientProtocol::allocate_id`

A request of a client is outstanding until its last answer comes. The docket of a client lists these requests for the
newest connection, beside its journal, each with the identifiers that had their turn since it was made. A PUBLISH
holds its identifier as long as it is outstanding, so no other request is given that. SUBSCRIBE and UNSUBSCRIBE hold
nothing: `Link.allocateId` asks only whether an open handshake has the identifier. What keeps their identifiers apart
is the counter alone, and that comes round. `Docket.run_returns` says when: the identifier of an outstanding SUBSCRIBE
or UNSUBSCRIBE is given out again exactly when whole rounds of identifiers have had their turns since.
`Docket.asked_again` is a client that has one identifier left, and gives it to two requests.
-/

namespace Mqtt

/-- The identifier under which a request waits for its answer. -/
def Packet.requestId? : Packet → Option UInt16
  | .publish p => p.packetId
  | .subscribe id _ | .unsubscribe id _ => some id
  | _ => none

/-- The packet is the last answer to a request: SUBACK to SUBSCRIBE, UNSUBACK to UNSUBSCRIBE, and PUBACK or PUBCOMP to
PUBLISH, with its identifier. -/
def Packet.concludes : (answer request : Packet) → Bool
  | .suback id _, .subscribe id' _ => id = id'
  | .unsuback id, .unsubscribe id' _ => id = id'
  | .puback id, .publish p | .pubcomp id, .publish p => p.packetId = some id
  | _, _ => false

/-- What is in use stays so when a message is kept, and its identifier is in use. -/
theorem Inflight.isInUse_track (s : Inflight) (id : UInt16) (m : Message) {k : UInt16}
    (h : s.isInUse k = true ∨ k = id) : (s.track id m).isInUse k = true := by
  rcases h with h | rfl
  · simp only [isInUse, track, Std.ExtTreeMap.contains_insert, Bool.or_eq_true] at h ⊢
    exact h.imp_left .inr
  · simp [isInUse, track]

/-- Only the last answer to a message gives its identifier back. -/
theorem Inflight.Acks.isInUse {s s' : Inflight} {packet q : Packet} {reply : Option Packet}
    (h : s.Acks packet reply s') {id : UInt16} (hpublish : q.type = .publish) (hid : q.requestId? = some id)
    (hgoes : packet.concludes q = false) (hused : s.isInUse id = true) : s'.isInUse id = true := by
  obtain ⟨p, rfl⟩ : ∃ p, q = .publish p := by
    cases q with
    | publish p => exact ⟨p, rfl⟩
    | _ => cases hpublish
  have hid : p.packetId = some id := hid
  simp only [Inflight.isInUse, Bool.or_eq_true] at hused ⊢
  cases h with
  | @puback k =>
    have hne : id ≠ k := by simpa [Packet.concludes, hid] using hgoes
    simpa [Std.ExtTreeMap.contains_erase, Ne.symm hne] using hused
  | @pubrec k =>
    by_cases heq : k = id
    · simp [Std.ExtTreeSet.contains_insert, heq]
    · simpa [Std.ExtTreeMap.contains_erase, Std.ExtTreeSet.contains_insert, heq] using hused
  | pubrel => exact hused
  | @pubcomp k =>
    have hne : id ≠ k := by simpa [Packet.concludes, hid] using hgoes
    simpa [Std.ExtTreeMap.contains_erase, Std.ExtTreeSet.contains_erase, Ne.symm hne] using hused

namespace Client

/-! ### Dockets -/

/-- The identifier that a call gives back. -/
def Protocol.returns (c : Protocol) : Call → Option UInt16
  | .subscribe topics => (c.subscribe topics).1.toOption
  | .unsubscribe filters => (c.unsubscribe filters).1.toOption
  | .publish m => (c.publish m).1.toOption.join
  | _ => none

theorem Protocol.returns_subscribe (c : Protocol) (topics : List TopicRequest) :
    c.returns (.subscribe topics) = (c.link.subscribe topics).1.toOption := rfl

/-- The identifiers whose turn comes until this one is given out, if one is. -/
def Link.turns (l : Link) (given : Option UInt16) : List UInt16 :=
  given.toList.flatMap (l.packetIds.turns l.inflight.isInUse)

theorem Link.turns_some (l : Link) (id : UInt16) : l.turns (some id) = l.packetIds.turns l.inflight.isInUse id :=
  List.append_nil _

/-- The identifiers whose turn comes in a call. -/
def Protocol.turns (c : Protocol) (k : Call) : List UInt16 := c.link.turns (c.returns k)

/-- A request that is outstanding. -/
structure Request where
  packet : Packet
  /-- The identifiers that had their turn since it was made. -/
  since : List UInt16
  deriving DecidableEq

/-- The requests among some packets. -/
def Request.ofPackets (qs : List Packet) : List Request := (qs.filter (·.requestId?.isSome)).map (⟨·, []⟩)

/-- The journal of a client, and the requests that are outstanding on its newest connection. -/
structure Docket where
  journal : Journal
  requests : List Request

namespace Docket

def start (inflight : Inflight) (maxPacketSize : Nat) : Docket := ⟨.start inflight maxPacketSize, []⟩

/-- The journal has got longer, and meanwhile some identifiers had their turn. A new connection begins with no
requests. -/
def extend (d : Docket) (turns : List UInt16) (j : Journal) : Docket where
  journal := j
  requests :=
    if j.opened = d.journal.opened then
      let waiting := d.requests.filter fun r => !(j.heard.drop d.journal.heard.length).any (·.concludes r.packet)
      waiting.map (fun r => { r with since := r.since ++ turns })
        ++ Request.ofPackets (j.said.drop d.journal.said.length)
    else Request.ofPackets j.said

def call (d : Docket) : Call → Docket
  | .receive now bytes => bytes.foldl (fun d byte => d.extend [] (d.journal.receiveByte now byte)) d
  | k => d.extend (d.journal.client.turns k) (d.journal.call k)

def run (d : Docket) (calls : List Call) : Docket := calls.foldl call d

end Docket

/-! ### What becomes of identifiers -/

namespace Link

/-- What happens on a link that concerns requests: nothing, or a request is made under an identifier, or a packet is
accepted and answered. -/
inductive Asks (l l' : Link) : Option Packet → List Packet → Option UInt16 → Prop
  | quiet {qs : List Packet} : l'.packetIds = l.packetIds → l'.inflight = l.inflight →
      (∀ q ∈ qs, q.requestId? = none) → Asks l l' none qs none
  | requests {q : Packet} {id : UInt16} : q.requestId? = some id →
      l.packetIds.allocate l.inflight.isInUse = (some id, l'.packetIds) →
      (∀ k, l.inflight.isInUse k = true → l'.inflight.isInUse k = true) →
      (q.type = .publish → l'.inflight.isInUse id = true) → Asks l l' none [q] (some id)
  | hears {packet : Packet} {qs : List Packet} : l'.packetIds = l.packetIds →
      (∀ q ∈ qs, ∀ id, q.requestId? = some id → q.type = .publish ∧ l'.inflight.isInUse id = true) →
      (∀ q id, q.type = .publish → q.requestId? = some id → packet.concludes q = false →
        l.inflight.isInUse id = true → l'.inflight.isInUse id = true) →
      Asks l l' (some packet) qs none

variable {l l' : Link}

theorem Asks.rests (hids : l'.packetIds = l.packetIds) (hinflight : l'.inflight = l.inflight) :
    l.Asks l' none [] none := .quiet hids hinflight (List.forall_mem_nil _)

section

variable {packet : Option Packet} {qs : List Packet} {given : Option UInt16} {q : Packet} {id : UInt16}

/-- A PUBLISH that is outstanding goes on holding its identifier. -/
theorem Asks.isInUse (h : l.Asks l' packet qs given) (hpublish : q.type = .publish) (hid : q.requestId? = some id)
    (hgoes : ∀ p, packet = some p → p.concludes q = false) (hused : l.inflight.isInUse id = true) :
    l'.inflight.isInUse id = true := by
  cases h with
  | quiet _ hinflight => exact hinflight ▸ hused
  | requests _ _ hkeeps => exact hkeeps id hused
  | hears _ _ hkeeps => exact hkeeps q id hpublish hid (hgoes _ rfl) hused

/-- A PUBLISH that is made holds its identifier. -/
theorem Asks.isInUse_of_mem (h : l.Asks l' packet qs given) (hq : q ∈ qs) (hpublish : q.type = .publish)
    (hid : q.requestId? = some id) : l'.inflight.isInUse id = true := by
  cases h with
  | quiet _ _ hqs => exact nomatch (hqs q hq).symm.trans hid
  | requests hq' _ _ hused =>
    cases List.mem_singleton.1 hq
    cases hq'.symm.trans hid
    exact hused hpublish
  | hears _ hqs => exact (hqs q hq id hid).2

/-- The turns since an identifier was given out go on with those of this one. -/
theorem Asks.trails {since : List UInt16} (h : l.Asks l' packet qs given)
    (htrails : PacketIds.Trails id since l.packetIds) :
    PacketIds.Trails id (since ++ l.turns given) l'.packetIds := by
  cases h with
  | quiet hids | hears hids =>
    have hnone : since ++ l.turns none = since := List.append_nil _
    rw [hnone, hids]
    exact htrails
  | requests _ halloc =>
    rw [turns_some]
    exact htrails.allocate halloc

/-- Any other request that is made has the identifier that was given out last. -/
theorem Asks.trails_of_mem (h : l.Asks l' packet qs given) (hq : q ∈ qs) (hplain : q.type ≠ .publish)
    (hid : q.requestId? = some id) : id ≠ 0 ∧ PacketIds.Trails id [] l'.packetIds := by
  cases h with
  | quiet _ _ hqs => exact nomatch (hqs q hq).symm.trans hid
  | requests hq' halloc =>
    cases List.mem_singleton.1 hq
    cases hq'.symm.trans hid
    exact ⟨(PacketIds.search_free halloc).1, PacketIds.trails_nil (PacketIds.next_of_search halloc)⟩
  | hears _ hqs => exact absurd (hqs q hq id hid).1 hplain

end

/-- A request without a handshake. -/
theorem request_asks {make : UInt16 → Packet} (hmake : ∀ id, (make id).requestId? = some id)
    (hplain : ∀ id, (make id).type ≠ .publish) (l : Link) {isEmpty : Bool} {e : Error}
    {outcome : Except Error UInt16 × Link}
    (h : outcome = if l.state ≠ .connected then (.error .notConnected, l) else if isEmpty then (.error e, l)
      else l.withId fun id l => (id, l.send (make id))) :
    l.Asks outcome.2 none (requestedAs make outcome.1) outcome.1.toOption := by
  subst h
  split
  · exact .rests rfl rfl
  split
  · exact .rests rfl rfl
  rcases l.withId_outcome fun id l => (id, l.send (make id)) with ⟨-, h⟩ | ⟨-, id, packetIds, halloc, h⟩
  · rw [h]
    exact .rests rfl rfl
  · rw [h]
    exact .requests (hmake id) halloc (fun _ hused => hused) fun hpublish => absurd hpublish (hplain id)

theorem subscribe_asks (l : Link) (topics : List TopicRequest) :
    l.Asks (l.subscribe topics).2 none (requestedAs (.subscribe · topics) (l.subscribe topics).1)
      (l.subscribe topics).1.toOption :=
  request_asks (fun _ => rfl) (fun _ h => by cases h) l rfl

theorem unsubscribe_asks (l : Link) (filters : List String) :
    l.Asks (l.unsubscribe filters).2 none (requestedAs (.unsubscribe · filters) (l.unsubscribe filters).1)
      (l.unsubscribe filters).1.toOption :=
  request_asks (fun _ => rfl) (fun _ h => by cases h) l rfl

theorem publish_asks (l : Link) (m : Message) :
    l.Asks (l.publish m).2 none (publishedAs m (l.publish m).1) (l.publish m).1.toOption.join := by
  unfold publish
  split
  · exact .rests rfl rfl
  split
  · exact .rests rfl rfl
  split
  · next hq =>
    rcases l.withId_outcome fun id l =>
        (some id, { l with inflight := l.inflight.track id m }.send (.publish (m.toPublish id false))) with
      ⟨-, h⟩ | ⟨-, id, packetIds, halloc, h⟩
    · rw [h]
      exact .rests rfl rfl
    · rw [h]
      have hid : Packet.requestId? (.publish (m.toPublish id false)) = some id := if_pos hq
      exact .requests hid halloc (fun k hused => l.inflight.isInUse_track id m (.inl hused))
        fun _ => l.inflight.isInUse_track id m (.inr rfl)
  · next hq =>
    refine .quiet rfl rfl (List.forall_mem_singleton.2 ?_)
    exact if_neg hq

theorem disconnect_asks (l : Link) : l.Asks l.disconnect none l.farewell none := by
  unfold disconnect farewell
  split
  · exact .rests rfl rfl
  · exact .quiet rfl rfl (List.forall_mem_singleton.2 rfl)

theorem connectionLost_asks (l : Link) (reason : String) : l.Asks (l.connectionLost reason) none [] none := by
  unfold connectionLost
  split <;> exact .rests rfl rfl

theorem pollTimers_asks (l : Link) (now : Nat) : l.Asks (l.pollTimers now).2 none (l.pings now) none := by
  unfold pollTimers pings
  split
  · exact .rests rfl rfl
  split
  · exact .rests rfl rfl
  dsimp only
  split
  · exact .quiet rfl rfl (List.forall_mem_singleton.2 rfl)
  · exact .rests rfl rfl

/-- What is answered to a packet asks for no answer but PUBREL, which is no request. -/
theorem requestId?_of_mem_answers {packet q : Packet} (h : q ∈ answers packet) : q.requestId? = none := by
  unfold answers at h
  split at h
  · split at h
    · cases h
    · cases List.mem_singleton.1 h
      rfl
    · cases List.mem_singleton.1 h
      rfl
  · cases List.mem_singleton.1 h
    rfl
  · cases List.mem_singleton.1 h
    rfl
  · cases h

/-- A turn in which nothing is asked for by a call: a packet is accepted, or none. -/
theorem asks_of_moves {packet : Option Packet} {qs : List Packet} {es : List Event}
    (h : l.Moves (fun _ => False) packet qs es l'.state l'.inflight) (hids : l'.packetIds = l.packetIds) :
    l.Asks l' packet qs none := by
  generalize hinflight : l'.inflight = inflight at h
  generalize l'.state = state at h
  cases h with
  | rests => exact .rests hids hinflight
  | asks _ hmakes | keeps _ hmakes => exact hmakes.elim
  | ends _ _ hqs => exact .quiet hids hinflight fun q hq => (hqs q hq).elim
  | joins present =>
    refine .hears hids (fun q hq id hid => ?_) fun q id _ _ _ hused => hinflight ▸ hused
    rcases Exchange.mem_resend hq with ⟨k, m, hm, rfl⟩ | ⟨k, -, rfl⟩
    · have hk : id = k := by
        simp only [Packet.requestId?, Message.toPublish] at hid
        split at hid
        · exact (Option.some.inj hid).symm
        · cases hid
      refine ⟨rfl, ?_⟩
      simp [hinflight, hk, Inflight.isInUse, Std.ExtTreeMap.contains_eq_isSome_getElem?, hm]
    · cases hid
  | hears _ hhears =>
    refine .hears hids (fun q hq id hid => ?_) fun q id hpublish hid hgoes hused => ?_
    · rw [hhears.replies_eq] at hq
      rw [requestId?_of_mem_answers hq] at hid
      cases hid
    · rw [hinflight]
      cases hhears with
      | message htakes => cases htakes <;> exact hused
      | puback hacks | pubrec hacks | pubrel hacks | pubcomp hacks => exact hacks.isInUse hpublish hid hgoes hused
      | subscribed | unsubscribed | ponged => exact hused

theorem packetIds_handle {now : Nat} {packet : Packet} (h : l.handle now packet = .ok l') :
    l'.packetIds = l.packetIds := by
  rcases handle_ok h with ⟨-, present, -, rfl⟩ | ⟨-, replies, events, inflight, -, rfl⟩
  · rfl
  · rfl

end Link

/-- The counter of identifiers does not move when bytes come. -/
theorem Protocol.packetIds_handleBytes (c : Protocol) (now : Nat) (byte : UInt8) :
    (c.handleBytes now [byte]).2.link.packetIds = c.link.packetIds := by
  obtain ⟨l, max, s⟩ := c
  have hbytes : handleBytes ⟨l, ⟨max, s⟩⟩ now [byte] = receive now max s l [byte] := rfl
  rw [hbytes, receive]
  split
  · rfl
  next hopen =>
  rcases s.step max byte with ⟨s', e | _ | packet⟩
  · rfl
  · rfl
  · dsimp only
    rcases hh : Link.handle { l with keepAlive := l.keepAlive.restart now } now packet with r | l'
    · have hids := congrArg Link.packetIds
        (Link.close_of_refused (l := { l with keepAlive := l.keepAlive.restart now }) hopen hh)
      exact hids
    · have hids := Link.packetIds_handle hh
      exact hids

namespace Journal

/-- The journal gets longer without a new connection. -/
structure Entry (j j' : Journal) (packet : Option Packet) (qs : List Packet) (given : Option UInt16) : Prop where
  asks : j.client.link.Asks j'.client.link packet qs given
  heard : j'.heard = j.heard ++ packet.toList
  said : j'.said = j.said ++ qs
  opened : j'.opened = j.opened

theorem Entry.of_asks {j : Journal} {client : Protocol} {qs : List Packet} {given : Option UInt16}
    (h : j.client.link.Asks client.link none qs given) :
    j.Entry { j with client, said := j.said ++ qs } none qs given :=
  ⟨h, (List.append_nil _).symm, rfl, rfl⟩

theorem link_subscribe (j : Journal) (topics : List TopicRequest) :
    (j.call (.subscribe topics)).client.link = (j.client.link.subscribe topics).2 := rfl

theorem subscribe_entry (j : Journal) (topics : List TopicRequest) :
    j.Entry (j.call (.subscribe topics)) none (requestedAs (.subscribe · topics) (j.client.link.subscribe topics).1)
      (j.client.returns (.subscribe topics)) :=
  .of_asks (j.client.link.subscribe_asks topics)

/-- A call that neither opens a connection nor brings bytes. -/
theorem call_entry (j : Journal) {k : Call} (hconnect : ∀ config now, k ≠ .connect config now)
    (hreceive : ∀ now bytes, k ≠ .receive now bytes) : ∃ qs, j.Entry (j.call k) none qs (j.client.returns k) := by
  cases k with
  | connect config now => exact absurd rfl (hconnect config now)
  | receive now bytes => exact absurd rfl (hreceive now bytes)
  | disconnect => exact ⟨_, .of_asks j.client.link.disconnect_asks⟩
  | publish m => exact ⟨_, .of_asks (j.client.link.publish_asks m)⟩
  | subscribe topics => exact ⟨_, j.subscribe_entry topics⟩
  | unsubscribe filters => exact ⟨_, .of_asks (j.client.link.unsubscribe_asks filters)⟩
  | pollTimers now => exact ⟨_, .of_asks (j.client.link.pollTimers_asks now)⟩
  | connectionLost reason =>
    refine ⟨[], j.client.link.connectionLost_asks reason, ?_, ?_, rfl⟩
    · exact (List.append_nil _).symm
    · exact (List.append_nil _).symm
  | nextEvent =>
    refine ⟨[], ?_, (List.append_nil _).symm, (List.append_nil _).symm, rfl⟩
    rw [call]
    unfold Protocol.nextEvent
    cases j.client.link.events <;> exact .rests rfl rfl
  | written count => exact ⟨[], .rests rfl rfl, (List.append_nil _).symm, (List.append_nil _).symm, rfl⟩

theorem receiveByte_entry (j : Journal) (now : Nat) (byte : UInt8) :
    ∃ packet qs, j.Entry (j.receiveByte now byte) packet qs none := by
  obtain ⟨es, hturn⟩ := j.receiveByte_turn (fun _ => False) now byte
  have hasks := Link.asks_of_moves hturn.moves (j.client.packetIds_handleBytes now byte)
  exact ⟨_, _, hasks, hturn.heard, hturn.said, hturn.opened⟩

end Journal

/-! ### What the docket says -/

namespace Docket

/-- What the requests of a docket have to do with identifiers. -/
structure Sound (d : Docket) : Prop where
  /-- A PUBLISH holds its identifier, -/
  held : ∀ r ∈ d.requests, ∀ id, r.packet.type = .publish → r.packet.requestId? = some id →
    d.journal.client.link.inflight.isInUse id = true
  /-- and to any other request the counter was last when its own turn came. -/
  trails : ∀ r ∈ d.requests, ∀ id, r.packet.type ≠ .publish → r.packet.requestId? = some id →
    id ≠ 0 ∧ PacketIds.Trails id r.since d.journal.client.link.packetIds

variable {d : Docket} {j : Journal}

theorem Sound.of_nil (h : d.requests = []) : d.Sound where
  held := by
    rw [h]
    exact List.forall_mem_nil _
  trails := by
    rw [h]
    exact List.forall_mem_nil _

theorem mem_extend_iff {packet : Option Packet} {qs : List Packet} {given : Option UInt16}
    (he : d.journal.Entry j packet qs given) {turns : List UInt16} {r : Request} :
    r ∈ (d.extend turns j).requests ↔
      (∃ r' ∈ d.requests, (∀ p, packet = some p → p.concludes r'.packet = false) ∧
        { r' with since := r'.since ++ turns } = r) ∨
      ∃ q ∈ qs, q.requestId?.isSome = true ∧ ⟨q, []⟩ = r := by
  rw [extend, if_pos he.opened, he.heard, he.said, List.drop_left, List.drop_left]
  simp only [List.mem_append, Request.ofPackets, List.mem_map, List.mem_filter, and_assoc]
  cases packet with
  | none => simp
  | some p => simp

theorem Sound.extend {packet : Option Packet} {qs : List Packet} {given : Option UInt16} (h : d.Sound)
    (he : d.journal.Entry j packet qs given) : (d.extend (d.journal.client.link.turns given) j).Sound := by
  constructor
  · intro r hr id hpublish hid
    rcases (mem_extend_iff he).1 hr with ⟨r', hr', hgoes, rfl⟩ | ⟨q, hq, -, rfl⟩
    · exact he.asks.isInUse hpublish hid hgoes (h.held r' hr' id hpublish hid)
    · exact he.asks.isInUse_of_mem hq hpublish hid
  · intro r hr id hplain hid
    rcases (mem_extend_iff he).1 hr with ⟨r', hr', -, rfl⟩ | ⟨q, hq, -, rfl⟩
    · obtain ⟨hne, htrails⟩ := h.trails r' hr' id hplain hid
      exact ⟨hne, he.asks.trails htrails⟩
    · exact he.asks.trails_of_mem hq hplain hid

theorem requests_extend_of_opened {turns : List UInt16} (h : j.opened ≠ d.journal.opened) :
    (d.extend turns j).requests = Request.ofPackets j.said := if_neg h

theorem call_of_ne_receive (d : Docket) {k : Call} (h : ∀ now bytes, k ≠ .receive now bytes) :
    d.call k = d.extend (d.journal.client.turns k) (d.journal.call k) := by
  cases k with
  | receive now bytes => exact absurd rfl (h now bytes)
  | _ => rfl

theorem Sound.call (h : d.Sound) (k : Call) : (d.call k).Sound := by
  by_cases hreceive : ∃ now bytes, k = .receive now bytes
  · obtain ⟨now, bytes, rfl⟩ := hreceive
    rw [Docket.call]
    induction bytes generalizing d with
    | nil => exact h
    | cons byte bytes ih =>
      obtain ⟨packet, qs, he⟩ := d.journal.receiveByte_entry now byte
      exact ih (h.extend he)
  have hreceive : ∀ now bytes, k ≠ .receive now bytes := fun now bytes hk => hreceive ⟨now, bytes, hk⟩
  rw [d.call_of_ne_receive hreceive]
  by_cases hconnect : ∃ config now, k = .connect config now
  · obtain ⟨config, now, rfl⟩ := hconnect
    rw [Journal.call]
    by_cases hstate : d.journal.client.link.state = .disconnected
    · -- The new connection has said nothing but CONNECT, which is no request.
      have hopens := Journal.opens_connect hstate config now
      have hnone : (d.extend (d.journal.client.turns (.connect config now))
          (d.journal.connect config now)).requests = [] := by
        rw [requests_extend_of_opened (by rw [hopens.opened]; exact Nat.succ_ne_self _), hopens.said]
        rfl
      exact .of_nil hnone
    · rw [Journal.connect_of_open hstate]
      have hsame : d.journal.Entry d.journal none [] none :=
        ⟨.rests rfl rfl, (List.append_nil _).symm, (List.append_nil _).symm, rfl⟩
      exact h.extend hsame
  · obtain ⟨qs, he⟩ := d.journal.call_entry (fun config now hk => hconnect ⟨config, now, hk⟩) hreceive
    exact h.extend he

theorem Sound.run (h : d.Sound) (calls : List Call) : (d.run calls).Sound := by
  induction calls generalizing d with
  | nil => exact h
  | cons k calls ih => exact ih (h.call k)

/-- A docket has the journal of its client. -/
theorem journal_call (d : Docket) (k : Call) : (d.call k).journal = d.journal.call k := by
  cases k with
  | receive now bytes =>
    rw [call, Journal.call]
    induction bytes generalizing d with
    | nil => rfl
    | cons byte bytes ih => exact ih _
  | _ => rfl

theorem journal_run (d : Docket) (calls : List Call) : (d.run calls).journal = d.journal.run calls := by
  induction calls generalizing d with
  | nil => rfl
  | cons k calls ih =>
    rw [run, List.foldl_cons]
    exact (ih _).trans (congrArg (Journal.run · calls) (d.journal_call k))

end Docket

/-- An identifier that is returned is one that was given out. -/
theorem Journal.allocate_of_returns (j : Journal) {k : Call} {id : UInt16} (h : j.client.returns k = some id) :
    j.client.link.packetIds.allocate j.client.link.inflight.isInUse =
      (some id, (j.call k).client.link.packetIds) := by
  have hconnect : ∀ config now, k ≠ .connect config now := by
    rintro config now rfl
    cases h
  have hreceive : ∀ now bytes, k ≠ .receive now bytes := by
    rintro now bytes rfl
    cases h
  obtain ⟨qs, he⟩ := j.call_entry hconnect hreceive
  have hasks := he.asks
  rw [h] at hasks
  cases hasks with
  | requests _ halloc => exact halloc

namespace Docket

/-- **When an identifier is given out again.** Take any run of a client, and a call that returns an identifier. It is
not 0, and no open handshake has it; those that are passed over on the way to it have one. It is never that of a
PUBLISH that is outstanding. It is that of an outstanding SUBSCRIBE or UNSUBSCRIBE exactly when the identifiers that
had their turn since, with those of this call, are whole rounds of 65535; and then every identifier was among them. -/
theorem run_returns (inflight : Inflight) (maxPacketSize : Nat) (calls : List Call) (k : Call) (id : UInt16) :
    let d := (start inflight maxPacketSize).run calls
    let client := d.journal.client
    client.returns k = some id →
      d.journal = (Journal.start inflight maxPacketSize).run calls ∧ id ≠ 0 ∧ client.inflight.isInUse id = false ∧
      (∀ other ∈ client.turns k, other = id ∨ client.inflight.isInUse other = true) ∧
      ∀ r ∈ d.requests, ∀ held, r.packet.requestId? = some held →
        (held = id ↔ r.packet.type ≠ .publish ∧ 65535 ∣ (r.since ++ client.turns k).length) ∧
        (held = id → ∀ other, other ≠ 0 → other ∈ r.since ++ client.turns k) := by
  intro d client hreturns
  have hsound : d.Sound := (Sound.of_nil rfl).run calls
  have halloc := d.journal.allocate_of_returns hreturns
  have hturns : client.turns k = client.link.packetIds.turns client.link.inflight.isInUse id := by
    rw [Protocol.turns, hreturns, Link.turns_some]
  obtain ⟨hid, hfree⟩ := PacketIds.search_free halloc
  refine ⟨journal_run _ calls, hid, hfree, ?_, fun r hr held hheld => ?_⟩
  · intro other hother
    rw [hturns] at hother
    exact (PacketIds.mem_turns hother).symm
  by_cases hplain : r.packet.type = .publish
  · have hused := hsound.held r hr held hplain hheld
    have hne : held ≠ id := by
      rintro rfl
      rw [hfree] at hused
      cases hused
    exact ⟨⟨fun h => absurd h hne, fun h => absurd hplain h.1⟩, fun h => absurd h hne⟩
  · obtain ⟨hne, htrails⟩ := hsound.trails r hr held hplain hheld
    have hafter := htrails.allocate halloc
    rw [← hturns] at hafter
    have hiff := hafter.eq_iff hne hid (PacketIds.next_of_search halloc)
    refine ⟨⟨fun h => ⟨hplain, hiff.1 h⟩, fun h => hiff.2 h.2⟩, fun h other hother => ?_⟩
    have hpos : 0 < (r.since ++ client.turns k).length := by
      rw [hturns, PacketIds.turns, List.length_append, List.length_append, List.length_singleton]
      omega
    exact hafter.mem (Nat.le_of_dvd hpos (hiff.1 h)) hother

/-- The calls until a connection is accepted. -/
def joining : List Call := [.connect .lasting 0, .receive 0 [0x20, 2, 0, 0]]

/-- A SUBSCRIBE is outstanding under identifier 1, and 2 is kept from before. So 3 is next, and 1 is far from that. -/
theorem run_returns_passing :
    let d := (start { Inflight.empty with releases := .ofList [(2 : UInt16)] } 0).run
      (joining ++ [.subscribe [⟨"a", .atMostOnce⟩]])
    d.requests = [⟨.subscribe 1 [⟨"a", .atMostOnce⟩], []⟩] ∧
      d.journal.client.returns (.unsubscribe ["a"]) = some 3 ∧
      ¬ 65535 ∣ ([] ++ d.journal.client.turns (.unsubscribe ["a"])).length := by
  intro d
  have hrequests : d.requests = [⟨.subscribe 1 [⟨"a", .atMostOnce⟩], []⟩] := by decide +kernel
  have hreturns : d.journal.client.returns (.unsubscribe ["a"]) = some 3 := by decide +kernel
  obtain ⟨-, -, -, -, hagain⟩ := run_returns { Inflight.empty with releases := .ofList [(2 : UInt16)] } 0
    (joining ++ [.subscribe [⟨"a", .atMostOnce⟩]]) (.unsubscribe ["a"]) 3 (by decide +kernel)
  have hiff := (hagain ⟨.subscribe 1 [⟨"a", .atMostOnce⟩], []⟩ (hrequests ▸ .head _) 1 rfl).1
  exact ⟨hrequests, hreturns, fun hwhole => absurd (hiff.2 ⟨by decide, hwhole⟩) (by decide)⟩

/-! ### One identifier that is left -/

/-- All identifiers but 1 wait for PUBCOMP. -/
def oneLeft : Inflight := { Inflight.empty with releases := .ofList ((PacketIds.round 1).erase 1) }

theorem isInUse_oneLeft {id : UInt16} (hid : id ≠ 0) : oneLeft.isInUse id = false ↔ id = 1 := by
  have hone : (1 : UInt16) ≠ 0 := by decide
  have hmem : oneLeft.isInUse id = true ↔ id ∈ (PacketIds.round 1).erase 1 := by
    rw [Inflight.isInUse, oneLeft, Inflight.empty, Std.ExtTreeMap.contains_empty, Bool.false_or,
      Std.ExtTreeSet.contains_ofList, List.contains_iff_mem]
  rw [Bool.eq_false_iff, Ne, hmem, (PacketIds.nodup_round hone).mem_erase_iff, PacketIds.mem_round_iff hone,
    and_iff_left hid, not_not]

/-- The client takes the CONNACK byte by byte, and keeps what it has kept. -/
theorem link_joining (s : Inflight) :
    let l := ((start s 0).run joining).journal.client.link
    l.state = .connected ∧ l.inflight = s := by
  intro l
  have hl : l = ((Journal.start s 0).run joining).client.link :=
    congrArg (fun j => j.client.link) (journal_run (start s 0) joining)
  have hrun : (Journal.start s 0).run joining =
      ((Journal.start s 0).connect .lasting 0).call (.receive 0 [0x20, 2, 0, 0]) := rfl
  have hh : Link.handle { ((Journal.start s 0).connect .lasting 0).client.link with keepAlive := .new 60 0 } 0
      (.connack false .accepted) = .ok l := by
    rw [hl, hrun, Journal.client_receive]
    rfl
  rcases Link.handle_ok hh with ⟨-, present, -, hl⟩ | ⟨hstate, -⟩
  · rw [hl]
    exact ⟨rfl, rfl⟩
  · exact absurd rfl hstate

/-- Where one identifier is left, a SUBSCRIBE is given it, -/
theorem subscribe_oneLeft {l : Link} (hstate : l.state = .connected) (hinflight : l.inflight = oneLeft)
    (topics : List TopicRequest) (htopics : topics.isEmpty = false) :
    (l.subscribe topics).1 = .ok 1 ∧ (l.subscribe topics).2.state = .connected ∧
      (l.subscribe topics).2.inflight = oneLeft := by
  have hasks : l.subscribe topics = l.withId fun id l => (id, l.send (.subscribe id topics)) := by
    unfold Link.subscribe
    rw [if_neg (not_not_intro hstate), if_neg (Bool.eq_false_iff.1 htopics)]
  rw [hasks]
  rcases l.withId_outcome fun id l => (id, l.send (.subscribe id topics)) with
    ⟨hall, -⟩ | ⟨-, id, packetIds, halloc, h⟩
  · have hused := hall 1 (by decide)
    rw [hinflight, ← Bool.not_eq_false, isInUse_oneLeft (by decide)] at hused
    exact absurd rfl hused
  · obtain ⟨hid, hfree⟩ := PacketIds.search_free halloc
    rw [hinflight, isInUse_oneLeft hid] at hfree
    cases hfree
    rw [h]
    exact ⟨rfl, hstate, hinflight⟩

/-- and the next one too, though the first was not answered: nothing says that the identifier is in use. -/
theorem asked_again :
    let d := (start oneLeft 0).run (joining ++ [.subscribe [⟨"a", .atMostOnce⟩]])
    ⟨.subscribe 1 [⟨"a", .atMostOnce⟩], []⟩ ∈ d.requests ∧
      d.journal.client.returns (.subscribe [⟨"b", .atMostOnce⟩]) = some 1 := by
  intro d
  let d₁ := (start oneLeft 0).run joining
  have hd : d = d₁.extend (d₁.journal.client.turns (.subscribe [⟨"a", .atMostOnce⟩]))
      (d₁.journal.call (.subscribe [⟨"a", .atMostOnce⟩])) := List.foldl_append
  obtain ⟨hstate, hinflight⟩ := link_joining oneLeft
  obtain ⟨hfirst, hstate, hinflight⟩ := subscribe_oneLeft hstate hinflight [⟨"a", .atMostOnce⟩] rfl
  have he := d₁.journal.subscribe_entry [⟨"a", .atMostOnce⟩]
  rw [hd]
  constructor
  · rw [mem_extend_iff he, hfirst]
    exact .inr ⟨_, List.mem_singleton_self _, rfl, rfl⟩
  · obtain ⟨hsecond, -, -⟩ := subscribe_oneLeft hstate hinflight [⟨"b", .atMostOnce⟩] rfl
    rw [extend, Protocol.returns_subscribe, Journal.link_subscribe, hsecond]
    rfl

end Docket

end Client

end Mqtt
