import Mqtt.Proofs.Lines
import Mqtt.Proofs.Pieces

/-!
# The journal of a client: `ClientProtocol`

A client is called in any order for whatever it offers, with any configurations, messages and bytes. The journal
beside it holds what was done: the events the application took, the connections that were opened, and of the newest
one the packets that were accepted, those that were queued, and the bytes that were written. A call opens a
connection or takes a row of turns, and `Link.Moves` lists the ways in which a turn goes; so what holds of every
journal is shown for both of these once (`Journal.run_induction`), and no proof about calls opens the protocol.
-/

namespace Mqtt.Client

/-! ### Calls -/

/-- The configuration for a session that outlives its connections. -/
def Config.lasting : Config := { clientId := "c", cleanSession := false }

/-- What a client can be called for. -/
inductive Call where
  | connect (config : Config) (now : Nat)
  | disconnect
  | publish (m : Message)
  | subscribe (topics : List TopicRequest)
  | unsubscribe (filters : List String)
  /-- The stream brought bytes, whatever they are. -/
  | receive (now : Nat) (bytes : List UInt8)
  | pollTimers (now : Nat)
  /-- The stream broke. -/
  | connectionLost (reason : String)
  /-- The application asks for an event. -/
  | nextEvent
  /-- Some bytes were written to the stream. -/
  | written (count : Nat)

/-- The PUBLISH for a message, by the result of publishing it. -/
def publishedAs (m : Message) : Except Error (Option UInt16) → List Packet
  | .ok id => [.publish (m.toPublish (id.getD 0) false)]
  | .error _ => []

/-- The request that was given an identifier. -/
def requestedAs (make : UInt16 → Packet) : Except Error UInt16 → List Packet
  | .ok id => [make id]
  | .error _ => []

namespace Link

/-- What is said when the connection ends by the client's own wish. -/
def farewell (l : Link) : List Packet := if l.state = .disconnected then [] else [.disconnect]

/-- What the timers make due. -/
def pings (l : Link) (now : Nat) : List Packet :=
  if l.state = .disconnected then []
  else if l.keepAlive.isExpired now then []
  else if (l.ping.poll now).1 then [.pingreq] else []

end Link

/-- The answer to a packet on an accepted connection. -/
def answers : Packet → List Packet
  | .publish p =>
    match p.qos with
    | .atMostOnce => []
    | .atLeastOnce => [.puback (p.packetId.getD 0)]
    | .exactlyOnce => [.pubrec (p.packetId.getD 0)]
  | .pubrec id => [.pubrel id]
  | .pubrel id => [.pubcomp id]
  | _ => []

/-- What is said on a packet that is accepted: on CONNACK everything that was not acknowledged, and then the answer
that is due. -/
def Link.replies (l : Link) (packet : Packet) : List Packet :=
  if l.state = .connecting then l.inflight.resend else answers packet

/-- The packet that a byte completes, if there is a connection and the packet is accepted. -/
def Protocol.accepts? (c : Protocol) (now : Nat) (byte : UInt8) : Option Packet :=
  if c.link.state = .disconnected then none
  else match c.decoder.completes byte with
    | none => none
    | some packet =>
      match Link.handle { c.link with keepAlive := c.link.keepAlive.restart now } now packet with
      | .ok _ => some packet
      | .error _ => none

/-! ### Journals -/

/-- A client and what was done so far. -/
structure Journal where
  client : Protocol
  /-- The events the application took. -/
  told : List Event
  /-- How many connections were opened. -/
  opened : Nat
  /-- The packets accepted on the newest connection. -/
  heard : List Packet
  /-- The packets queued for the newest connection. -/
  said : List Packet
  /-- The bytes written to the newest connection. -/
  written : List UInt8

namespace Journal

/-- A new client with the handshakes of an earlier run. -/
def start (inflight : Inflight) (maxPacketSize : Nat) : Journal :=
  { client := .new inflight maxPacketSize, told := [], opened := 0, heard := [], said := [], written := [] }

/-- All events there ever were: those the application took, and those that wait for it. -/
def events (j : Journal) : List Event := j.told ++ j.client.link.events

/-- All bytes for the newest connection: those that were written, and those that are still to be. -/
def stream (j : Journal) : List UInt8 := j.written ++ j.client.link.outbound.data.toList

/-- A connection that is opened begins with nothing but its CONNECT. -/
def connect (j : Journal) (config : Config) (now : Nat) : Journal :=
  match j.client.connect config now with
  | (.error _, client) => { j with client }
  | (.ok _, client) =>
    { j with client, opened := j.opened + 1, heard := [], said := [Link.connectPacket config], written := [] }

def receiveByte (now : Nat) (j : Journal) (byte : UInt8) : Journal :=
  { j with
    client := (j.client.handleBytes now [byte]).2
    heard := j.heard ++ (j.client.accepts? now byte).toList
    said := j.said ++ (j.client.accepts? now byte).toList.flatMap j.client.link.replies }

def call (j : Journal) : Call → Journal
  | .connect config now => j.connect config now
  | .disconnect => { j with client := j.client.disconnect, said := j.said ++ j.client.link.farewell }
  | .publish m =>
    { j with client := (j.client.publish m).2, said := j.said ++ publishedAs m (j.client.publish m).1 }
  | .subscribe topics =>
    { j with
      client := (j.client.subscribe topics).2
      said := j.said ++ requestedAs (.subscribe · topics) (j.client.subscribe topics).1 }
  | .unsubscribe filters =>
    { j with
      client := (j.client.unsubscribe filters).2
      said := j.said ++ requestedAs (.unsubscribe · filters) (j.client.unsubscribe filters).1 }
  | .receive now bytes => bytes.foldl (receiveByte now) j
  | .pollTimers now => { j with client := (j.client.pollTimers now).2, said := j.said ++ j.client.link.pings now }
  | .connectionLost reason => { j with client := j.client.connectionLost reason }
  | .nextEvent => { j with client := j.client.nextEvent.2, told := j.told ++ j.client.nextEvent.1.toList }
  | .written count =>
    { j with
      client := j.client.consume count
      written := j.written ++ j.client.link.outbound.data.toList.take count }

def run (j : Journal) (calls : List Call) : Journal := calls.foldl call j

/-- Bytes that are read one by one do to the client what they do at once. -/
theorem client_receive (j : Journal) (now : Nat) (bytes : List UInt8) :
    (j.call (.receive now bytes)).client = (j.client.handleBytes now bytes).2 := by
  rw [call]
  induction bytes generalizing j with
  | nil => rfl
  | cons byte bytes ih =>
    rw [List.foldl_cons, ih]
    exact (Protocol.handleBytes_append_snd j.client now [byte] bytes).symm

end Journal

/-! ### Turns -/

/-- The packets that a call may queue of its own accord. -/
def Call.Makes : Call → Packet → Prop
  | .connect config _, q => q = Link.connectPacket config
  | .disconnect, q => q = .disconnect
  | .publish m, q => ∃ id, q = .publish (m.toPublish id false)
  | .subscribe topics, q => topics ≠ [] ∧ ∃ id, q = .subscribe id topics
  | .unsubscribe filters, q => filters ≠ [] ∧ ∃ id, q = .unsubscribe id filters
  | .pollTimers _, q => q = .pingreq
  | _, _ => False

/-- The ways in which a turn goes: the packet that is accepted, what is said and reported, and the state and the
handshakes after it. -/
inductive Link.Moves (makes : Packet → Prop) (l : Link) :
    Option Packet → List Packet → List Event → State → Inflight → Prop
  | rests : Moves makes l none [] [] l.state l.inflight
  /-- Something is asked for that leaves the handshakes alone. -/
  | asks {q : Packet} : l.state ≠ .disconnected → makes q → Moves makes l none [q] [] l.state l.inflight
  /-- A message is kept until it is acknowledged. -/
  | keeps {m : Message} {id : UInt16} : l.state = .connected → makes (.publish (m.toPublish id false)) →
      Moves makes l none [.publish (m.toPublish id false)] [] l.state (l.inflight.track id m)
  /-- The connection ends. -/
  | ends (reason : Option String) {qs : List Packet} : l.state ≠ .disconnected → (∀ q ∈ qs, makes q) →
      Moves makes l none qs [.disconnected reason] .disconnected l.inflight
  /-- The connection is accepted. -/
  | joins (present : Bool) : l.state = .connecting →
      Moves makes l (some (.connack present .accepted)) l.inflight.resend [.connected present] .connected l.inflight
  | hears {packet : Packet} {replies : List Packet} {events : List Event} {inflight : Inflight} :
      l.state = .connected → l.Hears packet replies events inflight →
      Moves makes l (some packet) replies events l.state inflight

/-- A turn: what is said is queued behind what was, and so is what is reported. -/
structure Link.Turn (makes : Packet → Prop) (l l' : Link) (packet : Option Packet) (qs : List Packet)
    (es : List Event) : Prop where
  moves : l.Moves makes packet qs es l'.state l'.inflight
  outbound : l'.outbound.data.toList = l.outbound.data.toList ++ qs.flatMap Packet.encode
  events : l'.events = l.events ++ es

namespace Link

variable {makes : Packet → Prop} {l l' : Link}

theorem toList_outbound_send (l : Link) (q : Packet) :
    (l.send q).outbound.data.toList = l.outbound.data.toList ++ [q].flatMap Packet.encode := by
  simp [send, Packet.toBytes]

theorem Turn.rests (hstate : l'.state = l.state) (hinflight : l'.inflight = l.inflight)
    (hout : l'.outbound = l.outbound) (hevents : l'.events = l.events) : l.Turn makes l' none [] [] where
  moves := by
    rw [hstate, hinflight]
    exact .rests
  outbound := by rw [hout, List.flatMap_nil, List.append_nil]
  events := by rw [hevents, List.append_nil]

/-- A request without a handshake is refused, or made under an identifier that is free. -/
theorem request_turn {make : UInt16 → Packet} {isEmpty : Bool} (hmake : isEmpty = false → ∀ id, makes (make id))
    (l : Link) (e : Error) {outcome : Except Error UInt16 × Link}
    (h : outcome = if l.state ≠ .connected then (.error .notConnected, l) else if isEmpty then (.error e, l)
      else l.withId fun id l => (id, l.send (make id))) :
    l.Turn makes outcome.2 none (requestedAs make outcome.1) [] := by
  subst h
  split
  · exact .rests rfl rfl rfl rfl
  · next hstate =>
    split
    · exact .rests rfl rfl rfl rfl
    · next hempty =>
      have hopen : l.state ≠ .disconnected := by rw [Classical.not_not.1 hstate]; decide
      obtain ⟨packetIds, ⟨e, hid⟩ | ⟨id, -, -, hid⟩⟩ := l.withId_cases fun id l => (id, l.send (make id))
      · rw [hid]
        exact .rests rfl rfl rfl rfl
      · rw [hid]
        exact ⟨.asks hopen (hmake (Bool.eq_false_iff.2 hempty) id), toList_outbound_send _ _,
          (List.append_nil _).symm⟩

theorem subscribe_turn (l : Link) (topics : List TopicRequest) :
    l.Turn (Call.subscribe topics).Makes (l.subscribe topics).2 none
      (requestedAs (.subscribe · topics) (l.subscribe topics).1) [] :=
  request_turn (fun hempty id => ⟨List.isEmpty_eq_false_iff.1 hempty, id, rfl⟩) l _ rfl

theorem unsubscribe_turn (l : Link) (filters : List String) :
    l.Turn (Call.unsubscribe filters).Makes (l.unsubscribe filters).2 none
      (requestedAs (.unsubscribe · filters) (l.unsubscribe filters).1) [] :=
  request_turn (fun hempty id => ⟨List.isEmpty_eq_false_iff.1 hempty, id, rfl⟩) l _ rfl

theorem publish_turn (l : Link) (m : Message) :
    l.Turn (Call.publish m).Makes (l.publish m).2 none (publishedAs m (l.publish m).1) [] := by
  unfold publish
  split
  · exact .rests rfl rfl rfl rfl
  · next hstate =>
    have hconnected := Classical.not_not.1 hstate
    split
    · exact .rests rfl rfl rfl rfl
    · split
      · obtain ⟨packetIds, ⟨e, hid⟩ | ⟨id, -, -, hid⟩⟩ := l.withId_cases fun id l =>
          (some id, { l with inflight := l.inflight.track id m }.send (.publish (m.toPublish id false)))
        · rw [hid]
          exact .rests rfl rfl rfl rfl
        · rw [hid]
          exact ⟨.keeps hconnected ⟨id, rfl⟩, toList_outbound_send _ _, (List.append_nil _).symm⟩
      · refine ⟨.asks ?_ ⟨0, rfl⟩, toList_outbound_send _ _, (List.append_nil _).symm⟩
        rw [hconnected]
        decide

theorem close_turn (l₁ : Link) (hopen : l.state ≠ .disconnected) {qs : List Packet} (hqs : ∀ q ∈ qs, makes q)
    (hinflight : l₁.inflight = l.inflight)
    (hout : l₁.outbound.data.toList = l.outbound.data.toList ++ qs.flatMap Packet.encode)
    (hevents : l₁.events = l.events) (reason : Option String) :
    l.Turn makes (l₁.close reason) none qs [.disconnected reason] where
  moves := by
    rw [show (l₁.close reason).inflight = l.inflight from hinflight]
    exact .ends reason hopen hqs
  outbound := hout
  events := by
    rw [← hevents]
    rfl

theorem disconnect_turn (l : Link) :
    ∃ es, l.Turn Call.disconnect.Makes l.disconnect none l.farewell es := by
  unfold disconnect farewell
  split
  · exact ⟨_, .rests rfl rfl rfl rfl⟩
  · next hopen =>
    have hqs : ∀ q ∈ [.disconnect], Call.disconnect.Makes q := List.forall_mem_singleton.2 rfl
    exact ⟨_, close_turn (l.send .disconnect) hopen hqs rfl (toList_outbound_send l .disconnect) rfl none⟩

theorem connectionLost_turn (l : Link) (reason : String) :
    ∃ es, l.Turn (Call.connectionLost reason).Makes (l.connectionLost reason) none [] es := by
  unfold connectionLost
  split
  · exact ⟨_, .rests rfl rfl rfl rfl⟩
  · next hopen =>
    exact ⟨_, close_turn l hopen (fun _ hq => nomatch hq) rfl (List.append_nil _).symm rfl (some reason)⟩

theorem pollTimers_turn (l : Link) (now : Nat) :
    ∃ es, l.Turn (Call.pollTimers now).Makes (l.pollTimers now).2 none (l.pings now) es := by
  unfold pollTimers pings
  split
  · exact ⟨_, .rests rfl rfl rfl rfl⟩
  · next hopen =>
    split
    · exact ⟨_, close_turn l hopen (fun _ hq => nomatch hq) rfl (List.append_nil _).symm rfl _⟩
    · dsimp only
      split
      · exact ⟨_, .asks hopen rfl, toList_outbound_send _ _, (List.append_nil _).symm⟩
      · exact ⟨_, .rests rfl rfl rfl rfl⟩

/-- What is answered to a packet depends on it alone. -/
theorem Hears.replies_eq {packet : Packet} {replies : List Packet} {events : List Event} {inflight : Inflight}
    (h : l.Hears packet replies events inflight) : replies = answers packet := by
  cases h with
  | message htakes => cases htakes with
    | atMostOnce hq => simp [answers, hq]
    | atLeastOnce hq hid _ => simp [answers, hq, hid]
    | exactlyOnce hq hid _ => simp [answers, hq, hid]
  | pubrec hacks | pubrel hacks =>
    cases hacks
    rfl
  | puback | pubcomp | subscribed | unsubscribed | ponged => rfl

/-- An accepted packet is a turn. -/
theorem handle_turn (makes : Packet → Prop) {now : Nat} {packet : Packet} (hopen : l.state ≠ .disconnected)
    (h : l.handle now packet = .ok l') : ∃ es, l.Turn makes l' (some packet) (l.replies packet) es := by
  rcases handle_ok h with ⟨hstate, present, rfl, rfl⟩ | ⟨hstate, replies, events, inflight, hhears, rfl⟩
  · rw [Link.replies, if_pos hstate]
    exact ⟨_, .joins present hstate, toList_foldl_append _ _, rfl⟩
  · have hconnected : l.state = .connected := by
      cases hl : l.state with
      | connected => rfl
      | connecting => exact absurd hl hstate
      | disconnected => exact absurd hl hopen
    rw [Link.replies, if_neg hstate, ← hhears.replies_eq]
    exact ⟨events, .hears hconnected hhears, toList_foldl_append _ _, rfl⟩

/-- How long the broker may be silent is of no account. -/
theorem Hears.of_keepAlive {keepAlive : KeepAlive} {packet : Packet} {replies : List Packet} {events : List Event}
    {inflight : Inflight} (h : ({ l with keepAlive } : Link).Hears packet replies events inflight) :
    l.Hears packet replies events inflight := by
  cases h with
  | message htakes => exact .message htakes
  | puback hacks => exact .puback hacks
  | pubrec hacks => exact .pubrec hacks
  | pubrel hacks => exact .pubrel hacks
  | pubcomp hacks => exact .pubcomp hacks
  | subscribed id codes => exact .subscribed id codes
  | unsubscribed id => exact .unsubscribed id
  | ponged => exact .ponged

theorem Turn.of_keepAlive {keepAlive : KeepAlive} {packet : Option Packet} {qs : List Packet} {es : List Event}
    (h : ({ l with keepAlive } : Link).Turn makes l' packet qs es) : l.Turn makes l' packet qs es := by
  obtain ⟨hmoves, hout, hevents⟩ := h
  refine ⟨?_, hout, hevents⟩
  generalize l'.state = state, l'.inflight = inflight at hmoves ⊢
  cases hmoves with
  | rests => exact .rests
  | asks hopen hq => exact .asks hopen hq
  | keeps hconnected hq => exact .keeps hconnected hq
  | ends reason hopen hqs => exact .ends reason hopen hqs
  | joins present hstate => exact .joins present hstate
  | hears hconnected hhears => exact .hears hconnected hhears.of_keepAlive

end Link

/-- A byte is a turn. -/
theorem Protocol.handleBytes_turn (makes : Packet → Prop) (c : Protocol) (now : Nat) (byte : UInt8) :
    ∃ es, c.link.Turn makes (c.handleBytes now [byte]).2.link (c.accepts? now byte)
      ((c.accepts? now byte).toList.flatMap c.link.replies) es := by
  obtain ⟨l, max, s⟩ := c
  have hbytes : handleBytes ⟨l, ⟨max, s⟩⟩ now [byte] = receive now max s l [byte] := rfl
  have hclosed {keepAlive : KeepAlive} (hopen : l.state ≠ .disconnected) (reason : Option String) :
      ∃ es, l.Turn makes (Link.close { l with keepAlive } reason) none [] es :=
    ⟨_, Link.close_turn { l with keepAlive } hopen (fun _ hq => nomatch hq) rfl (List.append_nil _).symm rfl
      reason⟩
  rw [hbytes, receive, accepts?]
  dsimp only
  split
  · exact ⟨_, .rests rfl rfl rfl rfl⟩
  · next hopen =>
    rw [Decoder.completes]
    dsimp only
    rcases s.step max byte with ⟨s', e | _ | packet⟩
    · exact hclosed hopen (some e.message)
    · exact ⟨_, .rests rfl rfl rfl rfl⟩
    · dsimp only
      rcases hh : Link.handle { l with keepAlive := l.keepAlive.restart now } now packet with r | l'
      · have hlive : ({ l with keepAlive := l.keepAlive.restart now } : Link).state ≠ .disconnected := hopen
        dsimp only
        rw [Link.close_of_refused hlive hh]
        exact hclosed hopen (some r.error.message)
      · obtain ⟨es, hturn⟩ :=
          Link.handle_turn (l := { l with keepAlive := l.keepAlive.restart now }) makes hopen hh
        refine ⟨es, ?_⟩
        rw [Option.toList_some, List.flatMap_singleton]
        exact hturn.of_keepAlive

/-! ### Journals of runs -/

namespace Journal

/-- A turn as the journal has it. -/
structure Turn (makes : Packet → Prop) (j j' : Journal) (packet : Option Packet) (qs : List Packet)
    (es : List Event) : Prop where
  moves : j.client.link.Moves makes packet qs es j'.client.link.state j'.client.link.inflight
  stream : j'.stream = j.stream ++ qs.flatMap Packet.encode
  events : j'.events = j.events ++ es
  heard : j'.heard = j.heard ++ packet.toList
  said : j'.said = j.said ++ qs
  opened : j'.opened = j.opened

/-- A connection is opened as the journal has it. -/
structure Opens (config : Config) (j j' : Journal) : Prop where
  before : j.client.link.state = .disconnected
  after : j'.client.link.state = .connecting
  inflight : j'.client.link.inflight = if config.cleanSession then .empty else j.client.link.inflight
  stream : j'.stream = [Link.connectPacket config].flatMap Packet.encode
  events : j'.events = j.events
  heard : j'.heard = []
  said : j'.said = [Link.connectPacket config]
  opened : j'.opened = j.opened + 1

variable {makes : Packet → Prop} {j : Journal}

/-- A connection is opened if there is none. -/
theorem opens_connect (hstate : j.client.link.state = .disconnected) (config : Config) (now : Nat) :
    j.Opens config (j.connect config now) := by
  unfold connect Protocol.connect
  rw [if_neg (not_not_intro hstate)]
  have hevents : ∀ l : Link, (if config.cleanSession then
      { l with inflight := .empty, packetIds := .start } else l).events = l.events := fun l => by split <;> rfl
  refine ⟨hstate, rfl, ?_, ?_, ?_, rfl, rfl, rfl⟩
  · dsimp only
    split <;> rfl
  · simp [stream, Link.send, Packet.toBytes]
  · exact congrArg (j.told ++ ·) (hevents j.client.link)

theorem connect_of_open (hstate : j.client.link.state ≠ .disconnected) (config : Config) (now : Nat) :
    j.connect config now = j := by
  unfold connect Protocol.connect
  rw [if_pos hstate]

/-- What happens on the link, and nothing else, is a turn of the journal. -/
theorem Turn.of_link {client : Protocol} {packet : Option Packet} {qs : List Packet} {es : List Event}
    (h : j.client.link.Turn makes client.link packet qs es) :
    j.Turn makes { j with client, heard := j.heard ++ packet.toList, said := j.said ++ qs } packet qs es := by
  refine ⟨h.moves, ?_, ?_, rfl, rfl, rfl⟩
  · rw [Journal.stream, Journal.stream, List.append_assoc, ← h.outbound]
  · rw [Journal.events, Journal.events, List.append_assoc, ← h.events]

theorem Turn.of_call (client : Protocol) {qs : List Packet} {es : List Event}
    (h : j.client.link.Turn makes client.link none qs es) :
    j.Turn makes { j with client, said := j.said ++ qs } none qs es := by
  have hturn := Turn.of_link h
  rw [Option.toList_none, List.append_nil] at hturn
  exact hturn

theorem receiveByte_turn (makes : Packet → Prop) (j : Journal) (now : Nat) (byte : UInt8) :
    ∃ es, j.Turn makes (j.receiveByte now byte) (j.client.accepts? now byte)
      ((j.client.accepts? now byte).toList.flatMap j.client.link.replies) es := by
  obtain ⟨es, h⟩ := j.client.handleBytes_turn makes now byte
  exact ⟨es, .of_link h⟩

theorem nextEvent_turn (j : Journal) : j.Turn makes (j.call .nextEvent) none [] [] := by
  rw [call]
  unfold Protocol.nextEvent
  cases hevents : j.client.link.events with
  | nil => exact ⟨.rests, by simp [stream], by simp [events, hevents], by simp, by simp, rfl⟩
  | cons e es => exact ⟨.rests, by simp [stream], by simp [events, hevents], by simp, by simp, rfl⟩

theorem written_turn (j : Journal) (count : Nat) : j.Turn makes (j.call (.written count)) none [] [] := by
  refine ⟨.rests, ?_, by simp [events, call, Protocol.consume], by simp [call], by simp [call], rfl⟩
  rw [List.flatMap_nil, List.append_nil, stream, stream, call, Protocol.consume]
  dsimp only
  rw [toList_extract, List.append_assoc, List.take_append_drop]

/-- What may be said in a turn may be more. -/
theorem Turn.mono {makes' : Packet → Prop} (hmakes : ∀ q, makes q → makes' q) {j' : Journal}
    {packet : Option Packet} {qs : List Packet} {es : List Event} (h : j.Turn makes j' packet qs es) :
    j.Turn makes' j' packet qs es := by
  refine { h with moves := ?_ }
  have hmoves := h.moves
  generalize j'.client.link.state = state, j'.client.link.inflight = inflight at hmoves ⊢
  cases hmoves with
  | rests => exact .rests
  | asks hopen hq => exact .asks hopen (hmakes _ hq)
  | keeps hconnected hq => exact .keeps hconnected (hmakes _ hq)
  | ends reason hopen hqs => exact .ends reason hopen fun q hq => hmakes q (hqs q hq)
  | joins present hstate => exact .joins present hstate
  | hears hconnected hhears => exact .hears hconnected hhears

/-- A call opens a connection, or takes a row of turns. -/
theorem call_induction {P : Journal → Prop} (c : Call)
    (hopens : ∀ {j j' : Journal} {config : Config} {now : Nat}, c = .connect config now → j.Opens config j' →
      P j → P j')
    (hturn : ∀ {j j' : Journal} {packet : Option Packet} {qs : List Packet} {es : List Event},
      j.Turn c.Makes j' packet qs es → P j → P j')
    (hj : P j) : P (j.call c) := by
  cases c with
  | connect config now =>
    by_cases hstate : j.client.link.state = .disconnected
    · exact hopens rfl (opens_connect hstate config now) hj
    · rw [call, connect_of_open hstate]
      exact hj
  | disconnect =>
    obtain ⟨es, h⟩ := j.client.link.disconnect_turn
    exact hturn (.of_call j.client.disconnect h) hj
  | publish m => exact hturn (.of_call (j.client.publish m).2 (j.client.link.publish_turn m)) hj
  | subscribe topics =>
    exact hturn (.of_call (j.client.subscribe topics).2 (j.client.link.subscribe_turn topics)) hj
  | unsubscribe filters =>
    exact hturn (.of_call (j.client.unsubscribe filters).2 (j.client.link.unsubscribe_turn filters)) hj
  | receive now bytes =>
    have hbyte {j : Journal} (byte : UInt8) (hj : P j) : P (j.receiveByte now byte) := by
      obtain ⟨es, h⟩ := j.receiveByte_turn (Call.receive now bytes).Makes now byte
      exact hturn h hj
    rw [call]
    clear hopens hturn
    induction bytes generalizing j with
    | nil => exact hj
    | cons byte bytes ih => exact ih (hbyte byte hj)
  | pollTimers now =>
    obtain ⟨es, h⟩ := j.client.link.pollTimers_turn now
    exact hturn (.of_call (j.client.pollTimers now).2 h) hj
  | connectionLost reason =>
    obtain ⟨es, h⟩ := j.client.link.connectionLost_turn reason
    have hcall := Turn.of_call (j.client.connectionLost reason) h
    rw [List.append_nil] at hcall
    exact hturn hcall hj
  | nextEvent => exact hturn j.nextEvent_turn hj
  | written count => exact hturn (j.written_turn count) hj

/-- **What holds of every journal.** A connection that is opened keeps it, and so does every turn, in which nothing
is said but what one of the calls makes, and what is due. -/
theorem run_induction {P : Journal → Prop} (calls : List Call)
    (hopens : ∀ {j j' : Journal} {config : Config} {now : Nat}, .connect config now ∈ calls → j.Opens config j' →
      P j → P j')
    (hturn : ∀ {j j' : Journal} {packet : Option Packet} {qs : List Packet} {es : List Event},
      j.Turn (fun q => ∃ c ∈ calls, c.Makes q) j' packet qs es → P j → P j')
    (hj : P j) : P (j.run calls) := by
  -- The calls that are left are some of all calls, which is what the hypotheses speak of.
  have hrun (rest : List Call) (hrest : ∀ c ∈ rest, c ∈ calls) : P (j.run rest) := by
    induction rest generalizing j with
    | nil => exact hj
    | cons c rest ih =>
      have hc := hrest c (.head _)
      refine ih ?_ fun c' hc' => hrest c' (.tail _ hc')
      exact call_induction c (fun hcall => hopens (hcall ▸ hc)) (fun h => hturn (h.mono fun q hq => ⟨c, hc, hq⟩)) hj
  exact hrun calls fun _ hc => hc

end Journal

end Mqtt.Client
