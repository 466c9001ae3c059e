import Mqtt.Proofs.Journal

/-!
# What a client takes for a duplicate: `ClientProtocol::handle_connack`

A PUBLISH for exactly-once delivery leaves its identifier with the client until PUBREL, and is not reported while
its identifier is there. The identifiers are kept when a connection ends, and `Protocol.connect` drops them only for
a clean session: whether the server still has the session is said in its CONNACK, and `Link.handleConnack` only
reports it. So the first message under an identifier on a connection is reported unless the identifier was kept from
before and is not released yet (`Journal.run_first_reported`), and where the server has begun a new session a new
message is lost (`Journal.stale_swallowed`).
-/

namespace Mqtt.Client

/-- The identifiers that wait for PUBREL once a packet is accepted. -/
def awaiting (ids : Std.ExtTreeSet UInt16) : Packet → Std.ExtTreeSet UInt16
  | .publish p => if p.qos = .exactlyOnce then ids.insert (p.packetId.getD 0) else ids
  | .pubrel id => ids.erase id
  | _ => ids

theorem Link.Hears.received {l : Link} {packet : Packet} {replies : List Packet} {events : List Event}
    {inflight : Inflight} (h : l.Hears packet replies events inflight) :
    inflight.received = awaiting l.inflight.received packet := by
  cases h with
  | message htakes =>
    cases htakes with
    | atMostOnce hq | atLeastOnce hq => simp [awaiting, hq]
    | exactlyOnce hq hid => simp [awaiting, hq, hid]
  | puback hacks | pubrec hacks | pubrel hacks | pubcomp hacks =>
    cases hacks
    rfl
  | subscribed | unsubscribed | ponged => rfl

/-- Only packets that are accepted change what waits. -/
theorem Link.Moves.received {makes : Packet → Prop} {l : Link} {packet : Option Packet} {qs : List Packet}
    {es : List Event} {s : State} {inflight : Inflight} (h : l.Moves makes packet qs es s inflight) :
    inflight.received = packet.toList.foldl awaiting l.inflight.received := by
  cases h with
  | rests | asks | keeps | ends | joins => rfl
  | hears _ hhears => exact hhears.received

/-- A client waits for CONNACK until it accepts one, and nothing else. -/
theorem Link.Moves.awaits_connack {makes : Packet → Prop} {l : Link} {packet : Option Packet} {qs : List Packet}
    {es : List Event} {s : State} {inflight : Inflight} (h : l.Moves makes packet qs es s inflight) :
    (s = .connecting → l.state = .connecting ∧ packet = none) ∧
      (s = .connected → l.state = .connected ∨
        l.state = .connecting ∧ ∃ present, packet = some (.connack present .accepted)) := by
  cases h with
  | rests | asks | keeps => exact ⟨fun hs => ⟨hs, rfl⟩, .inl⟩
  | ends => exact ⟨nofun, nofun⟩
  | joins present hstate => exact ⟨nofun, fun _ => .inr ⟨hstate, present, rfl⟩⟩
  | hears hstate => exact ⟨fun hs => (nomatch hstate.symm.trans hs), .inl⟩

/-- An identifier under which nothing came waits if it waited before and was not released. -/
theorem mem_foldl_awaiting {id : UInt16} (hid : id ≠ 0) {ps : List Packet}
    (hps : ∀ p, .publish p ∈ ps → p.qos = .exactlyOnce → p.packetId ≠ some id) (ids : Std.ExtTreeSet UInt16) :
    id ∈ ps.foldl awaiting ids ↔ id ∈ ids ∧ .pubrel id ∉ ps := by
  induction ps generalizing ids with
  | nil => simp
  | cons q ps ih =>
    rw [List.foldl_cons, ih fun p hp => hps p (.tail _ hp), List.mem_cons, not_or]
    -- Only a PUBLISH under the identifier could put it in, and only its PUBREL takes it out.
    have hsame (hrel : q ≠ .pubrel id) (hq : id ∈ awaiting ids q ↔ id ∈ ids) :
        (id ∈ awaiting ids q ∧ .pubrel id ∉ ps) ↔ id ∈ ids ∧ .pubrel id ≠ q ∧ .pubrel id ∉ ps := by
      rw [hq, and_congr_right_iff]
      exact fun _ => (and_iff_right (Ne.symm hrel)).symm
    cases q with
    | publish p =>
      refine hsame nofun ?_
      rw [awaiting]
      split
      · next hq =>
        have hne : p.packetId.getD 0 ≠ id := by
          cases hp : p.packetId with
          | none => exact Ne.symm hid
          | some id' => exact fun h => hps p (.head _) hq (by rw [hp]; exact congrArg some h)
        simp [Std.ExtTreeSet.mem_insert, hne]
      · exact Iff.rfl
    | pubrel id' =>
      by_cases h : id' = id
      · simp [awaiting, h]
      · refine hsame (fun heq => h (by cases heq; rfl)) ?_
        simp [awaiting, Std.ExtTreeSet.mem_erase, h]
    | connect | connack | puback | pubrec | pubcomp | subscribe | suback | unsubscribe | unsuback | pingreq
    | pingresp | disconnect => exact hsame nofun Iff.rfl

namespace Journal

/-- While the `n`th connection is the newest, what waits came from these identifiers by the packets that were accepted
on it, and the first of these accepted the connection. -/
structure Awaits (n : Nat) (ids : Std.ExtTreeSet UInt16) (j : Journal) : Prop where
  opened : n ≤ j.opened
  received : j.opened = n → j.client.link.inflight.received = j.heard.foldl awaiting ids
  silent : j.opened = n → j.client.link.state = .connecting → j.heard = []
  accepted : j.opened = n → j.client.link.state = .connected →
    ∃ present rest, j.heard = .connack present .accepted :: rest

variable {j j' : Journal} {n : Nat} {ids : Std.ExtTreeSet UInt16} {config : Config}

/-- As a connection is opened nothing was accepted on it, and a clean session remembers nothing. -/
theorem Opens.awaits (ho : j.Opens config j') :
    j'.Awaits (j.opened + 1) (if config.cleanSession then ∅ else j.client.link.inflight.received) := by
  refine ⟨Nat.le_of_eq ho.opened.symm, fun _ => ?_, fun _ _ => ho.heard, fun _ hstate => ?_⟩
  · rw [ho.inflight, ho.heard, List.foldl_nil]
    split <;> rfl
  · exact nomatch ho.after.symm.trans hstate

/-- The next connection is another one. -/
theorem Awaits.opens (h : j.Awaits n ids) (ho : j.Opens config j') : j'.Awaits n ids := by
  have hlt : n < j'.opened := by rw [ho.opened]; exact Nat.lt_succ_of_le h.opened
  have hother {α : Prop} (heq : j'.opened = n) : α := absurd heq (Nat.ne_of_gt hlt)
  exact ⟨Nat.le_of_lt hlt, hother, hother, hother⟩

theorem Awaits.turn {makes : Packet → Prop} {packet : Option Packet} {qs : List Packet} {es : List Event}
    (h : j.Awaits n ids) (ht : j.Turn makes j' packet qs es) : j'.Awaits n ids := by
  obtain ⟨hsilent, haccepted⟩ := ht.moves.awaits_connack
  refine ⟨ht.opened ▸ h.opened, fun hn => ?_, fun hn hstate => ?_, fun hn hstate => ?_⟩
  · rw [ht.moves.received, h.received (ht.opened ▸ hn), ht.heard, List.foldl_append]
  · obtain ⟨hbefore, hnone⟩ := hsilent hstate
    rw [ht.heard, h.silent (ht.opened ▸ hn) hbefore, hnone]
    rfl
  · rw [ht.heard]
    rcases haccepted hstate with hbefore | ⟨hbefore, present, hone⟩
    · obtain ⟨present, rest, hheard⟩ := h.accepted (ht.opened ▸ hn) hbefore
      exact ⟨present, rest ++ packet.toList, by rw [hheard, List.cons_append]⟩
    · rw [h.silent (ht.opened ▸ hn) hbefore, hone]
      exact ⟨present, [], rfl⟩

end Journal

/-! ### The first message under an identifier -/

/-- On an accepted connection a message due for exactly-once delivery is taken, and reported unless its identifier
waits. -/
theorem Link.handle_exactlyOnce {l : Link} (now : Nat) {p : Publish} {id : UInt16} (hstate : l.state = .connected)
    (hq : p.qos = .exactlyOnce) (hid : p.packetId = some id) (hne : id ≠ 0) :
    ∃ l', l.handle now (.publish p) = .ok l' ∧ l'.events = l.events ++
      if id ∈ l.inflight.received then [] else [.message p.topic p.payload p.qos p.retain] := by
  have htakes : l.inflight.Takes p ⟨!l.inflight.received.contains id, some (.pubrec id)⟩
      { l.inflight with received := l.inflight.received.insert id } :=
    .exactlyOnce hq (by rw [hid]; rfl) hne
  have hrun : (handlePacket now (.publish p)).run l = (handlePublish p).run l := by
    rw [run_handlePacket, hstate]
    rfl
  have hhandle : ∃ l', l.handle now (.publish p) = .ok l' ∧ l' =
      l.after [.pubrec id] (if l.inflight.received.contains id then [] else [.message p.topic p.payload p.qos p.retain])
        { l.inflight with received := l.inflight.received.insert id } := by
    refine ⟨_, handle_eq_ok.2 (hrun.trans ?_), rfl⟩
    rw [handlePublish, run_withInflight_bind, htakes.onPublish]
    cases l.inflight.received.contains id <;> simp [after, send, report]
  obtain ⟨l', hok, rfl⟩ := hhandle
  refine ⟨_, hok, ?_⟩
  by_cases hmem : id ∈ l.inflight.received
  · rw [if_pos hmem, after, if_pos (Std.ExtTreeSet.mem_iff_contains.1 hmem)]
  · rw [if_neg hmem, after, if_neg (by rwa [← Std.ExtTreeSet.mem_iff_contains])]

/-- So it is when the last byte of the message comes. -/
theorem Protocol.events_of_completes {c : Protocol} {now : Nat} {byte : UInt8} {p : Publish} {id : UInt16}
    (hstate : c.state = .connected) (hbyte : c.decoder.completes byte = some (.publish p))
    (hq : p.qos = .exactlyOnce) (hid : p.packetId = some id) (hne : id ≠ 0) :
    (c.handleBytes now [byte]).2.link.events = c.link.events ++
      if id ∈ c.inflight.received then [] else [.message p.topic p.payload p.qos p.retain] := by
  obtain ⟨l, max, s⟩ := c
  have hbytes : handleBytes ⟨l, ⟨max, s⟩⟩ now [byte] = receive now max s l [byte] := rfl
  obtain ⟨l', hhandle, hevents⟩ := Link.handle_exactlyOnce
    (l := { l with keepAlive := l.keepAlive.restart now }) now hstate hq hid hne
  have hopen : l.state ≠ .disconnected := fun h => nomatch hstate.symm.trans h
  unfold Decoder.completes at hbyte
  rw [hbytes, receive, if_neg hopen]
  dsimp only at hbyte ⊢
  split at hbyte
  · next s' packet hstep =>
    subst hbyte
    rw [hstep]
    dsimp only
    rw [hhandle]
    exact hevents
  · cases hbyte

namespace Journal

/-- The application takes no event while bytes are received. -/
theorem events_receive (j : Journal) (now : Nat) (bytes : List UInt8) :
    (j.call (.receive now bytes)).events = j.told ++ (j.client.handleBytes now bytes).2.link.events := by
  have htold (bytes : List UInt8) (j : Journal) : (bytes.foldl (receiveByte now) j).told = j.told := by
    induction bytes generalizing j with
    | nil => rfl
    | cons byte bytes ih => exact ih (j.receiveByte now byte)
  rw [events, client_receive, call, htold]

/-- **When the first message under an identifier is reported.** A client made any calls, opened a connection, and
made any calls since without opening another; the connection was accepted. Now the last byte comes of a message due
for exactly-once delivery, and none came on this connection under its identifier. It is reported, and nothing else
is, unless the session is not a clean one and the client kept the identifier from before and accepted no PUBREL for
it on this connection: then nothing is. -/
theorem run_first_reported (inflight : Inflight) (maxPacketSize : Nat) (before : List Call) {config : Config}
    (after : List Call) {now₀ now : Nat} {byte : UInt8} {p : Publish} {id : UInt16} :
    let j₀ := (start inflight maxPacketSize).run before
    let j := (j₀.connect config now₀).run after
    j₀.client.state = .disconnected → j.opened = j₀.opened + 1 → j.client.state = .connected →
    j.client.decoder.completes byte = some (.publish p) → p.qos = .exactlyOnce → p.packetId = some id → id ≠ 0 →
    (∀ p', .publish p' ∈ j.heard → p'.qos = .exactlyOnce → p'.packetId ≠ some id) →
    (∃ present rest, j.heard = .connack present .accepted :: rest) ∧
      (j.call (.receive now [byte])).events = j.events ++
        if config.cleanSession = false ∧ id ∈ j₀.client.inflight.received ∧ .pubrel id ∉ j.heard then []
        else [.message p.topic p.payload p.qos p.retain] := by
  intro j₀ j hbefore hopened hstate hbyte hq hid hne hfirst
  -- No other connection was opened since, so `Awaits` still speaks of this one.
  have hawaits : j.Awaits (j₀.opened + 1) (if config.cleanSession then ∅ else j₀.client.inflight.received) :=
    run_induction (P := (Awaits (j₀.opened + 1) _ ·)) after (fun _ ho h => h.opens ho) (fun ht h => h.turn ht)
      (opens_connect hbefore config now₀).awaits
  have hwaits : id ∈ j.client.inflight.received ↔
      config.cleanSession = false ∧ id ∈ j₀.client.inflight.received ∧ .pubrel id ∉ j.heard := by
    rw [show j.client.inflight.received = _ from hawaits.received hopened, mem_foldl_awaiting hne hfirst]
    cases config.cleanSession with
    | true => simp
    | false => simp
  refine ⟨hawaits.accepted hopened hstate, ?_⟩
  rw [events_receive, Protocol.events_of_completes hstate hbyte hq hid hne, ← List.append_assoc,
    if_congr hwaits rfl rfl]
  rfl

/-- A message under identifier 5 came, and the connection was lost before PUBREL. -/
def interrupted : Journal :=
  (start .empty 0).run [.connect .lasting 0, .receive 0 [0x20, 2, 0, 0],
    .receive 0 [0x34, 6, 0, 1, 97, 0, 5, 49], .connectionLost "gone"]

/-- What comes next from a server without a session: CONNACK, and another message under identifier 5 up to its last
byte. -/
def renewed : List Call := [.receive 0 [0x20, 2, 0, 0], .receive 0 [0x34, 6, 0, 1, 97, 0, 5]]

/-- That message. -/
def another : Publish :=
  { dup := false, qos := .exactlyOnce, retain := false, topic := "a", packetId := some 5, payload := ⟨#[50]⟩ }

/-- A clean session has forgotten the identifier. -/
theorem run_first_reported_clean :
    let j := (interrupted.connect {} 0).run renewed
    (j.call (.receive 0 [50])).events = j.events ++ [.message "a" ⟨#[50]⟩ .exactlyOnce false] := by
  intro j
  have hheard : j.heard = [.connack false .accepted] := by decide +kernel
  have hfirst : ∀ p', .publish p' ∈ j.heard → p'.qos = .exactlyOnce → p'.packetId ≠ some 5 := by
    rw [hheard]
    exact fun _ hp => nomatch hp
  exact (run_first_reported .empty 0 _ renewed (by decide +kernel) (by decide +kernel) (by decide +kernel)
    (p := another) (by decide +kernel) rfl rfl (by decide) hfirst).2

/-- A session that is not clean has not, though the CONNACK says that the server has none: the message is taken for
the one before, and lost. -/
theorem stale_swallowed :
    let j := (interrupted.connect .lasting 0).run renewed
    j.client.state = .connected ∧ j.heard = [.connack false .accepted] ∧
      j.client.decoder.completes 50 = some (.publish another) ∧
      (j.call (.receive 0 [50])).heard = [.connack false .accepted, .publish another] ∧
      (j.call (.receive 0 [50])).events = j.events := by
  decide +kernel

end Journal

end Mqtt.Client
