import Mqtt.Proofs.Lines
import Mqtt.Proofs.Refusals
import Mqtt.Proofs.Resuming

/-!
# Who is let in: `Connection::handle_connect`

A CONNECT is turned down for its protocol, for its level or for its name, in this order, and accepted otherwise.
`Connection.handleBytes_connect` is the whole table: what is answered, what becomes of the connection and of the
broker, and in what state a client that is let in finds its session. A client without a name is given one, and that
one is free: more names than there are sessions cannot be taken (`Broker.hasSession_nextFree`).
-/

namespace Mqtt

namespace Broker

/-- Sessions without an owner are kept, and only clients with a session subscribe. -/
structure WellKept (b : Broker) : Prop where
  kept : ∀ client s, b.session? client = some s → s.owner = none → s.cleanSession = false
  subscribed : ∀ client, b.subscriptions.Mentions client → (b.session? client).isSome

variable {b : Broker} {c : Connect}

/-- What is replayed to a client goes to the owner of its session, and changes nothing but that session. -/
theorem restartSession_owner {client : String} {s : Session} {token : Nat} (hs : b.session? client = some s)
    (howner : s.owner = some token) :
    (∀ d ∈ (b.restartSession client).1, d.token = token) ∧
      ∃ s', (b.restartSession client).2 = b.setSession client s' ∧ s'.hold = s.hold := by
  obtain ⟨sent, s', h⟩ := restartSession_resumed hs howner
  rw [h.result]
  refine ⟨?_, s', rfl, h.keeps.hold⟩
  intro d hd
  rcases List.mem_append.1 hd with hd | hd
  · obtain ⟨e, -, rfl⟩ := List.mem_map.1 hd
    rfl
  · obtain ⟨q, -, rfl⟩ := List.mem_map.1 hd
    rfl

/-- A session that has an owner may be of any kind. -/
theorem WellKept.owned {client : String} {s : Session} {token : Nat} (hb : b.WellKept) (howner : s.owner = some token) :
    (b.setSession client s).WellKept := by
  refine ⟨?_, ?_⟩
  · intro other s' hs' hnone
    rw [session?_setSession] at hs'
    by_cases hother : client = other
    · rw [if_pos hother] at hs'
      cases hs'
      rw [howner] at hnone
      cases hnone
    · rw [if_neg hother] at hs'
      exact hb.kept other s' hs' hnone
  · intro other hmentions
    rw [session?_setSession]
    by_cases hother : client = other
    · rw [if_pos hother]
      rfl
    · rw [if_neg hother]
      exact hb.subscribed other hmentions

theorem WellKept.delete (hb : b.WellKept) (client : String) : (b.deleteSession client).WellKept := by
  refine ⟨?_, ?_⟩
  · intro other s hs hnone
    rw [session?_deleteSession] at hs
    split at hs
    · cases hs
    · exact hb.kept other s hs hnone
  · intro other hmentions
    obtain ⟨hbefore, hother⟩ := mentions_deleteSession hmentions
    rw [session?_deleteSession, if_neg hother]
    exact hb.subscribed other hbefore

end Broker

namespace Connection

open Broker

variable {c : Connection} {b b' : Broker} {now : Nat} {bs : List UInt8} {d : Decoder} {cn : Connect} {id : String}

/-! ### Being let in -/

theorem handle_connect (hc : c.peer.state = .awaitingConnect) (b : Broker) (now : Nat) (cn : Connect) :
    c.isClosed = false ∧ c.peer.client = none ∧
      (c.attentive now).handle b now (.connect cn) = (Peer.handleConnect now cn).outcome (c.attentive now) b := by
  obtain ⟨hopen, hnone⟩ := Peer.state_eq_awaitingConnect_iff.1 hc
  refine ⟨hopen, hnone, ?_⟩
  have hstart : (Peer.Handled.start (c.attentive now) b).peer.isClosed = false := hopen
  have hname : (Peer.Handled.start (c.attentive now) b).peer.clientId = none := Peer.client_eq_none_iff.1 hnone
  rw [Peer.handle, Peer.Handling.outcome, Peer.run_handlePacket, if_neg (by simp [hstart]), hname]
  rfl

/-- What a CONNECT that is accepted does: it is answered, and what the client is told besides follows the answer.
The client has its name and its will from then on, and owns the session of that name. Nobody else is told anything
or finds a session changed. -/
structure Admits (c : Connection) (b : Broker) (cn : Connect) (present : Bool) (told : List Delivery)
    (after : Received) : Prop where
  error : after.error = none
  state : after.connection.peer.state = .connected
  client : after.connection.peer.client = some ⟨b.nameFor cn, cn.will.map Will.message⟩
  written : after.connection.peer.outbound.data.toList = c.peer.outbound.data.toList ++
    ((Packet.connack present .accepted).encode ++ told.flatMap fun d => d.packet.encode)
  deliveries : after.deliveries = #[]
  owned : ∃ s, after.broker.session? (b.nameFor cn) = some s ∧ s.owner = some c.peer.token ∧
    s.cleanSession = cn.cleanSession
  others : ∀ other, b.nameFor cn ≠ other → after.broker.session? other = b.session? other
  retained : after.broker.retained = b.retained
  wellKept : after.broker.WellKept

/-- A packet that is accepted, and all that comes of it is for the client itself. -/
theorem handleBytes_of_own {packet : Packet} {h : Peer.Handled} (hc : c.isClosed = false)
    (hnext : c.decoder.next bs = (d, .ok (some packet), [])) (hh : (c.attentive now).handle b now packet = .ok h)
    (hown : ∀ t ∈ h.output, t.token = h.peer.token) :
    ∃ p : Peer, c.handleBytes b now bs = ⟨⟨p, d⟩, h.broker, #[], none⟩ ∧ p.state = h.peer.state ∧
      p.client = h.peer.client ∧
      p.outbound.data.toList = h.peer.outbound.data.toList ++ h.output.flatMap fun t => t.packet.encode := by
  have hothers : h.output.filter (fun t => !decide (t.token = h.peer.token)) = [] :=
    List.filter_eq_nil_iff.2 fun t ht => by simp [hown t ht]
  have hpackets : Hub.packetsFor h.peer.token h.output = h.output.map (·.packet) := by
    rw [Hub.packetsFor, List.filter_eq_self.2 fun t ht => by simpa using hown t ht]
  have hafter := handleBytes_of_handled hc hnext hh
  rw [Peer.distribute_eq, hothers, hpackets] at hafter
  refine ⟨_, hafter, rfl, rfl, ?_⟩
  rw [toList_foldl_append, List.flatMap_map]

/-- The side of the connection: all that comes of the CONNECT is for the client itself. -/
theorem handleBytes_of_introduced {told : List Delivery} {present : Bool} (hc : c.isClosed = false)
    (hnext : c.decoder.next bs = (d, .ok (some (.connect cn)), []))
    (hh : (c.attentive now).handle b now (.connect cn) =
      .ok ⟨(c.attentive now).introduce now cn id, b', c.peer.reply (.connack present .accepted) :: told, []⟩)
    (htold : ∀ t ∈ told, t.token = c.peer.token) :
    ∃ p : Peer, c.handleBytes b now bs = ⟨⟨p, d⟩, b', #[], none⟩ ∧ p.state = .connected ∧
      p.client = some ⟨id, cn.will.map Will.message⟩ ∧
      p.outbound.data.toList = c.peer.outbound.data.toList ++
        ((Packet.connack present .accepted).encode ++ told.flatMap fun d => d.packet.encode) := by
  obtain ⟨p, hafter, hstate, hclient, hwritten⟩ :=
    handleBytes_of_own hc hnext hh (List.forall_mem_cons.2 ⟨rfl, htold⟩)
  exact ⟨p, hafter, hstate.trans (Peer.state_eq_connected_iff.2 ⟨hc, rfl⟩), hclient, hwritten⟩

/-- A client comes back to its session. -/
theorem admits_resumed {s : Session} (hb : b.WellKept) (hc : c.peer.state = .awaitingConnect)
    (hnext : c.decoder.next bs = (d, .ok (some (.connect cn)), [])) (hname : cn.protocolName = protocolName)
    (hlevel : cn.protocolLevel = protocolLevel) (hwelcome : ¬ b.Unwelcome cn) (hkept : cn.cleanSession = false)
    (hs : b.session? (b.nameFor cn) = some s) :
    let restart := (b.setSession (b.nameFor cn) (s.renew c.peer.token)).restartSession (b.nameFor cn)
    Admits c b cn true restart.1 (c.handleBytes b now bs) ∧ (c.handleBytes b now bs).broker = restart.2 ∧
      (c.handleBytes b now bs).broker.subscriptions = b.subscriptions := by
  obtain ⟨hopen, -, hhandle⟩ := handle_connect hc b now cn
  obtain ⟨hne, howner⟩ := owner_of_welcome hwelcome hs
  have hid : cn.clientId = b.nameFor cn := by rw [nameFor, if_neg hne]
  have hrenewed : (b.setSession (b.nameFor cn) (s.renew c.peer.token)).session? (b.nameFor cn) =
      some (s.renew c.peer.token) := by simp
  obtain ⟨htold, s', hrestart, hhold⟩ := restartSession_owner hrenewed rfl
  have hconnect := hhandle.trans
    (Peer.handleConnect_resumed hname hlevel hne hkept (hid ▸ hs) howner)
  have htoken : (c.attentive now).token = c.peer.token := rfl
  rw [hid, htoken] at hconnect
  obtain ⟨p, hafter, hstate, hclient, hwritten⟩ := handleBytes_of_introduced hopen hnext hconnect htold
  have howner' : s'.owner = some c.peer.token := congrArg Prod.fst hhold
  have hclean : s'.cleanSession = cn.cleanSession := by
    rw [hkept, ← hb.kept _ s hs howner]
    exact congrArg Prod.snd hhold
  rw [hafter]
  refine ⟨⟨rfl, hstate, hclient, hwritten, rfl, ⟨s', ?_, howner', hclean⟩, fun other hother => ?_, ?_, ?_⟩, rfl, ?_⟩
  · rw [hrestart]
    simp
  · rw [hrestart]
    simp [hother]
  · rw [hrestart]
    rfl
  · rw [hrestart]
    exact (hb.owned rfl).owned howner'
  · rw [hrestart]
    rfl

/-- A client begins anew. -/
theorem admits_fresh (hb : b.WellKept) (hc : c.peer.state = .awaitingConnect)
    (hnext : c.decoder.next bs = (d, .ok (some (.connect cn)), [])) (hname : cn.protocolName = protocolName)
    (hlevel : cn.protocolLevel = protocolLevel) (hwelcome : ¬ b.Unwelcome cn)
    (hfresh : cn.cleanSession = true ∨ b.session? (b.nameFor cn) = none) :
    Admits c b cn false [] (c.handleBytes b now bs) ∧
      (c.handleBytes b now bs).broker.session? (b.nameFor cn) =
        some (.new c.peer.token cn.cleanSession b.options.maxQueuedMessages) ∧
      (c.handleBytes b now bs).broker.subscriptions = b.subscriptions.unsubscribeAll (b.nameFor cn) ∧
      ¬ (c.handleBytes b now bs).broker.subscriptions.Mentions (b.nameFor cn) := by
  obtain ⟨hopen, -, hhandle⟩ := handle_connect hc b now cn
  have hnamed : cn.clientId = "" → cn.cleanSession = true := by
    intro hempty
    by_contra hkept
    exact hwelcome (.inl ⟨hempty, by simpa using hkept⟩)
  have hfree : ∀ s, b.session? (b.nameFor cn) = some s → s.owner = none ∧ cn.cleanSession = true := by
    intro s hs
    refine ⟨(owner_of_welcome hwelcome hs).2, hfresh.resolve_right ?_⟩
    rw [hs]
    exact Option.some_ne_none s
  obtain ⟨n, hconnect⟩ := @Peer.handleConnect_fresh (c.attentive now) b now cn hname hlevel hnamed hfree
  obtain ⟨p, hafter, hstate, hclient, hwritten⟩ :=
    handleBytes_of_introduced hopen hnext (hhandle.trans hconnect) nofun
  have hcounted : ({ b with assigned := n } : Broker).WellKept := ⟨hb.kept, hb.subscribed⟩
  have hkept : ((({ b with assigned := n } : Broker).deleteSession (b.nameFor cn)).newSession (b.nameFor cn)
      c.peer.token cn.cleanSession).WellKept := (hcounted.delete (b.nameFor cn)).owned rfl
  have hsession : ((({ b with assigned := n } : Broker).deleteSession (b.nameFor cn)).newSession (b.nameFor cn)
      c.peer.token cn.cleanSession).session? (b.nameFor cn) =
        some (.new c.peer.token cn.cleanSession b.options.maxQueuedMessages) := by
    rw [session?_newSession, if_pos rfl]
    rfl
  rw [hafter]
  refine ⟨⟨rfl, hstate, hclient, hwritten, rfl, ⟨_, hsession, rfl, rfl⟩, fun other hother => ?_, rfl, hkept⟩,
    hsession, rfl, fun hmentions => (mentions_deleteSession hmentions).2 rfl⟩
  rw [session?_newSession, if_neg hother, session?_deleteSession, if_neg hother]
  rfl

/-- **The answer to a CONNECT.** A connection that has not been greeted yet takes in a CONNECT, and nothing else. A
wrong protocol breaks it off without a word, a wrong level with the code for that, and a name that is unwelcome with
the code for that, in this order; the broker is as it was then, and nobody has learnt anything. Any other CONNECT is
accepted. Where a session is kept and no clean one is asked for, the client gets it back with its queue, its
handshakes and its subscriptions, and what is due of them is sent. Else it begins with an empty one that is clean if
it asked for that, and without a subscription, whatever it had before; a name that was made up had no session. -/
theorem handleBytes_connect (hb : b.WellKept) (hc : c.peer.state = .awaitingConnect)
    (hnext : c.decoder.next bs = (d, .ok (some (.connect cn)), [])) (now : Nat) :
    let before : Received := ⟨c, b, #[], none⟩
    let after := c.handleBytes b now bs
    (cn.protocolName ≠ protocolName → BreaksOff before after none (.invalidProtocolName cn.protocolName)) ∧
    (cn.protocolName = protocolName → cn.protocolLevel ≠ protocolLevel →
      BreaksOff before after (some .unacceptableProtocolVersion) (.unsupportedProtocolVersion cn.protocolLevel)) ∧
    (cn.protocolName = protocolName → cn.protocolLevel = protocolLevel → b.Unwelcome cn →
      BreaksOff before after (some .identifierRejected) (.identifierRejected cn.clientId)) ∧
    (cn.protocolName = protocolName → cn.protocolLevel = protocolLevel → ¬ b.Unwelcome cn →
      (cn.clientId = "" → b.session? (b.nameFor cn) = none) ∧
      (∀ s, cn.cleanSession = false → b.session? (b.nameFor cn) = some s →
        let restart := (b.setSession (b.nameFor cn) (s.renew c.peer.token)).restartSession (b.nameFor cn)
        Admits c b cn true restart.1 after ∧ after.broker = restart.2 ∧
          after.broker.subscriptions = b.subscriptions) ∧
      (cn.cleanSession = true ∨ b.session? (b.nameFor cn) = none →
        Admits c b cn false [] after ∧
          after.broker.session? (b.nameFor cn) =
            some (.new c.peer.token cn.cleanSession b.options.maxQueuedMessages) ∧
          after.broker.subscriptions = b.subscriptions.unsubscribeAll (b.nameFor cn) ∧
          ¬ after.broker.subscriptions.Mentions (b.nameFor cn))) := by
  intro before after
  obtain ⟨hopen, -, hhandle⟩ := handle_connect hc b now cn
  refine ⟨fun hname => ?_, fun hname hlevel => ?_, fun hname hlevel hunwelcome => ?_,
    fun hname hlevel hwelcome => ⟨fun hempty => ?_, ?_, ?_⟩⟩
  · exact breaksOff_of_refused hopen hnext (hhandle.trans (Peer.handleConnect_name hname)) rfl
  · exact breaksOff_of_refused hopen hnext (hhandle.trans (Peer.handleConnect_level hname hlevel)) rfl
  · exact breaksOff_of_refused hopen hnext (hhandle.trans (Peer.handleConnect_unwelcome hname hlevel hunwelcome)) rfl
  · rw [nameFor, if_pos hempty]
    exact b.session?_assignClientId
  · intro s hkept hs
    exact admits_resumed hb hc hnext hname hlevel hwelcome hkept hs
  · intro hfresh
    exact admits_fresh hb hc hnext hname hlevel hwelcome hfresh

/-- A CONNECT of "c" that asks for the session it left. -/
def comesBack : List UInt8 := [0x10, 13, 0, 4, 77, 81, 84, 84, 4, 0, 0, 0, 0, 1, 99]

/-- A broker that "c" left while a message waited. -/
def leftBehind : Broker := (Broker.new {}).setSession "c" visitor.retain

/-- The client is told that its session is there, and owns it. -/
theorem handleBytes_connect_back :
    let c := Connection.new 2 {} 0
    let cn : Connect := ⟨"MQTT", 4, false, 0, "c", none, none, none⟩
    leftBehind.WellKept ∧ c.peer.state = .awaitingConnect ∧
      ∃ d, c.decoder.next comesBack = (d, .ok (some (.connect cn)), []) ∧
      ∃ told, Admits c leftBehind cn true told (c.handleBytes leftBehind 0 comesBack) := by
  intro c cn
  have hsession : leftBehind.session? "c" = some visitor.retain := by simp [leftBehind]
  have hb : leftBehind.WellKept := by
    refine ⟨fun client s hs _ => ?_, fun client hmentions => ?_⟩
    · rw [leftBehind, session?_setSession] at hs
      split at hs
      · cases hs
        rfl
      · simp [session?, Broker.new] at hs
    · have hnone : SubscriptionTree.empty.Only fun _ => False := SubscriptionTree.only_empty
      exact (SubscriptionTree.only_iff.1 hnone client hmentions).elim
  have hstate : c.peer.state = .awaitingConnect := rfl
  have hpacket : (c.decoder.next comesBack).2 = (.ok (some (.connect cn)), []) := by decide +kernel
  have hnext : c.decoder.next comesBack = ((c.decoder.next comesBack).1, .ok (some (.connect cn)), []) :=
    Prod.ext rfl hpacket
  have hwelcome : ¬ leftBehind.Unwelcome cn := by
    rintro (⟨hempty, -⟩ | ⟨-, s, token, hs, howner⟩)
    · exact absurd hempty (by decide)
    · cases hsession.symm.trans hs
      cases howner
  obtain ⟨-, -, -, haccepted⟩ := handleBytes_connect hb hstate hnext 0
  obtain ⟨-, hresumed, -⟩ := haccepted rfl rfl hwelcome
  exact ⟨hb, hstate, _, hnext, _, (hresumed _ rfl hsession).1⟩

end Connection

end Mqtt
