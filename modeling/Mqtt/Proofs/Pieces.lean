import Mqtt.Proofs.Arrivals

/-!
# Offering bytes in pieces

A client, and a broker with one of its connections, make of two pieces of a stream what they make of the
whole. So it is no restriction that the bytes of a world are read one at a time.
-/

namespace Mqtt

/-! ### The client -/

theorem Client.Protocol.handleBytes_append_snd (c : Protocol) (now : Nat) (as bs : List UInt8) :
    (c.handleBytes now (as ++ bs)).2 = ((c.handleBytes now as).2.handleBytes now bs).2 := by
  rw [handleBytes_append]
  rcases hr : c.handleBytes now as with ⟨e | _, c'⟩
  · have hover : c'.link.state = .disconnected := state_of_error hr
    have hnothing : c'.handleBytes now bs = (.ok (), c') := receive_of_disconnected hover now _ _ bs
    exact (congrArg Prod.snd hnothing).symm
  · rfl

/-! ### The broker -/

/-- A packet that is accepted leaves its connection the token. -/
theorem Peer.token_of_handle {p : Peer} {b : Broker} {now : Nat} {packet : Packet} {h : Peer.Handled}
    (hh : p.handle b now packet = .ok h) : h.peer.token = p.token := by
  obtain ⟨-, haccepts⟩ := Peer.handle_ok hh
  rcases haccepts.ownership with ⟨_, -, hstanding, -⟩ | ⟨_, -, hstanding, -⟩ <;>
    exact congrArg Standing.token hstanding

namespace Connection

variable {now max : Nat} {s : Decoder.State} {p : Peer} {b : Broker} {ds : Array Delivery}

/-- What is for the connection itself is written and not listed. -/
theorem receive_others (now max : Nat) (s : Decoder.State) (p : Peer) (b : Broker) (ds : Array Delivery)
    (bs : List UInt8) (hds : ∀ d ∈ ds.toList, d.token ≠ p.token) :
    ∀ d ∈ (receive now max s p b ds bs).deliveries.toList, d.token ≠ p.token := by
  induction s, p, b, bs using bytes_induction now max generalizing ds with
  | nil s p b => exact hds
  | closed s p b bs hclosed =>
    rw [receive_of_closed hclosed]
    exact hds
  | broken s p b byte bs s' e hopen hstep =>
    rw [receive_cons_error hopen hstep]
    exact hds
  | more s p b byte bs s' hopen hstep ih =>
    rw [receive_cons_none hopen hstep]
    exact ih ds hds
  | refused s p b byte bs s' packet r hopen hstep hh =>
    rw [receive_cons_refused hopen hstep hh]
    exact hds
  | handled s p b byte bs s' packet h hopen hstep hh ih =>
    have hhandled := Peer.token_of_handle hh
    have htoken : (h.peer.distribute #[] h.output).1.token = p.token := by rw [Peer.token_distribute, hhandled]
    rw [receive_cons_handled hopen hstep hh]
    rw [htoken] at ih
    refine ih _ fun d hd => ?_
    rw [Array.toList_append, List.mem_append] at hd
    rcases hd with hd | hd
    · exact hds d hd
    · rw [← htoken, Peer.token_distribute]
      simpa using (List.mem_filter.1 hd).2

/-- What comes of two pieces. A connection that the first one closed leaves the second alone. -/
theorem handleBytes_append_parts (c : Connection) (b : Broker) (now : Nat) (as bs : List UInt8) :
    let r := c.handleBytes b now as
    let r' := r.connection.handleBytes r.broker now bs
    (c.handleBytes b now (as ++ bs)).connection = r'.connection ∧
      (c.handleBytes b now (as ++ bs)).broker = r'.broker ∧
      (c.handleBytes b now (as ++ bs)).deliveries = r.deliveries ++ r'.deliveries := by
  dsimp only
  rw [handleBytes_append]
  dsimp only
  split
  · next hclosed =>
    rw [handleBytes_of_closed hclosed]
    exact ⟨rfl, rfl, Array.append_empty.symm⟩
  · exact ⟨rfl, rfl, rfl⟩

end Connection

/-! ### The broker and all connections -/

namespace Hub

variable {h : Hub} {t : Nat}

theorem eq_of_connections {h h' : Hub} (hbroker : h.broker = h'.broker)
    (hconnections : ∀ t : Nat, h.connections[t]? = h'.connections[t]?) : h = h' := by
  obtain ⟨b, cs⟩ := h
  obtain ⟨b', cs'⟩ := h'
  obtain rfl : b = b' := hbroker
  obtain rfl : cs = cs' := Std.ExtTreeMap.ext_getElem? hconnections
  rfl

theorem broker_receive {c : Connection} (hc : h.connections[t]? = some c) (now : Nat) (bs : List UInt8) :
    (h.receive t now bs).broker = (c.handleBytes h.broker now bs).broker := by
  simp [receive, hc]

/-- What is delivered to others while a connection is read. -/
theorem connections_receive {c : Connection} (hc : h.connections[t]? = some c) (now : Nat) (bs : List UInt8)
    (t' : Nat) :
    (h.receive t now bs).connections[t']? =
      (if t = t' then some (c.handleBytes h.broker now bs).connection else h.connections[t']?).map fun c' =>
        (packetsFor t' (c.handleBytes h.broker now bs).deliveries.toList).foldl Connection.send c' := by
  simp only [receive, hc]
  rw [connections_dispatch, connections_setConnection]

/-- Nothing is delivered to the connection that is read. -/
theorem receive_own {c : Connection} (ho : h.Owned) (hc : h.connections[t]? = some c) (now : Nat)
    (bs : List UInt8) :
    packetsFor t (c.handleBytes h.broker now bs).deliveries.toList = [] ∧
      (h.receive t now bs).connections[t]? = some (c.handleBytes h.broker now bs).connection := by
  obtain ⟨htoken, -⟩ := ho.settled hc
  have hothers := Connection.receive_others now c.decoder.maxPacketSize c.decoder.state c.peer h.broker #[] bs
    (List.forall_mem_nil _)
  have hnone : packetsFor t (c.handleBytes h.broker now bs).deliveries.toList = [] :=
    packetsFor_of_ne (htoken ▸ hothers)
  refine ⟨hnone, ?_⟩
  rw [connections_receive hc, if_pos rfl, hnone]
  rfl

/-- **Two pieces of a stream come to the same as the whole.** -/
theorem receive_append (ho : h.Owned) (t now : Nat) (as bs : List UInt8) :
    h.receive t now (as ++ bs) = (h.receive t now as).receive t now bs := by
  cases hc : h.connections[t]? with
  | none =>
    have hnothing (bs : List UInt8) : h.receive t now bs = h := by
      unfold receive
      rw [hc]
    rw [hnothing, hnothing, hnothing]
  | some c =>
    obtain ⟨hconnection, hbroker, hdeliveries⟩ := c.handleBytes_append_parts h.broker now as bs
    obtain ⟨-, hfirst⟩ := receive_own ho hc now as
    refine eq_of_connections ?_ fun t' => ?_
    · rw [broker_receive hc, broker_receive hfirst, broker_receive hc, hbroker]
    · rw [connections_receive hc, connections_receive hfirst, connections_receive hc, broker_receive hc,
        hconnection, hdeliveries, Array.toList_append, packetsFor_append]
      by_cases ht : t = t'
      · subst ht
        obtain ⟨hnone, -⟩ := receive_own ho hc now as
        rw [if_pos rfl, if_pos rfl, hnone, List.nil_append]
      · rw [if_neg ht, if_neg ht, if_neg ht, Option.map_map]
        congr 1
        funext c'
        exact List.foldl_append

end Hub

/-! ### Reading a world byte by byte -/

namespace World

variable {w : World} {t now : Nat} {bs : List UInt8} {s : Decoder.State} {packet : Packet}

end World

end Mqtt
