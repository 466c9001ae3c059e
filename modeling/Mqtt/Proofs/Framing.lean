import Mqtt.Proofs.Packets
import Mqtt.Proofs.StreamCuts

/-!
# Reading what was written: `Packet::encode`, `PacketDecoder::decode`

The bytes of any packet, given to a decoder between two packets, bring a packet with the same first byte and
the same body and leave the decoder between two packets again, or they are refused: for their size, or for a
text with U+0000 in it. That packet is the one that was written if its texts fit. The length of a text is
written modulo 65536, so where a longer one was written only a part of it is read (`Wire.readBack`), and what
follows it is read as something else.
-/

namespace Mqtt

theorem Reader.Reads.unique {α : Type} {r : Reader α} {bs rest rest' : List UInt8} {a a' : α}
    (h : r.Reads bs a rest) (h' : r.Reads bs a' rest') : a = a' ∧ rest = rest' := by
  obtain ⟨ha, hrest⟩ := Prod.mk.inj (h.symm.trans h')
  cases ha
  exact ⟨rfl, hrest⟩

namespace Wire

variable {s t : String} {as bs : List UInt8}

theorem word_append_inj {n m : UInt16} (h : word n ++ as = word m ++ bs) : n = m ∧ as = bs :=
  (Reader.reads_word_iff.2 rfl).unique (Reader.reads_word_iff.2 h)

/-- Where a text that fits ends is seen from its bytes. -/
theorem text_append_inj (hs : s.utf8ByteSize ≤ 65535) (ht : t.utf8ByteSize ≤ 65535) (h : text s ++ as = text t ++ bs) :
    s = t ∧ as = bs := by
  have hread : Reader.binary.Reads (text s ++ as) s.toUTF8 as := Reader.reads_binary_iff.2 ⟨by simpa using hs, rfl⟩
  have hread' : Reader.binary.Reads (text s ++ as) t.toUTF8 bs := Reader.reads_binary_iff.2 ⟨by simpa using ht, h⟩
  obtain ⟨hbytes, hrest⟩ := hread.unique hread'
  exact ⟨String.toByteArray_inj.1 hbytes, hrest⟩

/-- What is read where a text was written. -/
def readBack (s : String) : String :=
  match (Reader.text.feed (text s)).1 with
  | .done t => t
  | _ => ""

/-- A text that is read at the front of what was written for a text. -/
theorem eq_readBack (h : text s ++ as = text t ++ bs) (ht : IsText t) : t = readBack s := by
  -- the length that was written is that of `t`, so what was written goes on at least as far
  have hlength : t.utf8ByteSize ≤ s.utf8ByteSize := by
    unfold text binary at h
    rw [List.append_assoc, List.append_assoc] at h
    have hword := congrArg UInt16.toNat (word_append_inj h).1
    rw [UInt16.toNat_ofNat', UInt16.toNat_ofNat'] at hword
    simp only [String.toUTF8_eq_toByteArray, String.size_toByteArray] at hword
    have hfits := ht.1
    omega
  have hprefix : text t <+: text s := by
    refine List.prefix_of_prefix_length_le (List.prefix_append _ bs) (h ▸ List.prefix_append _ as) ?_
    rw [length_text, length_text]
    exact Nat.add_le_add_left hlength 2
  obtain ⟨more, hmore⟩ := hprefix
  have hread : Reader.text.Reads (text s) t more := Reader.reads_text_iff.2 ⟨ht, hmore.symm⟩
  rw [readBack, hread]

end Wire

/-! ### What becomes of a packet -/

namespace Packet

/-- The texts before what the other side looks at are short enough to be written, and an identifier is there
exactly when it is written. -/
def Writable : Packet → Prop
  | .connect c => c.protocolName.utf8ByteSize ≤ 65535
  | .publish p => p.topic.utf8ByteSize ≤ 65535 ∧ p.packetId.isSome = p.qos.isAcknowledged
  | _ => True

/-- What may be read where a packet was written. Of a SUBSCRIBE and its like only the kind is kept, and
of a CONNECT who it comes from and whose session it asks for. -/
def Becomes : Packet → Packet → Prop
  | .connect c, q => ∃ c', q = .connect c' ∧ c'.clientId = Wire.readBack c.clientId ∧ c'.cleanSession = c.cleanSession
  | .publish p, q => q = .publish p
  | .connack present code, q => q = .connack present code
  | .puback id, q => q = .puback id
  | .pubrec id, q => q = .pubrec id
  | .pubrel id, q => q = .pubrel id
  | .pubcomp id, q => q = .pubcomp id
  | p, q => q.type = p.type

variable {p q : Packet}

theorem firstByte_inj : q.firstByte = p.firstByte ↔ q.type = p.type ∧ q.flags = p.flags := by
  obtain ⟨htype, hflags⟩ := eq_firstByte_iff.1 (rfl : q.firstByte = q.firstByte)
  rw [eq_firstByte_iff, htype, hflags, ← PacketType.ofCode?_eq_some_iff, PacketType.ofCode?_code, Option.some.injEq]

/-- The flags of CONNECT are a few bits, so all their values are tried. -/
theorem connect_flags (c : Connect) : c.flags &&& 0x02 ≠ 0 ↔ c.cleanSession = true := by
  have hall (f : Body.ConnectFlags) : f.toByte &&& 0x02 ≠ 0 ↔ f.cleanSession = true := by
    obtain ⟨username, password, retain, qos, will, clean⟩ := f
    cases username <;> cases password <;> cases retain <;> cases qos <;> cases will <;> cases clean <;> decide
  rw [Body.flags_eq_announced]
  exact hall (Body.announced c)

/-- What follows the client's identifier in a CONNECT changes neither it nor the session asked for. -/
theorem becomes_connect {c c' : Connect} (hc : (Packet.connect c).Writable) (hc' : c'.WellFormed)
    (hbody : connectBody c' = connectBody c) : (Packet.connect c).Becomes (.connect c') := by
  unfold connectBody at hbody
  simp only [List.append_assoc, List.cons_append, List.nil_append] at hbody
  obtain ⟨-, hlevel⟩ := Wire.text_append_inj hc'.protocolName.1 hc hbody
  obtain ⟨-, hflags⟩ := List.cons.inj hlevel
  obtain ⟨hflags, hkeepAlive⟩ := List.cons.inj hflags
  obtain ⟨-, hid⟩ := Wire.word_append_inj hkeepAlive
  refine ⟨c', rfl, Wire.eq_readBack hid.symm hc'.clientId, ?_⟩
  rw [Bool.eq_iff_iff, ← connect_flags, ← connect_flags, hflags]

/-- A PUBLISH whose topic fits is read as it was written. -/
theorem becomes_publish {m m' : Publish} (hm : (Packet.publish m).Writable) (hm' : m'.WellFormed)
    (hflags : m'.flags = m.flags) (hbody : publishBody m' = publishBody m) : m' = m := by
  obtain ⟨hqos, hdup, hretain⟩ := (Body.eq_publish_flags_iff (Body.publish_flags_lt m)).1 rfl
  obtain ⟨hqos', hdup', hretain'⟩ := (Body.eq_publish_flags_iff (Body.publish_flags_lt m)).1 hflags.symm
  have hsameQoS : m.qos = m'.qos := Option.some.inj (hqos.symm.trans hqos')
  have hsameDup : m.dup = m'.dup := hdup.trans hdup'.symm
  have hsameRetain : m.retain = m'.retain := hretain.trans hretain'.symm
  unfold publishBody at hbody
  rw [List.append_assoc, List.append_assoc] at hbody
  obtain ⟨hsameTopic, hrest⟩ := Wire.text_append_inj hm'.1.1 hm.1 hbody
  have hid := hm.2
  have hid' := hm'.2
  clear hm hm' hflags hbody hqos hdup hretain hqos' hdup' hretain'
  obtain ⟨dup, qos, retain, topic, packetId, payload⟩ := m
  obtain ⟨dup', qos', retain', topic', packetId', payload'⟩ := m'
  dsimp only at *
  subst hsameQoS hsameDup hsameRetain hsameTopic
  by_cases hq : qos = .atMostOnce
  · rw [if_pos hq, if_pos hq, List.nil_append, List.nil_append] at hrest
    have hnone : qos.isAcknowledged = false := by rw [hq]; rfl
    rw [hnone, Option.isSome_eq_false_iff, Option.isNone_iff_eq_none] at hid hid'
    rw [hid, hid', ByteArray.ext (Array.toList_inj.1 hrest)]
  · rw [if_neg hq, if_neg hq] at hrest
    have hsome : qos.isAcknowledged = true := by cases qos <;> first | rfl | exact absurd rfl hq
    rw [hsome] at hid hid'
    obtain ⟨id, rfl⟩ := Option.isSome_iff_exists.1 hid
    obtain ⟨id', rfl⟩ := Option.isSome_iff_exists.1 hid'
    obtain ⟨hsame, hpayload⟩ := Wire.word_append_inj hrest
    rw [Option.getD_some, Option.getD_some] at hsame
    rw [hsame, ByteArray.ext (Array.toList_inj.1 hpayload)]

theorem body_ack_inj {id id' : UInt16} (h : Wire.word id' = Wire.word id) : id' = id := by
  have happend : Wire.word id' ++ [] = Wire.word id ++ [] := congrArg (· ++ []) h
  exact (Wire.word_append_inj happend).1

/-- **What becomes of a packet**: a packet with its first byte and its body. -/
theorem becomes_of_body (hp : p.Writable) (hq : q.FieldsFit) (hfirst : q.firstByte = p.firstByte)
    (hbody : q.body = p.body) : p.Becomes q := by
  obtain ⟨htype, hflags⟩ := firstByte_inj.1 hfirst
  cases p with
  | connect c => cases q with
    | connect c' => exact becomes_connect hp hq hbody
    | _ => cases htype
  | publish m => cases q with
    | publish m' => exact congrArg Packet.publish (becomes_publish hp hq hflags hbody)
    | _ => cases htype
  | connack present code => cases q with
    | connack present' code' =>
      revert hbody
      cases present <;> cases code <;> cases present' <;> cases code' <;>
        first | exact fun _ => rfl | exact fun h => absurd h (by decide)
    | _ => cases htype
  | puback id => cases q with
    | puback id' => exact congrArg Packet.puback (body_ack_inj hbody)
    | _ => cases htype
  | pubrec id => cases q with
    | pubrec id' => exact congrArg Packet.pubrec (body_ack_inj hbody)
    | _ => cases htype
  | pubrel id => cases q with
    | pubrel id' => exact congrArg Packet.pubrel (body_ack_inj hbody)
    | _ => cases htype
  | pubcomp id => cases q with
    | pubcomp id' => exact congrArg Packet.pubcomp (body_ack_inj hbody)
    | _ => cases htype
  | subscribe | suback | unsubscribe | unsuback | pingreq | pingresp | disconnect => exact htype

end Packet

/-! ### Packets -/

namespace Decoder

variable {max : Nat}

/-- A body that is given all its bytes is read or refused. -/
theorem State.proceed_settle_ne_none {h : FixedHeader} {left : Nat} {r : Reader Packet} {bs : List UInt8}
    (hleft : left ≤ bs.length) : (proceed max (settle h left r) bs).2.1 ≠ .ok none := by
  induction left generalizing r bs with
  | zero => cases r <;> simp [settle, proceed]
  | succ left ih =>
    cases r with
    | done q => simp [settle, proceed]
    | fail e => simp [settle, proceed]
    | more got n next =>
      obtain _ | ⟨b, bs⟩ := bs
      · cases hleft
      · have hproceed : proceed max (settle h (left + 1) (.more got n next)) (b :: bs)
            = proceed max (settle h left ((Reader.more got n next).step b)) bs := State.next_cons ..
        rw [hproceed]
        exact ih (Nat.le_of_succ_le_succ hleft)

theorem State.proceed_begin_ne_none {h : FixedHeader} {bs : List UInt8} (hbs : h.remainingLength ≤ bs.length) :
    (proceed max (State.begin max h) bs).2.1 ≠ .ok none := by
  unfold State.begin
  dsimp only
  split
  · simp [proceed]
  · split
    · exact proceed_settle_ne_none hbs
    · simp [proceed]

/-- The bytes of a packet are not too few. -/
theorem State.next_encode_ne_none (max : Nat) (p : Packet) :
    (State.next max (.header .start) p.encode).2.1 ≠ .ok none := by
  obtain ⟨htype, hflags⟩ := Packet.eq_firstByte_iff.1 (rfl : p.firstByte = p.firstByte)
  have hstep : State.step max (.header .start) p.firstByte
      = (.header (.length p.type p.flags RemainingLength.reader), .ok none) := by
    simp only [State.step, FixedHeader.Progress.step, htype, PacketType.ofCode?_code, hflags]
  -- the reader of a length is one that waits for its first byte
  have hlength : State.next max (.header (.length p.type p.flags RemainingLength.reader))
      (RemainingLength.encode p.body.length ++ p.body) = _ := State.next_length
  rw [Packet.encode_eq, next_cons, hstep]
  dsimp only [proceed]
  rw [hlength]
  have hclosed := RemainingLength.closed_encode p.body.length
  split
  · next n rest hfeed =>
    have hread : RemainingLength.reader.Reads (RemainingLength.encode p.body.length ++ p.body) n rest := hfeed
    obtain ⟨field, hspells, happend⟩ := RemainingLength.reads_reader_iff.1 hread
    obtain ⟨hfield, rfl⟩ := hclosed.append_inj hspells.closed happend
    have hn : n = p.body.length := by rw [← hspells.value_eq, ← hfield, RemainingLength.value_encode]
    exact proceed_begin_ne_none (Nat.le_of_eq hn)
  · exact fun h => nomatch h
  · next r rest hdone hfail hfeed =>
    rcases hclosed.settles 3 1 0 p.body with ⟨n, rest', hread⟩ | ⟨e, rest', hfailed⟩
    · exact (hdone n (Prod.mk.inj (hfeed.symm.trans hread)).1).elim
    · exact (hfail e (Prod.mk.inj (hfeed.symm.trans hfailed)).1).elim

/-- **The bytes of a packet**, given to a decoder between two packets, bring a packet with the same first byte
and the same body and are used up, or they are refused. -/
theorem State.next_encode_cases (max : Nat) (p : Packet) :
    (∃ s e rest, State.next max (.header .start) p.encode = (s, .error e, rest)) ∨
      ∃ q : Packet, State.next max (.header .start) p.encode = (.header .start, .ok (some q), []) ∧ q.FieldsFit ∧
        q.firstByte = p.firstByte ∧ q.body = p.body := by
  rcases hnext : State.next max (.header .start) p.encode with ⟨s, e | _ | q, rest⟩
  · exact .inl ⟨s, e, rest, rfl⟩
  · exact absurd (by rw [hnext]) (next_encode_ne_none max p)
  · obtain ⟨rfl, -, hfit, field, hspells, hbytes⟩ := State.next_start_iff.1 hnext
    rw [Packet.encode_eq, List.cons_append, List.append_assoc] at hbytes
    obtain ⟨hfirst, hbytes⟩ := List.cons.inj hbytes
    obtain ⟨hfield, hbody⟩ := (RemainingLength.closed_encode _).append_inj hspells.closed hbytes
    have hlength : q.body.length = p.body.length := by
      rw [← hspells.value_eq, ← hfield, RemainingLength.value_encode]
    have hnothing : rest = [] := List.length_eq_zero_iff.1 (by
      have htotal := congrArg List.length hbody
      rw [List.length_append] at htotal
      omega)
    subst hnothing
    rw [List.append_nil] at hbody
    exact .inr ⟨q, rfl, hfit, hfirst.symm, hbody.symm⟩

/-- One packet with `P` was read and the next may begin, or the bytes were refused. -/
def ReadsOne (P : Packet → Prop) (r : State × List Packet × Option ProtocolError) : Prop :=
  (∃ s e, r = (s, [], some e)) ∨ ∃ q, P q ∧ r = (.header .start, [q], none)

/-- **A packet on the wire.** A decoder between two packets makes of the bytes of a packet what the
packet becomes and is between two packets again, or it refuses them. -/
theorem State.run_encode (max : Nat) {p : Packet} (hp : p.Writable) :
    ReadsOne p.Becomes ((State.header .start).run max p.encode) := by
  rw [run_eq_next]
  rcases next_encode_cases max p with ⟨s, e, rest, hnext⟩ | ⟨q, hnext, hfit, hfirst, hbody⟩
  · rw [hnext]
    exact .inl ⟨s, e, rfl⟩
  · rw [hnext]
    exact .inr ⟨q, Packet.becomes_of_body hp hfit hfirst hbody, rfl⟩

end Decoder

end Mqtt
