import Mqtt.Proofs.Fields

/-!
# Well-formed packets and their bodies: `BodyDecoder`, `Packet::encode`

A packet is well-formed if its texts and byte strings fit behind a 16-bit length, its optional parts agree
with each other, and its body is not longer than a header can announce. `Body.reads_reader_iff` says that
these are the packets that bodies are read as: a body of the announced length is read as a packet exactly
if it is what the packet is written as.
-/

namespace Mqtt

/-! ### Well-formed packets -/

def Will.WellFormed (w : Will) : Prop := Wire.IsText w.topic ∧ w.payload.size ≤ 65535

/-- The fields can be written and read again, and a password comes with a user name. -/
structure Connect.WellFormed (c : Connect) : Prop where
  protocolName : Wire.IsText c.protocolName
  clientId : Wire.IsText c.clientId
  will : ∀ w ∈ c.will, w.WellFormed
  username : ∀ u ∈ c.username, Wire.IsText u
  password : ∀ p ∈ c.password, p.size ≤ 65535
  named : c.password.isSome = true → c.username.isSome = true

/-- The topic can be written and read again, and an identifier is there exactly if it is written. -/
def Publish.WellFormed (p : Publish) : Prop :=
  Wire.IsText p.topic ∧ p.packetId.isSome = p.qos.isAcknowledged

/-- The codes a SUBACK may carry: a granted quality of service or a failure. -/
def grantCodes : List UInt8 := [0, 1, 2, subackFailure]

namespace Packet

/-- The fields of a packet can be written and read again. -/
def FieldsFit : Packet → Prop
  | .connect c => c.WellFormed
  | .publish p => p.WellFormed
  | .subscribe _ topics => topics ≠ [] ∧ ∀ t ∈ topics, Wire.IsText t.filter
  | .suback _ codes => ∀ code ∈ codes, code ∈ grantCodes
  | .unsubscribe _ filters => filters ≠ [] ∧ ∀ filter ∈ filters, Wire.IsText filter
  | _ => True

/-- The fields of a packet can be written and read again, and a header can announce its body. -/
structure WellFormed (p : Packet) : Prop where
  fields : p.FieldsFit
  length : p.body.length ≤ RemainingLength.maxValue

end Packet

namespace Body

open Reader

variable {bs rest : List UInt8}

/-! ### Bytes of flags

The bytes of flags are checked for all their values. -/

theorem forall_byte {P : UInt8 → Prop} (h : ∀ n < 256, P (UInt8.ofNat n)) (b : UInt8) : P b := by
  have hb := h b.toNat b.toNat_lt
  rw [UInt8.ofNat_toNat] at hb
  exact hb

namespace ConnectFlags

/-- The byte that announces the optional fields. -/
def toByte (f : ConnectFlags) : UInt8 :=
  UInt8.ofNat (Wire.bit f.cleanSession 2
    + (if f.will then 4 + f.willQoS.toNat * 8 + Wire.bit f.willRetain 32 else 0)
    + Wire.bit f.password 64 + Wire.bit f.username 128)

/-- Nothing is said of a will that is not there, and no password comes without a user name. -/
def Consistent (f : ConnectFlags) : Prop :=
  (f.will = false → f.willQoS = .atMostOnce ∧ f.willRetain = false) ∧ (f.password = true → f.username = true)

instance (f : ConnectFlags) : Decidable f.Consistent := inferInstanceAs (Decidable (_ ∧ _))

/-- What the byte is read as, if it is accepted, is written as the byte. -/
def Accounted (flags : UInt8) : Prop :=
  match connectFlags flags with
  | .ok f => flags = f.toByte ∧ f.Consistent
  | .error _ => True

instance (flags : UInt8) : Decidable (Accounted flags) := by
  unfold Accounted
  cases connectFlags flags <;> infer_instance

theorem accounted (flags : UInt8) : Accounted flags := forall_byte (by decide +kernel) flags

end ConnectFlags

theorem connectFlags_eq_ok_iff {flags : UInt8} {f : ConnectFlags} :
    connectFlags flags = .ok f ↔ flags = f.toByte ∧ f.Consistent := by
  constructor
  · intro h
    have haccounted := ConnectFlags.accounted flags
    unfold ConnectFlags.Accounted at haccounted
    rw [h] at haccounted
    exact haccounted
  · rintro ⟨rfl, hconsistent⟩
    obtain ⟨username, password, retain, qos, will, clean⟩ := f
    revert hconsistent
    cases username <;> cases password <;> cases retain <;> cases qos <;> cases will <;> cases clean <;>
      first | exact fun _ => rfl | exact fun h => absurd h (by decide)

/-- What a CONNECT announces of its optional fields. -/
def announced (c : Connect) : ConnectFlags where
  username := c.username.isSome
  password := c.password.isSome
  willRetain := c.will.elim false (·.retain)
  willQoS := c.will.elim .atMostOnce (·.qos)
  will := c.will.isSome
  cleanSession := c.cleanSession

theorem flags_eq_announced (c : Connect) : c.flags = (announced c).toByte := by
  obtain ⟨_, _, _, _, _, will, _, _⟩ := c
  cases will <;> rfl

theorem publish_flags_lt (p : Publish) : p.flags.toNat < 16 := by
  obtain ⟨dup, qos, retain, _, _, _⟩ := p
  dsimp only [Publish.flags]
  cases dup <;> cases qos <;> cases retain <;> decide

theorem publish_flags (p : Publish) :
    QoS.ofNat? (p.flags.toNat / 2 % 4) = some p.qos ∧ (p.flags &&& 0x08 ≠ 0 ↔ p.dup = true) ∧
      (p.flags &&& 0x01 ≠ 0 ↔ p.retain = true) := by
  obtain ⟨dup, qos, retain, _, _, _⟩ := p
  dsimp only [Publish.flags]
  cases dup <;> cases qos <;> cases retain <;> decide

/-- The flags of a PUBLISH are those that its flags are read as. -/
theorem eq_publish_flags_iff {flags : UInt8} (hflags : flags.toNat < 16) {p : Publish} :
    flags = p.flags ↔
      QoS.ofNat? (flags.toNat / 2 % 4) = some p.qos ∧ p.dup = decide (flags &&& 0x08 ≠ 0) ∧
        p.retain = decide (flags &&& 0x01 ≠ 0) := by
  constructor
  · rintro rfl
    obtain ⟨hqos, hdup, hretain⟩ := publish_flags p
    exact ⟨hqos, by simp [hdup], by simp [hretain]⟩
  · have hall : ∀ n < 16, ∀ q ∈ [QoS.atMostOnce, .atLeastOnce, .exactlyOnce],
        QoS.ofNat? ((UInt8.ofNat n).toNat / 2 % 4) = some q →
          UInt8.ofNat n = UInt8.ofNat (Wire.bit (decide (UInt8.ofNat n &&& 0x08 ≠ 0)) 8 + q.toNat * 2
            + Wire.bit (decide (UInt8.ofNat n &&& 0x01 ≠ 0)) 1) := by decide +kernel
    rintro ⟨hqos, hdup, hretain⟩
    have hflag := hall flags.toNat hflags p.qos (by cases p.qos <;> simp)
    rw [UInt8.ofNat_toNat] at hflag
    rw [Publish.flags, hdup, hretain]
    exact hflag hqos

theorem connack_flags {flags : UInt8} (h : flags &&& 0xFE = 0) :
    flags = UInt8.ofNat (Wire.bit (decide (flags &&& 0x01 ≠ 0)) 1) :=
  forall_byte (P := fun flags => flags &&& 0xFE = 0 →
    flags = UInt8.ofNat (Wire.bit (decide (flags &&& 0x01 ≠ 0)) 1)) (by decide +kernel) flags h

theorem subscribe_options {options : UInt8} {q : QoS} :
    options &&& 0xFC = 0 ∧ QoS.ofNat? options.toNat = some q ↔ options = q.toByte := by
  constructor
  · rintro ⟨-, h⟩
    rw [← UInt8.ofNat_toNat (x := options), QoS.ofNat?_eq_some_iff.1 h]
    rfl
  · rintro rfl
    cases q <;> decide

theorem mem_grantCodes {code : UInt8} :
    code ∈ grantCodes ↔ ¬ (decide (code > 2) && decide (code ≠ subackFailure)) = true :=
  forall_byte (P := fun code =>
    code ∈ grantCodes ↔ ¬ (decide (code > 2) && decide (code ≠ subackFailure)) = true)
    (by decide +kernel) code

/-! ### CONNECT -/

/-- A field that is announced is written, any other is not. -/
theorem reads_optional_iff {α : Type} {field : Reader α} {P : α → Prop} {write : α → List UInt8}
    (h : ∀ {bs a rest}, field.Reads bs a rest ↔ P a ∧ bs = write a ++ rest) {present : Bool} {o : Option α} :
    (optional present field).Reads bs o rest ↔
      o.isSome = present ∧ (∀ a ∈ o, P a) ∧ bs = o.elim [] write ++ rest := by
  cases present with
  | false =>
    rw [optional, if_neg (by decide), reads_pure_iff]
    cases o <;> simp
  | true =>
    rw [optional, if_pos rfl, reads_map_iff]
    cases o <;> simp [h]

theorem reads_will_iff {f : ConnectFlags} {w : Will} :
    (will f).Reads bs w rest ↔
      (w.WellFormed ∧ w.qos = f.willQoS ∧ w.retain = f.willRetain) ∧
        bs = (Wire.text w.topic ++ Wire.binary w.payload) ++ rest := by
  simp only [will, reads_bind_iff, reads_text_iff, reads_binary_iff, reads_pure_iff]
  constructor
  · rintro ⟨topic, mid, ⟨htopic, rfl⟩, payload, rest', ⟨hpayload, rfl⟩, rfl, rfl⟩
    exact ⟨⟨⟨htopic, hpayload⟩, rfl, rfl⟩, (List.append_assoc _ _ _).symm⟩
  · rintro ⟨⟨⟨htopic, hpayload⟩, hqos, hretain⟩, rfl⟩
    refine ⟨w.topic, _, ⟨htopic, List.append_assoc _ _ _⟩, w.payload, _, ⟨hpayload, rfl⟩, ?_, rfl⟩
    rw [← hqos, ← hretain]

theorem connectBody_eq (c : Connect) :
    Packet.connectBody c = Wire.text c.protocolName ++ c.protocolLevel :: c.flags :: (Wire.word c.keepAlive
      ++ (Wire.text c.clientId
      ++ (c.will.elim [] (fun w => Wire.text w.topic ++ Wire.binary w.payload)
      ++ (c.username.elim [] Wire.text ++ c.password.elim [] Wire.binary)))) := by
  unfold Packet.connectBody
  cases c.will <;> cases c.username <;> cases c.password <;> simp

theorem reads_connect_iff {p : Packet} :
    connect.Reads bs p rest ↔
      ∃ c : Connect, p = .connect c ∧ c.WellFormed ∧ bs = Packet.connectBody c ++ rest := by
  simp only [connect, reads_bind_iff, reads_text_iff, reads_byte_iff, reads_word_iff, reads_ofExcept_iff,
    reads_pure_iff, connectFlags_eq_ok_iff, reads_optional_iff reads_will_iff, reads_optional_iff reads_text_iff,
    reads_optional_iff reads_binary_iff]
  constructor
  · rintro ⟨name, _, ⟨hname, rfl⟩, level, _, rfl, flags, _, rfl, f, _, ⟨⟨rfl, hnowill, hnamed⟩, rfl⟩, keepAlive,
      _, rfl, id, _, ⟨hid, rfl⟩, w, _, ⟨hsome, hw, rfl⟩, u, _, ⟨husername, hu, rfl⟩, pw, _,
      ⟨hpassword, hpw, rfl⟩, rfl, rfl⟩
    refine ⟨_, rfl, ⟨hname, hid, fun w' hw' => (hw w' hw').1, hu, hpw, ?_⟩, ?_⟩
    · dsimp only
      rw [hpassword, husername]
      exact hnamed
    · -- What is announced of the CONNECT that was read is what its flags were read as.
      have hf : announced ⟨name, level, f.cleanSession, keepAlive, id, w, u, pw⟩ = f := by
        obtain ⟨username, password, retain, qos, will, clean⟩ := f
        cases w with
        | none =>
          obtain ⟨rfl, rfl⟩ := hnowill hsome.symm
          simp only [announced, husername, hpassword, hsome, Option.elim_none]
        | some w =>
          obtain ⟨-, hqos, hretain⟩ := hw w rfl
          simp only [announced, husername, hpassword, hsome, Option.elim_some, hqos, hretain]
      rw [connectBody_eq, flags_eq_announced, hf]
      simp
  · rintro ⟨c, rfl, hc, rfl⟩
    have hconsistent : (announced c).Consistent := by
      refine ⟨fun hwill => ?_, hc.named⟩
      have hnone : c.will = none := Option.isSome_eq_false_iff.1 hwill |> Option.isNone_iff_eq_none.1
      simp [announced, hnone]
    refine ⟨c.protocolName, _, ⟨hc.protocolName, ?_⟩, c.protocolLevel, _, rfl, c.flags, _, rfl, announced c, _,
      ⟨⟨flags_eq_announced c, hconsistent⟩, rfl⟩, c.keepAlive, _, rfl, c.clientId, _, ⟨hc.clientId, rfl⟩,
      c.will, _, ⟨rfl, fun w hw => ⟨hc.will w hw, ?_⟩, rfl⟩, c.username, _, ⟨rfl, hc.username, rfl⟩,
      c.password, rest, ⟨rfl, hc.password, rfl⟩, rfl, rfl⟩
    · rw [connectBody_eq]
      simp
    · rw [Option.mem_def] at hw
      simp [announced, hw]

/-! ### Packets of fixed length -/

theorem ConnackCode.ofNat?_eq_some_iff {n : Nat} {c : ConnackCode} :
    ConnackCode.ofNat? n = some c ↔ n = c.toNat := by
  constructor
  · intro h
    unfold ConnackCode.ofNat? at h
    split at h <;> cases h <;> rfl
  · rintro rfl
    exact ConnackCode.ofNat?_toNat c

theorem reads_connack_iff {p : Packet} :
    connack.Reads bs p rest ↔
      ∃ present code, p = .connack present code ∧ bs = (Packet.connack present code).body ++ rest := by
  simp only [connack, reads_bind_iff, reads_byte_iff]
  constructor
  · rintro ⟨flags, mid, rfl, h⟩
    split at h
    · exact absurd h reads_fail_iff
    · next hflags =>
      simp only [reads_bind_iff, reads_byte_iff] at h
      obtain ⟨code, mid', rfl, h⟩ := h
      split at h
      · next c hc =>
        obtain ⟨rfl, rfl⟩ := reads_pure_iff.1 h
        refine ⟨_, c, rfl, ?_⟩
        rw [Packet.body, ← connack_flags (by simpa using hflags), ← ConnackCode.ofNat?_eq_some_iff.1 hc,
          UInt8.ofNat_toNat]
        rfl
      · exact absurd h reads_fail_iff
  · rintro ⟨present, code, rfl, rfl⟩
    refine ⟨_, _, rfl, ?_⟩
    have hflags : ¬ (UInt8.ofNat (Wire.bit present 1) &&& 0xFE ≠ 0) := by cases present <;> decide
    rw [if_neg hflags, reads_bind_iff]
    refine ⟨_, rest, reads_byte_iff.2 rfl, ?_⟩
    cases present <;> cases code <;> exact reads_pure_iff.2 ⟨rfl, rfl⟩

/-- A body that is an identifier alone. -/
theorem reads_ack_iff {make : UInt16 → Packet} {p : Packet} :
    (make <$> word).Reads bs p rest ↔ ∃ id, p = make id ∧ bs = Wire.word id ++ rest := by
  rw [reads_map_iff]
  constructor
  · rintro ⟨id, hid, rfl⟩
    exact ⟨id, rfl, reads_word_iff.1 hid⟩
  · rintro ⟨id, rfl, rfl⟩
    exact ⟨id, reads_word_iff.2 rfl, rfl⟩

/-! ### PUBLISH -/

theorem publishBody_eq {p : Publish} (hp : p.packetId.isSome = p.qos.isAcknowledged) :
    Packet.publishBody p = Wire.text p.topic ++ (p.packetId.elim [] Wire.word ++ p.payload.data.toList) := by
  unfold Packet.publishBody
  rw [List.append_assoc]
  by_cases hq : p.qos = .atMostOnce
  · have hnone : p.packetId = none := by simpa [hq, QoS.isAcknowledged] using hp
    simp [hq, hnone]
  · have hsome : p.packetId.isSome = true := by simp [hp, QoS.isAcknowledged, hq]
    obtain ⟨id, hid⟩ := Option.isSome_iff_exists.1 hsome
    simp [hq, hid]

theorem reads_publish_iff {flags : UInt8} (hflags : flags.toNat < 16) {q : QoS}
    (hq : QoS.ofNat? (flags.toNat / 2 % 4) = some q) {p : Packet} :
    (publish flags q bs.length).Reads bs p [] ↔
      ∃ publish : Publish, p = .publish publish ∧ publish.WellFormed ∧ flags = publish.flags ∧
        bs = Packet.publishBody publish := by
  have hword {bs : List UInt8} {id : UInt16} {rest : List UInt8} :
      word.Reads bs id rest ↔ True ∧ bs = Wire.word id ++ rest := by
    rw [reads_word_iff, true_and]
  simp only [publish, reads_bind_iff, reads_text_iff, reads_optional_iff hword, reads_bytes_iff, reads_pure_iff]
  constructor
  · rintro ⟨topic, _, ⟨htopic, rfl⟩, id, _, ⟨hid, -, rfl⟩, payload, _, ⟨-, rfl⟩, rfl, rfl⟩
    refine ⟨_, rfl, ⟨htopic, hid⟩, (eq_publish_flags_iff hflags).2 ⟨hq, rfl, rfl⟩, ?_⟩
    rw [publishBody_eq hid, List.append_nil]
  · rintro ⟨publish, rfl, ⟨htopic, hid⟩, hpublish, rfl⟩
    obtain ⟨hqos, hdup, hretain⟩ := (eq_publish_flags_iff hflags).1 hpublish
    rw [hq, Option.some.injEq] at hqos
    subst hqos
    refine ⟨publish.topic, _, ⟨htopic, publishBody_eq hid⟩, publish.packetId, _, ⟨hid, fun _ _ => trivial, rfl⟩,
      publish.payload, [], ⟨?_, (List.append_nil _).symm⟩, ?_, rfl⟩
    · rw [Packet.length_publishBody]
      unfold Packet.publishLength Wire.prefixedLength QoS.isAcknowledged
      by_cases hq : publish.qos = .atMostOnce
      · simp [hq]
      · simp [hq]
    · rw [← hdup, ← hretain]

/-! ### Lists that end where the body does -/

/-- A reader of many items reads one and then the others, in what it leaves. -/
structure Repeats {ι : Type} (one : Reader ι) (size : ι → Nat) (many : Nat → Reader (List ι)) : Prop where
  /-- An item takes a byte at least. -/
  takes : ∀ taken i, one.Reads taken i [] → taken.length = size i ∧ 0 < size i
  none : many 0 = .done []
  some : ∀ left, left ≠ 0 → many left = one >>= fun i => many (left - size i) >>= fun rest => .done (i :: rest)

namespace Repeats

variable {ι : Type} {one : Reader ι} {size : ι → Nat} {many : Nat → Reader (List ι)} {Fits : ι → Prop}
  {write : ι → List UInt8}

/-- Items that fill the bytes are the items that are written as these bytes. -/
theorem reads_iff (h : Repeats one size many)
    (hone : ∀ {bs i rest}, one.Reads bs i rest ↔ Fits i ∧ bs = write i ++ rest) {items : List ι} :
    (many bs.length).Reads bs items [] ↔ (∀ i ∈ items, Fits i) ∧ bs = items.flatMap write := by
  have hsize {i : ι} (hi : Fits i) : (write i).length = size i ∧ 0 < size i :=
    h.takes _ i (hone.2 ⟨hi, (List.append_nil _).symm⟩)
  induction hn : bs.length using Nat.strongRecOn generalizing bs items with
  | ind n ih =>
    subst hn
    by_cases hbs : bs = []
    · subst hbs
      rw [List.length_nil, h.none, reads_done_iff]
      cases items with
      | nil => simp
      | cons i items =>
        refine iff_of_false (fun hread => nomatch hread.1) fun ⟨hfits, hwritten⟩ => ?_
        obtain ⟨hlength, hpos⟩ := hsize (hfits i (.head _))
        rw [List.flatMap_cons, List.nil_eq_append_iff] at hwritten
        rw [hwritten.1, List.length_nil] at hlength
        omega
    · rw [h.some _ (mt List.length_eq_zero_iff.1 hbs)]
      simp only [reads_bind_iff, hone, reads_done_iff]
      constructor
      · rintro ⟨i, mid, ⟨hi, rfl⟩, rest, _, hrest, rfl, rfl⟩
        obtain ⟨hlength, hpos⟩ := hsize hi
        have hleft : (write i ++ mid).length - size i = mid.length := by simp [hlength]
        rw [hleft] at hrest
        obtain ⟨hfits, rfl⟩ := (ih mid.length (by simp; omega) rfl).1 hrest
        exact ⟨List.forall_mem_cons.2 ⟨hi, hfits⟩, rfl⟩
      · rintro ⟨hfits, rfl⟩
        cases items with
        | nil => exact absurd rfl hbs
        | cons i items =>
          obtain ⟨hi, hfits⟩ := List.forall_mem_cons.1 hfits
          obtain ⟨hlength, hpos⟩ := hsize hi
          refine ⟨i, _, ⟨hi, List.flatMap_cons⟩, items, [], ?_, rfl, rfl⟩
          have hleft : ((i :: items).flatMap write).length - size i = (items.flatMap write).length := by
            simp [hlength]
          rw [hleft]
          exact (ih _ (by simp; omega) rfl).2 ⟨hfits, rfl⟩

variable {t : PacketType} {close : UInt16 → List ι → Reader Packet} {make : UInt16 → List ι → Packet}
  {Allowed : List ι → Prop}

/-- An identifier, and items behind it. A kind of packet that is written so is read so, if nothing more is taken
for it. -/
theorem reads_identified_iff (h : Repeats one size many)
    (hone : ∀ {bs i rest}, one.Reads bs i rest ↔ Fits i ∧ bs = write i ++ rest)
    (hclose : ∀ {id items p rest}, (close id items).Reads rest p [] ↔ Allowed items ∧ p = make id items ∧ rest = [])
    (htype : ∀ p : Packet, p.type = t ↔ ∃ id items, p = make id items)
    (hfit : ∀ id items, (make id items).FieldsFit ↔ Allowed items ∧ ∀ i ∈ items, Fits i)
    (hbody : ∀ id items, (make id items).body = Wire.word id ++ items.flatMap write) {p : Packet} :
    (word >>= fun id => many (bs.length - 2) >>= close id).Reads bs p [] ↔
      p.FieldsFit ∧ p.type = t ∧ p.body = bs := by
  have hleft (id : UInt16) (mid : List UInt8) : (Wire.word id ++ mid).length - 2 = mid.length := by simp
  simp only [reads_bind_iff, reads_word_iff, hclose]
  constructor
  · rintro ⟨id, mid, rfl, items, rest, hitems, hallowed, rfl, rfl⟩
    rw [hleft, h.reads_iff hone] at hitems
    obtain ⟨hfits, rfl⟩ := hitems
    exact ⟨(hfit id items).2 ⟨hallowed, hfits⟩, (htype _).2 ⟨id, items, rfl⟩, hbody id items⟩
  · rintro ⟨hfields, hp, rfl⟩
    obtain ⟨id, items, rfl⟩ := (htype p).1 hp
    obtain ⟨hallowed, hfits⟩ := (hfit id items).1 hfields
    refine ⟨id, _, hbody id items, items, [], ?_, hallowed, rfl, rfl⟩
    rw [hbody, hleft, h.reads_iff hone]
    exact ⟨hfits, rfl⟩

end Repeats

/-- A list that may not be empty. -/
theorem reads_unless_empty_iff {ι : Type} [DecidableEq ι] {e : ProtocolError} (items : List ι) {q p : Packet} :
    (if items = [] then .fail e else pure q : Reader Packet).Reads bs p rest ↔ items ≠ [] ∧ p = q ∧ bs = rest := by
  split
  · next hempty => exact iff_of_false reads_fail_iff fun h => h.1 hempty
  · next hne => rw [reads_pure_iff, and_iff_right hne]

theorem reads_qos_iff {n : Nat} {q : QoS} : (qos n).Reads bs q rest ↔ QoS.ofNat? n = some q ∧ bs = rest := by
  unfold qos
  split
  · next q' hq => rw [hq, reads_done_iff, Option.some.injEq, eq_comm (a := q)]
  · next hnone =>
    rw [hnone]
    constructor
    · intro h
      exact absurd h reads_fail_iff
    · rintro ⟨h, -⟩
      cases h

/-- The bytes of a line of a SUBSCRIBE. -/
def lineBytes (t : TopicRequest) : List UInt8 := Wire.text t.filter ++ [t.qos.toByte]

/-- One line of a SUBSCRIBE. -/
def oneRequest : Reader TopicRequest := do
  let filter ← text
  let options ← byte
  if options &&& 0xFC ≠ 0 then .fail (.malformedPacket (.subscribeOptions options))
  else
    let q ← qos options.toNat
    return ⟨filter, q⟩

theorem reads_oneRequest_iff {t : TopicRequest} :
    oneRequest.Reads bs t rest ↔ Wire.IsText t.filter ∧ bs = lineBytes t ++ rest := by
  simp only [oneRequest, reads_bind_iff, reads_text_iff, reads_byte_iff]
  constructor
  · rintro ⟨filter, _, ⟨hfilter, rfl⟩, options, mid, rfl, h⟩
    split at h
    · exact absurd h reads_fail_iff
    · next hoptions =>
      simp only [reads_bind_iff, reads_qos_iff, reads_pure_iff] at h
      obtain ⟨q, _, ⟨hq, rfl⟩, rfl, rfl⟩ := h
      rw [subscribe_options.1 ⟨by simpa using hoptions, hq⟩]
      exact ⟨hfilter, by simp [lineBytes]⟩
  · rintro ⟨hfilter, rfl⟩
    obtain ⟨hoptions, hq⟩ := subscribe_options.2 (rfl : t.qos.toByte = t.qos.toByte)
    refine ⟨t.filter, _, ⟨hfilter, by simp [lineBytes]; rfl⟩, t.qos.toByte, _, rfl, ?_⟩
    rw [if_neg (by simpa using hoptions)]
    simp only [reads_bind_iff, reads_qos_iff, reads_pure_iff]
    exact ⟨t.qos, _, ⟨hq, rfl⟩, rfl, rfl⟩

theorem repeats_topicRequests : Repeats oneRequest (fun t => 2 + t.filter.utf8ByteSize + 1) topicRequests where
  takes := by
    intro taken t htaken
    obtain ⟨-, rfl⟩ := reads_oneRequest_iff.1 htaken
    simp [lineBytes, Wire.prefixedLength]
  none := by rw [topicRequests, dif_pos rfl]; rfl
  some := by
    intro left hleft
    rw [topicRequests, dif_neg hleft]
    simp only [oneRequest, bind_assoc]
    refine bind_congr fun filter => bind_congr fun options => ?_
    split
    · rfl
    · simp only [bind_assoc, pure_bind]
      rfl

/-- One code of a SUBACK. -/
def oneCode : Reader UInt8 := do
  let code ← byte
  if code > 2 && code ≠ subackFailure then .fail (.malformedPacket (.subackCode code)) else return code

theorem reads_oneCode_iff {code : UInt8} :
    oneCode.Reads bs code rest ↔ code ∈ grantCodes ∧ bs = [code] ++ rest := by
  simp only [oneCode, reads_bind_iff, reads_byte_iff]
  constructor
  · rintro ⟨code', mid, rfl, h⟩
    split at h
    · exact absurd h reads_fail_iff
    · next hcode =>
      obtain ⟨rfl, rfl⟩ := reads_pure_iff.1 h
      exact ⟨mem_grantCodes.2 hcode, rfl⟩
  · rintro ⟨hcode, rfl⟩
    refine ⟨code, rest, rfl, ?_⟩
    rw [if_neg (mem_grantCodes.1 hcode)]
    exact reads_pure_iff.2 ⟨rfl, rfl⟩

theorem repeats_subackCodes : Repeats oneCode (fun _ => 1) subackCodes where
  takes := by
    intro taken code htaken
    obtain ⟨-, rfl⟩ := reads_oneCode_iff.1 htaken
    exact ⟨rfl, Nat.one_pos⟩
  none := rfl
  some := by
    intro left hleft
    obtain ⟨n, rfl⟩ := Nat.exists_eq_succ_of_ne_zero hleft
    rw [subackCodes]
    simp only [oneCode, bind_assoc]
    refine bind_congr fun code => ?_
    split <;> rfl

theorem repeats_filters : Repeats text (fun t => 2 + t.utf8ByteSize) filters where
  takes := by
    intro taken t htaken
    obtain ⟨-, rfl⟩ := reads_text_iff.1 htaken
    simp only [List.append_nil, Wire.length_text, Wire.prefixedLength, true_and]
    omega
  none := by rw [filters, dif_pos rfl]; rfl
  some := by
    intro left hleft
    rw [filters, dif_neg hleft]
    rfl

theorem reads_subscribe_iff {p : Packet} :
    (subscribe bs.length).Reads bs p [] ↔ p.FieldsFit ∧ p.type = .subscribe ∧ p.body = bs :=
  repeats_topicRequests.reads_identified_iff reads_oneRequest_iff
    (fun {_ topics _ _} => reads_unless_empty_iff topics) (by rintro ⟨⟩ <;> simp [Packet.type])
    (fun _ _ => .rfl) (fun _ _ => rfl)

theorem reads_unsubscribe_iff {p : Packet} :
    (unsubscribe bs.length).Reads bs p [] ↔ p.FieldsFit ∧ p.type = .unsubscribe ∧ p.body = bs :=
  repeats_filters.reads_identified_iff reads_text_iff (fun {_ names _ _} => reads_unless_empty_iff names)
    (by rintro ⟨⟩ <;> simp [Packet.type]) (fun _ _ => .rfl) (fun _ _ => rfl)

theorem reads_suback_iff {p : Packet} :
    (suback bs.length).Reads bs p [] ↔ p.FieldsFit ∧ p.type = .suback ∧ p.body = bs := by
  have hclose {id : UInt16} {codes rest : List UInt8} {p : Packet} :
      (pure (.suback id codes) : Reader Packet).Reads rest p [] ↔ True ∧ p = .suback id codes ∧ rest = [] := by
    rw [reads_pure_iff, true_and]
  refine repeats_subackCodes.reads_identified_iff reads_oneCode_iff hclose (by rintro ⟨⟩ <;> simp [Packet.type])
    (fun _ _ => (and_iff_right trivial).symm) fun _ codes => ?_
  rw [List.flatMap_singleton']
  rfl

/-! ### Headers and bodies -/

/-- A body that was begun is read as the packet, to its end. -/
def ReadsAs (begun : Except ProtocolError (Reader Packet)) (bs : List UInt8) (p : Packet) : Prop :=
  ∃ r, begun = .ok r ∧ r.Reads bs p []

theorem readsAs_ok_iff {r : Reader Packet} {p : Packet} : ReadsAs (.ok r) bs p ↔ r.Reads bs p [] := by
  constructor
  · rintro ⟨r', hr, h⟩
    cases hr
    exact h
  · intro h
    exact ⟨r, rfl, h⟩

theorem readsAs_error_iff {e : ProtocolError} {p : Packet} : ReadsAs (.error e) bs p ↔ False := by
  constructor
  · rintro ⟨r, hr, -⟩
    cases hr
  · exact False.elim

theorem readsAs_ite_iff {c : Prop} [Decidable c] {e : ProtocolError} {x : Except ProtocolError (Reader Packet)}
    {p : Packet} : ReadsAs (if c then .error e else x) bs p ↔ ¬ c ∧ ReadsAs x bs p := by
  by_cases hc : c
  · rw [if_pos hc, readsAs_error_iff]
    exact ⟨False.elim, fun h => h.1 hc⟩
  · rw [if_neg hc]
    exact ⟨fun h => ⟨hc, h⟩, fun h => h.2⟩

/-- Flags and length are checked before the fields. -/
theorem readsAs_reader_iff {h : FixedHeader} {p : Packet} :
    ReadsAs (reader h) bs p ↔
      (∀ flags ∈ h.type.requiredFlags, flags = h.flags) ∧ (∀ n ∈ h.type.fixedLength, h.remainingLength = n) ∧
        ReadsAs (fields h) bs p := by
  unfold reader
  simp only [Bind.bind, Except.bind, throw, throwThe, MonadExceptOf.throw]
  by_cases hrequired : ∀ flags ∈ h.type.requiredFlags, flags = h.flags
  · have hchecked : ¬ h.type.requiredFlags.any (· ≠ h.flags) = true := by
      cases hr : h.type.requiredFlags with
      | none => simp
      | some flags => simpa using hrequired flags hr
    rw [if_neg hchecked, and_iff_right hrequired]
    cases hlength : h.type.fixedLength with
    | none => simp
    | some n =>
      dsimp only
      rw [readsAs_ite_iff]
      simp
  · have hrefused : h.type.requiredFlags.any (· ≠ h.flags) = true := by
      cases hr : h.type.requiredFlags with
      | none => exact absurd (by simp [hr]) hrequired
      | some flags => simpa [hr] using hrequired
    rw [if_pos hrefused, readsAs_error_iff, false_iff]
    exact fun h => hrequired h.1

/-- A body that is an identifier alone. -/
theorem readsAs_ack_iff {t : PacketType} (make : UInt16 → Packet) (hbody : ∀ id, (make id).body = Wire.word id)
    (hfit : ∀ id, (make id).FieldsFit) (htype : ∀ p : Packet, p.type = t ↔ ∃ id, p = make id) {p : Packet} :
    ReadsAs (.ok (make <$> word)) bs p ↔ p.FieldsFit ∧ p.type = t ∧ p.body = bs := by
  rw [readsAs_ok_iff, reads_ack_iff, htype]
  constructor
  · rintro ⟨id, rfl, rfl⟩
    exact ⟨hfit id, ⟨id, rfl⟩, by rw [hbody, List.append_nil]⟩
  · rintro ⟨-, ⟨id, rfl⟩, rfl⟩
    exact ⟨id, rfl, by rw [hbody, List.append_nil]⟩

/-- A body without fields. -/
theorem readsAs_pure_iff {q p : Packet} (hbody : q.body = []) (hfit : q.FieldsFit)
    (htype : ∀ p : Packet, p.type = q.type → p = q) :
    ReadsAs (.ok (pure q)) bs p ↔ p.FieldsFit ∧ p.type = q.type ∧ p.body = bs := by
  rw [readsAs_ok_iff, reads_pure_iff]
  constructor
  · rintro ⟨rfl, rfl⟩
    exact ⟨hfit, rfl, hbody⟩
  · rintro ⟨-, hp, rfl⟩
    obtain rfl := htype p hp
    exact ⟨rfl, hbody⟩

/-- The body of a PUBLISH, whose flags say how it is to be read. -/
theorem readsAs_publish_iff {flags : UInt8} (hflags : flags.toNat < 16) {p : Packet} :
    ReadsAs (fields ⟨.publish, flags, bs.length⟩) bs p ↔
      (p.FieldsFit ∧ p.type = .publish ∧ p.body = bs) ∧ p.flags = flags := by
  unfold fields
  dsimp only
  cases hq : QoS.ofNat? (flags.toNat / 2 % 4) with
  | none =>
    refine readsAs_error_iff.trans ⟨False.elim, ?_⟩
    rintro ⟨⟨-, htype, -⟩, hpublish⟩
    match p, htype, hpublish with
    | .publish publish, _, hflags =>
      rw [← hflags, Packet.flags, (publish_flags publish).1] at hq
      cases hq
  | some q =>
    refine readsAs_ok_iff.trans ((reads_publish_iff hflags hq).trans ?_)
    constructor
    · rintro ⟨publish, rfl, hfit, rfl, rfl⟩
      exact ⟨⟨hfit, rfl, rfl⟩, rfl⟩
    · rintro ⟨⟨hfit, htype, rfl⟩, hpublish⟩
      match p, htype, hfit, hpublish with
      | .publish publish, _, hfit, hflags => exact ⟨publish, rfl, hfit, hflags.symm, rfl⟩

/-- The fields of each kind of packet are read from the bytes they are written as. -/
theorem readsAs_fields_iff {t : PacketType} {flags : UInt8} (hflags : flags.toNat < 16) {p : Packet} :
    ReadsAs (fields ⟨t, flags, bs.length⟩) bs p ↔
      (p.FieldsFit ∧ p.type = t ∧ p.body = bs) ∧ (t = .publish → p.flags = flags) := by
  by_cases ht : t = .publish
  · subst ht
    rw [readsAs_publish_iff hflags, forall_prop_of_true rfl]
  · rw [and_iff_left fun h => absurd h ht]
    unfold fields
    cases t with
    | publish => exact absurd rfl ht
    | connect =>
      refine readsAs_ok_iff.trans (reads_connect_iff.trans ?_)
      constructor
      · rintro ⟨c, rfl, hfit, rfl⟩
        exact ⟨hfit, rfl, (List.append_nil _).symm⟩
      · rintro ⟨hfit, htype, rfl⟩
        match p, htype, hfit with
        | .connect c, _, hfit => exact ⟨c, rfl, hfit, (List.append_nil _).symm⟩
    | connack =>
      refine readsAs_ok_iff.trans (reads_connack_iff.trans ?_)
      constructor
      · rintro ⟨present, code, rfl, rfl⟩
        exact ⟨trivial, rfl, (List.append_nil _).symm⟩
      · rintro ⟨-, htype, rfl⟩
        match p, htype with
        | .connack present code, _ => exact ⟨present, code, rfl, (List.append_nil _).symm⟩
    | subscribe => exact readsAs_ok_iff.trans reads_subscribe_iff
    | suback => exact readsAs_ok_iff.trans reads_suback_iff
    | unsubscribe => exact readsAs_ok_iff.trans reads_unsubscribe_iff
    | puback => exact readsAs_ack_iff .puback (fun _ => rfl) (fun _ => trivial) (by rintro ⟨⟩ <;> simp [Packet.type])
    | pubrec => exact readsAs_ack_iff .pubrec (fun _ => rfl) (fun _ => trivial) (by rintro ⟨⟩ <;> simp [Packet.type])
    | pubrel => exact readsAs_ack_iff .pubrel (fun _ => rfl) (fun _ => trivial) (by rintro ⟨⟩ <;> simp [Packet.type])
    | pubcomp => exact readsAs_ack_iff .pubcomp (fun _ => rfl) (fun _ => trivial) (by rintro ⟨⟩ <;> simp [Packet.type])
    | unsuback =>
      exact readsAs_ack_iff .unsuback (fun _ => rfl) (fun _ => trivial) (by rintro ⟨⟩ <;> simp [Packet.type])
    | pingreq => exact readsAs_pure_iff rfl trivial (by rintro ⟨⟩ <;> simp [Packet.type])
    | pingresp => exact readsAs_pure_iff rfl trivial (by rintro ⟨⟩ <;> simp [Packet.type])
    | disconnect => exact readsAs_pure_iff rfl trivial (by rintro ⟨⟩ <;> simp [Packet.type])

theorem flags_of_requiredFlags {p : Packet} {flags : UInt8} (h : flags ∈ p.type.requiredFlags) :
    p.flags = flags := by
  cases p <;> cases h <;> rfl

theorem length_of_fixedLength {p : Packet} {n : Nat} (h : n ∈ p.type.fixedLength) : p.body.length = n := by
  cases p <;> cases h <;> rfl

/-- A header and a body of the length it announces are read as a packet exactly if they are the packet's
kind, flags and body. -/
theorem reads_reader_iff {t : PacketType} {flags : UInt8} (hflags : flags.toNat < 16) {p : Packet} :
    ReadsAs (reader ⟨t, flags, bs.length⟩) bs p ↔
      p.FieldsFit ∧ p.type = t ∧ p.flags = flags ∧ p.body = bs := by
  rw [readsAs_reader_iff, readsAs_fields_iff hflags]
  dsimp only
  constructor
  · rintro ⟨hrequired, -, ⟨hfit, rfl, hbody⟩, hpublish⟩
    refine ⟨hfit, rfl, ?_, hbody⟩
    cases hr : p.type.requiredFlags with
    | none => exact hpublish (by cases ht : p.type <;> rw [ht] at hr <;> first | rfl | cases hr)
    | some required =>
      rw [flags_of_requiredFlags hr]
      exact hrequired required hr
  · rintro ⟨hfit, rfl, rfl, rfl⟩
    exact ⟨fun flags h => (flags_of_requiredFlags h).symm, fun n h => length_of_fixedLength h,
      ⟨hfit, rfl, rfl⟩, fun _ => rfl⟩

end Body

theorem PacketType.code_lt (t : PacketType) : t.code < 15 := by cases t <;> decide

theorem Packet.flags_lt (p : Packet) : p.flags.toNat < 16 := by
  cases p with
  | publish p => exact Body.publish_flags_lt p
  | _ => exact of_decide_eq_true rfl

end Mqtt
