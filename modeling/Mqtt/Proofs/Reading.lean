import Mqtt.Decoder

/-!
# What a reader may return

`Reader.All P E r` says that every value `r` may still return satisfies `P` and every error `E`. It is
proved field by field, and it is kept by every byte a reader takes, so what holds of a reader at its
start holds of whatever the decoder makes of a stream.

Used here for what the layers above rely on: a packet has the kind its header announces, its topics
are short enough to be written again, and no stream is refused for want of a session.
-/

namespace Mqtt

/-- The errors that bytes alone can bring. -/
def ProtocolError.OfBytes (e : ProtocolError) : Prop := ∀ client, e ≠ .malformedPacket (.noSession client)

/-- The errors that fields can bring. Whether a packet is too large is decided before any is read. -/
def ProtocolError.OfFields : ProtocolError → Prop
  | .packetTooLarge _ _ | .malformedPacket (.noSession _) => False
  | _ => True

theorem ProtocolError.OfFields.ofBytes {e : ProtocolError} (h : e.OfFields) : e.OfBytes := by
  rintro client rfl
  exact h

theorem ProtocolError.OfFields.ne_packetTooLarge {e : ProtocolError} (h : e.OfFields) (size max : Nat) :
    e ≠ .packetTooLarge size max := by
  rintro rfl
  exact h

/-- The topics a packet hands on can be written behind a 16-bit length. -/
def Packet.TopicsFit : Packet → Prop
  | .publish p => p.topic.utf8ByteSize ≤ 65535
  | .connect c => ∀ w, c.will = some w → w.topic.utf8ByteSize ≤ 65535
  | _ => True

namespace Reader

variable {α β : Type} {P : α → Prop} {E : ProtocolError → Prop}

/-- All values the reader may return satisfy `P` and all errors `E`, whatever bytes it is given. -/
def All (P : α → Prop) (E : ProtocolError → Prop) : Reader α → Prop
  | done a => P a
  | fail e => E e
  | more got n next => ∀ bs, bs.size = got.size + n + 1 → (next bs).All P E

theorem All.imp {P' : α → Prop} {r : Reader α} (hr : r.All P E) (h : ∀ a, P a → P' a) : r.All P' E := by
  induction r with
  | done a => exact h a hr
  | fail e => exact hr
  | more got n next ih => exact fun bs hbs => ih bs (hr bs hbs)

theorem All.imp_error {E' : ProtocolError → Prop} {r : Reader α} (hr : r.All P E) (h : ∀ e, E e → E' e) :
    r.All P E' := by
  induction r with
  | done a => exact hr
  | fail e => exact h e hr
  | more got n next ih => exact fun bs hbs => ih bs (hr bs hbs)

theorem All.bind {Q : β → Prop} {r : Reader α} {f : α → Reader β} (hr : r.All P E)
    (hf : ∀ a, P a → (f a).All Q E) : (r.bind f).All Q E := by
  induction r with
  | done a => exact hf a hr
  | fail e => exact hr
  | more got n next ih => exact fun bs hbs => ih bs (hr bs hbs)

theorem All.map {Q : β → Prop} {r : Reader α} {f : α → β} (hr : r.All P E) (hf : ∀ a, P a → Q (f a)) :
    (f <$> r).All Q E :=
  hr.bind hf

/-- A byte leaves a reader with some of the values and errors it had before. -/
theorem All.step {r : Reader α} (hr : r.All P E) (b : UInt8) : (r.step b).All P E := by
  match r, hr with
  | done _, hr => exact hr
  | fail _, hr => exact hr
  | more got 0 next, hr => exact hr _ (by simp)
  | more got (n + 1) next, hr =>
    intro bs hbs
    refine hr bs ?_
    simp only [ByteArray.size_push] at hbs
    omega

theorem All.feed {r : Reader α} (hr : r.All P E) (bs : List UInt8) : (r.feed bs).1.All P E := by
  induction bs generalizing r with
  | nil =>
    rw [feed_nil]
    exact hr
  | cons b bs ih =>
    cases r with
    | done a =>
      rw [feed_done]
      exact hr
    | fail e =>
      rw [feed_fail]
      exact hr
    | more got n next =>
      rw [feed_more_cons]
      exact ih (hr.step b)

/-! ### Fields -/

theorem all_byte : byte.All (fun _ => True) E := fun _ _ => trivial

theorem all_word : word.All (fun _ => True) E := fun _ _ => trivial

theorem all_bytes (n : Nat) : (bytes n).All (·.size = n) E := by
  cases n with
  | zero => rfl
  | succ n =>
    intro bs hbs
    show bs.size = n + 1
    simpa using hbs

theorem all_binary : binary.All (·.size ≤ 65535) E := by
  refine all_word.bind fun n _ => (all_bytes n.toNat).imp fun bs hbs => ?_
  have := n.toNat_lt
  omega

theorem all_ofExcept {x : Except ProtocolError α} (hP : ∀ a, x = .ok a → P a)
    (hE : ∀ e, x = .error e → E e) : (ofExcept x).All P E := by
  cases x with
  | ok a => exact hP a rfl
  | error e => exact hE e rfl

theorem decodeText_error {bs : ByteArray} {e : ProtocolError} (h : decodeText bs = .error e) :
    e.OfFields := by
  unfold decodeText at h
  split at h
  · cases h; simp [ProtocolError.OfFields]
  · split at h
    · cases h
    · cases h; simp [ProtocolError.OfFields]

/-- A text that was read takes as many bytes as were read for it. -/
theorem decodeText_ok {bs : ByteArray} {s : String} (h : decodeText bs = .ok s) : s.toUTF8 = bs := by
  unfold decodeText at h
  split at h
  · cases h
  · split at h
    · next hs =>
      cases h
      simp only [String.fromUTF8?, Option.dite_none_right_eq_some, Option.some.injEq] at hs
      obtain ⟨_, rfl⟩ := hs
      rfl
    · cases h

theorem all_text : text.All (·.utf8ByteSize ≤ 65535) ProtocolError.OfFields := by
  refine all_binary.bind fun bs hbs => all_ofExcept (fun s hs => ?_) (fun e he => decodeText_error he)
  rw [← decodeText_ok hs] at hbs
  simpa using hbs

end Reader

/-! ### Bodies -/

namespace Body

open Reader

/-- What the layers above rely on in a packet of a kind. -/
def Read (t : PacketType) (p : Packet) : Prop := p.type = t ∧ p.TopicsFit

theorem all_optional {α : Type} {P : α → Prop} {E : ProtocolError → Prop} {field : Reader α}
    (present : Bool) (h : field.All P E) : (optional present field).All (fun o => ∀ a, o = some a → P a) E := by
  cases present with
  | false => exact fun a ha => by cases ha
  | true => exact h.map fun a ha b hb => by cases hb; exact ha

theorem all_qos (n : Nat) : (qos n).All (fun _ => True) ProtocolError.OfFields := by
  unfold qos
  split
  · trivial
  · simp [All, ProtocolError.OfFields]

theorem connectFlags_error {flags : UInt8} {e : ProtocolError} (h : connectFlags flags = .error e) :
    e.OfFields := by
  unfold connectFlags at h
  split at h
  · cases h; simp [ProtocolError.OfFields]
  · split at h
    · cases h; simp [ProtocolError.OfFields]
    · dsimp only at h
      split at h
      · cases h; simp [ProtocolError.OfFields]
      · split at h
        · cases h; simp [ProtocolError.OfFields]
        · cases h

theorem all_will (f : ConnectFlags) :
    (will f).All (fun w => w.topic.utf8ByteSize ≤ 65535) ProtocolError.OfFields :=
  all_text.bind fun _ htopic => all_binary.bind fun _ _ => htopic

theorem all_connect : connect.All (Read .connect) ProtocolError.OfFields := by
  refine all_text.bind fun _ _ => all_byte.bind fun _ _ => all_byte.bind fun flags _ => ?_
  refine (all_ofExcept (P := fun _ => True) (fun _ _ => trivial) fun e => connectFlags_error).bind
    fun f _ => ?_
  refine all_word.bind fun _ _ => all_text.bind fun _ _ => ?_
  refine (all_optional f.will (all_will f)).bind fun will hwill => ?_
  refine (all_optional f.username all_text).bind fun _ _ => ?_
  refine (all_optional f.password all_binary).bind fun _ _ => ?_
  exact ⟨rfl, hwill⟩

theorem all_connack : connack.All (Read .connack) ProtocolError.OfFields := by
  refine all_byte.bind fun flags _ => ?_
  split
  · simp [All, ProtocolError.OfFields]
  · refine all_byte.bind fun code _ => ?_
    split
    · exact ⟨rfl, trivial⟩
    · simp [All, ProtocolError.OfFields]

theorem all_publish (flags : UInt8) (q : QoS) (length : Nat) :
    (publish flags q length).All (Read .publish) ProtocolError.OfFields := by
  refine all_text.bind fun topic htopic => (all_optional _ all_word).bind fun _ _ => ?_
  exact (all_bytes _).bind fun _ _ => ⟨rfl, htopic⟩

theorem all_topicRequests (left : Nat) :
    (topicRequests left).All (fun _ => True) ProtocolError.OfFields := by
  induction left using Nat.strongRecOn with
  | ind left ih =>
    unfold topicRequests
    split
    · trivial
    · refine all_text.bind fun filter _ => all_byte.bind fun options _ => ?_
      split
      · simp [All, ProtocolError.OfFields]
      · exact (all_qos _).bind fun _ _ => (ih _ (by omega)).bind fun _ _ => trivial

theorem all_subscribe (length : Nat) :
    (subscribe length).All (Read .subscribe) ProtocolError.OfFields := by
  refine all_word.bind fun id _ => (all_topicRequests _).bind fun topics _ => ?_
  split
  · simp [All, ProtocolError.OfFields]
  · exact ⟨rfl, trivial⟩

theorem all_subackCodes (n : Nat) : (subackCodes n).All (fun _ => True) ProtocolError.OfFields := by
  induction n with
  | zero => trivial
  | succ n ih =>
    refine all_byte.bind fun code _ => ?_
    split
    · simp [All, ProtocolError.OfFields]
    · exact ih.bind fun _ _ => trivial

theorem all_suback (length : Nat) : (suback length).All (Read .suback) ProtocolError.OfFields :=
  all_word.bind fun _ _ => (all_subackCodes _).bind fun _ _ => ⟨rfl, trivial⟩

theorem all_filters (left : Nat) : (filters left).All (fun _ => True) ProtocolError.OfFields := by
  induction left using Nat.strongRecOn with
  | ind left ih =>
    unfold filters
    split
    · trivial
    · exact all_text.bind fun filter _ => (ih _ (by omega)).bind fun _ _ => trivial

theorem all_unsubscribe (length : Nat) :
    (unsubscribe length).All (Read .unsubscribe) ProtocolError.OfFields := by
  refine all_word.bind fun id _ => (all_filters _).bind fun names _ => ?_
  split
  · simp [All, ProtocolError.OfFields]
  · exact ⟨rfl, trivial⟩

/-- A reader of a body that is an identifier alone. -/
theorem all_ack {t : PacketType} {make : UInt16 → Packet} (hmake : ∀ id, Read t (make id)) :
    (make <$> word).All (Read t) ProtocolError.OfFields :=
  all_word.map fun id _ => hmake id

/-- A body of a kind is begun, or refused for its bytes. -/
def Begins (t : PacketType) : Except ProtocolError (Reader Packet) → Prop
  | .ok r => r.All (Read t) ProtocolError.OfFields
  | .error e => e.OfFields

theorem begins_ite {t : PacketType} {c : Prop} [Decidable c] {e : ProtocolError} {r : Reader Packet}
    (he : e.OfFields) (hr : r.All (Read t) ProtocolError.OfFields) :
    Begins t (if c then .error e else .ok r) := by
  split
  · exact he
  · exact hr

/-- A header begins a body of its kind, or is refused for its bytes. -/
theorem begins_reader (h : FixedHeader) : Begins h.type (reader h) := by
  obtain ⟨t, flags, length⟩ := h
  unfold reader
  simp only [fields, Bind.bind, Except.bind, Pure.pure, Except.pure, throw, throwThe, MonadExceptOf.throw]
  by_cases hflags : t.requiredFlags.any (· ≠ flags) = true
  · rw [if_pos hflags]
    simp [Begins, ProtocolError.OfFields]
  rw [if_neg hflags]
  have wrong (n : Nat) : (ProtocolError.malformedPacket (.wrongLength t n length)).OfFields := by
    simp [ProtocolError.OfFields]
  cases t
  case connect => exact all_connect
  case subscribe => exact all_subscribe length
  case suback => exact all_suback length
  case unsubscribe => exact all_unsubscribe length
  case publish =>
    simp only [PacketType.fixedLength]
    cases QoS.ofNat? (flags.toNat / 2 % 4) with
    | none => simp [Begins, ProtocolError.OfFields]
    | some q => exact all_publish flags q length
  case connack => exact begins_ite (wrong 2) all_connack
  case puback | pubrec | pubrel | pubcomp | unsuback =>
    exact begins_ite (wrong 2) (all_ack fun _ => ⟨rfl, trivial⟩)
  case pingreq | pingresp | disconnect => exact begins_ite (wrong 0) ⟨rfl, trivial⟩

end Body

/-! ### The decoder -/

namespace Decoder

/-- Where a decoder can stand: what it is reading can only bring what the bytes allow. -/
def State.Sound : State → Prop
  | .header .start => True
  | .header (.length _ _ r) => r.All (fun _ => True) ProtocolError.OfBytes
  | .body h _ r => r.All (Body.Read h.type) ProtocolError.OfBytes

/-- What a byte can bring. -/
def Yield.Sound : Yield → Prop
  | .ok none => True
  | .ok (some p) => p.TopicsFit
  | .error e => e.OfBytes

theorem all_groups (further weight value : Nat) :
    (RemainingLength.groups further weight value).All (fun _ => True) ProtocolError.OfFields := by
  induction further generalizing weight value with
  | zero =>
    refine Reader.all_byte.bind fun b _ => ?_
    dsimp only
    split
    · trivial
    · simp [Reader.All, ProtocolError.OfFields]
  | succ n ih =>
    refine Reader.all_byte.bind fun b _ => ?_
    dsimp only
    split
    · trivial
    · exact ih _ _

theorem State.settle_sound {h : FixedHeader} {left : Nat} {r : Reader Packet}
    (hr : r.All (Body.Read h.type) ProtocolError.OfBytes) :
    (settle h left r).1.Sound ∧ (settle h left r).2.Sound := by
  cases r with
  | done p =>
    unfold settle
    dsimp only
    split
    · exact ⟨trivial, hr.2⟩
    · exact ⟨hr, by simp [Yield.Sound, ProtocolError.OfBytes]⟩
  | fail e => exact ⟨hr, hr⟩
  | more got n next =>
    unfold settle
    dsimp only
    split
    · exact ⟨hr, by simp [Yield.Sound, ProtocolError.OfBytes]⟩
    · exact ⟨hr, trivial⟩

theorem State.begin_sound (max : Nat) (h : FixedHeader) :
    (State.begin max h).1.Sound ∧ (State.begin max h).2.Sound := by
  unfold State.begin
  dsimp only
  split
  · exact ⟨trivial, by simp [Yield.Sound, ProtocolError.OfBytes]⟩
  · have hb := Body.begins_reader h
    split
    · next r hr =>
      rw [hr] at hb
      exact settle_sound (Reader.All.imp_error hb fun _ => ProtocolError.OfFields.ofBytes)
    · next e he =>
      rw [he] at hb
      exact ⟨trivial, ProtocolError.OfFields.ofBytes hb⟩

/-- A byte keeps the decoder sound and brings only what bytes can bring. -/
theorem State.step_sound {max : Nat} {s : State} (hs : s.Sound) (b : UInt8) :
    (s.step max b).1.Sound ∧ (s.step max b).2.Sound := by
  match s, hs with
  | .body h left r, hs => exact settle_sound (hs.step b)
  | .header .start, _ =>
    unfold State.step FixedHeader.Progress.step
    dsimp only
    cases PacketType.ofCode? (b.toNat / 16) with
    | some t => exact ⟨(all_groups 3 1 0).imp_error fun _ => ProtocolError.OfFields.ofBytes, trivial⟩
    | none => exact ⟨trivial, by simp [Yield.Sound, ProtocolError.OfBytes]⟩
  | .header (.length t flags r), hs =>
    have hr := Reader.All.step hs b
    unfold State.step FixedHeader.Progress.step
    dsimp only
    cases hstep : r.step b with
    | done n => exact begin_sound max _
    | fail e => rw [hstep] at hr; exact ⟨hr, hr⟩
    | more got n next => rw [hstep] at hr; exact ⟨hr, trivial⟩

end Decoder

end Mqtt
