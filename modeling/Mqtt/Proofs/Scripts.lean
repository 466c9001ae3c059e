import Mqtt.Proofs.Buffers

/-!
# Bodies from a buffer: `BodyDecoder::decode`

The body of a packet is read from a buffer field by field. A `Script` is what is left of it: the field that is being
read, with what has come of it, and what follows. The payload of a PUBLISH takes what the fields before it leave of
the body, and a list ends where the body ends, so these look at how many bytes are left. `Script.Follows` says that a
script reads what a reader reads that is given the bytes one by one, and `script_begins` that the script of every
body does; `Script.run_answers` is what follows from it for a buffer.
-/

namespace Mqtt.Buffered

variable {α β : Type}

/-- What is left to be read of a body. -/
inductive Script (α : Type) where
  | done (a : α)
  | fail (e : ProtocolError)
  | field (k : Kind) (kept : k.Partial) (next : k.Value → Script α)
  /-- All the bytes that are left. -/
  | payload (next : ByteArray → Script α)
  /-- How many bytes are left decides. -/
  | remaining (next : Nat → Script α)
  /-- A loop has gone on for too long. -/
  | stuck

namespace Script

def bind : Script α → (α → Script β) → Script β
  | done a, f => f a
  | fail e, _ => fail e
  | field k kept next, f => field k kept fun a => (next a).bind f
  | payload next, f => payload fun bs => (next bs).bind f
  | remaining next, f => remaining fun n => (next n).bind f
  | stuck, _ => stuck

instance : Monad Script where
  pure := done
  bind := bind

/-- Read the fields from a position on, of a body of which `left` bytes were left where the buffer starts. -/
def run : Script α → (buf : List UInt8) → (left pos : Nat) → Checked (Progress α × Script α)
  | done a, _, _, pos => .ok (⟨pos, some a⟩, done a)
  | fail e, _, _, _ => .error (.refused e)
  | field k kept next, buf, left, pos =>
    Buffered.field (k.decode kept) buf pos (field k · next) fun a _ pos => (next a).run buf left pos
  | payload next, buf, left, pos => do
    let length ← minus? left pos
    Buffered.field (Kind.raw.decode (Raw.new length)) buf pos (field .raw · next) fun bs _ pos =>
      (next bs).run buf left pos
  | remaining next, buf, left, pos => do
    let n ← minus? left pos
    (next n).run buf left pos
  | stuck, _, _, _ => .error .endless

/-- With that many bytes left of the body, the script reads what the reader reads. -/
def Follows : Script α → Reader α → (left : Nat) → Prop
  | done a, r, _ => r = .done a
  | fail e, r, _ => r = .fail e
  | field k kept next, r, left => ∃ (first : Reader k.Value) (g : k.Value → Reader α),
      k.Waits kept first ∧ r = first.bind g ∧
        ∀ taken a, first.Reads taken a [] → (next a).Follows (g a) (left - taken.length)
  | payload next, r, left => ∃ g, r = (Reader.bytes left).bind g ∧ ∀ bs, bs.size = left → (next bs).Follows (g bs) 0
  | remaining next, r, left => (next left).Follows r left
  | stuck, _, _ => False

/-! ### Running a script -/

section Run

variable {buf : List UInt8} {left pos : Nat} {r : Reader α}

/-- What is kept of a script stands for what is left of the reader, in what is left of the body. -/
abbrev Waits (left : Nat) (s : Script α) (r : Reader α) : Prop := s.Follows r left

theorem Follows.payload {next : ByteArray → Script α} (h : (payload next).Follows r left) :
    (field .raw (Raw.new left) next).Follows r left := by
  obtain ⟨g, rfl, hnext⟩ := h
  refine ⟨_, g, Raw.waits_new left, rfl, fun taken bs htaken => ?_⟩
  obtain ⟨hsize, rfl⟩ := Reader.reads_bytes_iff.1 htaken
  have hnone : left - (bs.data.toList ++ []).length = 0 := by simp [hsize]
  rw [hnone]
  exact hnext bs hsize

/-- A field is read, and then what follows. -/
theorem field_answers {k : Kind} {kept : k.Partial} {next : k.Value → Script α} (hbuf : buf.length ≤ left)
    (hpos : pos ≤ buf.length) (h : (field k kept next).Follows r (left - pos))
    (hnext : ∀ a {r : Reader α} {pos : Nat}, pos ≤ buf.length → (next a).Follows r (left - pos) →
      Answers (fun _ => True) (Waits (left - buf.length)) r buf pos ((next a).run buf left pos)) :
    Answers (fun _ => True) (Waits (left - buf.length)) r buf pos
      (Buffered.field (k.decode kept) buf pos (field k · next) fun a _ pos => (next a).run buf left pos) := by
  obtain ⟨first, g, hwaits, rfl, hfollows⟩ := h
  refine .field hpos (k.decode_answers hwaits _) ?_ ?_
  · intro kept' got n more hfeed hwaits'
    refine ⟨_, g, hwaits', rfl, fun taken a htaken => ?_⟩
    have hfirst : first.Reads (buf.drop pos ++ taken) a [] := by
      rw [Reader.Reads, Reader.feed_append, hfeed]
      exact htaken
    have hleft : left - buf.length - taken.length = left - pos - (buf.drop pos ++ taken).length := by
      rw [List.length_append, List.length_drop]
      omega
    rw [hleft]
    exact hfollows _ a hfirst
  · intro a kept' pos' hle hle' hfeed _
    obtain ⟨taken, htaken, hfirst⟩ := Reader.feed_split hfeed
    have hcount := congrArg List.length htaken
    rw [List.length_append, List.length_drop, List.length_drop] at hcount
    have hleft : left - pos' = left - pos - taken.length := by omega
    refine hnext a hle' ?_
    rw [hleft]
    exact hfollows taken a hfirst

/-- **A script reads from a buffer what the reader reads that it follows**, and what it keeps follows what is left of
the reader. -/
theorem run_answers (s : Script α) (hbuf : buf.length ≤ left) (hpos : pos ≤ buf.length)
    (h : s.Follows r (left - pos)) :
    Answers (fun _ => True) (Waits (left - buf.length)) r buf pos (s.run buf left pos) := by
  have hminus : minus? left pos = .ok (left - pos) := minus?_of_le (Nat.le_trans hpos hbuf)
  induction s generalizing r pos with
  | done a =>
    obtain rfl : r = .done a := h
    have hthere : buf.length - (buf.drop pos).length = pos := by
      rw [List.length_drop]
      omega
    refine .whole (s := done a) (Reader.feed_done a _) trivial ?_
    rw [hthere, run]
  | fail e =>
    obtain rfl : r = .fail e := h
    exact .refused (Reader.feed_fail e _) rfl
  | field k kept next ih =>
    rw [run]
    exact field_answers hbuf hpos h fun a _ _ hpos hfollows =>
      ih a hpos hfollows (minus?_of_le (Nat.le_trans hpos hbuf))
  | payload next ih =>
    rw [run, hminus]
    exact field_answers hbuf hpos h.payload fun a _ _ hpos hfollows =>
      ih a hpos hfollows (minus?_of_le (Nat.le_trans hpos hbuf))
  | remaining next ih =>
    rw [run, hminus]
    exact ih (left - pos) hpos h hminus
  | stuck => exact h.elim

end Run

/-! ### Fields in sequence -/

section Sequence

variable {left : Nat}

/-- Scripts are sequenced as readers are. What follows may rely on what was read, and on how many bytes it took. -/
theorem Follows.bind {s : Script α} {r : Reader α} {f : α → Script β} {g : α → Reader β} (h : s.Follows r left)
    (hnext : ∀ taken a, r.Reads taken a [] → (f a).Follows (g a) (left - taken.length)) :
    (s >>= f).Follows (r >>= g) left := by
  change (s.bind f).Follows (r.bind g) left
  induction s generalizing r left with
  | done a =>
    obtain rfl : r = .done a := h
    exact hnext [] a (Reader.feed_nil _)
  | fail e =>
    obtain rfl : r = .fail e := h
    rfl
  | field k kept next ih =>
    obtain ⟨first, g', hwaits, rfl, hfollows⟩ := h
    refine ⟨first, fun a => (g' a).bind g, hwaits, Reader.bind_bind _ _ _, fun taken a htaken => ?_⟩
    refine ih a (hfollows taken a htaken) fun taken' b htaken' => ?_
    have hboth : (first.bind g').Reads (taken ++ taken') b [] :=
      Reader.reads_bind_iff.2 ⟨a, taken', htaken.append taken', htaken'⟩
    have hleft : left - taken.length - taken'.length = left - (taken ++ taken').length := by
      rw [List.length_append]
      omega
    rw [hleft]
    exact hnext _ b hboth
  | payload next ih =>
    obtain ⟨g', rfl, hfollows⟩ := h
    refine ⟨fun bs => (g' bs).bind g, Reader.bind_bind _ _ _, fun bs hsize => ?_⟩
    refine ih bs (hfollows bs hsize) fun taken b htaken => ?_
    have hpayload : (Reader.bytes left).Reads bs.data.toList bs [] :=
      Reader.reads_bytes_iff.2 ⟨hsize, (List.append_nil _).symm⟩
    have hboth : ((Reader.bytes left).bind g').Reads (bs.data.toList ++ taken) b [] :=
      Reader.reads_bind_iff.2 ⟨bs, taken, hpayload.append taken, htaken⟩
    have hleft : 0 - taken.length = left - (bs.data.toList ++ taken).length := by
      simp [hsize]
    rw [hleft]
    exact hnext _ b hboth
  | remaining next ih => exact ih left h hnext
  | stuck => exact h.elim

/-- What follows may do so whatever is left. -/
theorem Follows.bind' {s : Script α} {r : Reader α} {f : α → Script β} {g : α → Reader β} (h : s.Follows r left)
    (hnext : ∀ a left, (f a).Follows (g a) left) : (s >>= f).Follows (r >>= g) left :=
  h.bind fun _ a _ => hnext a _

theorem follows_field {k : Kind} {kept : k.Partial} {r : Reader k.Value} (h : k.Waits kept r) :
    (field k kept .done).Follows r left :=
  ⟨r, .done, h, r.bind_done.symm, fun _ _ _ => rfl⟩

theorem Follows.ite {p : Prop} [Decidable p] {s s' : Script α} {r r' : Reader α} (h : p → s.Follows r left)
    (h' : ¬ p → s'.Follows r' left) : (if p then s else s').Follows (if p then r else r') left := by
  by_cases hp : p
  · rw [if_pos hp, if_pos hp]
    exact h hp
  · rw [if_neg hp, if_neg hp]
    exact h' hp

end Sequence

/-! ### The fields -/

def byte : Script UInt8 := field .byte () done

def word : Script UInt16 := field .word .fresh done

def binary : Script ByteArray := field .binary .fresh done

def text : Script String := field .text .fresh done

def qos (n : Nat) : Script QoS :=
  match QoS.ofNat? n with
  | some q => done q
  | none => fail (.invalidQoS n)

def ofExcept : Except ProtocolError α → Script α
  | .ok a => done a
  | .error e => fail e

def optional (present : Bool) (s : Script α) : Script (Option α) := if present then some <$> s else pure none

section

variable {left : Nat}

theorem byte_follows : byte.Follows Reader.byte left := follows_field (k := .byte) rfl

theorem word_follows : word.Follows Reader.word left := follows_field (k := .word) Word.waits_fresh

theorem binary_follows : binary.Follows Reader.binary left := follows_field (k := .binary) Binary.waits_fresh

theorem text_follows : text.Follows Reader.text left := follows_field (k := .text) Binary.waitsText_fresh

theorem qos_follows (n : Nat) : (qos n).Follows (Body.qos n) left := by
  unfold qos Body.qos
  cases QoS.ofNat? n <;> rfl

theorem ofExcept_follows (x : Except ProtocolError α) : (ofExcept x).Follows (Reader.ofExcept x) left := by
  cases x <;> rfl

theorem optional_follows {s : Script α} {r : Reader α} (present : Bool) (h : s.Follows r left) :
    (optional present s).Follows (Body.optional present r) left := by
  cases present with
  | false => rfl
  | true => exact h.bind fun _ _ _ => rfl

/-! What follows a field whose size is told by its value. -/

theorem word_bind {f : UInt16 → Script β} {g : UInt16 → Reader β} (h : ∀ n, (f n).Follows (g n) (left - 2)) :
    (word >>= f).Follows (Reader.word >>= g) left := by
  refine word_follows.bind fun taken n htaken => ?_
  rw [Reader.reads_word_iff.1 htaken]
  exact h n

theorem length_text {taken : List UInt8} {t : String} (h : Reader.text.Reads taken t []) :
    taken.length = 2 + t.utf8ByteSize := by
  rw [(Reader.reads_text_iff.1 h).2]
  simp [Wire.text, Wire.binary, Wire.word]
  omega

theorem text_bind {f : String → Script β} {g : String → Reader β}
    (h : ∀ t, (f t).Follows (g t) (left - (2 + t.utf8ByteSize))) :
    (text >>= f).Follows (Reader.text >>= g) left := by
  refine text_follows.bind fun taken t htaken => ?_
  rw [length_text htaken]
  exact h t

end

/-! ### Lists that end where the body does -/

/-- Read one item after the other until nothing is left of the body. That many rounds are more than enough. -/
def items (item : Script ι) (close : List ι → Script α) : (rounds : Nat) → List ι → Script α
  | 0, _ => stuck
  | rounds + 1, read => remaining fun left =>
    if left = 0 then close read else item >>= fun i => items item close rounds (read ++ [i])

theorem items_follows {item : Script ι} {one : Reader ι} {size : ι → Nat} {many : Nat → Reader (List ι)}
    {close : List ι → Script α} {f : List ι → Reader α} (hitem : ∀ left, item.Follows one left)
    (hmany : Body.Repeats one size many) (hclose : ∀ read, (close read).Follows (f read) 0) {rounds : Nat}
    (read : List ι) {left : Nat} (hrounds : left < rounds) :
    (items item close rounds read).Follows (many left >>= fun rest => f (read ++ rest)) left := by
  induction rounds generalizing read left with
  | zero => exact absurd hrounds (Nat.not_lt_zero left)
  | succ rounds ih =>
    rw [items, Follows]
    by_cases hleft : left = 0
    · subst hleft
      have hnone : (many 0 >>= fun rest => f (read ++ rest)) = f (read ++ []) := by
        rw [hmany.none]
        rfl
      rw [if_pos rfl, hnone, List.append_nil]
      exact hclose read
    · have hone : (many left >>= fun rest => f (read ++ rest)) =
          one >>= fun i => many (left - size i) >>= fun rest => f (read ++ [i] ++ rest) := by
        rw [hmany.some left hleft]
        simp only [bind_assoc, List.append_assoc]
        rfl
      rw [if_neg hleft, hone]
      refine (hitem left).bind fun taken i htaken => ?_
      obtain ⟨htook, hpos⟩ := hmany.takes taken i htaken
      rw [htook]
      exact ih (read ++ [i]) (by omega)

/-! ### The bodies -/

def will (f : Body.ConnectFlags) : Script Will := do
  let topic ← text
  let payload ← binary
  return { topic, payload, qos := f.willQoS, retain := f.willRetain }

def connect : Script Packet := do
  let protocolName ← text
  let protocolLevel ← byte
  let flags ← byte
  let f ← ofExcept (Body.connectFlags flags)
  let keepAlive ← word
  let clientId ← text
  let will ← optional f.will (will f)
  let username ← optional f.username text
  let password ← optional f.password binary
  return .connect
    { protocolName, protocolLevel, cleanSession := f.cleanSession, keepAlive, clientId, will, username, password }

def connack : Script Packet := do
  let flags ← byte
  if flags &&& 0xFE ≠ 0 then fail (.malformedPacket (.connackFlags flags))
  else
    let code ← byte
    match ConnackCode.ofNat? code.toNat with
    | some c => return .connack (flags &&& 0x01 ≠ 0) c
    | none => fail (.malformedPacket (.connackCode code))

/-- The payload is what the body has left when its turn comes. -/
def publish (flags : UInt8) (q : QoS) : Script Packet := do
  let topic ← text
  let packetId ← optional q.isAcknowledged word
  let payload ← payload done
  return .publish
    { dup := flags &&& 0x08 ≠ 0, qos := q, retain := flags &&& 0x01 ≠ 0, topic, packetId, payload }

def topicRequest : Script TopicRequest := do
  let filter ← text
  let options ← byte
  if options &&& 0xFC ≠ 0 then fail (.malformedPacket (.subscribeOptions options))
  else
    let q ← qos options.toNat
    return ⟨filter, q⟩

def subscribe (length : Nat) : Script Packet := do
  let id ← word
  items topicRequest (fun topics =>
    if topics = [] then fail (.malformedPacket .subscribeNothing) else done (.subscribe id topics)) length []

def subackCode : Script UInt8 := do
  let code ← byte
  if code > 2 && code ≠ subackFailure then fail (.malformedPacket (.subackCode code)) else return code

def suback (length : Nat) : Script Packet := do
  let id ← word
  items subackCode (fun codes => done (.suback id codes)) length []

def unsubscribe (length : Nat) : Script Packet := do
  let id ← word
  items text (fun names =>
    if names = [] then fail (.malformedPacket .unsubscribeNothing) else done (.unsubscribe id names)) length []

def fields (h : FixedHeader) : Except ProtocolError (Script Packet) :=
  match h.type with
  | .connect => return connect
  | .connack => return connack
  | .publish =>
    match QoS.ofNat? (h.flags.toNat / 2 % 4) with
    | some q => return publish h.flags q
    | none => throw (.invalidQoS (h.flags.toNat / 2 % 4))
  | .puback => return .puback <$> word
  | .pubrec => return .pubrec <$> word
  | .pubrel => return .pubrel <$> word
  | .pubcomp => return .pubcomp <$> word
  | .unsuback => return .unsuback <$> word
  | .subscribe => return subscribe (h.remainingLength + 1)
  | .suback => return suback (h.remainingLength + 1)
  | .unsubscribe => return unsubscribe (h.remainingLength + 1)
  | .pingreq => return pure .pingreq
  | .pingresp => return pure .pingresp
  | .disconnect => return pure .disconnect

end Script

/-- The body announced by a fixed header. Flags and length are checked before anything is read. -/
def script (h : FixedHeader) : Except ProtocolError (Script Packet) := do
  if h.type.requiredFlags.any (· ≠ h.flags) then throw (.invalidFlags h.type h.flags)
  match h.type.fixedLength with
  | some n =>
    if h.remainingLength ≠ n then
      throw (.malformedPacket (.wrongLength h.type n h.remainingLength))
  | none => pure ()
  Script.fields h

namespace Script

section Bodies

variable {left : Nat}

theorem connect_follows : connect.Follows Body.connect left := by
  refine text_follows.bind' fun _ _ => byte_follows.bind' fun _ _ => byte_follows.bind' fun flags _ => ?_
  refine (ofExcept_follows _).bind' fun f _ => word_follows.bind' fun _ _ => text_follows.bind' fun _ _ => ?_
  have hwill (left : Nat) : (will f).Follows (Body.will f) left :=
    text_follows.bind' fun _ _ => binary_follows.bind' fun _ _ => rfl
  refine (optional_follows f.will (hwill _)).bind' fun _ _ => ?_
  refine (optional_follows f.username text_follows).bind' fun _ _ => ?_
  exact (optional_follows f.password binary_follows).bind' fun _ _ => rfl

theorem connack_follows : connack.Follows Body.connack left := by
  refine byte_follows.bind' fun flags _ => ?_
  refine .ite (fun _ => rfl) fun _ => byte_follows.bind' fun code _ => ?_
  cases ConnackCode.ofNat? code.toNat <;> rfl

/-- The payload that is left when its turn comes is the one that the length of the fields before it leaves. -/
theorem publish_follows (flags : UInt8) (q : QoS) : (publish flags q).Follows (Body.publish flags q left) left := by
  refine text_bind fun topic => ?_
  have hpayload {n m : Nat} {make : ByteArray → Packet} (h : n = m) :
      (payload done >>= fun bs => done (make bs)).Follows (Reader.bytes m >>= fun bs => .done (make bs)) n := by
    subst h
    exact ⟨_, rfl, fun _ _ => rfl⟩
  cases hq : q.isAcknowledged with
  | false => exact hpayload (by simp)
  | true => exact word_bind fun id => hpayload (by simp; omega)

theorem topicRequest_follows (left : Nat) : topicRequest.Follows Body.oneRequest left := by
  refine text_follows.bind' fun _ _ => byte_follows.bind' fun _ _ => ?_
  exact .ite (fun _ => rfl) fun _ => (qos_follows _).bind' fun _ _ => rfl

theorem subackCode_follows (left : Nat) : subackCode.Follows Body.oneCode left :=
  byte_follows.bind' fun _ _ => .ite (fun _ => rfl) fun _ => rfl

theorem subscribe_follows : (subscribe (left + 1)).Follows (Body.subscribe left) left := by
  refine word_bind fun id => ?_
  let f (topics : List TopicRequest) : Reader Packet :=
    if topics = [] then .fail (.malformedPacket .subscribeNothing) else .done (.subscribe id topics)
  refine items_follows (f := f) topicRequest_follows Body.repeats_topicRequests (fun topics => ?_) [] (by omega)
  exact .ite (fun _ => rfl) fun _ => rfl

theorem suback_follows : (suback (left + 1)).Follows (Body.suback left) left := by
  refine word_bind fun id => ?_
  let f (codes : List UInt8) : Reader Packet := .done (.suback id codes)
  refine items_follows (f := f) subackCode_follows Body.repeats_subackCodes (fun codes => ?_) [] (by omega)
  rfl

theorem unsubscribe_follows : (unsubscribe (left + 1)).Follows (Body.unsubscribe left) left := by
  refine word_bind fun id => ?_
  let f (names : List String) : Reader Packet :=
    if names = [] then .fail (.malformedPacket .unsubscribeNothing) else .done (.unsubscribe id names)
  refine items_follows (f := f) (fun _ => text_follows) Body.repeats_filters (fun names => ?_) [] (by omega)
  exact .ite (fun _ => rfl) fun _ => rfl

end Bodies

end Script

/-- A body is begun in the same way or refused in the same way. -/
inductive Begins (left : Nat) : Except ProtocolError (Script Packet) → Except ProtocolError (Reader Packet) → Prop
  | reads {s : Script Packet} {r : Reader Packet} : s.Follows r left → Begins left (.ok s) (.ok r)
  | refused (e : ProtocolError) : Begins left (.error e) (.error e)

theorem fields_begins (h : FixedHeader) : Begins h.remainingLength (Script.fields h) (Body.fields h) := by
  have hack (make : UInt16 → Packet) : Script.Follows (make <$> Script.word) (make <$> Reader.word) h.remainingLength :=
    Script.word_follows.bind' fun _ _ => rfl
  unfold Script.fields Body.fields
  cases h.type with
  | connect => exact .reads Script.connect_follows
  | connack => exact .reads Script.connack_follows
  | publish =>
    dsimp only
    cases QoS.ofNat? (h.flags.toNat / 2 % 4) with
    | none => exact .refused _
    | some q => exact .reads (Script.publish_follows h.flags q)
  | puback | pubrec | pubrel | pubcomp | unsuback => exact .reads (hack _)
  | subscribe => exact .reads Script.subscribe_follows
  | suback => exact .reads Script.suback_follows
  | unsubscribe => exact .reads Script.unsubscribe_follows
  | pingreq | pingresp | disconnect => exact .reads rfl

/-- **Every body is begun in a buffer as it is begun byte by byte.** -/
theorem script_begins (h : FixedHeader) : Begins h.remainingLength (script h) (Body.reader h) := by
  have hfields := fields_begins h
  unfold script Body.reader
  by_cases hflags : h.type.requiredFlags.any (· ≠ h.flags) = true
  · rw [if_pos hflags, if_pos hflags]
    exact .refused _
  rw [if_neg hflags, if_neg hflags]
  cases h.type.fixedLength with
  | none => exact hfields
  | some n =>
    dsimp only
    by_cases hlength : h.remainingLength = n
    · rw [if_neg (not_not_intro hlength), if_neg (not_not_intro hlength)]
      exact hfields
    · rw [if_pos hlength, if_pos hlength]
      exact .refused _

end Mqtt.Buffered
