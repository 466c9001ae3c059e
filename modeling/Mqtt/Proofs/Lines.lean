import Mqtt.Proofs.Exchange
import Mqtt.Proofs.Framing

/-!
# What is on a line

Bytes that were written and not yet read are seen here as the packets which the decoder at the other end
is going to make of them. Writing a packet puts at most that packet at the end of the line, reading a
byte takes at most one packet off its front, and a line that is cut is a prefix of what it was.

The first of these needs a line that ends between two packets: `Decoder.Aligned`.
-/

namespace Mqtt

/-! ### Reading what was written -/

theorem Packet.Becomes.eq {p q : Packet} (h : p.Becomes q) {id : UInt16}
    (hp : p.requests id = true ∨ p.answers id = true) : q = p := by
  cases p with
  | publish | puback | pubrec | pubrel | pubcomp => exact h
  | _ => simp [Packet.requests, Packet.answers] at hp

theorem Packet.Becomes.plain {p q : Packet} (h : p.Becomes q) {id : UInt16}
    (hp : p.requests id = false ∧ p.answers id = false) : q.requests id = false ∧ q.answers id = false := by
  cases p with
  | publish | puback | pubrec | pubrel | pubcomp | connack => exact h ▸ hp
  | connect =>
    obtain ⟨c, rfl, -⟩ := h
    exact hp
  | suback | subscribe | unsubscribe | unsuback | pingreq | pingresp | disconnect =>
    have htype : q.type = _ := h
    cases q <;> first | exact ⟨rfl, rfl⟩ | cases htype

/-- What is read where packets were written: each of them, up to one that is refused. -/
inductive Packet.Read : List Packet → List Packet → Prop
  | refused (ps : List Packet) : Read ps []
  | next {p q : Packet} {ps qs : List Packet} : p.Becomes q → Read ps qs → Read (p :: ps) (q :: qs)

namespace Packet.Read

variable {ps qs : List Packet}

theorem mem (h : Read ps qs) {q : Packet} (hq : q ∈ qs) : ∃ p ∈ ps, p.Becomes q := by
  induction h with
  | refused => cases hq
  | @next p q' ps qs hp _ ih =>
    rcases List.mem_cons.1 hq with rfl | hq
    · exact ⟨p, .head _, hp⟩
    · obtain ⟨p', hp', hbecomes⟩ := ih hq
      exact ⟨p', .tail _ hp', hbecomes⟩

/-- Nothing is read of a handshake but what was written. -/
theorem within (h : Read ps qs) : Exchange.Within qs ps := by
  intro id
  induction h with
  | refused => exact ⟨List.nil_sublist _, List.nil_sublist _⟩
  | @next p q ps qs hp _ ih =>
    by_cases hplain : p.requests id = false ∧ p.answers id = false
    · obtain ⟨hrequests, hanswers⟩ := hp.plain hplain
      simpa [hplain, hrequests, hanswers] using ih
    · have hsame : q = p := hp.eq (by cases hr : p.requests id <;> simp_all)
      subst hsame
      constructor
      · by_cases hr : q.requests id = true
        · simpa [hr] using ih.1
        · simpa [hr] using ih.1
      · by_cases ha : q.answers id = true
        · simpa [ha] using ih.2
        · simpa [ha] using ih.2

end Packet.Read

/-! ### Lines -/

namespace Decoder

variable {d : Decoder} {bs : List UInt8}

/-- The packets that bytes still to come are going to bring. -/
def coming (d : Decoder) (bs : List UInt8) : List Packet := (d.state.run d.maxPacketSize bs).2.1

/-- The bytes end between two packets, unless they are refused. -/
def Aligned (d : Decoder) (bs : List UInt8) : Prop :=
  (d.state.run d.maxPacketSize bs).2.2 = none → (d.state.run d.maxPacketSize bs).1 = .header .start

theorem aligned_new (max : Nat) : (new max).Aligned [] := fun _ => rfl

/-- A line that is cut brings the first of its packets. -/
theorem coming_append_prefix (d : Decoder) (as bs : List UInt8) :
    d.coming as <+: d.coming (as ++ bs) := by
  unfold coming
  rw [State.run_append]
  rcases d.state.run d.maxPacketSize as with ⟨s, ps, _ | e⟩
  · exact List.prefix_append ps _
  · exact List.prefix_refl ps

theorem Aligned.write_one (h : d.Aligned bs) {p : Packet} (hp : p.Writable) :
    d.Aligned (bs ++ p.encode) ∧
      (d.coming (bs ++ p.encode) = d.coming bs ∧ (d.state.run d.maxPacketSize (bs ++ p.encode)).2.2 ≠ none ∨
        ∃ q, p.Becomes q ∧ d.coming (bs ++ p.encode) = d.coming bs ++ [q]) := by
  unfold Aligned coming at *
  rw [State.run_append]
  rcases hrun : d.state.run d.maxPacketSize bs with ⟨s, ps, _ | e⟩
  · rw [hrun] at h
    obtain rfl : s = .header .start := h rfl
    dsimp only
    rcases State.run_encode d.maxPacketSize hp with ⟨s, e, hread⟩ | ⟨q, hq, hread⟩
    · rw [hread]
      exact ⟨fun hnone => (nomatch hnone), .inl ⟨List.append_nil ps, fun hnone => (nomatch hnone)⟩⟩
    · rw [hread]
      exact ⟨fun _ => rfl, .inr ⟨q, hq, rfl⟩⟩
  · exact ⟨fun hnone => (nomatch hnone), .inl ⟨rfl, fun hnone => (nomatch hnone)⟩⟩

/-- After an error nothing is read. -/
theorem coming_append_of_error {as : List UInt8} (h : (d.state.run d.maxPacketSize as).2.2 ≠ none)
    (bs : List UInt8) : d.coming (as ++ bs) = d.coming as ∧ d.Aligned (as ++ bs) := by
  unfold coming Aligned
  rw [State.run_append]
  rcases hrun : d.state.run d.maxPacketSize as with ⟨s, ps, _ | e⟩
  · rw [hrun] at h
    exact absurd rfl h
  · exact ⟨rfl, fun hnone => nomatch hnone⟩

/-- **Writing.** Packets are read after everything that was written before them, up to one that is
refused. -/
theorem Aligned.write (h : d.Aligned bs) {ps : List Packet} (hps : ∀ p ∈ ps, p.Writable) :
    d.Aligned (bs ++ ps.flatMap Packet.encode) ∧
      ∃ qs, d.coming (bs ++ ps.flatMap Packet.encode) = d.coming bs ++ qs ∧ Packet.Read ps qs := by
  induction ps generalizing bs with
  | nil =>
    rw [List.flatMap_nil, List.append_nil]
    exact ⟨h, [], (List.append_nil _).symm, .refused []⟩
  | cons p ps ih =>
    obtain ⟨hone, hread⟩ := h.write_one (hps p (.head _))
    rw [List.flatMap_cons, ← List.append_assoc]
    rcases hread with ⟨hcoming, herror⟩ | ⟨q, hq, hcoming⟩
    · obtain ⟨hsame, haligned⟩ := coming_append_of_error herror (ps.flatMap Packet.encode)
      exact ⟨haligned, [], by rw [hsame, hcoming, List.append_nil], .refused _⟩
    · obtain ⟨haligned, qs, hqs, hread⟩ := ih hone fun p' hp' => hps p' (.tail _ hp')
      exact ⟨haligned, q :: qs, by rw [hqs, hcoming, List.append_assoc]; rfl, .next hq hread⟩

/-! Reading a byte. -/

variable {max : Nat} {s s' : State} {b : UInt8}

theorem coming_cons {packet : Option Packet} (h : s.step max b = (s', .ok packet)) :
    (⟨max, s⟩ : Decoder).coming (b :: bs) = packet.toList ++ (⟨max, s'⟩ : Decoder).coming bs := by
  unfold coming
  rw [State.run, h]
  cases packet <;> rfl

theorem Aligned.tail {packet : Option Packet} (h : (⟨max, s⟩ : Decoder).Aligned (b :: bs))
    (hstep : s.step max b = (s', .ok packet)) : (⟨max, s'⟩ : Decoder).Aligned bs := by
  unfold Aligned at *
  rw [State.run, hstep] at h
  cases packet <;> exact h

end Decoder

/-! ### Buffers -/

theorem Packet.toList_toBytes (p : Packet) : p.toBytes.data.toList = p.encode :=
  List.toList_data_toByteArray

/-- Queued packets stand behind what was queued before. -/
theorem toList_foldl_append (ps : List Packet) (bytes : ByteArray) :
    (ps.foldl (fun bytes p => bytes ++ p.toBytes) bytes).data.toList
      = bytes.data.toList ++ ps.flatMap Packet.encode := by
  induction ps generalizing bytes with
  | nil => simp
  | cons p ps ih =>
    rw [List.foldl_cons, ih, ByteArray.toList_data_append, p.toList_toBytes, List.flatMap_cons,
      List.append_assoc]

theorem toList_extract (bytes : ByteArray) (n : Nat) :
    (bytes.extract n bytes.size).data.toList = bytes.data.toList.drop n := by
  have hlength : (bytes.data.toList.drop n).length ≤ bytes.size - n := by
    rw [List.length_drop, Array.length_toList]
    exact Nat.le_refl _
  rw [ByteArray.data_extract, Array.toList_extract]
  exact List.take_of_length_le hlength

end Mqtt
