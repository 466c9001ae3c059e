import Mqtt.Proofs.Values
import Mqtt.Session.Stored

/-!
# Records are read back: `Message`, `InflightState`, `Session`

What is written to a store can be read from it. The condition of every round trip is `Json.fits`: the
value is not too deep for the reader. A payload has two written forms, and what it holds decides between them; the
reader tells them apart by their kind, reads each in one way and knows no third (`Payload.ofJson?_eq_some_iff`). A
session is read back without what belongs to a connection (`Session.stored`), and there is nothing else that the
written form leaves out.
-/

namespace Mqtt

open Json

/-! ### Messages -/

namespace Payload

/-- The bytes of a payload one by one. -/
def bytesToJson (payload : ByteArray) : Json := .arr (payload.data.toList.map fun b => .ofNat b.toNat)

/-- What a payload holds decides how it is written. -/
theorem toJson_eq (payload : ByteArray) : toJson payload =
    if h : payload.IsValidUTF8 then .text (String.fromUTF8 payload h) else bytesToJson payload := by
  unfold toJson String.fromUTF8?
  by_cases h : payload.IsValidUTF8
  · rw [dif_pos h, dif_pos h]
  · rw [dif_neg h, dif_neg h]
    rfl

/-- A byte is read from its number and from nothing else. -/
theorem byte_eq_some_iff {item : Json} {b : UInt8} :
    (item.natUpTo? 255).map UInt8.ofNat = some b ↔ item = .ofNat b.toNat := by
  have hb : b.toNat ≤ 255 := Nat.le_of_lt_succ b.toNat_lt
  constructor
  · intro h
    obtain ⟨n, hn, rfl⟩ := Option.map_eq_some_iff.1 h
    cases item with
    | int i =>
      cases i with
      | ofNat m =>
        rw [natUpTo?, Option.ite_none_right_eq_some] at hn
        obtain ⟨hle, hm⟩ := hn
        cases hm
        rw [UInt8.toNat_ofNat_of_lt' (show n < 256 by omega)]
        rfl
      | negSucc m => cases hn
    | null | bool | real | text | unreadable | arr | obj => cases hn
  · rintro rfl
    have hread : (ofNat b.toNat).natUpTo? 255 = some b.toNat := if_pos hb
    rw [hread, Option.map_some, UInt8.ofNat_toNat]

theorem mapM_byte_eq_some_iff {items : List Json} {bytes : List UInt8} :
    items.mapM (fun item => (item.natUpTo? 255).map UInt8.ofNat) = some bytes ↔
      items = bytes.map fun b => .ofNat b.toNat := by
  induction items generalizing bytes with
  | nil => cases bytes <;> simp
  | cons item items ih =>
    simp only [List.mapM_cons, Option.bind_eq_bind, Option.bind_eq_some_iff, Option.pure_def, Option.some.injEq, ih,
      byte_eq_some_iff]
    constructor
    · rintro ⟨b, rfl, bs, rfl, rfl⟩
      rfl
    · intro h
      cases bytes with
      | nil => cases h
      | cons b bs =>
        obtain ⟨hb, hbs⟩ := List.cons.inj h
        exact ⟨b, hb, bs, hbs, rfl⟩

/-- **A payload is read from a text or from its bytes,** and from nothing else. -/
theorem ofJson?_eq_some_iff {depth : Nat} {j : Json} {payload : ByteArray} :
    ofJson? depth j = some payload ↔
      (∃ s : String, j = .text s ∧ s.toUTF8 = payload) ∨ 0 < depth ∧ j = bytesToJson payload := by
  have htext {s : String} : ofJson? depth (.text s) = some s.toUTF8 := by cases depth <;> rfl
  constructor
  · intro h
    cases j with
    | text s =>
      rw [htext] at h
      exact .inl ⟨s, rfl, Option.some.inj h⟩
    | arr items =>
      cases depth with
      | zero => cases h
      | succ depth =>
        simp only [ofJson?, Option.bind_eq_bind, Option.bind_eq_some_iff, Option.pure_def, Option.some.injEq] at h
        obtain ⟨bytes, hbytes, rfl⟩ := h
        refine .inr ⟨Nat.succ_pos depth, ?_⟩
        rw [mapM_byte_eq_some_iff.1 hbytes, bytesToJson, List.data_toByteArray, List.toList_toArray]
    | null | bool | int | real | unreadable | obj => cases depth <;> cases h
  · rintro (⟨s, rfl, rfl⟩ | ⟨hdepth, rfl⟩)
    · exact htext
    · obtain ⟨depth, rfl⟩ := Nat.exists_eq_succ_of_ne_zero (Nat.ne_of_gt hdepth)
      have hbytes : (payload.data.toList.map fun b => ofNat b.toNat).mapM
          (fun item => (item.natUpTo? 255).map UInt8.ofNat) = some payload.data.toList :=
        mapM_byte_eq_some_iff.2 rfl
      have hpayload : payload.data.toList.toByteArray = payload := by
        apply ByteArray.ext
        rw [List.data_toByteArray, Array.toArray_toList]
      rw [bytesToJson, ofJson?, hbytes]
      exact congrArg some hpayload

theorem ofJson?_toJson {payload : ByteArray} {depth : Nat} (h : (toJson payload).fits depth = true) :
    ofJson? depth (toJson payload) = some payload := by
  rw [ofJson?_eq_some_iff]
  rw [toJson_eq] at h ⊢
  split at h
  · next hvalid => exact .inl ⟨_, dif_pos hvalid, rfl⟩
  · next hvalid =>
    obtain ⟨inner, rfl, -⟩ := fits_arr.1 h
    exact .inr ⟨Nat.succ_pos inner, dif_neg hvalid⟩

theorem legible_toJson (payload : ByteArray) : (toJson payload).Legible := by
  unfold toJson
  split
  · exact legible_text _
  · refine legible_arr (List.forall_mem_map.2 fun b _ => legible_ofNat ?_)
    have hb : b.toNat < 256 := b.toNat_lt
    omega

end Payload

namespace QoS

theorem ofJson?_toJson (q : QoS) : ofJson? q.toJson = some q := by
  cases q <;> rfl

theorem legible_toJson (q : QoS) : q.toJson.Legible := by
  cases q <;> exact legible_ofNat (by decide)

end QoS

theorem idOfJson?_idToJson (id : UInt16) : idOfJson? (idToJson id) = some id := by
  have hid : id.toNat ≤ 65535 := Nat.le_of_lt_succ id.toNat_lt
  have hread : (idToJson id).natUpTo? 65535 = some id.toNat := if_pos hid
  rw [idOfJson?, hread, Option.map_some, UInt16.ofNat_toNat]

theorem legible_idToJson (id : UInt16) : (idToJson id).Legible := legible_ofNat id.toNat_lt

namespace Message

/-- What is written of a message. -/
def members (m : Message) : List (String × Option Json) :=
  [("topic", some (.text m.topic)), ("message", some (Payload.toJson m.payload)), ("qos", some m.qos.toJson),
    ("retain", some (.bool m.retain))]

theorem toJson_eq (m : Message) : m.toJson = ofMembers m.members := rfl

theorem ofJson?_toJson {m : Message} {depth : Nat} (h : m.toJson.fits depth = true) :
    ofJson? depth m.toJson = some m := by
  rw [toJson_eq] at h ⊢
  obtain ⟨inner, rfl, hmembers⟩ := fits_ofMembers.1 h
  have hpayload := Payload.ofJson?_toJson (hmembers "message" _ (.tail _ (.head _)))
  have hfields : (ofMembers m.members).fields? ["topic", "message", "qos", "retain"] =
      some (m.members.map (·.2)) :=
    fields?_ofMembers m.members (show ["topic", "message", "qos", "retain"].Nodup by decide)
  rw [ofJson?, hfields]
  simp [members, fieldOr, text?, bool?, hpayload, QoS.ofJson?_toJson]

theorem legible_of_mem_members {m : Message} {name : String} {j : Json} (hj : (name, some j) ∈ m.members) :
    j.Legible := by
  simp only [members, List.mem_cons, Prod.mk.injEq, Option.some.injEq, List.not_mem_nil, or_false] at hj
  rcases hj with ⟨-, rfl⟩ | ⟨-, rfl⟩ | ⟨-, rfl⟩ | ⟨-, rfl⟩
  · exact legible_text _
  · exact Payload.legible_toJson _
  · exact QoS.legible_toJson _
  · exact legible_bool _

theorem legible_toJson (m : Message) : m.toJson.Legible := by
  rw [toJson_eq]
  exact legible_ofMembers fun _ _ => legible_of_mem_members

end Message

/-- A part that is left out where it is empty is read as the empty one. -/
theorem fieldOr_unless {α : Type} {a absent : α} {read : Json → Option α} {empty : Bool} {written : Json}
    (hempty : empty = true → absent = a) (hread : empty = false → read written = some a) :
    fieldOr (some absent) read (if empty then none else some written) = some a := by
  cases empty with
  | true => exact congrArg some (hempty rfl)
  | false => exact hread rfl

/-! ### Handshakes -/

namespace Inflight

/-- What is written of a message that was sent. -/
def entryMembers (id : UInt16) (m : Message) : List (String × Option Json) :=
  ("packet_identifier", some (idToJson id)) :: m.members

theorem entryToJson_eq (id : UInt16) (m : Message) : entryToJson id m = ofMembers (entryMembers id m) := rfl

theorem entryOfJson?_entryToJson {id : UInt16} {m : Message} {depth : Nat}
    (h : (entryToJson id m).fits depth = true) : entryOfJson? depth (entryToJson id m) = some (id, m) := by
  rw [entryToJson_eq] at h ⊢
  obtain ⟨inner, rfl, hmembers⟩ := fits_ofMembers.1 h
  have hpayload := Payload.ofJson?_toJson (hmembers "message" _ (.tail _ (.tail _ (.head _))))
  have hfields : (ofMembers (entryMembers id m)).fields?
      ["packet_identifier", "topic", "message", "qos", "retain"] = some ((entryMembers id m).map (·.2)) :=
    fields?_ofMembers (entryMembers id m)
      (show ["packet_identifier", "topic", "message", "qos", "retain"].Nodup by decide)
  rw [entryOfJson?, hfields]
  simp [entryMembers, Message.members, fieldOr, text?, bool?, hpayload, QoS.ofJson?_toJson, idOfJson?_idToJson]

theorem legible_entryToJson (id : UInt16) (m : Message) : (entryToJson id m).Legible := by
  rw [entryToJson_eq]
  apply legible_ofMembers
  intro name j hj
  rcases List.mem_cons.1 hj with hj | hj
  · cases hj
    exact legible_idToJson id
  · exact Message.legible_of_mem_members hj

theorem listOfJson?_map {α : Type} (read : Nat → Json → Option α) {write : α → Json} {xs : List α}
    (hread : ∀ x ∈ xs, ∀ depth, (write x).fits depth = true → read depth (write x) = some x) {depth : Nat}
    (h : (arr (xs.map write)).fits depth = true) : listOfJson? read depth (arr (xs.map write)) = some xs := by
  obtain ⟨inner, rfl, hitems⟩ := fits_arr.1 h
  rw [listOfJson?]
  exact mapM_map_self fun x hx => hread x hx inner (hitems _ (List.mem_map_of_mem hx))

theorem idsOfJson?_idsToJson? {ids : Std.ExtTreeSet UInt16} {depth : Nat}
    (h : ∀ j, idsToJson? ids = some j → j.fits depth = true) :
    fieldOr (some ∅) (idsOfJson? depth) (idsToJson? ids) = some ids := by
  unfold idsToJson? at h ⊢
  refine fieldOr_unless (fun hempty => (Std.ExtTreeSet.isEmpty_iff.1 hempty).symm) fun hfull => ?_
  have hids := listOfJson?_map (fun _ => idOfJson?) (fun id _ _ _ => idOfJson?_idToJson id)
    (h _ (if_neg (by simp [hfull])))
  rw [idsOfJson?, hids, Option.map_some, foldl_insert_elements]

/-- The messages sent as they are written. -/
def entriesToJson (publishes : Std.ExtTreeMap UInt16 Message) : Json :=
  .arr (publishes.toList.map fun e => entryToJson e.1 e.2)

theorem parts_eq (s : Inflight) : s.parts =
    [("publish_map", if s.publishes.isEmpty then none else some (entriesToJson s.publishes)),
      ("pubrel_packetidentifier_set", idsToJson? s.releases),
      ("publish_packetidentifier_set", idsToJson? s.received)] := rfl

theorem publishesOfJson?_entriesToJson {publishes : Std.ExtTreeMap UInt16 Message} {depth : Nat}
    (h : (entriesToJson publishes).fits depth = true) :
    publishesOfJson? depth (entriesToJson publishes) = some publishes := by
  have hentries := listOfJson?_map entryOfJson? (fun _ _ _ hentry => entryOfJson?_entryToJson hentry) h
  rw [publishesOfJson?, entriesToJson, hentries, Option.map_some, foldl_insert_toList]

/-- The open handshakes are put together again from their parts. -/
theorem ofParts?_parts {s : Inflight} {depth : Nat}
    (h : ∀ name j, (name, some j) ∈ s.parts → j.fits depth = true) : ofParts? depth (s.parts.map (·.2)) = some s := by
  rw [parts_eq] at h ⊢
  have hpublishes : fieldOr (some ∅) (publishesOfJson? depth)
      (if s.publishes.isEmpty then none else some (entriesToJson s.publishes)) = some s.publishes := by
    refine fieldOr_unless (fun hempty => (Std.ExtTreeMap.isEmpty_iff.1 hempty).symm) fun hfull => ?_
    exact publishesOfJson?_entriesToJson (h "publish_map" _ (by simp [hfull]))
  have hreleases : fieldOr (some ∅) (idsOfJson? depth) (idsToJson? s.releases) = some s.releases :=
    idsOfJson?_idsToJson? fun j hj => h "pubrel_packetidentifier_set" j (by simp [hj])
  have hreceived : fieldOr (some ∅) (idsOfJson? depth) (idsToJson? s.received) = some s.received :=
    idsOfJson?_idsToJson? fun j hj => h "publish_packetidentifier_set" j (by simp [hj])
  simp only [List.map_cons, List.map_nil, ofParts?, hpublishes, hreleases, hreceived]
  rfl

theorem ofJson?_toJson {s : Inflight} {depth : Nat} (h : s.toJson.fits depth = true) :
    ofJson? depth s.toJson = some s := by
  unfold toJson at h ⊢
  obtain ⟨inner, rfl, hmembers⟩ := fits_ofMembers.1 h
  have hfields : (ofMembers s.parts).fields? partNames = some (s.parts.map (·.2)) :=
    fields?_ofMembers s.parts (show partNames.Nodup by decide)
  rw [ofJson?, hfields, Option.bind_some]
  exact ofParts?_parts hmembers

theorem legible_idsToJson? {ids : Std.ExtTreeSet UInt16} {j : Json} (hj : some j = idsToJson? ids) :
    j.Legible :=
  legible_unless (legible_arr (List.forall_mem_map.2 fun id _ => legible_idToJson id)) hj

theorem legible_of_mem_parts {s : Inflight} {name : String} {j : Json} (hj : (name, some j) ∈ s.parts) :
    j.Legible := by
  simp only [parts_eq, List.mem_cons, Prod.mk.injEq, List.not_mem_nil, or_false] at hj
  rcases hj with ⟨-, hj⟩ | ⟨-, hj⟩ | ⟨-, hj⟩
  · exact legible_unless (legible_arr (List.forall_mem_map.2 fun e _ => legible_entryToJson e.1 e.2)) hj
  · exact legible_idsToJson? hj
  · exact legible_idsToJson? hj

theorem legible_toJson (s : Inflight) : s.toJson.Legible := legible_ofMembers fun _ _ => legible_of_mem_parts

end Inflight

/-! ### Sessions -/

namespace Session

/-- What is left of a session when it is written and read back. -/
def stored (s : Session) : Session :=
  { owner := none, cleanSession := false, packetIds := .start, maxQueued := 0, queue := s.queue,
    inflight := s.inflight }

/-- What is written of a session. -/
def members (s : Session) : List (String × Option Json) :=
  (queueName, if s.queue.isEmpty then none else some (.arr (s.queue.map Message.toJson))) :: s.inflight.parts

theorem toJson_eq (s : Session) : s.toJson = ofMembers s.members := rfl

theorem ofJson?_toJson {s : Session} {depth : Nat} (h : s.toJson.fits depth = true) :
    ofJson? depth s.toJson = some s.stored := by
  rw [toJson_eq] at h ⊢
  obtain ⟨inner, rfl, hmembers⟩ := fits_ofMembers.1 h
  have hnames : (s.members.map (·.1)).Nodup := show (queueName :: Inflight.partNames).Nodup by decide
  have hqueue := uniqueMember_present hnames (.head _)
  have hparts : Inflight.partNames.mapM (fun name => uniqueMember name (present s.members)) =
      some (s.inflight.parts.map (·.2)) := by
    change (s.inflight.parts.map (·.1)).mapM _ = _
    exact mapM_map_eq_some fun part hpart => uniqueMember_present hnames (.tail _ hpart)
  have hfits : ((present s.members).any fun m => m.1 ≠ queueName && !m.2.fits inner) = false := by
    rw [List.any_eq_false]
    intro m hm
    simp [hmembers m.1 m.2 (mem_present.1 hm)]
  have hwaiting : fieldOr (some []) (Inflight.listOfJson? Message.ofJson? inner)
      (if s.queue.isEmpty then none else some (.arr (s.queue.map Message.toJson))) = some s.queue := by
    refine fieldOr_unless (fun hempty => (List.isEmpty_iff.1 hempty).symm) fun hfull => ?_
    exact Inflight.listOfJson?_map Message.ofJson? (fun _ _ _ hm => Message.ofJson?_toJson hm)
      (hmembers queueName _ (by simp [members, hfull]))
  have hinflight := Inflight.ofParts?_parts fun name j hj => hmembers name j (.tail _ hj)
  rw [ofMembers_eq, ofJson?, hqueue, hparts]
  simp only [Option.bind_eq_bind, Option.bind_some, hfits, hwaiting, hinflight]
  rfl

theorem legible_toJson (s : Session) : s.toJson.Legible := by
  rw [toJson_eq]
  apply legible_ofMembers
  intro name j hj
  rcases List.mem_cons.1 hj with hj | hj
  · obtain ⟨-, hj⟩ := Prod.mk.inj hj
    exact legible_unless (legible_arr (List.forall_mem_map.2 fun m _ => m.legible_toJson)) hj
  · exact Inflight.legible_of_mem_parts hj

end Session

end Mqtt
