import Mqtt.Proofs.DocumentText
import Mqtt.Proofs.Nesting
import Mqtt.Proofs.Retained
import Mqtt.Proofs.StoredTrees
import Mqtt.Proofs.Subscriptions

/-!
# How deep a store nests: `SessionStore`

Messages and sessions nest a few levels, whatever they hold. A tree nests two levels for each level of a path,
one for the node and one for its children, so the longest path that leads to something decides whether a
reader takes the tree (`Trie.Measures.nesting_le`). A tree that is too deep is not read in part: the reader
gives up (`Trie.Measures.le_of_ofJson?`).
-/

namespace Mqtt

open Json

/-! ### Records -/

namespace Payload

theorem nesting_toJson (payload : ByteArray) :
    (toJson payload).nesting = if (String.fromUTF8? payload).isSome then 0 else 1 := by
  unfold toJson
  cases String.fromUTF8? payload with
  | some s => rfl
  | none =>
    have hbytes : nestingItems (payload.data.toList.map fun b => ofNat b.toNat) ≤ 0 :=
      nestingItems_le.2 (List.forall_mem_map.2 fun _ _ => Nat.le_refl 0)
    rw [nesting, Nat.le_zero.1 hbytes]
    rfl

theorem nesting_toJson_le (payload : ByteArray) : (toJson payload).nesting ≤ 1 := by
  rw [nesting_toJson]
  split <;> decide

/-- Bytes that are no text are not read where nothing may nest. -/
theorem le_of_ofJson? {payload read : ByteArray} {depth : Nat} (h : ofJson? depth (toJson payload) = some read) :
    (toJson payload).nesting ≤ depth := by
  rw [nesting_toJson]
  unfold toJson at h
  cases hs : String.fromUTF8? payload with
  | some s => exact Nat.zero_le depth
  | none =>
    rw [hs] at h
    cases depth with
    | zero => cases h
    | succ depth => exact Nat.le_add_left 1 depth

end Payload

namespace Message

theorem nesting_toJson (m : Message) : m.toJson.nesting = (Payload.toJson m.payload).nesting + 1 := by
  have hqos : m.qos.toJson.nesting = 0 := rfl
  simp [toJson, nesting, nestingMembers, hqos]

theorem nesting_toJson_le (m : Message) : m.toJson.nesting ≤ 2 := by
  rw [nesting_toJson]
  exact Nat.succ_le_succ (Payload.nesting_toJson_le _)

theorem le_of_ofJson? {m read : Message} {depth : Nat} (h : ofJson? depth m.toJson = some read) :
    m.toJson.nesting ≤ depth := by
  cases depth with
  | zero => cases h
  | succ depth =>
    rw [nesting_toJson]
    have hfields : m.toJson.fields? ["topic", "message", "qos", "retain"] = some (m.members.map (·.2)) :=
      fields?_ofMembers m.members (show ["topic", "message", "qos", "retain"].Nodup by decide)
    rw [ofJson?, hfields] at h
    simp only [members, List.map_cons, List.map_nil, Option.bind_eq_bind, Option.bind_some,
      Option.bind_eq_some_iff] at h
    obtain ⟨_, -, _, hpayload, -⟩ := h
    exact Nat.succ_le_succ (Payload.le_of_ofJson? hpayload)

end Message

/-- A part that may be left out nests no deeper than it would if it were there. -/
theorem nesting_unless {empty : Bool} {written j : Json} {n : Nat} (hwritten : written.nesting ≤ n)
    (hj : some j = if empty then none else some written) : j.nesting ≤ n := by
  cases empty with
  | true => cases hj
  | false =>
    cases hj
    exact hwritten

namespace Inflight

theorem nesting_entryToJson_le (id : UInt16) (m : Message) : (entryToJson id m).nesting ≤ 2 := by
  rw [entryToJson_eq]
  refine nesting_ofMembers_le.2 fun name j hj => ?_
  simp only [entryMembers, Message.members, List.mem_cons, Prod.mk.injEq, Option.some.injEq, List.not_mem_nil,
    or_false] at hj
  rcases hj with ⟨-, rfl⟩ | ⟨-, rfl⟩ | ⟨-, rfl⟩ | ⟨-, rfl⟩ | ⟨-, rfl⟩
  · exact Nat.zero_le 1
  · exact Nat.zero_le 1
  · exact Payload.nesting_toJson_le _
  · exact Nat.zero_le 1
  · exact Nat.zero_le 1

theorem nesting_idsToJson?_le {ids : Std.ExtTreeSet UInt16} {j : Json} (hj : some j = idsToJson? ids) :
    j.nesting ≤ 3 := by
  refine nesting_unless (nesting_arr_le.2 (List.forall_mem_map.2 fun id _ => ?_)) hj
  exact Nat.zero_le 2

theorem nesting_le_of_mem_parts {s : Inflight} {name : String} {j : Json} (hj : (name, some j) ∈ s.parts) :
    j.nesting ≤ 3 := by
  simp only [parts_eq, List.mem_cons, Prod.mk.injEq, List.not_mem_nil, or_false] at hj
  rcases hj with ⟨-, hj⟩ | ⟨-, hj⟩ | ⟨-, hj⟩
  · exact nesting_unless (nesting_arr_le.2 (List.forall_mem_map.2 fun e _ => nesting_entryToJson_le e.1 e.2)) hj
  · exact nesting_idsToJson?_le hj
  · exact nesting_idsToJson?_le hj

theorem nesting_toJson_le (s : Inflight) : s.toJson.nesting ≤ 4 :=
  nesting_ofMembers_le.2 fun _ _ => nesting_le_of_mem_parts

end Inflight

theorem Session.nesting_toJson_le (s : Session) : s.toJson.nesting ≤ 4 := by
  rw [toJson_eq]
  refine nesting_ofMembers_le.2 fun name j hj => ?_
  rcases List.mem_cons.1 hj with hj | hj
  · obtain ⟨-, hj⟩ := Prod.mk.inj hj
    exact nesting_unless (nesting_arr_le.2 (List.forall_mem_map.2 fun m _ => m.nesting_toJson_le)) hj
  · exact Inflight.nesting_le_of_mem_parts hj

/-! ### Trees -/

variable {α : Type}

namespace Forest

theorem isEmpty_toMembers (node : α → List (String × Json) → Json) (f : Forest α) :
    (f.toMembers node).isEmpty = f.isEmpty := by
  cases f <;> rfl

theorem forall_mem_listing {P : List String × α → Prop} {f : Forest α} :
    (∀ e ∈ f.listing, P e) ↔ ∀ n ∈ f.nodes, ∀ e ∈ n.2.listing, P (n.1 :: e.1, e.2) := by
  simp only [listing_eq, List.forall_mem_flatMap, List.forall_mem_map]

end Forest

variable [Blank α]

namespace Forest

theorem Pruned.of_mem_nodes {f : Forest α} (hf : f.Pruned) {n : String × Trie α} (hn : n ∈ f.nodes) :
    n.2.isEmpty = false ∧ n.2.children.Pruned := by
  induction f with
  | nil => cases hn
  | cons l entry children rest _ ih =>
    rcases List.mem_cons.1 hn with rfl | hn
    · exact ⟨hf.1, hf.2.1⟩
    · exact ih hf.2.2 hn

theorem Pruned.exists_mem_values {f : Forest α} (hf : f.Pruned) (hne : f.isEmpty = false) :
    ∃ a ∈ f.values, a ≠ Blank.blank := by
  induction f with
  | nil => cases hne
  | cons l entry children rest ihc _ =>
    obtain ⟨hnode, hchildren, -⟩ := hf
    by_cases hentry : entry = Blank.blank
    · have hbelow : children.isEmpty = false := by
        rw [Trie.isEmpty, (Blank.isBlank_iff entry).2 hentry] at hnode
        exact hnode
      obtain ⟨a, ha, hne⟩ := ihc hchildren hbelow
      exact ⟨a, .tail _ (List.mem_append_left _ ha), hne⟩
    · exact ⟨entry, .head _, hentry⟩

end Forest

namespace Trie

/-- Something is listed of a pruned trie that is not empty. -/
theorem exists_mem_listing {t : Trie α} (ht : t.children.Pruned) (hne : t.isEmpty = false) :
    ∃ e ∈ t.listing, e.2 ≠ Blank.blank := by
  by_cases hentry : t.entry = Blank.blank
  · have hbelow : t.children.isEmpty = false := by
      rw [isEmpty, (Blank.isBlank_iff t.entry).2 hentry] at hne
      exact hne
    obtain ⟨a, ha, hblank⟩ := ht.exists_mem_values hbelow
    rw [Forest.values_eq_listing] at ha
    obtain ⟨e, he, rfl⟩ := List.mem_map.1 ha
    exact ⟨e, .tail _ he, hblank⟩
  · exact ⟨([], t.entry), .head _, hentry⟩

/-- What a node adds to the nesting of its children, where `own` is what its entry nests; and the reader of a
node refuses an entry that nests too deep. -/
structure Measures (node : α → List (String × Json) → Json) (split : Nat → Json → Option (α × Option Json))
    (own : α → Nat) : Prop where
  nesting_node : ∀ (entry : α) (children : List (String × Json)), (node entry children).nesting =
    max (own entry) (if children.isEmpty then 0 else (obj children).nesting) + 1
  split_node : ∀ {entry : α} {children : List (String × Json)} {depth : Nat} {read : α × Option Json},
    split depth (node entry children) = some read →
      own entry ≤ depth ∧ read.2 = if children.isEmpty then none else some (obj children)
  own_blank : own Blank.blank = 0

variable {node : α → List (String × Json) → Json} {split : Nat → Json → Option (α × Option Json)} {own : α → Nat}

theorem Measures.nesting_node_le (hm : Measures node split own) {entry : α} {children : List (String × Json)}
    {depth : Nat} : (node entry children).nesting ≤ depth + 1 ↔
      own entry ≤ depth ∧ (children.isEmpty = false → (obj children).nesting ≤ depth) := by
  rw [hm.nesting_node, Nat.add_le_add_iff_right, Nat.max_le]
  cases children.isEmpty <;> simp

/-- The children of a node stand in an object of their own. -/
theorem nesting_children_le {f : Forest α} (hf : f.Pruned) {depth : Nat}
    (hnodes : ∀ n ∈ f.nodes, ∀ inner < depth, (node n.2.entry (n.2.children.toMembers node)).nesting ≤ inner ↔
      0 < inner ∧ ∀ e ∈ n.2.listing, e.2 ≠ Blank.blank → own e.2 + 2 * e.1.length < inner) :
    (f.isEmpty = false → (obj (f.toMembers node)).nesting ≤ depth) ↔
      ∀ e ∈ f.listing, e.2 ≠ Blank.blank → own e.2 + 2 * e.1.length < depth + 1 := by
  rw [Forest.forall_mem_listing]
  constructor
  · intro h n hn e he hne
    have hfull : f.isEmpty = false := by
      cases f with
      | nil => cases hn
      | cons => rfl
    obtain _ | inner := depth
    · exact absurd (h hfull) (Nat.not_succ_le_zero _)
    have hnode := nesting_obj_le.1 (h hfull)
    rw [Forest.toMembers_eq_nodes, List.forall_mem_map] at hnode
    have hlt := ((hnodes n hn inner (Nat.lt_succ_self inner)).1 (hnode n hn)).2 e he hne
    dsimp only [List.length_cons]
    omega
  · intro h hfull
    -- No node is empty, so each needs room for what it holds.
    have hroom {n : String × Trie α} (hn : n ∈ f.nodes) : 1 < depth := by
      obtain ⟨hne, hpruned⟩ := hf.of_mem_nodes hn
      obtain ⟨e, he, hblank⟩ := exists_mem_listing hpruned hne
      have hlt := h n hn e he hblank
      dsimp only [List.length_cons] at hlt
      omega
    obtain ⟨n, hn⟩ : ∃ n, n ∈ f.nodes := by
      cases f with
      | nil => cases hfull
      | cons l entry children rest => exact ⟨_, .head _⟩
    obtain _ | inner := depth
    · exact absurd (hroom hn) (Nat.not_lt_zero 1)
    rw [nesting_obj_le, Forest.toMembers_eq_nodes, List.forall_mem_map]
    intro n hn
    refine (hnodes n hn inner (Nat.lt_succ_self inner)).2 ⟨Nat.lt_of_succ_lt_succ (hroom hn), fun e he hne => ?_⟩
    have hlt := h n hn e he hne
    dsimp only [List.length_cons] at hlt
    omega

/-- **The paths decide how deep a tree nests.** The entry at the end of a path stands inside two objects for
each level of the path and one more. -/
theorem Measures.nesting_le (hm : Measures node split own) {t : Trie α} (ht : t.children.Pruned) {depth : Nat} :
    (node t.entry (t.children.toMembers node)).nesting ≤ depth ↔
      0 < depth ∧ ∀ e ∈ t.listing, e.2 ≠ Blank.blank → own e.2 + 2 * e.1.length < depth := by
  induction depth using Nat.strongRecOn generalizing t with
  | ind depth ih =>
    obtain _ | inner := depth
    · simp [hm.nesting_node]
    have hentry : own t.entry ≤ inner ↔ (t.entry ≠ Blank.blank → own t.entry < inner + 1) := by
      rw [Nat.lt_succ_iff]
      by_cases hblank : t.entry = Blank.blank
      · simp [hblank, hm.own_blank]
      · simp [hblank]
    have hchildren := nesting_children_le ht fun n hn k (hk : k < inner) =>
      ih k (Nat.lt_succ_of_lt hk) (ht.of_mem_nodes hn).2
    rw [hm.nesting_node_le, Forest.isEmpty_toMembers, hentry, hchildren]
    simp [listing]

/-- A tree is read only where it does not nest too deep. -/
theorem Measures.le_of_ofJson? (hm : Measures node split own) {t read : Trie α} {depth : Nat}
    (h : ofJson? split depth (node t.entry (t.children.toMembers node)) = some read) :
    (node t.entry (t.children.toMembers node)).nesting ≤ depth := by
  induction depth using Nat.strongRecOn generalizing t read with
  | ind depth ih =>
    obtain _ | inner := depth
    · cases h
    rw [ofJson?] at h
    rcases hs : split inner (node t.entry (t.children.toMembers node)) with _ | ⟨entry, children⟩
    · rw [hs] at h
      cases h
    obtain ⟨hown, hread⟩ := hm.split_node hs
    refine hm.nesting_node_le.2 ⟨hown, fun hfull => ?_⟩
    obtain rfl : children = some (obj (t.children.toMembers node)) := by simpa [hfull] using hread
    rw [hs] at h
    obtain _ | inner := inner
    · cases h
    obtain ⟨members, hmembers, h⟩ := Option.bind_eq_some_iff.1 h
    cases hmembers
    obtain ⟨nodes, hnodes, -⟩ := Option.bind_eq_some_iff.1 h
    rw [Forest.toMembers_eq_nodes] at hnodes ⊢
    refine nesting_obj_le.2 (List.forall_mem_map.2 fun n hn => ?_)
    obtain ⟨_, hnode⟩ := exists_of_mem_mapM hnodes (List.mem_map_of_mem hn)
    obtain ⟨read, hnode, -⟩ := Option.bind_eq_some_iff.1 hnode
    exact ih inner (by omega) hnode

end Trie

/-! ### Subscriptions -/

namespace SubscriptionTree

theorem exists_getElem?_of_ne_blank {g : Grants} (hg : g ≠ Blank.blank) :
    ∃ (client : String) (q : QoS), g[client]? = some q := by
  by_contra hnone
  refine hg (Std.ExtTreeMap.ext_getElem? fun client => ?_)
  cases hq : g[client]? with
  | none => exact Std.ExtTreeMap.getElem?_empty.symm
  | some q => exact absurd ⟨client, q, hq⟩ hnone

theorem measures_node : Trie.Measures nodeToJson splitNode fun grants => if grants.isEmpty then 0 else 1 where
  nesting_node grants children := by
    have hflat : nestingMembers (grantMembers grants) = 0 :=
      Nat.le_zero.1 (nestingMembers_le.2 (List.forall_mem_map.2 fun _ _ => Nat.le_refl 0))
    rw [nodeToJson_eq, ofMembers_eq, nesting, objectUnlessEmpty, objectUnlessEmpty, isEmpty_grantMembers]
    cases grants.isEmpty <;> cases children.isEmpty <;>
      simp [present, nestingMembers, nesting, hflat]
  split_node {grants children depth read} h := by
    simp only [splitNode, fields?_nodeToJson, Option.bind_eq_bind, Option.bind_some] at h
    obtain ⟨g, hg, h⟩ := Option.bind_eq_some_iff.1 h
    cases h
    refine ⟨?_, rfl⟩
    cases hempty : grants.isEmpty with
    | true => exact Nat.zero_le depth
    | false =>
      rw [objectUnlessEmpty, isEmpty_grantMembers, hempty] at hg
      cases depth with
      | zero => cases hg
      | succ depth => exact Nat.le_add_left 1 depth
  own_blank := rfl

variable {t : SubscriptionTree} {table : Table}

theorem nesting_toJson_of_isEmpty (ht : t.isEmpty = true) : t.toJson.nesting = 1 := by
  rw [toJson, Trie.eq_empty_of_isEmpty ht]
  rfl

theorem le_of_ofJson? {read : SubscriptionTree} {depth : Nat} (h : ofJson? depth t.toJson = some read) :
    t.toJson.nesting ≤ depth := by
  obtain ⟨root, hroot, -⟩ := Option.map_eq_some_iff.1 h
  exact measures_node.le_of_ofJson? hroot

/-- The filters decide how deep subscriptions nest. -/
theorem Files.nesting_toJson_le (h : Files t table) {depth : Nat} (hdepth : 0 < depth) :
    t.toJson.nesting ≤ depth ↔
      ∀ filter client q, t.granted? filter client = some q → 2 * (Topic.levels filter).length + 1 < depth := by
  rw [toJson, measures_node.nesting_le h.pruned, and_iff_right hdepth]
  constructor
  · intro hle filter client q hq
    have hne := ne_blank_of_getElem? hq
    have hfull : (t.root.get (Topic.levels filter)).isEmpty = false := by
      rw [Bool.eq_false_iff]
      exact fun hempty => hne (Std.ExtTreeMap.isEmpty_iff.1 hempty)
    have hlt := hle _ ((Trie.mem_listing h.sorted hne).2 rfl) hne
    simp only [hfull, Bool.false_eq_true, if_false] at hlt
    omega
  · rintro hlt ⟨path, g⟩ he hne
    have hget := (Trie.mem_listing h.sorted hne).1 he
    obtain ⟨filter, rfl⟩ := h.filed path (hget ▸ hne)
    obtain ⟨client, q, hq⟩ := exists_getElem?_of_ne_blank hne
    have hfilter := hlt filter client q (by rw [granted?, hget]; exact hq)
    dsimp only
    split <;> omega

end SubscriptionTree

/-! ### Retained messages -/

namespace RetainTree

theorem measures_node : Trie.Measures nodeToJson splitNode fun m? => m?.elim 0 (·.toJson.nesting) where
  nesting_node message children := by
    cases message <;> cases hempty : children.isEmpty <;>
      simp [nodeToJson, hempty, ofMembers_eq, present, nestingMembers, nesting]
  split_node {message children depth read} h := by
    simp only [splitNode, fields?_nodeToJson, Option.bind_eq_bind, Option.bind_some] at h
    obtain ⟨m?, hm, h⟩ := Option.bind_eq_some_iff.1 h
    cases h
    refine ⟨?_, rfl⟩
    cases message with
    | none => exact Nat.zero_le depth
    | some m =>
      obtain ⟨read, hread, -⟩ := Option.map_eq_some_iff.1 hm
      exact Message.le_of_ofJson? hread
  own_blank := rfl

variable {t : RetainTree} {table : Table}

theorem nesting_toJson_of_isEmpty (ht : t.isEmpty = true) : t.toJson.nesting = 1 := by
  rw [toJson, Trie.eq_empty_of_isEmpty ht]
  rfl

theorem le_of_ofJson? {read : RetainTree} {depth : Nat} (h : ofJson? depth t.toJson = some read) :
    t.toJson.nesting ≤ depth := by
  obtain ⟨root, hroot, -⟩ := Option.map_eq_some_iff.1 h
  exact measures_node.le_of_ofJson? hroot

/-- The topics decide how deep retained messages nest, each with what its message nests. -/
theorem Files.nesting_toJson_le (h : Files t table) {depth : Nat} (hdepth : 0 < depth) :
    t.toJson.nesting ≤ depth ↔
      ∀ m ∈ t.messages, m.toJson.nesting + 2 * (Topic.levels m.topic).length < depth := by
  rw [toJson, measures_node.nesting_le h.pruned, and_iff_right hdepth]
  constructor
  · intro hle m hm
    rw [messages_eq_mergeSort, List.mem_mergeSort, h.mem_held] at hm
    exact hle _ (h.mem_listing.2 ⟨rfl, hm⟩) (Option.some_ne_none m)
  · rintro hlt ⟨path, m?⟩ he hne
    obtain ⟨m, rfl⟩ := Option.ne_none_iff_exists'.1 hne
    obtain ⟨rfl, hm⟩ := h.mem_listing.1 he
    refine hlt m ?_
    rw [messages_eq_mergeSort, List.mem_mergeSort, h.mem_held]
    exact hm

end RetainTree

/-! ### The store -/

namespace SessionStore

variable {s : SessionStore}

/-- The trees decide whether a store is too deep, since sessions never are. -/
theorem nesting_toJson_le {depth : Nat} (hdepth : 5 ≤ depth) :
    s.toJson.nesting ≤ depth + 1 ↔ s.retained.toJson.nesting ≤ depth ∧ s.subscriptions.toJson.nesting ≤ depth := by
  rw [toJson_eq, nesting_ofMembers_le]
  constructor
  · intro h
    constructor
    · by_cases hempty : s.retained.isEmpty = true
      · rw [RetainTree.nesting_toJson_of_isEmpty hempty]
        omega
      · exact h "retain_tree" _ (by simp [sections, hempty])
    · by_cases hempty : s.subscriptions.isEmpty = true
      · rw [SubscriptionTree.nesting_toJson_of_isEmpty hempty]
        omega
      · exact h "subscription_tree" _ (by simp [sections, hempty])
  · rintro ⟨hret, hsub⟩ name j hj
    simp only [sections, List.mem_cons, Prod.mk.injEq, List.not_mem_nil, or_false] at hj
    rcases hj with ⟨-, hj⟩ | ⟨-, hj⟩ | ⟨-, hj⟩
    · have hsessions : (sessionsToJson s.sessions).nesting ≤ 5 :=
        nesting_obj_le.2 (List.forall_mem_map.2 fun e _ => e.2.nesting_toJson_le)
      exact nesting_unless (Nat.le_trans hsessions hdepth) hj
    · exact nesting_unless hret hj
    · exact nesting_unless hsub hj

/-- A store is read only where its trees are not too deep. -/
theorem le_of_ofJson? {read : SessionStore} {depth : Nat} (hdepth : 5 ≤ depth)
    (h : ofJson? (depth + 1) s.toJson = some read) : s.toJson.nesting ≤ depth + 1 := by
  have hfields : (ofMembers s.sections).fields? ["session_store", "retain_tree", "subscription_tree"] =
      some [_, _, _] :=
    fields?_ofMembers _ (show ["session_store", "retain_tree", "subscription_tree"].Nodup by decide)
  rw [nesting_toJson_le hdepth]
  rw [toJson_eq, ofJson?, hfields] at h
  simp only [Option.bind_eq_bind, Option.bind_some, Option.bind_eq_some_iff] at h
  obtain ⟨_, -, _, hretained, _, hsubscriptions, -⟩ := h
  constructor
  · cases hempty : s.retained.isEmpty with
    | true =>
      rw [RetainTree.nesting_toJson_of_isEmpty hempty]
      omega
    | false =>
      rw [hempty] at hretained
      exact RetainTree.le_of_ofJson? hretained
  · cases hempty : s.subscriptions.isEmpty with
    | true =>
      rw [SubscriptionTree.nesting_toJson_of_isEmpty hempty]
      omega
    | false =>
      rw [hempty] at hsubscriptions
      exact SubscriptionTree.le_of_ofJson? hsubscriptions

/-- **A store is read from its text or lost.** -/
theorem parse?_renderIndented (hsubscriptions : s.subscriptions.root.children.Sorted)
    (hretained : s.retained.root.children.Sorted) :
    parse? s.toJson.renderIndented = if s.toJson.nesting ≤ maxNesting then some s.stored else none := by
  rw [parse?, Json.parse?_renderIndented, Option.bind_some]
  split
  · next hle => exact ofJson?_toJson hsubscriptions hretained (fits_iff.2 ⟨s.legible_toJson, hle⟩)
  · next hgt =>
    rw [Option.eq_none_iff_forall_ne_some]
    exact fun read h => hgt (le_of_ofJson? (by decide) h)

end SessionStore

end Mqtt
