import Mqtt.Proofs.Nodes
import Mqtt.Proofs.Records
import Mqtt.SessionStore

/-!
# Trees are read back: `TrieNode`, `RetainNode`

A node is written with its children by level and read by putting these in one after the other, each in its
place. Siblings are written in ascending order, so each comes to stand behind those before it and the
forest that was written is built again (`Forest.ofList_nodes`). `Trie.Stores` is what a kind of entries has
to provide for its trees to be read back; subscriptions and retained messages both do.
-/

namespace Mqtt

open Json

variable {α : Type}

/-! ### Putting nodes together -/

namespace Forest

theorem names_eq_nodes (f : Forest α) : f.names = f.nodes.map (·.1) := by
  induction f with
  | nil => rfl
  | cons l entry children rest _ ih => rw [names, nodes, List.map_cons, ih]

theorem nodes_injective {f g : Forest α} (h : f.nodes = g.nodes) : f = g := by
  induction f generalizing g with
  | nil =>
    cases g with
    | nil => rfl
    | cons => cases h
  | cons l entry children rest _ ih =>
    cases g with
    | nil => cases h
    | cons l' entry' children' rest' =>
      obtain ⟨hnode, hrest⟩ := List.cons.inj h
      cases hnode
      rw [ih hrest]

theorem Sorted.pairwise_nodes {f : Forest α} (hf : f.Sorted) : f.nodes.Pairwise fun a b => a.1 < b.1 := by
  induction f with
  | nil => exact .nil
  | cons l entry children rest _ ih =>
    obtain ⟨hl, -, hrest⟩ := hf
    refine .cons (fun n hn => hl n.1 ?_) (ih hrest)
    rw [names_eq_nodes]
    exact List.mem_map_of_mem hn

/-- A node whose level is above all others comes to stand behind them. -/
theorem nodes_insert_last {level : String} {t : Trie α} {f : Forest α} (h : ∀ n ∈ f.nodes, n.1 < level) :
    (f.insert level t).nodes = f.nodes ++ [(level, t)] := by
  induction f with
  | nil => rfl
  | cons l entry children rest _ ih =>
    have hl : l < level := h _ (.head _)
    have hne : l ≠ level := by
      rintro rfl
      exact String.lt_irrefl l hl
    have hnlt : ¬ level < l := fun hlt => String.lt_irrefl l (String.lt_trans hl hlt)
    rw [insert, if_neg hne, if_neg hnlt, nodes, ih fun n hn => h n (.tail _ hn)]
    rfl

/-- Nodes in ascending order are put together as they stand. -/
theorem nodes_foldl_insert (ns : List (String × Trie α)) :
    ∀ f : Forest α, (f.nodes ++ ns).Pairwise (fun a b => a.1 < b.1) →
      (ns.foldl (fun f n => f.insert n.1 n.2) f).nodes = f.nodes ++ ns := by
  induction ns with
  | nil => exact fun f _ => (List.append_nil _).symm
  | cons n ns ih =>
    intro f h
    have hlast : (f.insert n.1 n.2).nodes = f.nodes ++ [n] :=
      nodes_insert_last fun m hm => (List.pairwise_append.1 h).2.2 m hm n (.head _)
    have hstep : (f.insert n.1 n.2).nodes ++ ns = f.nodes ++ n :: ns := by
      rw [hlast, List.append_assoc]
      rfl
    rw [List.foldl_cons, ih (f.insert n.1 n.2) (hstep ▸ h), hstep]

/-- A forest in order is built again from its nodes. -/
theorem ofList_nodes {f : Forest α} (hf : f.Sorted) : ofList f.nodes = f :=
  nodes_injective (nodes_foldl_insert f.nodes nil hf.pairwise_nodes)

theorem toMembers_eq_nodes (node : α → List (String × Json) → Json) (f : Forest α) :
    f.toMembers node = f.nodes.map fun n => (n.1, node n.2.entry (n.2.children.toMembers node)) := by
  induction f with
  | nil => rfl
  | cons l entry children rest _ ih => rw [toMembers, nodes, List.map_cons, ih]

end Forest

/-! ### Reading nodes -/

namespace Trie

/-- A node that is written is split again into its entry and its written children. -/
structure Stores (node : α → List (String × Json) → Json) (split : Nat → Json → Option (α × Option Json)) :
    Prop where
  split_node : ∀ {entry : α} {children : List (String × Json)} {depth : Nat},
    (node entry children).fits depth = true → ∃ inner, depth = inner + 1 ∧
      split inner (node entry children) = some (entry, if children.isEmpty then none else some (obj children)) ∧
      (children.isEmpty = false → (obj children).fits inner = true)
  legible_node : ∀ (entry : α) {children : List (String × Json)}, (∀ m ∈ children, m.2.Legible) →
    (node entry children).Legible

variable {node : α → List (String × Json) → Json} {split : Nat → Json → Option (α × Option Json)}

/-- **A tree is read back.** Each node goes two levels deeper, one for itself and one for its children. -/
theorem Stores.ofJson?_node (hs : Stores node split) {t : Trie α} (ht : t.children.Sorted) {depth : Nat}
    (h : (node t.entry (t.children.toMembers node)).fits depth = true) :
    ofJson? split depth (node t.entry (t.children.toMembers node)) = some t := by
  induction depth using Nat.strongRecOn generalizing t with
  | ind depth ih =>
    obtain ⟨inner, rfl, hsplit, hchildren⟩ := hs.split_node h
    rw [ofJson?, hsplit]
    obtain ⟨entry, children⟩ := t
    cases hempty : (children.toMembers node).isEmpty with
    | true =>
      have hnil : children = .nil := by
        cases children with
        | nil => rfl
        | cons => cases hempty
      rw [hnil]
      rfl
    | false =>
      obtain ⟨inner, rfl, hmembers⟩ := fits_obj.1 (hchildren hempty)
      have hread : (obj (children.toMembers node)).members? = some (children.toMembers node) := rfl
      have hlist : Forest.ofList children.nodes = children := Forest.ofList_nodes ht
      simp only [Bool.false_eq_true, if_false, hread, Option.bind_eq_bind, Option.bind_some]
      refine Option.bind_eq_some_iff.2 ⟨children.nodes, ?_, by rw [hlist]; rfl⟩
      rw [Forest.toMembers_eq_nodes] at hmembers ⊢
      apply mapM_map_self
      intro n hn
      have hnode := ih inner (by omega) (ht.of_mem_nodes hn) (hmembers _ (List.mem_map_of_mem hn))
      exact Option.bind_eq_some_iff.2 ⟨n.2, hnode, rfl⟩

theorem Stores.legible_toMembers (hs : Stores node split) (f : Forest α) :
    ∀ m ∈ f.toMembers node, m.2.Legible := by
  induction f with
  | nil => exact fun m hm => by cases hm
  | cons l entry children rest ihc ihr =>
    intro m hm
    rcases List.mem_cons.1 hm with rfl | hm
    · exact hs.legible_node entry ihc
    · exact ihr m hm

end Trie

/-- A tree that is left out because it is empty is the empty one. -/
theorem Trie.eq_empty_of_isEmpty [Blank α] {t : Trie α} (ht : t.isEmpty = true) : t = empty := by
  obtain ⟨entry, children⟩ := t
  rw [isEmpty, Bool.and_eq_true] at ht
  obtain ⟨hentry, hchildren⟩ := ht
  rw [Blank.isBlank_iff] at hentry
  subst hentry
  cases children with
  | nil => rfl
  | cons => cases hchildren

/-! ### Subscriptions -/

namespace SubscriptionTree

/-- The grants of a node as they are written. -/
def grantMembers (grants : Grants) : List (String × Json) := grants.toList.map fun e => (e.1, e.2.toJson)

theorem nodeToJson_eq (grants : Grants) (children : List (String × Json)) :
    nodeToJson grants children = ofMembers [("topic_filter", objectUnlessEmpty children),
      ("qos_map", objectUnlessEmpty (grantMembers grants))] := rfl

theorem fields?_nodeToJson (grants : Grants) (children : List (String × Json)) :
    (nodeToJson grants children).fields? ["topic_filter", "qos_map"] =
      some [objectUnlessEmpty children, objectUnlessEmpty (grantMembers grants)] :=
  fields?_ofMembers [("topic_filter", objectUnlessEmpty children),
    ("qos_map", objectUnlessEmpty (grantMembers grants))] (show ["topic_filter", "qos_map"].Nodup by decide)

theorem isEmpty_grantMembers (grants : Grants) : (grantMembers grants).isEmpty = grants.isEmpty := by
  rw [grantMembers, List.isEmpty_map, Std.ExtTreeMap.isEmpty_toList]

theorem legible_grantMembers (grants : Grants) : ∀ m ∈ grantMembers grants, m.2.Legible :=
  List.forall_mem_map.2 fun _ _ => QoS.legible_toJson _

theorem grantsOfJson?_grantMembers {grants : Grants} {depth : Nat}
    (h : (obj (grantMembers grants)).fits depth = true) :
    grantsOfJson? depth (obj (grantMembers grants)) = some grants := by
  obtain ⟨inner, rfl, -⟩ := fits_obj.1 h
  simp only [grantsOfJson?, members?, Option.bind_eq_bind, Option.bind_some]
  refine Option.bind_eq_some_iff.2 ⟨grants.toList, ?_, congrArg some (foldl_insert_toList grants)⟩
  apply mapM_map_self
  intro e _
  exact Option.bind_eq_some_iff.2 ⟨e.2, QoS.ofJson?_toJson e.2, rfl⟩

theorem stores_node : Trie.Stores nodeToJson splitNode where
  split_node {grants children depth} h := by
    rw [nodeToJson_eq] at h
    obtain ⟨inner, rfl, hmembers⟩ := fits_ofMembers.1 h
    refine ⟨inner, rfl, ?_, fun hfull => hmembers "topic_filter" _ (by simp [objectUnlessEmpty, hfull])⟩
    have hgrants : fieldOr (some ∅) (grantsOfJson? inner) (objectUnlessEmpty (grantMembers grants)) =
        some grants := by
      refine fieldOr_unless (fun hempty => ?_) fun hfull => ?_
      · rw [isEmpty_grantMembers] at hempty
        exact (Std.ExtTreeMap.isEmpty_iff.1 hempty).symm
      · exact grantsOfJson?_grantMembers (hmembers "qos_map" _ (by simp [objectUnlessEmpty, hfull]))
    simp only [splitNode, fields?_nodeToJson, Option.bind_eq_bind, Option.bind_some, hgrants]
    rfl
  legible_node grants children h := by
    apply legible_ofMembers
    intro name j hj
    simp only [List.mem_cons, Prod.mk.injEq, List.not_mem_nil, or_false] at hj
    rcases hj with ⟨-, hj⟩ | ⟨-, hj⟩
    · exact legible_unless (legible_obj h) hj
    · exact legible_unless (legible_obj (legible_grantMembers grants)) hj

theorem ofJson?_toJson {t : SubscriptionTree} (ht : t.root.children.Sorted) {depth : Nat}
    (h : t.toJson.fits depth = true) : ofJson? depth t.toJson = some t := by
  unfold toJson at h ⊢
  rw [ofJson?, stores_node.ofJson?_node ht h]
  rfl

theorem legible_toJson (t : SubscriptionTree) : t.toJson.Legible :=
  stores_node.legible_node _ (stores_node.legible_toMembers _)

end SubscriptionTree

/-! ### Retained messages -/

namespace RetainTree

theorem fields?_nodeToJson (message : Option Message) (children : List (String × Json)) :
    (nodeToJson message children).fields? ["message", "topic_level"] =
      some [message.map Message.toJson, if children.isEmpty then none else some (obj children)] :=
  fields?_ofMembers [("message", message.map Message.toJson),
    ("topic_level", if children.isEmpty then none else some (obj children))]
    (show ["message", "topic_level"].Nodup by decide)

theorem stores_node : Trie.Stores nodeToJson splitNode where
  split_node {message children depth} h := by
    obtain ⟨inner, rfl, hmembers⟩ := fits_ofMembers.1 h
    refine ⟨inner, rfl, ?_, fun hfull => hmembers "topic_level" _ ?_⟩
    · have hmessage : fieldOr (some none) (messageOfJson? inner) (message.map Message.toJson) = some message := by
        cases message with
        | none => rfl
        | some m =>
          have hread := Message.ofJson?_toJson (hmembers "message" m.toJson (.head _))
          exact congrArg (Option.map some) hread
      simp only [splitNode, fields?_nodeToJson, Option.bind_eq_bind, Option.bind_some, hmessage]
      rfl
    · simp [hfull]
  legible_node message children h := by
    apply legible_ofMembers
    intro name j hj
    simp only [List.mem_cons, Prod.mk.injEq, List.not_mem_nil, or_false] at hj
    rcases hj with ⟨-, hj⟩ | ⟨-, hj⟩
    · obtain ⟨m, -, rfl⟩ := Option.map_eq_some_iff.1 hj.symm
      exact m.legible_toJson
    · exact legible_unless (legible_obj h) hj

theorem ofJson?_toJson {t : RetainTree} (ht : t.root.children.Sorted) {depth : Nat}
    (h : t.toJson.fits depth = true) : ofJson? depth t.toJson = some t := by
  unfold toJson at h ⊢
  rw [ofJson?, stores_node.ofJson?_node ht h]
  rfl

theorem legible_toJson (t : RetainTree) : t.toJson.Legible :=
  stores_node.legible_node _ (stores_node.legible_toMembers _)

end RetainTree

/-! ### The store -/

namespace SessionStore

/-- What is left of a store when it is written and read back. -/
def stored (s : SessionStore) : SessionStore := { s with sessions := s.sessions.map fun _ => Session.stored }

/-- The sessions of a store as they are written. -/
def sessionsToJson (sessions : Std.ExtTreeMap String Session) : Json :=
  .obj (sessions.toList.map fun e => (e.1, e.2.toJson))

/-- The sections of a store. -/
def sections (s : SessionStore) : List (String × Option Json) :=
  [("session_store", if s.sessions.isEmpty then none else some (sessionsToJson s.sessions)),
    ("retain_tree", if s.retained.isEmpty then none else some s.retained.toJson),
    ("subscription_tree", if s.subscriptions.isEmpty then none else some s.subscriptions.toJson)]

theorem toJson_eq (s : SessionStore) : s.toJson = ofMembers s.sections := rfl

theorem sessionsOfJson?_sessionsToJson {sessions : Std.ExtTreeMap String Session} {depth : Nat}
    (h : (sessionsToJson sessions).fits depth = true) :
    sessionsOfJson? depth (sessionsToJson sessions) = some (sessions.map fun _ => Session.stored) := by
  obtain ⟨inner, rfl, hmembers⟩ := fits_obj.1 h
  simp only [sessionsToJson, sessionsOfJson?, members?, Option.bind_eq_bind, Option.bind_some]
  refine Option.bind_eq_some_iff.2
    ⟨(sessions.map fun _ => Session.stored).toList, ?_, congrArg some (foldl_insert_toList _)⟩
  rw [Std.ExtTreeMap.toList_map]
  apply mapM_map_eq_some
  intro e he
  have hsession := Session.ofJson?_toJson (hmembers _ (List.mem_map_of_mem he))
  exact Option.bind_eq_some_iff.2 ⟨e.2.stored, hsession, rfl⟩

/-- **A store is read back.** -/
theorem ofJson?_toJson {s : SessionStore} (hsubscriptions : s.subscriptions.root.children.Sorted)
    (hretained : s.retained.root.children.Sorted) {depth : Nat} (h : s.toJson.fits depth = true) :
    ofJson? depth s.toJson = some s.stored := by
  rw [toJson_eq] at h ⊢
  obtain ⟨inner, rfl, hsections⟩ := fits_ofMembers.1 h
  have hfields : (ofMembers s.sections).fields? ["session_store", "retain_tree", "subscription_tree"] =
      some [_, _, _] :=
    fields?_ofMembers _ (show ["session_store", "retain_tree", "subscription_tree"].Nodup by decide)
  have hsessions : fieldOr (some ∅) (sessionsOfJson? inner)
      (if s.sessions.isEmpty then none else some (sessionsToJson s.sessions)) =
      some (s.sessions.map fun _ => Session.stored) := by
    refine fieldOr_unless (fun hempty => ?_) fun hfull =>
      sessionsOfJson?_sessionsToJson (hsections "session_store" _ (by simp [sections, hfull]))
    rw [Std.ExtTreeMap.isEmpty_iff.1 hempty]
    exact Std.ExtTreeMap.ext_getElem? fun client => by simp
  have hretained : fieldOr (some .empty) (RetainTree.ofJson? inner)
      (if s.retained.isEmpty then none else some s.retained.toJson) = some s.retained :=
    fieldOr_unless (fun hempty => congrArg RetainTree.mk (Trie.eq_empty_of_isEmpty hempty).symm) fun hfull =>
      RetainTree.ofJson?_toJson hretained (hsections "retain_tree" _ (by simp [sections, hfull]))
  have hsubscriptions : fieldOr (some .empty) (SubscriptionTree.ofJson? inner)
      (if s.subscriptions.isEmpty then none else some s.subscriptions.toJson) = some s.subscriptions :=
    fieldOr_unless (fun hempty => congrArg SubscriptionTree.mk (Trie.eq_empty_of_isEmpty hempty).symm) fun hfull =>
      SubscriptionTree.ofJson?_toJson hsubscriptions (hsections "subscription_tree" _ (by simp [sections, hfull]))
  simp only [ofJson?, hfields, Option.bind_eq_bind, Option.bind_some, hsessions, hretained, hsubscriptions]
  rfl

theorem legible_toJson (s : SessionStore) : s.toJson.Legible := by
  rw [toJson_eq]
  apply legible_ofMembers
  intro name j hj
  simp only [sections, List.mem_cons, Prod.mk.injEq, List.not_mem_nil, or_false] at hj
  rcases hj with ⟨-, hj⟩ | ⟨-, hj⟩ | ⟨-, hj⟩
  · exact legible_unless (legible_obj (List.forall_mem_map.2 fun e _ => e.2.legible_toJson)) hj
  · exact legible_unless s.retained.legible_toJson hj
  · exact legible_unless s.subscriptions.legible_toJson hj

end SessionStore

end Mqtt
