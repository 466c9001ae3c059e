import Mqtt.RetainTree
import Mqtt.SubscriptionTree

/-!
# What the entries of a trie have in common: `TrieNode`, `RetainNode`

A property of every entry survives a change as long as the change respects it, wherever in the trie it
happens and whatever is pruned after it. For subscriptions this says which clients a tree can mention,
for retained messages which of them a tree can hold.
-/

namespace Mqtt

variable {α : Type} {P : α → Prop}

/-! ### Forests -/

namespace Forest

theorem mem_values_of_find? {level : String} {t : Trie α} {f : Forest α} (h : f.find? level = some t)
    {a : α} (ha : a = t.entry ∨ a ∈ t.children.values) : a ∈ f.values := by
  induction f with
  | nil => cases h
  | cons l entry children rest _ ih =>
    rw [find?] at h
    rw [values, List.mem_cons, List.mem_append]
    split at h
    · cases h
      exact ha.imp_right .inl
    · exact .inr (.inr (ih h))

theorem mem_values_of_mem_tries {t : Trie α} {f : Forest α} (h : t ∈ f.tries) {a : α}
    (ha : a = t.entry ∨ a ∈ t.children.values) : a ∈ f.values := by
  induction f with
  | nil => cases h
  | cons l entry children rest _ ih =>
    rw [values, List.mem_cons, List.mem_append]
    rcases List.mem_cons.1 h with rfl | h
    · exact ha.imp_right .inl
    · exact .inr (.inr (ih h))

theorem mem_values_insert {level : String} {t : Trie α} {f : Forest α} {a : α}
    (h : a ∈ (f.insert level t).values) : a = t.entry ∨ a ∈ t.children.values ∨ a ∈ f.values := by
  induction f with
  | nil => simpa [insert, values] using h
  | cons l entry children rest _ ih =>
    rw [insert] at h
    simp only [values, List.mem_cons, List.mem_append]
    split at h
    · simp only [values, List.mem_cons, List.mem_append] at h
      rcases h with h | h | h
      · exact .inl h
      · exact .inr (.inl h)
      · exact .inr (.inr (.inr (.inr h)))
    · split at h
      · simpa only [values, List.mem_cons, List.mem_append] using h
      · simp only [values, List.mem_cons, List.mem_append] at h
        rcases h with h | h | h
        · exact .inr (.inr (.inl h))
        · exact .inr (.inr (.inr (.inl h)))
        · rcases ih h with h | h | h
          · exact .inl h
          · exact .inr (.inl h)
          · exact .inr (.inr (.inr (.inr h)))

theorem mem_values_erase {level : String} {f : Forest α} {a : α} (h : a ∈ (f.erase level).values) :
    a ∈ f.values := by
  induction f with
  | nil => exact h
  | cons l entry children rest _ ih =>
    rw [erase] at h
    simp only [values, List.mem_cons, List.mem_append]
    split at h
    · exact .inr (.inr h)
    · simp only [values, List.mem_cons, List.mem_append] at h
      exact h.imp_right (·.imp_right ih)

theorem mem_values_filterLevels {keep : String → Bool} {f : Forest α} {a : α}
    (h : a ∈ (f.filterLevels keep).values) : a ∈ f.values := by
  induction f with
  | nil => exact h
  | cons l entry children rest _ ih =>
    rw [filterLevels] at h
    simp only [values, List.mem_cons, List.mem_append]
    split at h
    · simp only [values, List.mem_cons, List.mem_append] at h
      exact h.imp_right (·.imp_right ih)
    · exact .inr (.inr (ih h))

theorem mem_values_mapPruned [Blank α] {g : α → α} {f : Forest α} {a : α}
    (h : a ∈ (f.mapPruned g).values) : ∃ b ∈ f.values, a = g b := by
  induction f with
  | nil => cases h
  | cons l entry children rest ihc ihr =>
    rw [mapPruned] at h
    have hrest (h : a ∈ (rest.mapPruned g).values) :
        ∃ b ∈ (cons l entry children rest).values, a = g b := by
      obtain ⟨b, hb, rfl⟩ := ihr h
      exact ⟨b, by simp [values, hb], rfl⟩
    split at h
    · exact hrest h
    · simp only [values, List.mem_cons, List.mem_append] at h
      rcases h with rfl | h | h
      · exact ⟨entry, by simp [values], rfl⟩
      · obtain ⟨b, hb, rfl⟩ := ihc h
        exact ⟨b, by simp [values, hb], rfl⟩
      · exact hrest h

end Forest

/-! ### Tries -/

namespace Trie

/-- Every entry of the trie satisfies `P`. -/
def All (P : α → Prop) (t : Trie α) : Prop := P t.entry ∧ ∀ a ∈ t.children.values, P a

theorem All.imp {Q : α → Prop} {t : Trie α} (ht : t.All P) (h : ∀ a, P a → Q a) : t.All Q :=
  ⟨h _ ht.1, fun a ha => h a (ht.2 a ha)⟩

theorem All.find? {level : String} {t child : Trie α} (ht : t.All P)
    (h : t.children.find? level = some child) : child.All P :=
  ⟨ht.2 _ (Forest.mem_values_of_find? h (.inl rfl)),
    fun _ ha => ht.2 _ (Forest.mem_values_of_find? h (.inr ha))⟩

theorem All.insert {level : String} {t child : Trie α} (ht : t.All P) (hchild : child.All P) :
    ({ t with children := t.children.insert level child } : Trie α).All P := by
  refine ⟨ht.1, fun a ha => ?_⟩
  rcases Forest.mem_values_insert ha with rfl | ha | ha
  · exact hchild.1
  · exact hchild.2 a ha
  · exact ht.2 a ha

variable [Blank α] {β : Type}

theorem all_empty (h : P Blank.blank) : (empty : Trie α).All P := ⟨h, fun _ ha => by cases ha⟩

theorem All.update {f : α → β × α} (hblank : P Blank.blank) (hf : ∀ a, P a → P (f a).2) {t : Trie α}
    (ht : t.All P) (path : List String) : (t.update f path).2.All P := by
  induction path generalizing t with
  | nil => exact ⟨hf _ ht.1, ht.2⟩
  | cons level path ih =>
    refine ht.insert (ih ?_)
    cases h : t.children.find? level with
    | none => exact all_empty hblank
    | some child => exact ht.find? h

theorem All.updatePruned {f : α → β × α} {absent : β} (hf : ∀ a, P a → P (f a).2) {t : Trie α} (ht : t.All P)
    (path : List String) : (t.updatePruned f absent path).2.All P := by
  induction path generalizing t with
  | nil => exact ⟨hf _ ht.1, ht.2⟩
  | cons level path ih =>
    rw [Trie.updatePruned]
    split
    · exact ht
    · next child h =>
      dsimp only
      split
      · exact ⟨ht.1, fun a ha => ht.2 a (Forest.mem_values_erase ha)⟩
      · exact ht.insert (ih (ht.find? h))

theorem All.mapPruned {Q : α → Prop} {f : α → α} (hf : ∀ a, P a → Q (f a)) {t : Trie α}
    (ht : t.All P) : (t.mapPruned f).All Q := by
  refine ⟨hf _ ht.1, fun a ha => ?_⟩
  obtain ⟨b, hb, rfl⟩ := Forest.mem_values_mapPruned ha
  exact hf b (ht.2 b hb)

end Trie

/-! ### The clients of a subscription tree -/

namespace SubscriptionTree

/-- The client has a subscription somewhere in the tree. -/
def Mentions (t : SubscriptionTree) (client : String) : Prop :=
  ∃ grants ∈ t.root.entry :: t.root.children.values, client ∈ grants

/-- Only clients that satisfy `P` have subscriptions. -/
def Only (P : String → Prop) (t : SubscriptionTree) : Prop :=
  t.root.All fun grants => ∀ client ∈ grants, P client

theorem only_iff {P : String → Prop} {t : SubscriptionTree} :
    t.Only P ↔ ∀ client, t.Mentions client → P client := by
  constructor
  · rintro ⟨hentry, hchildren⟩ client ⟨grants, hgrants, hclient⟩
    rcases List.mem_cons.1 hgrants with rfl | hgrants
    · exact hentry client hclient
    · exact hchildren grants hgrants client hclient
  · intro h
    exact ⟨fun client hclient => h client ⟨_, .head _, hclient⟩,
      fun grants hgrants client hclient => h client ⟨grants, .tail _ hgrants, hclient⟩⟩

variable {P : String → Prop} {t : SubscriptionTree}

theorem Only.imp {Q : String → Prop} (ht : t.Only P) (h : ∀ client, P client → Q client) : t.Only Q :=
  Trie.All.imp ht fun _ hg client hclient => h client (hg client hclient)

theorem only_empty : empty.Only P := Trie.all_empty fun _ h => absurd h Std.ExtTreeMap.not_mem_empty

theorem Only.subscribe (ht : t.Only P) {client : String} (hclient : P client) (filter : String)
    (q : QoS) : (t.subscribe filter client q).2.Only P := by
  refine Trie.All.update (fun _ h => absurd h Std.ExtTreeMap.not_mem_empty) ?_ ht _
  intro grants hgrants other hother
  rw [grant, Std.ExtTreeMap.mem_insert] at hother
  rcases hother with h | h
  · rw [← Std.compare_eq_iff_eq.1 h]
    exact hclient
  · exact hgrants other h

theorem Only.unsubscribe (ht : t.Only P) (filter client : String) :
    (t.unsubscribe filter client).2.Only P := by
  refine Trie.All.updatePruned ?_ ht _
  intro grants hgrants other hother
  exact hgrants other (Std.ExtTreeMap.mem_of_mem_erase hother)

theorem only_filterClients (t : SubscriptionTree) (keep : String → Bool) :
    (t.filterClients keep).Only fun client => t.Mentions client ∧ keep client = true := by
  have ht : t.Only t.Mentions := only_iff.2 fun _ h => h
  refine Trie.All.mapPruned ?_ ht
  intro grants hgrants client hclient
  rw [Std.ExtTreeMap.mem_filter] at hclient
  obtain ⟨h, hkeep⟩ := hclient
  rw [Std.ExtTreeMap.getKey_eq] at hkeep
  exact ⟨hgrants client h, hkeep⟩

end SubscriptionTree

/-! ### Retained messages -/

namespace RetainTree

/-- Every retained message satisfies `P`. -/
def Only (P : Message → Prop) (t : RetainTree) : Prop := t.root.All fun m? => ∀ m, m? = some m → P m

variable {P : Message → Prop} {t : RetainTree}

theorem only_empty : empty.Only P := Trie.all_empty fun _ h => by cases h

theorem only_of_forall (h : ∀ m, P m) : t.Only P := ⟨fun m _ => h m, fun _ _ m _ => h m⟩

theorem Only.retain (ht : t.Only P) {m : Message} (hm : P m) : (t.retain m).Only P := by
  unfold RetainTree.retain
  split
  · exact Trie.All.updatePruned (fun _ _ _ h => by cases h) ht _
  · exact Trie.All.update (fun _ h => by cases h) (fun _ _ _ h => by cases h; exact hm) ht _

theorem Only.mem_below (first : Bool) {t : Trie (Option Message)}
    (ht : t.All fun m? => ∀ m, m? = some m → P m) (path : List String) {m : Message}
    (hm : m ∈ matchingBelow first t path) : P m := by
  induction path generalizing t first with
  | nil => exact ht.1 m (by simpa [matchingBelow] using hm)
  | cons level path ih =>
    have hvisible {a : Option Message}
        (ha : a ∈ (if first then t.children.filterLevels (!Topic.isReserved ·) else t.children).values) :
        a ∈ t.children.values := by
      split at ha
      · exact Forest.mem_values_filterLevels ha
      · exact ha
    rw [matchingBelow] at hm
    split at hm
    · rcases List.mem_append.1 hm with hm | hm
      · exact ht.1 m (by simpa using hm)
      · rw [List.mem_filterMap] at hm
        obtain ⟨a, ha, hm⟩ := hm
        exact ht.2 a (hvisible ha) m hm
    · split at hm
      · rw [List.mem_flatMap] at hm
        obtain ⟨child, hchild, hm⟩ := hm
        refine ih false ?_ hm
        exact ⟨ht.2 _ (hvisible (Forest.mem_values_of_mem_tries hchild (.inl rfl))),
          fun a ha => ht.2 a (hvisible (Forest.mem_values_of_mem_tries hchild (.inr ha)))⟩
      · split at hm
        · next child hchild => exact ih false (ht.find? hchild) hm
        · cases hm

theorem Only.matching (ht : t.Only P) {filter : String} {m : Message} (hm : m ∈ t.matching filter) :
    P m :=
  mem_below true ht _ hm

end RetainTree

end Mqtt
