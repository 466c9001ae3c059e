import Mqtt.Proofs.Levels
import Mqtt.Proofs.Lookup
import Mqtt.SubscriptionTree

/-!
# The subscription tree is a table: `SubscriptionTree`

Whatever is done to a tree of subscriptions, it holds what a flat table from client and filter to
quality of service would hold after the same changes. `SubscriptionTree.Files t table` is the relation
that every change keeps; all that a tree can be asked is then read off the table.
-/

namespace Mqtt.SubscriptionTree

open Topic

/-- A change of the subscriptions. -/
inductive Change where
  | subscribe (filter client : String) (q : QoS)
  | unsubscribe (filter client : String)
  | unsubscribeAll (client : String)
  | filterClients (keep : String → Bool)

def change (t : SubscriptionTree) : Change → SubscriptionTree
  | .subscribe filter client q => (t.subscribe filter client q).2
  | .unsubscribe filter client => (t.unsubscribe filter client).2
  | .unsubscribeAll client => t.unsubscribeAll client
  | .filterClients keep => t.filterClients keep

/-- What a client was granted for a filter. -/
def granted? (t : SubscriptionTree) (filter client : String) : Option QoS :=
  (t.root.get (levels filter))[client]?

/-- A flat table: the quality of service granted, by client and filter. -/
abbrev Table := Std.ExtTreeMap (String × String) QoS lexOrd.compare

def Table.change (table : Table) : Change → Table
  | .subscribe filter client q => table.insert (client, filter) q
  | .unsubscribe filter client => table.erase (client, filter)
  | .unsubscribeAll client => table.filter fun key _ => key.1 ≠ client
  | .filterClients keep => table.filter fun key _ => keep key.1

/-! ### What the tree holds -/

/-- The tree holds what the table holds, at the node of each filter, and nothing else. -/
structure Files (t : SubscriptionTree) (table : Table) : Prop where
  sorted : t.root.children.Sorted
  pruned : t.root.children.Pruned
  lookup : ∀ filter client, t.granted? filter client = table[(client, filter)]?
  filed : ∀ path, t.root.get path ≠ Blank.blank → ∃ filter, path = levels filter

theorem files_empty : Files empty ∅ where
  sorted := trivial
  pruned := trivial
  lookup filter client := by
    rw [granted?, empty, Trie.get_empty]
    exact Std.ExtTreeMap.getElem?_empty.trans Std.ExtTreeMap.getElem?_empty.symm
  filed path h := absurd (Trie.get_empty path) h

variable {t : SubscriptionTree} {table : Table}

/-- A client's grant once another is put in its place, or beside it. -/
theorem getElem?_insert (g : Grants) (client client' : String) (q : QoS) :
    (g.insert client q)[client']? = if client = client' then some q else g[client']? := by
  simp [Std.ExtTreeMap.getElem?_insert]

theorem getElem?_erase (g : Grants) (client client' : String) :
    (g.erase client)[client']? = if client = client' then none else g[client']? := by
  simp [Std.ExtTreeMap.getElem?_erase]

theorem filter_blank (keep : String → Bool) :
    Std.ExtTreeMap.filter (fun client _ => keep client) (Blank.blank : Grants) = Blank.blank :=
  Std.ExtTreeMap.ext_getElem? fun client => by
    rw [Std.ExtTreeMap.getElem?_filter', show (Blank.blank : Grants)[client]? = none from
      Std.ExtTreeMap.getElem?_empty]
    rfl

theorem Table.getElem?_insert (table : Table) (key key' : String × String) (q : QoS) :
    (table.insert key q)[key']? = if key = key' then some q else table[key']? := by
  simp only [Std.ExtTreeMap.getElem?_insert, Std.compare_eq_iff_eq]

theorem Table.getElem?_erase (table : Table) (key key' : String × String) :
    (table.erase key)[key']? = if key = key' then none else table[key']? := by
  simp only [Std.ExtTreeMap.getElem?_erase, Std.compare_eq_iff_eq]

/-- The tree tells whether a subscription is new. -/
theorem subscribe_fst (t : SubscriptionTree) (filter client : String) (q : QoS) :
    (t.subscribe filter client q).1 = (t.granted? filter client).isNone :=
  Trie.update_fst (grant client q) t.root (levels filter)

/-- The tree tells whether there was a subscription to be taken away. -/
theorem unsubscribe_fst (t : SubscriptionTree) (filter client : String) :
    (t.unsubscribe filter client).1 = (t.granted? filter client).isSome := by
  have habsent : (revoke client Blank.blank).1 = false := by
    rw [revoke, show (Blank.blank : Grants)[client]? = none from Std.ExtTreeMap.getElem?_empty]
    rfl
  exact Trie.updatePruned_fst habsent t.root (levels filter)

theorem get_subscribe (t : SubscriptionTree) (filter client : String) (q : QoS) (path : List String) :
    (t.subscribe filter client q).2.root.get path =
      if path = levels filter then (t.root.get (levels filter)).insert client q else t.root.get path :=
  Trie.get_update (grant client q) t.root (levels filter) path

theorem get_unsubscribe (ht : t.root.children.Sorted) (filter client : String) (path : List String) :
    (t.unsubscribe filter client).2.root.get path =
      if path = levels filter then (t.root.get (levels filter)).erase client else t.root.get path :=
  Trie.get_updatePruned (f := revoke client) Std.ExtTreeMap.erase_empty ht (levels filter) path

theorem Files.subscribe (h : Files t table) (filter client : String) (q : QoS) :
    Files (t.subscribe filter client q).2 (table.insert (client, filter) q) where
  sorted := Trie.sorted_update h.sorted _
  pruned := Trie.pruned_update (fun _ => Std.ExtTreeMap.isEmpty_eq_false_iff.2 Std.ExtTreeMap.insert_ne_empty)
    h.pruned _
  lookup filter' client' := by
    rw [granted?, get_subscribe, Table.getElem?_insert]
    by_cases hfilter : filter' = filter
    · have hold := h.lookup filter client'
      rw [granted?] at hold
      rw [hfilter, if_pos rfl, getElem?_insert, hold]
      simp
    · rw [if_neg (fun heq => hfilter (levels_injective heq)),
        if_neg (fun heq => hfilter (Prod.mk.inj heq).2.symm)]
      exact h.lookup filter' client'
  filed path hpath := by
    rw [get_subscribe] at hpath
    split at hpath
    · next heq => exact ⟨filter, heq⟩
    · exact h.filed path hpath

theorem Files.unsubscribe (h : Files t table) (filter client : String) :
    Files (t.unsubscribe filter client).2 (table.erase (client, filter)) where
  sorted := Trie.sorted_updatePruned h.sorted _
  pruned := Trie.pruned_updatePruned h.pruned _
  lookup filter' client' := by
    rw [granted?, get_unsubscribe h.sorted, Table.getElem?_erase]
    by_cases hfilter : filter' = filter
    · have hold := h.lookup filter client'
      rw [granted?] at hold
      rw [hfilter, if_pos rfl, getElem?_erase, hold]
      simp
    · rw [if_neg (fun heq => hfilter (levels_injective heq)),
        if_neg (fun heq => hfilter (Prod.mk.inj heq).2.symm)]
      exact h.lookup filter' client'
  filed path hpath := by
    rw [get_unsubscribe h.sorted] at hpath
    split at hpath
    · next heq => exact ⟨filter, heq⟩
    · exact h.filed path hpath

theorem Files.filterClients (h : Files t table) (keep : String → Bool) :
    Files (t.filterClients keep) (table.filter fun key _ => keep key.1) where
  sorted := h.sorted.mapPruned
  pruned := Forest.pruned_mapPruned _ _
  lookup filter client := by
    have hold := h.lookup filter client
    rw [granted?] at hold
    rw [granted?, SubscriptionTree.filterClients, Trie.get_mapPruned (filter_blank keep) h.sorted,
      Std.ExtTreeMap.getElem?_filter', Std.ExtTreeMap.getElem?_filter', hold]
  filed path hpath := by
    rw [SubscriptionTree.filterClients, Trie.get_mapPruned (filter_blank keep) h.sorted] at hpath
    refine h.filed path fun hblank => hpath ?_
    rw [hblank]
    exact filter_blank keep

/-- One change keeps the tree and the table together. -/
theorem Files.change (h : Files t table) (c : Change) : Files (t.change c) (table.change c) := by
  cases c with
  | subscribe filter client q => exact h.subscribe filter client q
  | unsubscribe filter client => exact h.unsubscribe filter client
  | unsubscribeAll client => exact h.filterClients (· ≠ client)
  | filterClients keep => exact h.filterClients keep

theorem Files.foldl (h : Files t table) (changes : List Change) :
    Files (changes.foldl SubscriptionTree.change t) (changes.foldl Table.change table) := by
  induction changes generalizing t table with
  | nil => exact h
  | cons c changes ih => exact ih (h.change c)

/-! ### Asking for a client -/

theorem ne_blank_of_getElem? {g : Grants} {client : String} {q : QoS} (h : g[client]? = some q) :
    g ≠ Blank.blank := by
  rintro rfl
  rw [show (Blank.blank : Grants)[client]? = none from Std.ExtTreeMap.getElem?_empty] at h
  cases h

/-- The lines of a client before they are sorted. -/
def unsortedLines (t : SubscriptionTree) (client : String) : List (String × QoS) :=
  (t.root.children.entries []).filterMap fun (path, grants) =>
    grants[client]?.map fun q => ("/".intercalate path.reverse, q)

theorem subscriptions_eq_mergeSort (t : SubscriptionTree) (client : String) :
    t.subscriptions client = (t.unsortedLines client).mergeSort lineLE := rfl

/-- An entry with a grant stands at the levels of a filter. -/
theorem Files.entry (h : Files t table) {path : List String} {g : Grants} (hg : g ≠ Blank.blank) :
    (path, g) ∈ t.root.children.entries [] ↔
      ∃ filter, path = (levels filter).reverse ∧ t.root.get (levels filter) = g := by
  rw [Forest.mem_entries h.sorted hg]
  constructor
  · rintro ⟨l, p, rfl, hget⟩
    rw [← Trie.get_cons] at hget
    obtain ⟨filter, hfilter⟩ := h.filed (l :: p) (by rw [hget]; exact hg)
    exact ⟨filter, by rw [hfilter, List.append_nil], by rw [← hfilter, hget]⟩
  · rintro ⟨filter, rfl, hget⟩
    obtain ⟨l, p, hlevels⟩ := List.exists_cons_of_ne_nil (levels_ne_nil filter)
    refine ⟨l, p, by rw [hlevels, List.append_nil], ?_⟩
    rw [← Trie.get_cons, ← hlevels]
    exact hget

theorem Files.mem_subscriptions (h : Files t table) {filter client : String} {q : QoS} :
    (filter, q) ∈ t.subscriptions client ↔ table[(client, filter)]? = some q := by
  rw [← h.lookup, subscriptions_eq_mergeSort, List.mem_mergeSort, unsortedLines, List.mem_filterMap]
  constructor
  · rintro ⟨⟨path, g⟩, hentry, hline⟩
    obtain ⟨q', hq', hline⟩ := Option.map_eq_some_iff.1 hline
    obtain ⟨filter', rfl, hget⟩ := (h.entry (ne_blank_of_getElem? hq')).1 hentry
    rw [List.reverse_reverse, intercalate_levels] at hline
    cases hline
    rw [granted?, hget]
    exact hq'
  · intro hgranted
    rw [granted?] at hgranted
    refine ⟨((levels filter).reverse, _),
      (h.entry (ne_blank_of_getElem? hgranted)).2 ⟨filter, rfl, rfl⟩, ?_⟩
    simp only [hgranted, List.reverse_reverse, intercalate_levels, Option.map_some]

theorem lineLE_iff {a b : String × QoS} : lineLE a b = true ↔ a.1 < b.1 ∨ (a.1 = b.1 ∧ a.2 ≤ b.2) := by
  simp [lineLE]

theorem lineLE_trans (a b c : String × QoS) (hab : lineLE a b = true) (hbc : lineLE b c = true) :
    lineLE a c = true := by
  rw [lineLE_iff] at *
  rcases hab with hab | ⟨hab, hqab⟩
  · rcases hbc with hbc | ⟨hbc, -⟩
    · exact .inl (String.lt_trans hab hbc)
    · exact .inl (hbc ▸ hab)
  · rcases hbc with hbc | ⟨hbc, hqbc⟩
    · exact .inl (hab ▸ hbc)
    · exact .inr ⟨hab.trans hbc, Nat.le_trans hqab hqbc⟩

theorem lineLE_total (a b : String × QoS) : (lineLE a b || lineLE b a) = true := by
  rw [Bool.or_eq_true, lineLE_iff, lineLE_iff]
  by_cases hab : a.1 < b.1
  · exact .inl (.inl hab)
  · by_cases hba : b.1 < a.1
    · exact .inr (.inl hba)
    · have heq : a.1 = b.1 := String.le_antisymm (String.not_lt.1 hba) (String.not_lt.1 hab)
      rcases Nat.le_total a.2.toNat b.2.toNat with hle | hle
      · exact .inl (.inr ⟨heq, hle⟩)
      · exact .inr (.inr ⟨heq.symm, hle⟩)

/-- A client's filters are listed in ascending order, each once. -/
theorem Files.subscriptions_ascending (h : Files t table) (client : String) :
    (t.subscriptions client).Pairwise fun a b => a.1 < b.1 := by
  have hlines : (t.unsortedLines client).Pairwise fun a b => a.1 ≠ b.1 := by
    rw [unsortedLines, List.pairwise_filterMap]
    have hpaths : (t.root.children.entries []).Pairwise fun a b => a.1 ≠ b.1 :=
      List.pairwise_map.1 (Forest.nodup_entries h.sorted [])
    refine hpaths.imp_of_mem fun {a b} ha hb hne line hline line' hline' heq => hne ?_
    obtain ⟨q, hq, rfl⟩ := Option.map_eq_some_iff.1 hline
    obtain ⟨q', hq', rfl⟩ := Option.map_eq_some_iff.1 hline'
    obtain ⟨filter, hfilter, -⟩ := (h.entry (ne_blank_of_getElem? hq)).1 ha
    obtain ⟨filter', hfilter', -⟩ := (h.entry (ne_blank_of_getElem? hq')).1 hb
    rw [hfilter, hfilter', List.reverse_reverse, List.reverse_reverse, intercalate_levels,
      intercalate_levels] at heq
    rw [hfilter, hfilter', show filter = filter' from heq]
  rw [subscriptions_eq_mergeSort]
  have hsorted := List.pairwise_mergeSort lineLE_trans lineLE_total (t.unsortedLines client)
  have hdistinct := (List.mergeSort_perm (t.unsortedLines client) lineLE).symm.pairwise hlines
    (fun hne => Ne.symm hne)
  refine (hsorted.and hdistinct).imp fun {a b} hab => ?_
  rcases lineLE_iff.1 hab.1 with hlt | ⟨heq, -⟩
  · exact hlt
  · exact absurd heq hab.2

/-! ### Asking for everything -/

theorem Files.isEmpty_iff (h : Files t table) : t.isEmpty = true ↔ table.isEmpty = true := by
  rw [isEmpty, Trie.isEmpty_iff_get h.pruned, Std.ExtTreeMap.isEmpty_iff]
  constructor
  · intro hblank
    refine Std.ExtTreeMap.ext_getElem? fun ⟨client, filter⟩ => ?_
    rw [← h.lookup, granted?, hblank]
    exact Std.ExtTreeMap.getElem?_empty.trans Std.ExtTreeMap.getElem?_empty.symm
  · rintro rfl path
    by_cases hpath : t.root.get path = Blank.blank
    · exact hpath
    · obtain ⟨filter, rfl⟩ := h.filed path hpath
      refine Std.ExtTreeMap.ext_getElem? fun client => ?_
      have hnone := h.lookup filter client
      rw [granted?] at hnone
      rw [hnone]
      exact Std.ExtTreeMap.getElem?_empty.trans Std.ExtTreeMap.getElem?_empty.symm

/-! ### Asking for a topic -/

theorem get_multiGrants {client : String} {q : QoS} (t : Trie Grants) :
    (∃ g ∈ multiGrants t, g[client]? = some q) ↔ (t.get [multiWildcard])[client]? = some q := by
  rw [Trie.get_cons, multiGrants]
  cases t.children.find? multiWildcard with
  | none =>
    have hnone : (Blank.blank : Grants)[client]? = none := Std.ExtTreeMap.getElem?_empty
    simp [hnone]
  | some child => simp [Trie.get]

/-- What is collected below the node of a level, and nothing where there is no such node. -/
theorem matchingGrants_cons (first : Bool) (t : Trie Grants) (level : String) (rest : List String) :
    matchingGrants first t (level :: rest) =
      (if first && isReserved level then []
        else multiGrants t ++ (t.children.find? singleWildcard).elim [] (matchingGrants false · rest))
      ++ (t.children.find? level).elim [] (matchingGrants false · rest) := by
  rw [matchingGrants]
  cases t.children.find? singleWildcard <;> cases t.children.find? level <;> rfl

/-- The grants that matching collects are those at the end of a walk. -/
theorem get_matchingGrants {client : String} {q : QoS} (path : List String) :
    ∀ (first : Bool) (t : Trie Grants),
      (∃ g ∈ matchingGrants first t path, g[client]? = some q) ↔
        ∃ filter, Walks first filter path ∧ (t.get filter)[client]? = some q := by
  have hnone : (Blank.blank : Grants)[client]? = none := Std.ExtTreeMap.getElem?_empty
  induction path with
  | nil =>
    intro first t
    rw [matchingGrants]
    constructor
    · rintro ⟨g, hg, hq⟩
      rcases List.mem_cons.1 hg with rfl | hg
      · exact ⟨[], .stop first, hq⟩
      · exact ⟨[multiWildcard], .parent first, (get_multiGrants t).1 ⟨g, hg, hq⟩⟩
    · rintro ⟨filter, hwalks, hq⟩
      cases hwalks with
      | stop => exact ⟨t.entry, .head _, hq⟩
      | parent =>
        obtain ⟨g, hg, hq⟩ := (get_multiGrants t).2 hq
        exact ⟨g, .tail _ hg, hq⟩
  | cons level rest ih =>
    intro first t
    have hbelow (l : String) :
        (∃ g ∈ (t.children.find? l).elim [] (matchingGrants false · rest), g[client]? = some q) ↔
          ∃ filter, Walks false filter rest ∧ (t.get (l :: filter))[client]? = some q := by
      cases hfind : t.children.find? l with
      | none => simp [Trie.get_cons, hfind, hnone]
      | some child => simpa [Trie.get_cons, hfind] using ih false child
    rw [matchingGrants_cons]
    constructor
    · rintro ⟨g, hg, hq⟩
      rcases List.mem_append.1 hg with hg | hg
      · split at hg
        · cases hg
        · next hvisible =>
          rw [Bool.not_eq_true] at hvisible
          rcases List.mem_append.1 hg with hg | hg
          · exact ⟨[multiWildcard], .rest rest hvisible, (get_multiGrants t).1 ⟨g, hg, hq⟩⟩
          · obtain ⟨filter, hwalks, hq⟩ := (hbelow singleWildcard).1 ⟨g, hg, hq⟩
            exact ⟨_, .single hvisible hwalks, hq⟩
      · obtain ⟨filter, hwalks, hq⟩ := (hbelow level).1 ⟨g, hg, hq⟩
        exact ⟨_, .literal first level hwalks, hq⟩
    · rintro ⟨filter, hwalks, hq⟩
      cases hwalks with
      | rest _ hvisible =>
        obtain ⟨g, hg, hq⟩ := (get_multiGrants t).2 hq
        refine ⟨g, List.mem_append_left _ ?_, hq⟩
        rw [if_neg (by simp [hvisible])]
        exact List.mem_append_left _ hg
      | single hvisible hwalks =>
        obtain ⟨g, hg, hq⟩ := (hbelow singleWildcard).2 ⟨_, hwalks, hq⟩
        refine ⟨g, List.mem_append_left _ ?_, hq⟩
        rw [if_neg (by simp [hvisible])]
        exact List.mem_append_right _ hg
      | literal _ _ hwalks =>
        obtain ⟨g, hg, hq⟩ := (hbelow level).2 ⟨_, hwalks, hq⟩
        exact ⟨g, List.mem_append_right _ hg, hq⟩

/-- The greater of two is one of them. -/
theorem le_max {a b : QoS} : (max a b = a ∨ max a b = b) ∧ a ≤ max a b ∧ b ≤ max a b := by
  cases a <;> cases b <;> decide

theorem QoS.le_antisymm {a b : QoS} (hab : a ≤ b) (hba : b ≤ a) : a = b := by
  revert hab hba
  cases a <;> cases b <;> decide

/-- The greatest quality of service of some. -/
def Greatest (S : QoS → Prop) (q : QoS) : Prop := S q ∧ ∀ q', S q' → q' ≤ q

/-- Two may be replaced by the greater of them. -/
theorem greatest_max {S : QoS → Prop} {a b q : QoS} :
    Greatest (fun q => q = max a b ∨ S q) q ↔ Greatest (fun q => q = a ∨ q = b ∨ S q) q := by
  obtain ⟨hone, ha, hb⟩ := @le_max a b
  constructor
  · rintro ⟨hq, hmax⟩
    refine ⟨?_, fun q' hq' => ?_⟩
    · rcases hq with rfl | hq
      · exact hone.imp id .inl
      · exact .inr (.inr hq)
    · rcases hq' with rfl | rfl | hq'
      · exact Nat.le_trans ha (hmax _ (.inl rfl))
      · exact Nat.le_trans hb (hmax _ (.inl rfl))
      · exact hmax _ (.inr hq')
  · rintro ⟨hq, hmax⟩
    have hle : max a b ≤ q := by
      rcases hone with h | h
      · rw [h]; exact hmax a (.inl rfl)
      · rw [h]; exact hmax b (.inr (.inl rfl))
    refine ⟨?_, fun q' hq' => ?_⟩
    · rcases hq with rfl | rfl | hq
      · exact .inl (QoS.le_antisymm ha hle)
      · exact .inl (QoS.le_antisymm hb hle)
      · exact .inr hq
    · rcases hq' with rfl | hq'
      · exact hle
      · exact hmax q' (.inr (.inr hq'))

theorem greatest_congr {S S' : QoS → Prop} (h : ∀ q, S q ↔ S' q) (q : QoS) :
    Greatest S q ↔ Greatest S' q := by
  rw [show S = S' from funext fun q => propext (h q)]

/-- Of some qualities of service one is the greatest. -/
theorem exists_greatest {S : QoS → Prop} {q : QoS} (hq : S q) : ∃ q, Greatest S q := by
  by_cases hexactly : S .exactlyOnce
  · exact ⟨_, hexactly, fun q _ => by cases q <;> decide⟩
  by_cases hleast : S .atLeastOnce
  · refine ⟨_, hleast, fun q hq => ?_⟩
    cases q with
    | exactlyOnce => exact absurd hq hexactly
    | atLeastOnce => decide
    | atMostOnce => decide
  · refine ⟨q, hq, fun q' hq' => ?_⟩
    cases q' with
    | exactlyOnce => exact absurd hq' hexactly
    | atLeastOnce => exact absurd hq' hleast
    | atMostOnce => cases q <;> decide

/-- Raising grants one after the other leaves each client with its greatest. -/
theorem getElem?_foldl_raise {client : String} {q : QoS} (pairs : List (String × QoS)) :
    ∀ (best : Grants),
      (pairs.foldl (fun best (client, q) => raise best client q) best)[client]? = some q ↔
        Greatest (fun q => best[client]? = some q ∨ (client, q) ∈ pairs) q := by
  induction pairs with
  | nil =>
    intro best
    simp only [List.foldl_nil, List.not_mem_nil, or_false]
    constructor
    · intro h
      refine ⟨h, fun q' hq' => ?_⟩
      rw [h] at hq'
      cases hq'
      exact Nat.le_refl _
    · exact fun h => h.1
  | cons pair pairs ih =>
    obtain ⟨client', q₀⟩ := pair
    intro best
    have hraise : (raise best client' q₀)[client]? =
        if client' = client then some (max (best.getD client' q₀) q₀) else best[client]? := by
      rw [raise, getElem?_insert]
    rw [List.foldl_cons, ih]
    simp only [hraise, List.mem_cons, Prod.mk.injEq]
    by_cases hclient : client' = client
    · subst hclient
      simp only [if_true, true_and, Option.some.injEq, Std.ExtTreeMap.getD_eq_getD_getElem?]
      cases best[client']? with
      | none =>
        refine greatest_congr (fun q => ?_) q
        have hself : max q₀ q₀ = q₀ := by cases q₀ <;> rfl
        simp [hself, eq_comm]
      | some p =>
        simpa [eq_comm] using @greatest_max (fun q => (client', q) ∈ pairs) p q₀ q
    · simp [hclient, Ne.symm hclient]

/-- The quality of service of a subscriber is the greatest that a walk leads to. -/
theorem getElem?_subscribers {t : SubscriptionTree} {topic client : String} {q : QoS} :
    (t.subscribers topic)[client]? = some q ↔
      Greatest (fun q => ∃ filter, Walks true filter (levels topic) ∧
        (t.root.get filter)[client]? = some q) q := by
  rw [subscribers, getElem?_foldl_raise]
  refine greatest_congr (fun q => ?_) q
  rw [← get_matchingGrants, show ((∅ : Grants)[client]? = some q ↔ False) by simp, false_or,
    List.mem_flatMap]
  simp only [Std.ExtTreeMap.mem_toList_iff_getElem?_eq_some]

theorem Files.getElem?_subscribers (h : Files t table)
    (hvalid : ∀ client filter, (client, filter) ∈ table → isValidFilter filter = true)
    {topic client : String} {q : QoS} :
    (t.subscribers topic)[client]? = some q ↔
      Greatest (fun q => ∃ filter, table[(client, filter)]? = some q ∧ isMatch topic filter = true) q := by
  rw [SubscriptionTree.getElem?_subscribers]
  refine greatest_congr (fun q => ?_) q
  have hmem {filter : String} (hq : table[(client, filter)]? = some q) : (client, filter) ∈ table :=
    Std.ExtTreeMap.mem_iff_isSome_getElem?.2 (by rw [hq]; rfl)
  constructor
  · rintro ⟨path, hwalks, hq⟩
    obtain ⟨filter, rfl⟩ := h.filed path (ne_blank_of_getElem? hq)
    rw [← granted?, h.lookup] at hq
    exact ⟨filter, hq, (walks_iff_isMatch (hvalid client filter (hmem hq)) topic).1 hwalks⟩
  · rintro ⟨filter, hq, hmatch⟩
    refine ⟨levels filter, (walks_iff_isMatch (hvalid client filter (hmem hq)) topic).2 hmatch, ?_⟩
    rw [← granted?, h.lookup]
    exact hq

/-! ### The refinement -/

/-- **The subscription tree refines a flat table.** After any changes of an empty tree, and of an empty
table by the same changes: adding a subscription tells that it is new, and taking one away that it was there,
as the table has it; the subscriptions of a client are the lines of the table for it, in ascending
order; the tree is empty exactly if the table is; and if all filters in the table are valid, the
clients that match a topic are those with a filter in the table that matches it, each at the greatest
quality of service granted for one. -/
theorem foldl_change_refines (changes : List Change) :
    (∀ filter client q, ((changes.foldl change empty).subscribe filter client q).1 =
      !(changes.foldl Table.change ∅).contains (client, filter)) ∧
    (∀ filter client, ((changes.foldl change empty).unsubscribe filter client).1 =
      (changes.foldl Table.change ∅).contains (client, filter)) ∧
    (∀ client, ((changes.foldl change empty).subscriptions client).Pairwise (fun a b => a.1 < b.1) ∧
      ∀ filter q, (filter, q) ∈ (changes.foldl change empty).subscriptions client ↔
        (changes.foldl Table.change ∅)[(client, filter)]? = some q) ∧
    ((changes.foldl change empty).isEmpty = true ↔ (changes.foldl Table.change ∅).isEmpty = true) ∧
    ((∀ client filter, (client, filter) ∈ changes.foldl Table.change ∅ → isValidFilter filter = true) →
      ∀ (topic client : String) (q : QoS),
        ((changes.foldl change empty).subscribers topic)[client]? = some q ↔
        (∃ filter, (changes.foldl Table.change ∅)[(client, filter)]? = some q ∧
          isMatch topic filter = true) ∧
        ∀ (filter : String) (q' : QoS), (changes.foldl Table.change ∅)[(client, filter)]? = some q' →
          isMatch topic filter = true → q' ≤ q) := by
  have hfiles := files_empty.foldl changes
  generalize changes.foldl change empty = t at hfiles
  generalize changes.foldl Table.change ∅ = table at hfiles
  refine ⟨fun filter client q => ?_, fun filter client => ?_, fun client => ⟨?_, fun filter q => ?_⟩, ?_, ?_⟩
  · rw [subscribe_fst, hfiles.lookup, Std.ExtTreeMap.contains_eq_isSome_getElem?, Option.not_isSome]
  · rw [unsubscribe_fst, hfiles.lookup, Std.ExtTreeMap.contains_eq_isSome_getElem?]
  · exact hfiles.subscriptions_ascending client
  · exact hfiles.mem_subscriptions
  · exact hfiles.isEmpty_iff
  · intro hvalid topic client q
    rw [hfiles.getElem?_subscribers hvalid]
    refine and_congr_right fun _ => ⟨fun h filter q' hq' hmatch => h q' ⟨filter, hq', hmatch⟩, ?_⟩
    rintro h q' ⟨filter, hq', hmatch⟩
    exact h filter q' hq' hmatch

/-- Two overlapping filters of one client. -/
def overlapping : List Change := [.subscribe "a/#" "c" .exactlyOnce, .subscribe "a/+" "c" .atLeastOnce]

/-- A client with two matching filters is served at the greater quality of service. -/
theorem foldl_change_refines_overlapping :
    ((overlapping.foldl change empty).subscribers "a/b")["c"]? = some .exactlyOnce := by
  have hvalid : ∀ client filter, (client, filter) ∈ overlapping.foldl Table.change ∅ →
      isValidFilter filter = true := by
    intro client filter hmem
    simp only [overlapping, List.foldl_cons, List.foldl_nil, Table.change, Std.ExtTreeMap.mem_insert,
      Std.compare_eq_iff_eq, Prod.mk.injEq, Std.ExtTreeMap.not_mem_empty, or_false] at hmem
    rcases hmem with ⟨-, rfl⟩ | ⟨-, rfl⟩
    · decide
    · decide
  refine ((foldl_change_refines overlapping).2.2.2.2 hvalid "a/b" "c" .exactlyOnce).2 ⟨⟨"a/#", ?_, ?_⟩, ?_⟩
  · show (((∅ : Table).insert ("c", "a/#") .exactlyOnce).insert ("c", "a/+") .atLeastOnce)[("c", "a/#")]?
      = some .exactlyOnce
    rw [Table.getElem?_insert, if_neg (by decide), Table.getElem?_insert, if_pos rfl]
  · decide
  · intro filter q' _ _
    cases q' <;> decide

end Mqtt.SubscriptionTree
