import Mqtt.Proofs.Nodes
import Mqtt.Proofs.Subscriptions
import Mqtt.RetainTree

/-!
# Retained messages are a table: `RetainTree`

Whatever messages are retained one after the other, the tree holds what a flat table from topic to message
would hold. A filter is walked over the stored topics, the other way round than a topic over the stored
filters; `matchingBelow_eq` says that it finds those entries whose path the filter covers, and covering is
matching, for valid filters and for any others (`covers_levels`).
-/

namespace Mqtt.RetainTree

open Topic

/-! ### Walking topics by a filter -/

/-- The levels of a filter cover the levels of a topic. In the first level wildcards pass over reserved
topics. -/
def covers : (first : Bool) → (filter path : List String) → Bool
  | _, [], path => path.isEmpty
  | _, level :: _, [] => level = multiWildcard
  | first, level :: rest, l :: path =>
    if level = multiWildcard then !(first && isReserved l)
    else if level = singleWildcard then !(first && isReserved l) && covers false rest path
    else l = level && covers false rest path

/-- What a filter finds at a path. -/
def found (first : Bool) (filter : List String) : List String × Option Message → Option Message :=
  fun (path, m?) => if covers first filter path then m? else none

theorem covers_false (filter path : List String) : covers false filter path = matchLevels filter path := by
  induction filter generalizing path with
  | nil => cases path <;> rfl
  | cons level rest ih =>
    cases path with
    | nil => rfl
    | cons l path =>
      rw [covers, matchLevels, ih]
      by_cases hmulti : level = multiWildcard
      · simp [hmulti]
      · by_cases hsingle : level = singleWildcard
        · simp [hsingle]
        · by_cases hlevel : level = l
          · simp [hlevel]
          · simp [hmulti, hsingle, hlevel, Ne.symm hlevel]

/-- **Covering is matching**, for every filter and every topic. -/
theorem covers_levels (filter topic : String) :
    covers true (levels filter) (levels topic) = isMatch topic filter := by
  obtain ⟨level, rest, hfilter⟩ := List.exists_cons_of_ne_nil (levels_ne_nil filter)
  obtain ⟨l, path, htopic⟩ := List.exists_cons_of_ne_nil (levels_ne_nil topic)
  have hhead : filter.toList.head?.any isWildcardChar = level.toList.head?.any isWildcardChar := by
    rw [head?_levels hfilter]
    split
    · next h => rw [h]; rfl
    · rfl
  rw [isMatch, hhead, hfilter, htopic, ← isReserved_level htopic, covers, matchLevels, covers_false]
  by_cases hmulti : level = multiWildcard
  · have hwild : level.toList.head?.any isWildcardChar = true := by rw [hmulti]; rfl
    rw [hwild]
    simp [hmulti]
  · by_cases hsingle : level = singleWildcard
    · have hwild : level.toList.head?.any isWildcardChar = true := by rw [hsingle]; rfl
      rw [hwild, if_neg hmulti, if_pos hsingle, if_neg hmulti]
      simp [hsingle]
    · by_cases hlevel : level = l
      · -- A level that begins with a wildcard character is not reserved.
        have hplain : (isReserved l && level.toList.head?.any isWildcardChar) = false := by
          rw [hlevel, isReserved]
          by_cases hhead : l.toList.head? = some '$'
          · rw [hhead]
            rfl
          · simp [hhead]
        rw [hplain, if_neg hmulti, if_neg hsingle, if_neg hmulti]
        simp [hlevel]
      · simp [hmulti, hsingle, hlevel, Ne.symm hlevel]

/-- What a filter finds below a node is what it finds at the node and below the nodes beside each other
under it. -/
theorem filterMap_found (first : Bool) (filter : List String) (t : Trie (Option Message)) :
    t.listing.filterMap (found first filter) =
      (found first filter ([], t.entry)).toList ++ t.children.nodes.flatMap fun n =>
        n.2.listing.filterMap fun (path, m?) => found first filter (n.1 :: path, m?) := by
  rw [Trie.listing, List.filterMap_cons, Forest.filterMap_listing]
  cases found first filter ([], t.entry) <;> rfl

/-- The nodes that a wildcard in this place does not pass over. -/
theorem nodes_visible (first : Bool) (f : Forest (Option Message)) :
    (if first then f.filterLevels (!isReserved ·) else f).nodes
      = f.nodes.filter fun n => !(first && isReserved n.1) := by
  cases first with
  | false => simp
  | true => simp [Forest.nodes_filterLevels]

theorem flatMap_filter {α β : Type} (q : α → Bool) (g : α → List β) (as : List α) :
    (as.filter q).flatMap g = as.flatMap fun a => if q a then g a else [] := by
  induction as with
  | nil => rfl
  | cons a as ih => by_cases ha : q a = true <;> simp [ha, ih]

/-- A walk below a node finds the entries whose paths are covered, in the order in which they are listed. -/
theorem matchingBelow_eq {t : Trie (Option Message)} (ht : t.children.Sorted) (first : Bool)
    (filter : List String) : matchingBelow first t filter = t.listing.filterMap (found first filter) := by
  induction filter generalizing t first with
  | nil =>
    rw [matchingBelow, filterMap_found]
    simp [found, covers]
  | cons level rest ih =>
    rw [matchingBelow, filterMap_found]
    by_cases hmulti : level = multiWildcard
    · subst hmulti
      simp only [if_true, Forest.values_eq_listing, List.filterMap_map]
      rw [Forest.filterMap_listing, nodes_visible, flatMap_filter]
      congr 1
      refine List.flatMap_congr fun n _ => ?_
      simp only [found, covers, if_true]
      cases first && isReserved n.1 <;> simp
    · have hentry : found first (level :: rest) ([], t.entry) = none := by simp [found, covers, hmulti]
      rw [if_neg hmulti, hentry]
      by_cases hsingle : level = singleWildcard
      · subst hsingle
        dsimp only
        rw [if_pos rfl, Forest.tries_eq_nodes, List.flatMap_map, nodes_visible, flatMap_filter]
        refine List.flatMap_congr fun n hn => ?_
        rw [ih (ht.of_mem_nodes hn)]
        simp only [found, covers, if_neg hmulti, if_true]
        cases first && isReserved n.1 with
        | true => simp
        | false => rfl
      · have hnode (n : String × Trie (Option Message)) :
            (n.2.listing.filterMap fun (path, m?) => found first (level :: rest) (n.1 :: path, m?))
              = if n.1 = level then n.2.listing.filterMap (found false rest) else [] := by
          by_cases hn : n.1 = level
          · simp only [found, covers, if_neg hmulti, if_neg hsingle, hn, decide_true, Bool.true_and, if_true]
            rfl
          · simp [found, covers, hmulti, hsingle, hn]
        simp only [if_neg hsingle, hnode]
        rw [ht.flatMap_nodes level fun child => child.listing.filterMap (found false rest)]
        cases hfind : t.children.find? level with
        | none => rfl
        | some child => exact ih (ht.find? hfind) false

/-! ### The table -/

/-- A flat table: the message retained for a topic. -/
abbrev Table := Std.ExtTreeMap String Message

/-- The last message of a topic counts, unless it has no payload. -/
def Table.retain (table : Table) (m : Message) : Table :=
  if m.payload.isEmpty then table.erase m.topic else table.insert m.topic m

/-- The messages of a table by topic. -/
def Table.messages (table : Table) : List Message := table.toList.map (·.2)

/-- The tree holds what the table holds, at the node of each topic, and nothing else. -/
structure Files (t : RetainTree) (table : Table) : Prop where
  sorted : t.root.children.Sorted
  pruned : t.root.children.Pruned
  lookup : ∀ topic, t.root.get (levels topic) = table[topic]?
  filed : ∀ path, t.root.get path ≠ none → ∃ topic, path = levels topic
  keyed : ∀ {topic : String} {m : Message}, table[topic]? = some m → m.topic = topic

theorem files_empty : Files empty ∅ where
  sorted := trivial
  pruned := trivial
  lookup topic := by rw [empty, Trie.get_empty]; exact Std.ExtTreeMap.getElem?_empty.symm
  filed path h := absurd (Trie.get_empty path) h
  keyed h := by
    rw [Std.ExtTreeMap.getElem?_empty] at h
    cases h

variable {t : RetainTree} {table : Table}

theorem Table.getElem?_retain (table : Table) (m : Message) (topic : String) :
    (table.retain m)[topic]? =
      if topic = m.topic then if m.payload.isEmpty then none else some m else table[topic]? := by
  unfold Table.retain
  split
  · simp only [Std.ExtTreeMap.getElem?_erase, Std.compare_eq_iff_eq, eq_comm (a := topic)]
  · simp only [Std.ExtTreeMap.getElem?_insert, Std.compare_eq_iff_eq, eq_comm (a := topic)]

theorem get_retain (ht : t.root.children.Sorted) (m : Message) (path : List String) :
    (t.retain m).root.get path =
      if path = levels m.topic then if m.payload.isEmpty then none else some m else t.root.get path := by
  unfold RetainTree.retain
  split
  · exact Trie.get_updatePruned rfl ht _ path
  · exact Trie.get_update _ _ _ path

/-- One message keeps the tree and the table together. -/
theorem Files.retain (h : Files t table) (m : Message) : Files (t.retain m) (table.retain m) where
  sorted := by
    unfold RetainTree.retain
    split
    · exact Trie.sorted_updatePruned h.sorted _
    · exact Trie.sorted_update h.sorted _
  pruned := by
    unfold RetainTree.retain
    split
    · exact Trie.pruned_updatePruned h.pruned _
    · exact Trie.pruned_update (fun _ => rfl) h.pruned _
  lookup topic := by
    rw [get_retain h.sorted, Table.getElem?_retain, h.lookup]
    by_cases htopic : topic = m.topic
    · rw [htopic, if_pos rfl, if_pos rfl]
    · rw [if_neg htopic, if_neg fun heq => htopic (levels_injective heq)]
  filed path hpath := by
    rw [get_retain h.sorted] at hpath
    split at hpath
    · next heq => exact ⟨m.topic, heq⟩
    · exact h.filed path hpath
  keyed {topic m'} hm := by
    rw [Table.getElem?_retain] at hm
    split at hm
    · next heq =>
      split at hm
      · cases hm
      · cases hm
        exact heq.symm
    · exact h.keyed hm

theorem Files.foldl (h : Files t table) (ms : List Message) :
    Files (ms.foldl RetainTree.retain t) (ms.foldl Table.retain table) := by
  induction ms generalizing t table with
  | nil => exact h
  | cons m ms ih => exact ih (h.retain m)

/-- The last of some messages for a topic counts, and what was there before if there is none. -/
theorem Table.getElem?_foldl_retain (ms : List Message) (table : Table) (topic : String) :
    (ms.foldl Table.retain table)[topic]? =
      match ms.reverse.find? (·.topic = topic) with
      | some m => if m.payload.isEmpty then none else some m
      | none => table[topic]? := by
  induction ms generalizing table with
  | nil => rfl
  | cons m ms ih =>
    rw [List.foldl_cons, ih, List.reverse_cons, List.find?_append]
    cases ms.reverse.find? (·.topic = topic) with
    | some last => rfl
    | none =>
      rw [Table.getElem?_retain]
      by_cases htopic : m.topic = topic
      · simp [htopic]
      · simp [htopic, Ne.symm htopic]

/-! ### Asking for everything -/

/-- All messages in the order in which they are stored. -/
def held (t : RetainTree) : List Message := t.root.listing.filterMap (·.2)

theorem messages_eq_mergeSort (t : RetainTree) : t.messages = t.held.mergeSort topicLE := by
  rw [messages, held, Trie.listing, List.filterMap_cons, Forest.values_eq_listing, List.filterMap_map]
  cases t.root.entry <;> rfl

/-- A message is listed at the levels of its topic, and nowhere else. -/
theorem Files.mem_listing (h : Files t table) {path : List String} {m : Message} :
    (path, some m) ∈ t.root.listing ↔ path = levels m.topic ∧ table[m.topic]? = some m := by
  rw [Trie.mem_listing h.sorted (Option.some_ne_none m)]
  constructor
  · intro hm
    obtain ⟨topic, rfl⟩ := h.filed path (by rw [hm]; exact Option.some_ne_none m)
    rw [h.lookup] at hm
    rw [h.keyed hm]
    exact ⟨rfl, hm⟩
  · rintro ⟨rfl, hm⟩
    rw [h.lookup, hm]

theorem Files.mem_held (h : Files t table) {m : Message} : m ∈ t.held ↔ table[m.topic]? = some m := by
  rw [held, List.mem_filterMap]
  constructor
  · rintro ⟨⟨path, m?⟩, hmem, rfl⟩
    exact (h.mem_listing.1 hmem).2
  · intro hm
    exact ⟨(levels m.topic, some m), h.mem_listing.2 ⟨rfl, hm⟩, rfl⟩

/-- No path is listed twice. -/
theorem listing_pairwise (ht : t.root.children.Sorted) : t.root.listing.Pairwise fun a b => a.1 ≠ b.1 := by
  rw [Trie.listing, Forest.listing, List.pairwise_cons, List.pairwise_map]
  constructor
  · intro entry hentry heq
    obtain ⟨⟨path, m?⟩, hmem, rfl⟩ := List.mem_map.1 hentry
    obtain ⟨l, p, rfl, -⟩ := Forest.path_of_mem_entries hmem
    simp at heq
  · refine (List.pairwise_map.1 (Forest.nodup_entries ht [])).imp fun {a b} hne heq => hne ?_
    exact List.reverse_inj.1 heq

/-- No topic is held twice. -/
theorem Files.held_pairwise (h : Files t table) : t.held.Pairwise fun a b => a.topic ≠ b.topic := by
  rw [held, List.pairwise_filterMap]
  refine (listing_pairwise h.sorted).imp_of_mem fun {a b} ha hb hne m hm m' hm' heq => hne ?_
  obtain ⟨path, _⟩ := a
  obtain ⟨path', _⟩ := b
  cases hm
  cases hm'
  rw [(h.mem_listing.1 ha).1, (h.mem_listing.1 hb).1, heq]

theorem Files.mem_messages (h : Files t table) {m : Message} : m ∈ table.messages ↔ table[m.topic]? = some m := by
  rw [Table.messages, List.mem_map]
  constructor
  · rintro ⟨⟨topic, m⟩, hmem, rfl⟩
    rw [Std.ExtTreeMap.mem_toList_iff_getElem?_eq_some] at hmem
    rw [h.keyed hmem]
    exact hmem
  · intro hm
    exact ⟨(m.topic, m), Std.ExtTreeMap.mem_toList_iff_getElem?_eq_some.2 hm, rfl⟩

theorem Files.messages_ascending (h : Files t table) : table.messages.Pairwise fun a b => a.topic < b.topic := by
  rw [Table.messages, List.pairwise_map]
  refine Std.ExtTreeMap.ordered_keys_toList.imp_of_mem fun {a b} ha hb hlt => ?_
  rw [Std.ExtTreeMap.mem_toList_iff_getElem?_eq_some] at ha hb
  rw [h.keyed ha, h.keyed hb]
  exact compareOfLessAndEq_eq_lt.1 hlt

theorem Files.held_perm (h : Files t table) : t.held.Perm table.messages := by
  have hheld : t.held.Nodup := h.held_pairwise.imp fun hne heq => hne (congrArg Message.topic heq)
  have hmessages : table.messages.Nodup := by
    refine List.Pairwise.imp (S := (· ≠ ·)) ?_ h.messages_ascending
    rintro a _ hlt rfl
    exact String.lt_irrefl a.topic hlt
  rw [List.perm_ext_iff_of_nodup hheld hmessages]
  intro m
  rw [h.mem_held, h.mem_messages]

theorem topicLE_trans (a b c : Message) (hab : topicLE a b = true) (hbc : topicLE b c = true) :
    topicLE a c = true := by
  unfold topicLE at *
  rw [decide_eq_true_eq] at *
  exact String.le_trans hab hbc

theorem topicLE_total (a b : Message) : (topicLE a b || topicLE b a) = true := by
  unfold topicLE
  rw [Bool.or_eq_true, decide_eq_true_eq, decide_eq_true_eq]
  exact String.le_total _ _

/-- The messages of the tree are those of the table in the order of their topics. -/
theorem Files.messages_eq (h : Files t table) : t.messages = table.messages := by
  have hperm := (List.mergeSort_perm t.held topicLE).trans h.held_perm
  have hsorted : (t.held.mergeSort topicLE).Pairwise fun a b => a.topic ≤ b.topic :=
    (List.pairwise_mergeSort topicLE_trans topicLE_total t.held).imp fun hle => of_decide_eq_true hle
  rw [messages_eq_mergeSort]
  refine List.Perm.eq_of_pairwise (fun a b ha hb hab hba => ?_) hsorted
    (h.messages_ascending.imp fun hlt => Std.le_of_lt hlt) hperm
  have htopic : a.topic = b.topic := String.le_antisymm hab hba
  have hfirst := h.mem_messages.1 (hperm.mem_iff.1 ha)
  rw [htopic, h.mem_messages.1 hb] at hfirst
  exact (Option.some.inj hfirst).symm

theorem Files.isEmpty_iff (h : Files t table) : t.isEmpty = true ↔ table.isEmpty = true := by
  rw [isEmpty, Trie.isEmpty_iff_get h.pruned, Std.ExtTreeMap.isEmpty_iff]
  constructor
  · intro hblank
    refine Std.ExtTreeMap.ext_getElem? fun topic => ?_
    rw [← h.lookup, hblank]
    exact Std.ExtTreeMap.getElem?_empty.symm
  · rintro rfl path
    by_contra hpath
    obtain ⟨topic, rfl⟩ := h.filed path hpath
    rw [h.lookup] at hpath
    exact hpath Std.ExtTreeMap.getElem?_empty

/-! ### Asking for a filter -/

/-- The messages found by a filter are those whose topic matches it, in the order in which all are held. -/
theorem Files.matching_eq (h : Files t table) (filter : String) :
    t.matching filter = t.held.filter fun m => isMatch m.topic filter := by
  rw [matching, matchingBelow_eq h.sorted, held, List.filter_filterMap]
  refine List.filterMap_congr fun (path, m?) hmem => ?_
  cases m? with
  | none => simp [found]
  | some m =>
    obtain ⟨rfl, -⟩ := h.mem_listing.1 hmem
    simp only [found, covers_levels, Option.filter]

theorem Files.mem_matching (h : Files t table) {filter : String} {m : Message} :
    m ∈ t.matching filter ↔ table[m.topic]? = some m ∧ isMatch m.topic filter = true := by
  rw [h.matching_eq, List.mem_filter, h.mem_held]

/-- A filter finds each message that is retained and matches it, once. -/
theorem Files.mem_matching_iff (h : Files t table) {filter : String} {m : Message} :
    m ∈ t.matching filter ↔ m ∈ t.messages ∧ isMatch m.topic filter = true := by
  rw [h.mem_matching, h.messages_eq, h.mem_messages]

theorem Files.nodup_matching (h : Files t table) (filter : String) : (t.matching filter).Nodup := by
  rw [h.matching_eq]
  exact (h.held_pairwise.imp fun hne heq => hne (congrArg Message.topic heq)).filter _

/-- Where all filters are valid, the subscribers of a topic are the clients with a filter that matches it. -/
theorem mem_subscribers {tree : SubscriptionTree} {lines : SubscriptionTree.Table} (h : tree.Files lines)
    (hvalid : ∀ client filter, (client, filter) ∈ lines → isValidFilter filter = true) {topic client : String} :
    client ∈ tree.subscribers topic ↔ ∃ filter, (client, filter) ∈ lines ∧ isMatch topic filter = true := by
  rw [Std.ExtTreeMap.mem_iff_isSome_getElem?, Option.isSome_iff_exists]
  simp only [h.getElem?_subscribers hvalid, Std.ExtTreeMap.mem_iff_isSome_getElem?, Option.isSome_iff_exists]
  constructor
  · rintro ⟨q, ⟨filter, hq, hmatch⟩, -⟩
    exact ⟨filter, ⟨q, hq⟩, hmatch⟩
  · rintro ⟨filter, ⟨q, hq⟩, hmatch⟩
    exact SubscriptionTree.exists_greatest
      (S := fun q => ∃ filter, lines[(client, filter)]? = some q ∧ isMatch topic filter = true)
      ⟨filter, hq, hmatch⟩

/-! ### The refinement -/

/-- **The tree of retained messages refines a flat table.** After any messages that were retained on an empty
tree and in an empty table: the table has for a topic the last message for it, unless that has no payload; the
messages of the tree are those of the table in the ascending order of their topics; the tree is empty exactly
if the table is; and any filter, valid or not, finds each message of the table whose topic matches it once and
finds nothing else. So where all filters subscribed to are valid, a message that is retained is one that a
filter of a client finds exactly if the client is a subscriber of its topic. -/
theorem foldl_retain_refines (ms : List Message) :
    (∀ topic, (ms.foldl Table.retain ∅)[topic]? =
      match ms.reverse.find? (·.topic = topic) with
      | some m => if m.payload.isEmpty then none else some m
      | none => none) ∧
    (ms.foldl Table.retain ∅).messages.Pairwise (fun a b => a.topic < b.topic) ∧
    (∀ m, m ∈ (ms.foldl Table.retain ∅).messages ↔ (ms.foldl Table.retain ∅)[m.topic]? = some m) ∧
    (ms.foldl retain empty).messages = (ms.foldl Table.retain ∅).messages ∧
    ((ms.foldl retain empty).isEmpty = true ↔ (ms.foldl Table.retain ∅).isEmpty = true) ∧
    (∀ filter, ((ms.foldl retain empty).matching filter).Perm
      ((ms.foldl Table.retain ∅).messages.filter fun m => isMatch m.topic filter)) ∧
    ∀ changes : List SubscriptionTree.Change,
      (∀ client filter, (client, filter) ∈ changes.foldl SubscriptionTree.Table.change ∅ →
        isValidFilter filter = true) →
      ∀ m ∈ (ms.foldl Table.retain ∅).messages, ∀ client,
        client ∈ (changes.foldl SubscriptionTree.change .empty).subscribers m.topic ↔
          ∃ filter, (client, filter) ∈ changes.foldl SubscriptionTree.Table.change ∅ ∧
            m ∈ (ms.foldl retain empty).matching filter := by
  have hfiles := files_empty.foldl ms
  refine ⟨fun topic => ?_, hfiles.messages_ascending, fun m => hfiles.mem_messages, hfiles.messages_eq,
    hfiles.isEmpty_iff, fun filter => ?_, fun changes hvalid m hm client => ?_⟩
  · rw [Table.getElem?_foldl_retain, Std.ExtTreeMap.getElem?_empty]
  · rw [hfiles.matching_eq]
    exact hfiles.held_perm.filter _
  · rw [mem_subscribers (SubscriptionTree.files_empty.foldl changes) hvalid]
    simp only [hfiles.mem_matching, hfiles.mem_messages.1 hm, true_and]

/-- Two messages for one topic. -/
def replacing : List Message :=
  [⟨"a/b", "x".toUTF8, .atMostOnce, true⟩, ⟨"a/b", "y".toUTF8, .atLeastOnce, true⟩]

/-- The second of two messages is found by a filter, and a client with this filter is a subscriber. -/
theorem foldl_retain_refines_replacing :
    ⟨"a/b", "y".toUTF8, .atLeastOnce, true⟩ ∈ (replacing.foldl retain empty).matching "+/b" ∧
      "c" ∈ ([SubscriptionTree.Change.subscribe "+/b" "c" .atMostOnce].foldl SubscriptionTree.change
        .empty).subscribers "a/b" := by
  obtain ⟨hlookup, -, hmem, -, -, hmatching, hrouted⟩ := foldl_retain_refines replacing
  have hm : (⟨"a/b", "y".toUTF8, .atLeastOnce, true⟩ : Message) ∈ (replacing.foldl Table.retain ∅).messages := by
    rw [hmem, hlookup]
    rfl
  have hfound : ⟨"a/b", "y".toUTF8, .atLeastOnce, true⟩ ∈ (replacing.foldl retain empty).matching "+/b" :=
    (hmatching "+/b").mem_iff.2 (List.mem_filter.2 ⟨hm, by decide⟩)
  have hline : ("c", "+/b") ∈ [SubscriptionTree.Change.subscribe "+/b" "c" .atMostOnce].foldl
      SubscriptionTree.Table.change ∅ := by
    simp [SubscriptionTree.Table.change]
  refine ⟨hfound, (hrouted [.subscribe "+/b" "c" .atMostOnce] ?_ _ hm "c").2 ⟨"+/b", hline, hfound⟩⟩
  intro client filter hmem
  simp only [List.foldl_cons, List.foldl_nil, SubscriptionTree.Table.change, Std.ExtTreeMap.mem_insert,
    Std.compare_eq_iff_eq, Prod.mk.injEq, Std.ExtTreeMap.not_mem_empty, or_false] at hmem
  obtain ⟨-, rfl⟩ := hmem
  decide

end Mqtt.RetainTree
