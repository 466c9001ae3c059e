import Mqtt.Proofs.Edits
import Mqtt.Proofs.Ownership
import Mqtt.Proofs.StoredTrees

/-!
# From one run to the next: `Broker::snapshot`, `restore`

A broker that stops writes its snapshot, and the broker that goes on from it has what was to be kept: the
sessions that are not clean with their subscriptions, and all retained messages. Writing and reading lose
nothing of these (`SessionStore.ofJson?_toJson`), and what restoring drops was not written in the first
place, so a broker that is restored writes the same snapshot again.
-/

namespace Mqtt

/-! ### Leaving clients out -/

section Pruning

variable {α β : Type} [Blank α] {g : α → α}

/-- A change that is made a second time in vain drops nothing more. -/
theorem Forest.mapPruned_mapPruned (hg : ∀ a, g (g a) = g a) (f : Forest α) :
    (f.mapPruned g).mapPruned g = f.mapPruned g := by
  induction f with
  | nil => rfl
  | cons l entry children rest ihc ihr =>
    rw [mapPruned]
    split
    · exact ihr
    · next hkept =>
      rw [mapPruned, hg, ihc, ihr, if_neg hkept]

theorem Trie.mapPruned_mapPruned (hg : ∀ a, g (g a) = g a) (t : Trie α) :
    (t.mapPruned g).mapPruned g = t.mapPruned g := by
  rw [mapPruned, mapPruned, hg, Forest.mapPruned_mapPruned hg]

/-- What is dropped from a forest had nothing to be listed. -/
theorem Forest.filterMap_entries_mapPruned {line : List String × α → Option β}
    (hblank : ∀ path, line (path, Blank.blank) = none) (f : Forest α) (above : List String) :
    ((f.mapPruned g).entries above).filterMap line =
      (f.entries above).filterMap fun e => line (e.1, g e.2) := by
  induction f generalizing above with
  | nil => rfl
  | cons l entry children rest ihc ihr =>
    rw [mapPruned, entries, List.filterMap_cons, List.filterMap_append, ← ihc, ← ihr]
    split
    · next hdropped =>
      rw [Bool.and_eq_true, Blank.isBlank_iff] at hdropped
      obtain ⟨hentry, hchildren⟩ := hdropped
      have hnil : children.mapPruned g = nil := by
        cases h : children.mapPruned g with
        | nil => rfl
        | cons =>
          rw [h] at hchildren
          cases hchildren
      simp [hentry, hblank, hnil, entries]
    · rw [entries, List.filterMap_cons, List.filterMap_append]

end Pruning

namespace SubscriptionTree

variable (keep : String → Bool)

theorem getElem?_filter_keep (g : Grants) (client : String) :
    (g.filter fun client _ => keep client)[client]? = if keep client then g[client]? else none := by
  rw [Std.ExtTreeMap.getElem?_filter']
  cases g[client]? <;> cases keep client <;> rfl

theorem filter_filter_keep (g : Grants) :
    (g.filter fun client _ => keep client).filter (fun client _ => keep client) =
      g.filter fun client _ => keep client := by
  apply Std.ExtTreeMap.ext_getElem?
  intro client
  rw [getElem?_filter_keep, getElem?_filter_keep]
  split <;> rfl

/-- Who was left out need not be left out again. -/
theorem filterClients_filterClients (t : SubscriptionTree) :
    (t.filterClients keep).filterClients keep = t.filterClients keep :=
  congrArg SubscriptionTree.mk (Trie.mapPruned_mapPruned (filter_filter_keep keep) t.root)

theorem granted?_filterClients {t : SubscriptionTree} (ht : t.root.children.Sorted) (filter client : String) :
    (t.filterClients keep).granted? filter client = if keep client then t.granted? filter client else none := by
  rw [granted?, granted?, filterClients, Trie.get_mapPruned (filter_blank keep) ht, getElem?_filter_keep]

theorem subscriptions_filterClients (t : SubscriptionTree) (client : String) :
    (t.filterClients keep).subscriptions client = if keep client then t.subscriptions client else [] := by
  have hblank : (Blank.blank : Grants)[client]? = none := Std.ExtTreeMap.getElem?_empty
  have hlines : (t.filterClients keep).unsortedLines client =
      if keep client then t.unsortedLines client else [] := by
    rw [unsortedLines, filterClients, Trie.mapPruned, Forest.filterMap_entries_mapPruned (by simp [hblank])]
    simp only [getElem?_filter_keep]
    cases keep client with
    | true => rfl
    | false => simp
  rw [subscriptions_eq_mergeSort, hlines]
  cases keep client with
  | true => rfl
  | false => exact List.mergeSort_nil

end SubscriptionTree

/-! ### Restoring -/

/-- What only a connection or the options know of a session is not written. -/
theorem SessionStore.toJson_map_sessions {f : Session → Session} (hf : ∀ s, (f s).toJson = s.toJson)
    (s : SessionStore) : ({ s with sessions := s.sessions.map fun _ => f } : SessionStore).toJson = s.toJson := by
  have hempty : (s.sessions.map fun _ => f).isEmpty = s.sessions.isEmpty := by
    rw [← Std.ExtTreeMap.isEmpty_toList, ← Std.ExtTreeMap.isEmpty_toList, Std.ExtTreeMap.toList_map,
      List.isEmpty_map]
  unfold toJson
  dsimp only
  rw [hempty, Std.ExtTreeMap.toList_map, List.map_map]
  simp only [Function.comp_def, hf]

namespace Broker

/-- A session as a broker takes it up again. -/
def revived (options : BrokerOptions) (s : Session) : Session :=
  { owner := none, cleanSession := false, packetIds := .start, maxQueued := options.maxQueuedMessages,
    queue := s.queue, inflight := s.inflight }

variable (options : BrokerOptions) (b : Broker)

theorem sessions_restore :
    (restore options b.store.stored).sessions = b.store.sessions.map fun _ => revived options := by
  rw [restore, SessionStore.stored, Std.ExtTreeMap.map_map]
  rfl

theorem session?_restore_store (client : String) :
    (restore options b.store.stored).session? client =
      ((b.session? client).filter (!·.cleanSession)).map (revived options) := by
  rw [session?, sessions_restore, Std.ExtTreeMap.getElem?_map, store, Std.ExtTreeMap.getElem?_filter']
  rfl

theorem contains_restore_store (client : String) :
    (restore options b.store.stored).sessions.contains client = b.isPersistent client := by
  have hsession := session?_restore_store options b client
  rw [session?] at hsession
  rw [Std.ExtTreeMap.contains_eq_isSome_getElem?, hsession, Option.isSome_map, Option.isSome_filter]
  rfl

theorem isPersistent_restore_store : (restore options b.store.stored).isPersistent = b.isPersistent := by
  funext client
  rw [isPersistent, session?_restore_store, isPersistent]
  cases b.session? client with
  | none => rfl
  | some s =>
    cases hclean : s.cleanSession with
    | true => simp [Option.filter, hclean]
    | false => simp [Option.filter, hclean, revived]

/-- Every client whose subscriptions were stored has its session back. -/
theorem subscriptions_restore_store :
    (restore options b.store.stored).subscriptions = b.subscriptions.filterClients b.isPersistent := by
  have hkept : (restore options b.store.stored).sessions.contains = b.isPersistent :=
    funext (contains_restore_store options b)
  have hrestore : (restore options b.store.stored).subscriptions =
      (b.subscriptions.filterClients b.isPersistent).filterClients
        (restore options b.store.stored).sessions.contains := rfl
  rw [hrestore, hkept, SubscriptionTree.filterClients_filterClients]

/-- **What is restored is stored as it was.** -/
theorem snapshot_restore_store : (restore options b.store.stored).snapshot = b.snapshot := by
  have hsessions : (restore options b.store.stored).sessions.filter (fun _ s => !s.cleanSession) =
      b.store.sessions.map fun _ => revived options := by
    rw [sessions_restore]
    apply Std.ExtTreeMap.ext_getElem?
    intro client
    rw [Std.ExtTreeMap.getElem?_filter', Std.ExtTreeMap.getElem?_map]
    cases b.store.sessions[client]? <;> rfl
  have hstore : (restore options b.store.stored).store =
      { b.store with sessions := b.store.sessions.map fun _ => revived options } := by
    rw [store, hsessions, subscriptions_restore_store, isPersistent_restore_store,
      SubscriptionTree.filterClients_filterClients]
    rfl
  rw [snapshot, hstore]
  exact SessionStore.toJson_map_sessions (f := revived options) (fun _ => rfl) b.store

/-! ### Runs -/

/-- **A snapshot keeps exactly what is to be kept.** After any run that began with nothing, the snapshot is
read back once nesting is not limited, and a broker that goes on from it under any options has: the sessions
that were not clean, nobody's, each with its waiting messages in order and its open handshakes, and no other
session; the subscriptions of their clients, and no other; all retained messages; no mention of a client whose
session was clean; and the same snapshot. -/
theorem run_restore (options options' : BrokerOptions) (actions : List Hub.Action) :
    let b := ((Hub.start (.new options)).run actions).broker
    ∃ store, (∃ limit, ∀ depth, limit ≤ depth → SessionStore.ofJson? depth b.snapshot = some store) ∧
      let b' := restore options' store
      (∀ client, b'.session? client = ((b.session? client).filter (!·.cleanSession)).map fun s =>
        { owner := none, cleanSession := false, packetIds := .start, maxQueued := options'.maxQueuedMessages,
          queue := s.queue, inflight := s.inflight }) ∧
      (∀ filter client, b'.subscriptions.granted? filter client =
        if b.isPersistent client then b.subscriptions.granted? filter client else none) ∧
      (∀ client, b'.subscriptions.subscriptions client =
        if b.isPersistent client then b.subscriptions.subscriptions client else []) ∧
      b'.retained = b.retained ∧
      (∀ client, b.isPersistent client = false →
        b'.hasSession client = false ∧ ¬ b'.subscriptions.Mentions client) ∧
      b'.snapshot = b.snapshot := by
  intro b
  obtain ⟨⟨changes, hchanges⟩, ms, hms⟩ := run_edits options actions
  have hsubscriptions : b.subscriptions.root.children.Sorted := by
    rw [show b.subscriptions = _ from hchanges]
    exact (SubscriptionTree.files_empty.foldl changes).sorted
  have hretained : b.retained.root.children.Sorted := by
    rw [show b.retained = _ from hms]
    exact (RetainTree.files_empty.foldl ms).sorted
  obtain ⟨limit, hlimit⟩ := b.store.legible_toJson
  refine ⟨b.store.stored, ⟨limit, fun depth hdepth => ?_⟩, session?_restore_store options' b, ?_, ?_, rfl, ?_,
    snapshot_restore_store options' b⟩
  · exact SessionStore.ofJson?_toJson hsubscriptions.mapPruned hretained (Json.fits_mono hlimit hdepth)
  · intro filter client
    rw [subscriptions_restore_store, SubscriptionTree.granted?_filterClients _ hsubscriptions]
  · intro client
    rw [subscriptions_restore_store, SubscriptionTree.subscriptions_filterClients]
  · intro client hclient
    constructor
    · exact (contains_restore_store options' b client).trans hclient
    · intro hmentions
      rw [subscriptions_restore_store] at hmentions
      have honly := SubscriptionTree.only_filterClients b.subscriptions b.isPersistent
      have hkept := (SubscriptionTree.only_iff.1 honly client hmentions).2
      rw [hclient] at hkept
      cases hkept

/-- A client with a clean session, and one that subscribes to "a" and is gone when a message for "a" comes. -/
def awaited : List Hub.Action :=
  [.accept 2 {} 0, .receive 2 0 [0x10, 13, 0, 4, 77, 81, 84, 84, 4, 0, 0, 0, 0, 1, 99],
    .receive 2 0 [0x82, 6, 0, 1, 0, 1, 97, 1], .teardown 2 .graceful,
    .accept 3 {} 0, .receive 3 0 [0x10, 13, 0, 4, 77, 81, 84, 84, 4, 2, 0, 0, 0, 1, 100],
    .publish none ⟨"a", "x".toUTF8, .atLeastOnce, false⟩]

/-- The message waits for its subscriber over a restart, and the other client is forgotten. -/
theorem run_restore_awaited :
    ∃ store, (∃ limit, ∀ depth, limit ≤ depth → SessionStore.ofJson? depth
        ((Hub.start (.new {})).run awaited).broker.snapshot = some store) ∧
      (∃ s, (restore {} store).session? "c" = some s ∧ s.queue = [⟨"a", "x".toUTF8, .atLeastOnce, false⟩]) ∧
      (restore {} store).subscriptions.granted? "a" "c" = some .atLeastOnce ∧
      (restore {} store).hasSession "d" = false := by
  obtain ⟨store, hread, hsessions, hgranted, -, -, hforgotten, -⟩ := run_restore {} {} awaited
  refine ⟨store, hread, ?_, ?_, (hforgotten "d" (by decide +kernel)).1⟩
  · have hqueue : (((((Hub.start (.new {})).run awaited).broker.session? "c").filter (!·.cleanSession)).map
        (·.queue)) = some [⟨"a", "x".toUTF8, .atLeastOnce, false⟩] := by decide +kernel
    obtain ⟨s, hs, hwaiting⟩ := Option.map_eq_some_iff.1 hqueue
    exact ⟨_, (hsessions "c").trans (congrArg (Option.map _) hs), hwaiting⟩
  · rw [hgranted]
    decide +kernel

end Broker

end Mqtt
