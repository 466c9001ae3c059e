import Mqtt.Proofs.Fields
import Mqtt.Proofs.Snapshot
import Mqtt.Proofs.StoreDepth

/-!
# What is saved may be too deep to be read: `persistence::save`, `load`

A store is written however deep it nests, but a document that nests too deep is refused, all of it. Sessions
are never the reason; a filter or a topic is if it has more levels than the reader goes along with, and the
broker sets no limit to their number. So whether a saved store is read back is told from the filters and
topics that are kept (`Broker.run_readBack`).
-/

namespace Mqtt.Broker

/-- Every filter of a client that is kept, and the topic of every retained message, has so few levels that
the reader of the store does not give up. A payload that is no text needs one level more. -/
structure Shallow (b : Broker) : Prop where
  filters : ∀ client filter q, b.isPersistent client = true → b.subscriptions.granted? filter client = some q →
    (Topic.levels filter).length ≤ 62
  topics : ∀ m ∈ b.retained.messages,
    (Topic.levels m.topic).length ≤ if (String.fromUTF8? m.payload).isSome then 62 else 61

theorem nesting_snapshot_le {b : Broker} {lines : SubscriptionTree.Table} {held : RetainTree.Table}
    (hlines : b.subscriptions.Files lines) (hheld : b.retained.Files held) :
    b.snapshot.nesting ≤ Json.maxNesting ↔ b.Shallow := by
  have hgranted := SubscriptionTree.granted?_filterClients b.isPersistent hlines.sorted
  have hfilters : b.store.subscriptions.toJson.nesting ≤ 126 ↔
      ∀ filter client q, (if b.isPersistent client then b.subscriptions.granted? filter client else none) = some q →
        2 * (Topic.levels filter).length + 1 < 126 := by
    simp only [← hgranted]
    exact (hlines.filterClients b.isPersistent).nesting_toJson_le (by decide)
  have htopics : b.store.retained.toJson.nesting ≤ 126 ↔
      ∀ m ∈ b.retained.messages, m.toJson.nesting + 2 * (Topic.levels m.topic).length < 126 :=
    hheld.nesting_toJson_le (by decide)
  have hmessage (m : Message) : m.toJson.nesting + 2 * (Topic.levels m.topic).length < 126 ↔
      (Topic.levels m.topic).length ≤ if (String.fromUTF8? m.payload).isSome then 62 else 61 := by
    rw [Message.nesting_toJson, Payload.nesting_toJson]
    split <;> omega
  simp only [hmessage] at htopics
  rw [snapshot, Json.maxNesting, SessionStore.nesting_toJson_le (by decide), hfilters, htopics]
  constructor
  · rintro ⟨hretained, hsubscriptions⟩
    refine ⟨fun client filter q hkept hq => ?_, hretained⟩
    have hlt := hsubscriptions filter client q (by rw [hkept]; exact hq)
    omega
  · rintro ⟨hkeptFilters, hretained⟩
    refine ⟨hretained, fun filter client q hq => ?_⟩
    cases hkept : b.isPersistent client with
    | false =>
      rw [hkept] at hq
      cases hq
    | true =>
      rw [hkept] at hq
      have hle := hkeptFilters client filter q hkept hq
      omega

/-- The text of a snapshot is read as the store that was written, unless that is too deep. -/
theorem parse?_snapshot {options : BrokerOptions} {b : Broker} (hb : Edits (.new options) b) :
    (b.Shallow → SessionStore.parse? b.snapshot.renderIndented = some b.store.stored) ∧
      (¬ b.Shallow → SessionStore.parse? b.snapshot.renderIndented = none) := by
  obtain ⟨lines, held, hlines, hheld⟩ := hb.files
  have hread : SessionStore.parse? b.snapshot.renderIndented =
      if b.snapshot.nesting ≤ Json.maxNesting then some b.store.stored else none :=
    SessionStore.parse?_renderIndented hlines.sorted.mapPruned hheld.sorted
  rw [hread, ← nesting_snapshot_le hlines hheld]
  exact ⟨fun h => if_pos h, fun h => if_neg h⟩

/-- **A saved store is read back whole or lost whole.** After any run that began with nothing, the text that
is written of the snapshot is read as the store it was written from if the filters of all clients that are kept
and the topics of all retained messages are shallow. Otherwise it is not read at all, and whoever loads the
file goes on with the empty store. -/
theorem run_readBack (options : BrokerOptions) (actions : List Hub.Action) :
    let b := ((Hub.start (.new options)).run actions).broker
    let saved := b.snapshot.renderIndented
    (b.Shallow ∧ SessionStore.parse? saved = some b.store.stored ∧
        SessionStore.ofFile? (some saved.toUTF8) = some b.store.stored) ∨
      (¬ b.Shallow ∧ SessionStore.parse? saved = none ∧
        SessionStore.ofFile? (some saved.toUTF8) = some .empty) := by
  intro b saved
  have hfile : SessionStore.ofFile? (some saved.toUTF8) = some ((SessionStore.parse? saved).getD .empty) := by
    rw [SessionStore.ofFile?, Reader.fromUTF8?_toUTF8]
    rfl
  obtain ⟨hread, hlost⟩ := parse?_snapshot (run_edits options actions)
  rw [hfile]
  by_cases h : b.Shallow
  · exact .inl ⟨h, hread h, by rw [hread h]; rfl⟩
  · exact .inr ⟨h, hlost h, by rw [hlost h]; rfl⟩

/-- The filter a/a/…/a of 63 levels, in 125 bytes. -/
def deepFilter : String := "/".intercalate (List.replicate 63 "a")

/-- A client whose session is kept subscribes to a filter with one level too many. -/
def deep : List Hub.Action :=
  [.accept 2 {} 0, .receive 2 0 [0x10, 13, 0, 4, 77, 81, 84, 84, 4, 0, 0, 0, 0, 1, 99],
    .receive 2 0 ([0x82, 0x82, 0x01, 0, 1, 0, 125] ++ deepFilter.toUTF8.data.toList ++ [0])]

/-- One filter is enough for the whole store to be lost. -/
theorem deep_lost : SessionStore.parse? ((Hub.start (.new {})).run deep).broker.snapshot.renderIndented = none := by
  refine (parse?_snapshot (run_edits {} deep)).2 fun h => ?_
  have ⟨hkept, hgranted⟩ : ((Hub.start (.new {})).run deep).broker.isPersistent "c" = true ∧
      ((Hub.start (.new {})).run deep).broker.subscriptions.granted? deepFilter "c" = some .atMostOnce := by
    decide +kernel
  have hlevels : (Topic.levels deepFilter).length = 63 := by decide +kernel
  have hle := h.filters "c" deepFilter .atMostOnce hkept hgranted
  omega

end Mqtt.Broker
