import Mqtt.SessionStore

/-!
# What is read back from a store: `persistence::load`

A document is read section by section, and a section entry by entry; what holds of every entry that
can be read holds of all that is in a store.
-/

namespace Mqtt

/-- Whatever is read from a list is read from one of its items. -/
theorem exists_of_mapM_eq_some {α β : Type} {f : α → Option β} {xs : List α} {ys : List β}
    (h : xs.mapM f = some ys) {y : β} (hy : y ∈ ys) : ∃ x ∈ xs, f x = some y := by
  induction xs generalizing ys with
  | nil =>
    cases h
    cases hy
  | cons x xs ih =>
    simp only [List.mapM_cons, Option.bind_eq_bind, Option.bind_eq_some_iff] at h
    obtain ⟨z, hz, zs, hzs, h⟩ := h
    cases h
    rcases List.mem_cons.1 hy with rfl | hy
    · exact ⟨x, .head _, hz⟩
    · obtain ⟨x', hx', hf⟩ := ih hzs hy
      exact ⟨x', .tail _ hx', hf⟩

/-- What holds of all entries put into a map holds of all that is in it. -/
theorem foldl_insert_values {β : Type} {P : β → Prop} (entries : List (String × β))
    (hentries : ∀ e ∈ entries, P e.2) (m : Std.ExtTreeMap String β)
    (hm : ∀ (key : String) (b : β), m[key]? = some b → P b) (key : String) (b : β)
    (hb : (entries.foldl (fun m (key, b) => m.insert key b) m)[key]? = some b) : P b := by
  induction entries generalizing m with
  | nil => exact hm key b hb
  | cons e entries ih =>
    refine ih (fun e' he' => hentries e' (.tail _ he')) (m.insert e.1 e.2) (fun key b hb => ?_) hb
    rw [Std.ExtTreeMap.getElem?_insert] at hb
    split at hb
    · cases hb
      exact hentries e (.head _)
    · exact hm key b hb

/-- A field that may be absent has the value of an absent one, or is read from what stands there. -/
theorem eq_or_read_of_fieldOr {α : Type} {absent a : α} {read : Json → Option α} {field : Option Json}
    (h : fieldOr (some absent) read field = some a) : a = absent ∨ ∃ j, read j = some a := by
  cases field with
  | none => exact .inl (Option.some.inj h).symm
  | some j => exact .inr ⟨j, h⟩

theorem Session.ofJson?_clean {depth : Nat} {j : Json} {s : Session}
    (h : Session.ofJson? depth j = some s) : s.cleanSession = false := by
  unfold Session.ofJson? at h
  split at h
  · simp only [Option.bind_eq_bind, Option.bind_eq_some_iff] at h
    obtain ⟨queue, -, parts, -, h⟩ := h
    split at h
    · obtain ⟨_, hnone, -⟩ := Option.bind_eq_some_iff.1 h
      cases hnone
    · simp only [Option.bind_eq_some_iff] at h
      obtain ⟨_, -, _, -, h⟩ := h
      cases h
      rfl
  · cases h

namespace SessionStore

theorem sessionsOfJson?_clean {depth : Nat} {j : Json} {sessions : Std.ExtTreeMap String Session}
    (h : sessionsOfJson? depth j = some sessions) (client : String) (s : Session)
    (hs : sessions[client]? = some s) : s.cleanSession = false := by
  unfold sessionsOfJson? at h
  split at h
  · cases h
  · simp only [Option.bind_eq_bind, Option.bind_eq_some_iff] at h
    obtain ⟨members, -, entries, hentries, h⟩ := h
    cases h
    refine foldl_insert_values (P := fun s => s.cleanSession = false) entries (fun e he => ?_) ∅
      (by simp) client s hs
    obtain ⟨member, -, hread⟩ := exists_of_mapM_eq_some hentries he
    obtain ⟨session, hsession, hread⟩ := Option.bind_eq_some_iff.1 hread
    cases hread
    exact Session.ofJson?_clean hsession

/-- **A store is read section by section.** Each section that was read is the empty one, or comes from a part of
the document. -/
theorem sections_of_ofJson? {depth : Nat} {j : Json} {store : SessionStore} (h : ofJson? depth j = some store) :
    ∃ inner, (store.sessions = ∅ ∨ ∃ part, sessionsOfJson? inner part = some store.sessions) ∧
      (store.retained = .empty ∨ ∃ part, RetainTree.ofJson? inner part = some store.retained) ∧
      (store.subscriptions = .empty ∨ ∃ part, SubscriptionTree.ofJson? inner part = some store.subscriptions) := by
  cases depth with
  | zero => cases h
  | succ inner =>
    simp only [ofJson?, Option.bind_eq_bind, Option.bind_eq_some_iff] at h
    obtain ⟨fields, -, h⟩ := h
    split at h
    · simp only [Option.bind_eq_some_iff] at h
      obtain ⟨sessions, hsessions, retained, hretained, subscriptions, hsubscriptions, h⟩ := h
      cases h
      exact ⟨inner, eq_or_read_of_fieldOr hsessions, eq_or_read_of_fieldOr hretained,
        eq_or_read_of_fieldOr hsubscriptions⟩
    · cases h

/-- No stored session is clean. -/
theorem ofJson?_clean {depth : Nat} {j : Json} {store : SessionStore}
    (h : SessionStore.ofJson? depth j = some store) (client : String) (s : Session)
    (hs : store.sessions[client]? = some s) : s.cleanSession = false := by
  obtain ⟨inner, hempty | ⟨part, hread⟩, -⟩ := sections_of_ofJson? h
  · simp [hempty] at hs
  · exact sessionsOfJson?_clean hread client s hs

end SessionStore

end Mqtt
