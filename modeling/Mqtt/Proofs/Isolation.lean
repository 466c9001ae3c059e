import Mqtt.Proofs.Accounting
import Mqtt.Proofs.World

/-!
# Clients among themselves: `Connection::handle_bytes`, `teardown`

All clients share one tree of subscriptions and one map of sessions. `Broker.Apart` says what somebody may
do to the others there: nothing, apart from publishing one message. Every packet of a connection and every
end of one keeps to it (`Connection.isolated`). A change of the tree for one client goes through the nodes that
all use, so what the others see in it is shown first (`SubscriptionTree.Alike`), for one change of an entry and
whatever is pruned after it.
-/

namespace Mqtt

/-! ### What a trie lists -/

section Listing

variable {α β γ : Type} {g : α → γ × α} {line : List String × α → Option β}

/-- What is listed of a node and of everything below it. -/
def Trie.lines (line : List String × α → Option β) (path : List String) (t : Trie α) : List β :=
  (line (path, t.entry)).toList ++ (t.children.entries path).filterMap line

theorem Forest.filterMap_entries_cons (l : String) (entry : α) (children rest : Forest α) (above : List String) :
    ((cons l entry children rest).entries above).filterMap line =
      (⟨entry, children⟩ : Trie α).lines line (l :: above) ++ (rest.entries above).filterMap line := by
  rw [entries, List.filterMap_cons, List.filterMap_append, Trie.lines]
  cases line (l :: above, entry) <;> simp

/-- A node of which nothing is listed is not missed. -/
theorem Forest.filterMap_entries_erase {f : Forest α} {level : String} {t : Trie α} {above : List String}
    (hfind : f.find? level = some t) (ht : t.lines line (level :: above) = []) :
    ((f.erase level).entries above).filterMap line = (f.entries above).filterMap line := by
  induction f with
  | nil => cases hfind
  | cons l entry children rest _ ih =>
    rw [find?] at hfind
    rw [erase, filterMap_entries_cons]
    by_cases heq : l = level
    · rw [if_pos heq] at hfind ⊢
      cases hfind
      rw [heq, ht, List.nil_append]
    · rw [if_neg heq] at hfind ⊢
      rw [filterMap_entries_cons, ih hfind]

variable [Blank α]

theorem Trie.lines_of_isEmpty (hblank : ∀ path, line (path, Blank.blank) = none) {t : Trie α}
    (ht : t.isEmpty = true) (path : List String) : t.lines line path = [] := by
  rw [eq_empty_of_isEmpty ht]
  simp [lines, empty, Forest.entries, hblank]

theorem Trie.isEmpty_empty : (empty : Trie α).isEmpty = true := by
  rw [isEmpty, Bool.and_eq_true, Blank.isBlank_iff]
  exact ⟨rfl, rfl⟩

/-- A node is put in the place of one of which the same is listed. -/
theorem Forest.filterMap_entries_insert (hblank : ∀ path, line (path, Blank.blank) = none) {f : Forest α}
    (hf : f.Sorted) {level : String} {t : Trie α} {above : List String}
    (ht : t.lines line (level :: above) = ((f.find? level).getD .empty).lines line (level :: above)) :
    ((f.insert level t).entries above).filterMap line = (f.entries above).filterMap line := by
  have hempty := Trie.lines_of_isEmpty hblank Trie.isEmpty_empty (level :: above)
  induction f with
  | nil =>
    rw [insert, filterMap_entries_cons, ht]
    exact congrArg (· ++ _) hempty
  | cons l entry children rest _ ih =>
    obtain ⟨hl, -, hrest⟩ := hf
    rw [find?] at ht
    rw [insert]
    by_cases heq : l = level
    · rw [if_pos heq] at ht ⊢
      subst heq
      rw [filterMap_entries_cons, filterMap_entries_cons, ht]
      rfl
    · rw [if_neg heq] at ht ⊢
      by_cases hlt : level < l
      · have hnew : rest.find? level = none :=
          find?_eq_none_iff.2 fun hmem => String.lt_asymm hlt (hl level hmem)
        rw [hnew, Option.getD_none, hempty] at ht
        rw [if_pos hlt, filterMap_entries_cons, ht, List.nil_append]
      · rw [if_neg hlt, filterMap_entries_cons, filterMap_entries_cons, ih hrest ht]

namespace Trie

/-- A change of an entry that is not listed does not show. -/
theorem lines_update (hblank : ∀ path, line (path, Blank.blank) = none)
    (hg : ∀ path a, line (path, (g a).2) = line (path, a)) {t : Trie α} (ht : t.children.Sorted)
    (path above : List String) : (t.update g path).2.lines line above = t.lines line above := by
  induction path generalizing t above with
  | nil => rw [update, lines, lines, hg]
  | cons level path ih =>
    have hchild : ((t.children.find? level).getD .empty).children.Sorted := by
      cases hfind : t.children.find? level with
      | none => trivial
      | some child => exact ht.find? hfind
    rw [update, lines, lines]
    exact congrArg (_ ++ ·) (Forest.filterMap_entries_insert hblank ht (ih hchild _))

/-- What becomes blank by a change that is not listed was not listed before. -/
theorem lines_updatePruned {absent : γ} (hblank : ∀ path, line (path, Blank.blank) = none)
    (hg : ∀ path a, line (path, (g a).2) = line (path, a)) {t : Trie α} (ht : t.children.Sorted)
    (path above : List String) : (t.updatePruned g absent path).2.lines line above = t.lines line above := by
  induction path generalizing t above with
  | nil => rw [updatePruned, lines, lines, hg]
  | cons level path ih =>
    rw [updatePruned]
    split
    · rfl
    · next child hfind =>
      have hchild := ih (ht.find? hfind) (level :: above)
      rw [lines, lines]
      refine congrArg (_ ++ ·) ?_
      dsimp only
      split
      · next hempty =>
        rw [lines_of_isEmpty hblank hempty] at hchild
        exact Forest.filterMap_entries_erase hfind hchild.symm
      · refine Forest.filterMap_entries_insert hblank ht ?_
        rw [hchild, hfind, Option.getD_some]

end Trie

end Listing

/-! ### The subscriptions of one client -/

namespace SubscriptionTree

variable {t t' t'' : SubscriptionTree} {client other : String}

/-- Two trees hold the same subscriptions of a client. -/
structure Alike (other : String) (t t' : SubscriptionTree) : Prop where
  subscriptions : t'.subscriptions other = t.subscriptions other
  granted : ∀ filter, t'.granted? filter other = t.granted? filter other

theorem Alike.refl (other : String) (t : SubscriptionTree) : Alike other t t := ⟨rfl, fun _ => rfl⟩

theorem Alike.trans (h : Alike other t t') (h' : Alike other t' t'') : Alike other t t'' :=
  ⟨h'.subscriptions.trans h.subscriptions, fun filter => (h'.granted filter).trans (h.granted filter)⟩

/-- A filter with its quality of service, from the node where it stands. -/
def lineOf (client : String) (node : List String × Grants) : Option (String × QoS) :=
  node.2[client]?.map fun q => ("/".intercalate node.1.reverse, q)

theorem lineOf_blank (client : String) (path : List String) : lineOf client (path, Blank.blank) = none := by
  have hblank : (Blank.blank : Grants)[client]? = none := Std.ExtTreeMap.getElem?_empty
  rw [lineOf, hblank, Option.map_none]

theorem lineOf_congr {a a' : Grants} (h : a'[client]? = a[client]?) (path : List String) :
    lineOf client (path, a') = lineOf client (path, a) := congrArg (Option.map _) h

theorem subscriptions_eq_of_lines (hentry : t'.root.entry[other]? = t.root.entry[other]?)
    (hlines : t'.root.lines (lineOf other) [] = t.root.lines (lineOf other) []) :
    t'.subscriptions other = t.subscriptions other := by
  rw [Trie.lines, Trie.lines, lineOf_congr hentry] at hlines
  rw [subscriptions_eq_mergeSort, subscriptions_eq_mergeSort]
  exact congrArg (List.mergeSort · lineLE) (List.append_cancel_left hlines)

/-- A change of the grants at one filter does not show to a client whose grant it leaves. -/
theorem alike_of_get {g : Grants → Grants} {path : List String} (hg : ∀ a, (g a)[other]? = a[other]?)
    (hget : ∀ p, t'.root.get p = if p = path then g (t.root.get path) else t.root.get p)
    (hlines : t'.root.lines (lineOf other) [] = t.root.lines (lineOf other) []) : Alike other t t' := by
  have hsame (p : List String) : (t'.root.get p)[other]? = (t.root.get p)[other]? := by
    rw [hget]
    split
    · next hp => rw [hg, hp]
    · rfl
  exact ⟨subscriptions_eq_of_lines (hsame []) hlines, fun filter => hsame (Topic.levels filter)⟩

theorem alike_subscribe (ht : t.root.children.Sorted) (hne : client ≠ other) (filter : String) (q : QoS) :
    Alike other t (t.subscribe filter client q).2 := by
  have hg (a : Grants) : (a.insert client q)[other]? = a[other]? := by rw [getElem?_insert, if_neg hne]
  exact alike_of_get hg (t.get_subscribe filter client q)
    (Trie.lines_update (lineOf_blank other) (fun path a => lineOf_congr (hg a) path) ht _ [])

theorem alike_unsubscribe (ht : t.root.children.Sorted) (hne : client ≠ other) (filter : String) :
    Alike other t (t.unsubscribe filter client).2 := by
  have hg (a : Grants) : (a.erase client)[other]? = a[other]? := by rw [getElem?_erase, if_neg hne]
  exact alike_of_get hg (get_unsubscribe ht filter client)
    (Trie.lines_updatePruned (lineOf_blank other) (fun path a => lineOf_congr (hg a) path) ht _ [])

theorem alike_unsubscribeAll (ht : t.root.children.Sorted) (hne : client ≠ other) :
    Alike other t (t.unsubscribeAll client) := by
  have hkeep : decide (other ≠ client) = true := decide_eq_true (Ne.symm hne)
  refine ⟨?_, fun filter => ?_⟩
  · rw [unsubscribeAll, subscriptions_filterClients, if_pos hkeep]
  · rw [unsubscribeAll, granted?_filterClients _ ht, if_pos hkeep]

/-! ### Whom a topic finds -/

theorem sorted_change (ht : t.root.children.Sorted) (c : Change) : (t.change c).root.children.Sorted := by
  cases c with
  | subscribe => exact Trie.sorted_update ht _
  | unsubscribe => exact Trie.sorted_updatePruned ht _
  | unsubscribeAll | filterClients => exact ht.mapPruned

theorem sorted_foldl (ht : t.root.children.Sorted) (changes : List Change) :
    (changes.foldl change t).root.children.Sorted := by
  induction changes generalizing t with
  | nil => exact ht
  | cons c changes ih => exact ih (sorted_change ht c)

/-- What is granted at the levels of a filter is listed under the filter. -/
theorem mem_subscriptions_of_granted (ht : t.root.children.Sorted) {filter : String} {q : QoS}
    (hq : t.granted? filter client = some q) : (filter, q) ∈ t.subscriptions client := by
  rw [granted?] at hq
  obtain ⟨level, path, hlevels⟩ := List.exists_cons_of_ne_nil (Topic.levels_ne_nil filter)
  have hentry : ((Topic.levels filter).reverse, t.root.get (Topic.levels filter)) ∈ t.root.children.entries [] := by
    rw [Forest.mem_entries ht (ne_blank_of_getElem? hq)]
    exact ⟨level, path, by rw [hlevels, List.append_nil], by rw [hlevels, Trie.get_cons]⟩
  rw [subscriptions_eq_mergeSort, List.mem_mergeSort, unsortedLines, List.mem_filterMap]
  exact ⟨_, hentry, by simp only [hq, List.reverse_reverse, Topic.intercalate_levels, Option.map_some]⟩

/-- A subscriber of a topic has a filter that matches it, and is found at the quality of service of that filter. -/
theorem exists_subscription_of_subscriber (ht : t.root.children.Sorted) {topic : String} {q : QoS}
    (hq : (t.subscribers topic)[client]? = some q) :
    ∃ filter, (filter, q) ∈ t.subscriptions client ∧ Topic.isMatch topic filter = true := by
  obtain ⟨⟨path, hwalks, hpath⟩, -⟩ := getElem?_subscribers.1 hq
  obtain ⟨hlevels, hmatch⟩ := Topic.isMatch_of_walks hwalks
  refine ⟨_, mem_subscriptions_of_granted ht ?_, hmatch⟩
  rw [granted?, hlevels]
  exact hpath

end SubscriptionTree

/-! ### Stored trees -/

theorem Forest.sorted_foldl_insert {α : Type} {nodes : List (String × Trie α)}
    (hnodes : ∀ n ∈ nodes, n.2.children.Sorted) {f : Forest α} (hf : f.Sorted) :
    (nodes.foldl (fun f (level, t) => f.insert level t) f).Sorted := by
  induction nodes generalizing f with
  | nil => exact hf
  | cons n nodes ih => exact ih (fun n' hn' => hnodes n' (.tail _ hn')) (hf.insert (hnodes n (.head _)))

/-- Whatever a document says, what is read of it is in order. -/
theorem Trie.sorted_ofJson? {α : Type} {split : Nat → Json → Option (α × Option Json)} {depth : Nat} {j : Json}
    {t : Trie α} (h : ofJson? split depth j = some t) : t.children.Sorted := by
  induction depth using Nat.strongRecOn generalizing j t with
  | ind depth ih =>
  unfold ofJson? at h
  split at h
  · cases h
  · split at h
    · cases h
    · cases h
      trivial
    · split at h
      · cases h
      · next inner _ =>
        simp only [Option.bind_eq_bind, Option.bind_eq_some_iff] at h
        obtain ⟨members, -, nodes, hnodes, h⟩ := h
        cases h
        refine Forest.sorted_foldl_insert (fun n hn => ?_) trivial
        obtain ⟨member, -, hread⟩ := exists_of_mapM_eq_some hnodes hn
        obtain ⟨child, hchild, hread⟩ := Option.bind_eq_some_iff.1 hread
        cases hread
        exact ih inner (by omega) hchild

theorem SessionStore.sorted_ofJson? {depth : Nat} {j : Json} {store : SessionStore}
    (h : ofJson? depth j = some store) : store.subscriptions.root.children.Sorted := by
  obtain ⟨inner, -, -, hempty | ⟨part, hread⟩⟩ := sections_of_ofJson? h
  · rw [hempty]
    trivial
  · obtain ⟨t, ht, htree⟩ := Option.map_eq_some_iff.1 hread
    rw [← htree]
    exact Trie.sorted_ofJson? ht

/-! ### What reaches the others -/

/-- What no message changes of a session: whose it is, whether it ends with its connection, how many messages may
wait, and the handshakes of messages that came or are released. -/
def Session.lasting (s : Session) : Option Nat × Bool × Nat × Std.ExtTreeSet UInt16 × Std.ExtTreeSet UInt16 :=
  (s.owner, s.cleanSession, s.maxQueued, s.inflight.releases, s.inflight.received)

theorem Session.send_lasting (s : Session) (m : Message) (q : QoS) (retain : Bool) :
    (s.send m q retain).2.lasting = s.lasting := by
  have houtcome := s.send_outcome m q retain
  generalize (s.send m q retain).2 = s', (s.send m q retain).1 = d at houtcome
  cases houtcome with
  | absent =>
    unfold superseded
    split <;> rfl
  | exhausted | tracked | passed => rfl

namespace Broker

variable {b b₁ b' : Broker} {client? : Option String} {m? : Option Message} {client other : String}

/-- No node of the subscriptions stands beside another of its level. This holds in every run, whatever document
it goes on from (`run_orderly`). -/
def Orderly (b : Broker) : Prop := b.subscriptions.root.children.Sorted

theorem Initial.orderly (h : b.Initial) : b.Orderly := by
  cases h with
  | new options => trivial
  | restored options hread => exact (SessionStore.sorted_ofJson? hread).mapPruned

theorem Edits.orderly (h : Edits b b') (hb : b.Orderly) : b'.Orderly := by
  obtain ⟨⟨changes, hchanges⟩, -⟩ := h
  rw [Orderly, hchanges]
  exact SubscriptionTree.sorted_foldl hb changes

theorem stable_orderly : Stable Orderly where
  accept ha := ha.edits.orderly
  release {b} client token := (releaseSession_edits b client token).orderly
  publish := by
    intro b origin m hb
    have hedits := publish_edits b origin m
    -- A broker in place of the call keeps its trees from being computed to compare them.
    generalize (b.publish origin m).2 = b' at hedits ⊢
    exact hedits.orderly hb

theorem run_orderly (h : b.Initial) (actions : List Hub.Action) :
    ((Hub.start b).run actions).broker.Orderly := stable_orderly.run h.orderly actions

/-- A client has a filter that matches a message, and the message was sent to its session once, at the quality of
service granted for that filter. -/
def Reached (b b' : Broker) (m : Message) (other : String) : Prop :=
  ∃ filter q s, (filter, q) ∈ b.subscriptions.subscriptions other ∧ Topic.isMatch m.topic filter = true ∧
    b.session? other = some s ∧ b'.session? other = some (s.send m q false).2

/-- What the others see of what one client does: they keep their subscriptions and what is lasting of their
sessions, all else of a session changes only if the one message that is published reaches it, and the retained
messages change only if that message is to be retained. -/
structure Apart (client? : Option String) (m? : Option Message) (b b' : Broker) : Prop where
  alike : ∀ other, client? ≠ some other → b.subscriptions.Alike other b'.subscriptions
  lasting : ∀ other, client? ≠ some other →
    (b'.session? other).map Session.lasting = (b.session? other).map Session.lasting
  session : ∀ other, client? ≠ some other → b'.session? other = b.session? other ∨ ∃ m ∈ m?, b.Reached b' m other
  retained : b'.retained = b.retained ∨ ∃ m ∈ m?, m.retain = true ∧ b'.retained = b.retained.retain m

/-- A message that is sent leaves what is lasting. -/
theorem Apart.of_session (halike : ∀ other, client? ≠ some other → b.subscriptions.Alike other b'.subscriptions)
    (hsession : ∀ other, client? ≠ some other →
      b'.session? other = b.session? other ∨ ∃ m ∈ m?, b.Reached b' m other)
    (hretained : b'.retained = b.retained ∨ ∃ m ∈ m?, m.retain = true ∧ b'.retained = b.retained.retain m) :
    Apart client? m? b b' where
  alike := halike
  lasting other hother := by
    rcases hsession other hother with hsame | ⟨m, -, filter, q, s, -, -, hs, hs'⟩
    · rw [hsame]
    · rw [hs, hs', Option.map_some, Option.map_some, Session.send_lasting]
  session := hsession
  retained := hretained

/-- Nothing is published, and only one client's session and subscriptions change. -/
theorem Apart.quiet (halike : ∀ other, client? ≠ some other → b.subscriptions.Alike other b'.subscriptions)
    (hsession : ∀ other, client? ≠ some other → b'.session? other = b.session? other)
    (hretained : b'.retained = b.retained) : Apart client? m? b b' :=
  .of_session halike (fun other hother => .inl (hsession other hother)) (.inl hretained)

theorem Apart.refl (client? : Option String) (m? : Option Message) (b : Broker) : Apart client? m? b b :=
  .quiet (fun _ _ => .refl _ _) (fun _ _ => rfl) rfl

/-- What nobody is concerned by does not concern anybody else either. -/
theorem Apart.concern (h : Apart none m? b b') (client? : Option String) : Apart client? m? b b' :=
  .of_session (fun other _ => h.alike other nofun) (fun other _ => h.session other nofun) h.retained

/-- Publishing comes last. -/
theorem Apart.trans (h : Apart client? none b b₁) (h' : Apart client? m? b₁ b') : Apart client? m? b b' := by
  have hretained : b₁.retained = b.retained := h.retained.resolve_right fun ⟨_, hm, _⟩ => nomatch hm
  refine .of_session (fun other hother => (h.alike other hother).trans (h'.alike other hother))
    (fun other hother => ?_) (hretained ▸ h'.retained)
  have hsame : b₁.session? other = b.session? other :=
    (h.session other hother).resolve_right fun ⟨_, hm, _⟩ => nomatch hm
  rw [← hsame]
  refine (h'.session other hother).imp_right ?_
  rintro ⟨m, hm, filter, q, s, hline, hmatch, hs, hs'⟩
  rw [(h.alike other hother).subscriptions] at hline
  exact ⟨m, hm, filter, q, s, hline, hmatch, hsame ▸ hs, hs'⟩

/-! ### One client -/

theorem apart_setSession (b : Broker) (client : String) (s : Session) :
    Apart (some client) none b (b.setSession client s) := by
  refine .quiet (fun _ _ => .refl _ _) (fun other hother => ?_) rfl
  rw [session?_setSession, if_neg fun h => hother (congrArg some h)]

theorem apart_modifySession (b : Broker) (client : String) (f : Session → Session) :
    Apart (some client) none b (b.modifySession client f) := by
  cases hs : b.session? client with
  | none =>
    rw [modifySession_eq_of_none f hs]
    exact .refl _ _ b
  | some s =>
    rw [modifySession_eq_of_some f hs]
    exact apart_setSession b client (f s)

theorem apart_deleteSession (hb : b.Orderly) (client : String) :
    Apart (some client) none b (b.deleteSession client) := by
  refine .quiet (fun other hother => ?_) (fun other hother => ?_) rfl
  · exact SubscriptionTree.alike_unsubscribeAll hb fun h => hother (congrArg some h)
  · rw [session?_deleteSession, if_neg fun h => hother (congrArg some h)]

theorem apart_unsubscribe (hb : b.Orderly) (client filter : String) :
    Apart (some client) none b (b.unsubscribe client filter) :=
  .quiet (fun _ hother => SubscriptionTree.alike_unsubscribe hb (fun h => hother (congrArg some h)) filter)
    (fun _ _ => rfl) rfl

theorem apart_replayRetained (b : Broker) (client filter : String) (q : QoS) :
    Apart (some client) none b (b.replayRetained client filter q).2 := by
  have hsends := replayRetained_sends (b := b) (M := fun _ => True)
    (RetainTree.only_of_forall fun _ => trivial) client filter q
  refine .quiet (fun other _ => ?_) (fun other hother => ?_) hsends.retained
  · rw [hsends.frame.subscriptions]
    exact .refl other _
  · rw [session?_replayRetained, if_neg fun h => hother (congrArg some h)]

theorem apart_subscribe (hb : b.Orderly) (client filter : String) (q : QoS) :
    Apart (some client) none b (b.subscribe client filter q).2.2 := by
  unfold subscribe
  split
  · exact .refl _ _ b
  · have hadd (q : QoS) : Apart (some client) none b
        { b with subscriptions := (b.subscriptions.subscribe filter client q).2 } :=
      .quiet (fun _ hother => SubscriptionTree.alike_subscribe hb (fun h => hother (congrArg some h)) filter q)
        (fun _ _ => rfl) rfl
    exact (hadd _).trans (apart_replayRetained _ client filter _)

theorem apart_subscribeAll (hb : b.Orderly) (client : String) (topics : List TopicRequest) :
    Apart (some client) none b (Peer.subscribeAll b client topics).2.2 := by
  induction topics generalizing b with
  | nil => exact .refl _ _ b
  | cons t ts ih =>
    exact (apart_subscribe hb client t.filter t.qos).trans
      (ih ((subscribe_edits b client t.filter t.qos).orderly hb))

theorem apart_unsubscribe_foldl (hb : b.Orderly) (client : String) (filters : List String) :
    Apart (some client) none b (filters.foldl (fun b filter => b.unsubscribe client filter) b) := by
  induction filters generalizing b with
  | nil => exact .refl _ _ b
  | cons filter filters ih =>
    exact (apart_unsubscribe hb client filter).trans
      (ih (SubscriptionTree.sorted_change hb (.unsubscribe filter client)))

theorem apart_restartSession {s : Session} {token : Nat} (hs : b.session? client = some s)
    (howner : s.owner = some token) : Apart (some client) none b (b.restartSession client).2 := by
  rw [restartSession_eq hs howner]
  exact apart_setSession b client _

theorem apart_releaseSession (hb : b.Orderly) (client : String) (token : Nat) :
    Apart (some client) none b (b.releaseSession client token) := by
  unfold releaseSession
  split
  · exact .refl _ _ b
  · split
    · split
      · exact apart_deleteSession hb client
      · exact apart_modifySession b client Session.retain
    · exact .refl _ _ b

/-! ### Publishing -/

/-- A client is found once, if it is found. -/
theorem published_cases (b : Broker) (origin : Option String) (m : Message) (client : String) :
    b.published origin m client = [] ∨
      ∃ q, (b.subscriptions.subscribers m.topic)[client]? = some q ∧ b.published origin m client = [⟨m, q, false⟩] := by
  by_cases h : ∃ q, (client, q) ∈ b.receivers origin m.topic
  · obtain ⟨q, hq⟩ := h
    refine .inr ⟨q, ?_, published_of_mem hq⟩
    exact Std.ExtTreeMap.mem_toList_iff_getElem?_eq_some.1 (List.mem_filter.1 hq).1
  · exact .inl (published_of_notMem (not_exists.1 h))

/-- A message that is published reaches the sessions of those with a filter that matches, each once. -/
theorem apart_publish (hb : b.Orderly) (origin : Option String) (m : Message) :
    Apart none (some m) b (b.publish origin m).2 := by
  refine .of_session (fun other _ => ?_) (fun other _ => ?_) ?_
  · rw [(publish_frame b origin m).subscriptions]
    exact .refl other _
  · rw [session?_publish]
    rcases b.published_cases origin m other with hnone | ⟨q, hq, hone⟩
    · rw [hnone]
      exact .inl Option.map_id'
    · rw [hone]
      cases hs : b.session? other with
      | none => exact .inl rfl
      | some s =>
        obtain ⟨filter, hline, hmatch⟩ := SubscriptionTree.exists_subscription_of_subscriber hb hq
        refine .inr ⟨m, rfl, filter, q, s, hline, hmatch, hs, ?_⟩
        rw [session?_publish, hone, hs]
        rfl
  · rw [(publish_sends b origin (M := fun _ => True) trivial).retained]
    unfold afterRetain
    split
    · next hretain => exact .inr ⟨m, rfl, (Bool.and_eq_true_iff.1 hretain).1, rfl⟩
    · exact .inl rfl

end Broker

/-! ### Connections -/

open Broker

/-- The message that a packet publishes. -/
def Packet.message? : Packet → Option Message
  | .publish p => some p.message
  | _ => none

/-- An accepted packet concerns the client of the connection, and no other. -/
theorem Peer.Accepts.apart {p : Peer} {b : Broker} (hb : b.Orderly) {now : Nat} {packet : Packet} {h : Handled}
    (ha : Accepts p b now packet h) : Apart h.peer.clientId packet.message? b h.broker := by
  have hclient {client : AcceptedClient} (hp : p.client = some client) := clientId_of_client hp
  cases ha with
  | @fresh c id n =>
    have hnumber : Apart (some id) none b { b with assigned := n } :=
      .quiet (fun _ _ => .refl _ _) (fun _ _ => rfl) rfl
    exact hnumber.trans ((apart_deleteSession (b := { b with assigned := n }) hb id).trans (apart_setSession _ id _))
  | @resumed c s _ _ _ hs howner =>
    exact (apart_setSession b c.clientId (s.renew p.token)).trans
      (apart_restartSession (s := s.renew p.token) (by simp) rfl)
  | @routed client s publish reply inflight hp hs htakes =>
    have hanswered := apart_setSession b client.id { s with inflight }
    have hroute := apart_publish (b := b.setSession client.id { s with inflight }) hb (some client.id)
      publish.message
    dsimp only
    rw [hclient hp]
    exact hanswered.trans (hroute.concern (some client.id))
  | repeated hp hs htakes =>
    rw [hclient hp]
    exact (apart_setSession b _ _).trans (.refl _ _ _)
  | acknowledged hp hs hacks =>
    rw [hclient hp]
    exact (apart_setSession b _ _).trans (.refl _ _ _)
  | @subscribed client id topics hp hid =>
    rw [hclient hp]
    exact apart_subscribeAll hb client.id topics
  | @unsubscribed client id filters hp hid =>
    rw [hclient hp]
    exact apart_unsubscribe_foldl hb client.id filters
  | pinged | left => exact .refl _ _ b

namespace Connection

variable {c : Connection} {b : Broker}

/-- The message that a byte publishes: that of the PUBLISH it completes, if this is accepted. -/
def publishes? (c : Connection) (b : Broker) (now : Nat) (byte : UInt8) : Option Message :=
  (c.accepts? b now byte).bind fun a => a.1.message?

/-- The message that is published as the connection ends: its will, if the end is ungraceful. -/
def bequeaths? (c : Connection) (reason : CloseReason) : Option Message :=
  if reason = .ungraceful then c.peer.client.bind (·.will) else none

/-- One byte completes at most one packet. -/
theorem handleBytes_apart (hb : b.Orderly) (c : Connection) (now : Nat) (byte : UInt8) :
    Apart (c.handleBytes b now [byte]).connection.peer.clientId (c.publishes? b now byte) b
      (c.handleBytes b now [byte]).broker := by
  obtain ⟨p, max, s⟩ := c
  by_cases hclosed : p.isClosed = true
  · rw [handleBytes, receive_of_closed hclosed]
    exact .refl _ _ b
  have hopen : p.isClosed = false := by simpa using hclosed
  rcases hstep : s.step max byte with ⟨s', e | _ | packet⟩
  · rw [handleBytes, receive_cons_error hopen hstep]
    exact .refl _ _ b
  · rw [handleBytes, receive_cons_none hopen hstep]
    exact .refl _ _ b
  · rcases hh : Peer.handle { p with keepAlive := p.keepAlive.restart now } b now packet with r | h
    · rw [handleBytes, receive_cons_refused hopen hstep hh]
      exact .refl _ _ b
    · have hpublishes : publishes? ⟨p, max, s⟩ b now byte = packet.message? := by
        rw [publishes?, accepts?, if_neg (by simp [hopen]), Decoder.completes, hstep]
        dsimp only
        rw [hh, Option.bind_some]
      rw [handleBytes, receive_cons_handled hopen hstep hh, receive, hpublishes, Peer.distribute_eq]
      exact (Peer.handle_ok hh).2.apart hb

theorem teardown_apart (hb : b.Orderly) (c : Connection) (reason : CloseReason) :
    Apart c.peer.clientId (c.bequeaths? reason) b (c.teardown b reason).2.1 := by
  rw [teardown_eq]
  split
  · exact .refl _ _ b
  cases hclient : c.peer.client with
  | none => exact .refl _ _ b
  | some client =>
    have hreleased := apart_releaseSession hb client.id c.peer.token
    have hafter : (b.releaseSession client.id c.peer.token).Orderly :=
      (releaseSession_edits b client.id c.peer.token).orderly hb
    rw [Peer.clientId_of_client hclient, bequeaths?, hclient, Option.bind_some]
    cases hwill : client.will with
    | none =>
      simp only [hwill]
      exact hreleased.trans (.refl _ _ _)
    | some will =>
      by_cases hreason : reason = .ungraceful
      · simp only [hwill, hreason, if_true]
        exact hreleased.trans ((apart_publish hafter (some client.id) will).concern _)
      · simp only [hwill, hreason, if_false]
        exact hreleased.trans (.refl _ _ _)

/-- **Clients do not disturb each other.** Whatever packet is completed on a connection, accepted or refused, and
however the connection ends: every client other than its own keeps its subscriptions and its session, with its
owner, whether it is clean, the identifiers released and the identifiers received. Its queue, the messages kept
for it and its next identifier change only because one message was sent to it, which is the one just published or
the will, and only if one of its filters matches that message. The retained messages change only because that
message is to be retained. -/
theorem isolated (c : Connection) (hb : b.Orderly) :
    (∀ now byte, Apart (c.handleBytes b now [byte]).connection.peer.clientId (c.publishes? b now byte) b
      (c.handleBytes b now [byte]).broker) ∧
    ∀ reason, Apart c.peer.clientId (c.bequeaths? reason) b (c.teardown b reason).2.1 :=
  ⟨fun now byte => handleBytes_apart hb c now byte, teardown_apart hb c⟩

/-- A client is away, and another one is about to publish to the topic it subscribed to; the last byte, 120, is still
to come. -/
def addressed : List Hub.Action := awaited ++ [.receive 3 0 [0x30, 4, 0, 1, 97]]

/-- The client that is away still subscribes when the message has come. -/
theorem isolated_addressed :
    let b := ((Hub.start (.new {})).run addressed).broker
    b.Orderly ∧ ∃ c, ((Hub.start (.new {})).run addressed).connections[3]? = some c ∧
      (c.handleBytes b 0 [120]).broker.subscriptions.subscriptions "c" = [("a", .atLeastOnce)] ∧
      ((c.handleBytes b 0 [120]).broker.session? "c").map Session.hold = some (none, false) := by
  intro b
  have hb : b.Orderly := run_orderly (.new {}) addressed
  have hpublisher : (((Hub.start (.new {})).run addressed).connections[3]?).map
      (fun c => (c.handleBytes b 0 [120]).connection.peer.clientId) = some (some "d") := by decide +kernel
  obtain ⟨c, hc, hclient⟩ := Option.map_eq_some_iff.1 hpublisher
  have hapart := (isolated c hb).1 0 120
  have hother : (c.handleBytes b 0 [120]).connection.peer.clientId ≠ some "c" := by
    rw [hclient]
    decide
  refine ⟨hb, c, hc, ?_, ?_⟩
  · rw [(hapart.alike "c" hother).subscriptions]
    decide +kernel
  · have hlasting := congrArg (Option.map fun l => (l.1, l.2.1)) (hapart.lasting "c" hother)
    rw [Option.map_map, Option.map_map] at hlasting
    exact hlasting.trans (by decide +kernel)

end Connection

end Mqtt
