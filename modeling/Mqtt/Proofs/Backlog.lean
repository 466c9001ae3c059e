import Mqtt.Proofs.Accounting
import Mqtt.Proofs.Resuming

/-!
# How much may wait: `Session::enqueue`

A queue has a bound, and what comes to a full one drives out the oldest. One message drives out one, so a queue that
is longer than its bound stays as long as it is. It can be that long after a restart alone: the next run may have a
smaller bound than the one that filled the queue. `Backlog` writes down what came to a queue since it was last empty
and how much of that was there at the start; `Broker.callAll_backlog` says what waits after any calls, and that it is
within the bound if and only if what was there at the start was, until the queue is cleared or taken.
-/

namespace Mqtt

theorem length_newest {n : Nat} (hn : 0 < n) (ms : List Message) : (newest n ms).length = min n ms.length := by
  rw [newest, if_neg (Nat.ne_of_gt hn), List.length_drop]
  omega

/-- The messages that came to a queue since it was last cleared or taken, and how many of them waited at the start. -/
structure Backlog where
  joined : List Message := []
  held : Nat := 0

namespace Backlog

/-- A message is sent to a session: it goes out, or it comes to the queue, which one that was published "at most once"
clears if nobody owns the session. -/
def send (l : Backlog) (s : Session) (x : Sending) : Backlog :=
  if (s.send x.message x.qos x.retain).1.isSome then l
  else if s.owner = none ∧ x.message.qos = .atMostOnce then { joined := [x.outgoing] }
  else { l with joined := l.joined ++ [x.outgoing] }

def sendAll (l : Backlog) (s : Session) : List Sending → Backlog
  | [] => l
  | x :: xs => (l.send s x).sendAll (s.send x.message x.qos x.retain).2 xs

/-- The queue is what is left of the messages that came: as many as may wait, or as there were at the start. -/
structure Fits (l : Backlog) (s : Session) : Prop where
  queue : s.queue = newest (max s.maxQueued l.held) l.joined
  held : l.held ≤ l.joined.length

variable {l : Backlog} {s s' : Session}

theorem Fits.congr (h : l.Fits s) (hqueue : s'.queue = s.queue) (hmax : s'.maxQueued = s.maxQueued) : l.Fits s' :=
  ⟨by rw [hqueue, hmax]; exact h.queue, h.held⟩

/-- Nothing waits. -/
theorem fits_nil (hqueue : s.queue = []) : ({} : Backlog).Fits s := by
  refine ⟨?_, Nat.le_refl 0⟩
  rw [hqueue]
  simp [newest]

/-- One message comes, and the oldest gives way if the queue is full or more than full. -/
theorem Fits.enqueue (h : l.Fits s) (hmax : 0 < s.maxQueued) (m : Message) :
    Fits { l with joined := l.joined ++ [m] } (s.enqueue m) := by
  have hheld := h.held
  have hlength : s.queue.length = min (max s.maxQueued l.held) l.joined.length := by
    rw [h.queue, length_newest (by omega)]
  refine ⟨?_, hheld.trans (by simp)⟩
  have hsame : (s.enqueue m).maxQueued = s.maxQueued := rfl
  rw [hsame, ← newest_append, ← h.queue, newest, if_neg (by omega), List.length_append, List.length_singleton]
  unfold Session.enqueue
  by_cases hfull : s.maxQueued ≤ s.queue.length
  · -- a queue that is too long is as long as it was at the start
    have hgives : (s.maxQueued > 0 && s.queue.length ≥ s.maxQueued : Bool) = true := by simp [hmax, hfull]
    have hlong : s.queue.length = max s.maxQueued l.held := by omega
    have hpos : 0 < s.queue.length := by omega
    rw [if_pos hgives, ← hlong, Nat.add_sub_cancel_left, List.drop_append_of_le_length hpos, List.drop_one]
  · have hkeeps : (s.maxQueued > 0 && s.queue.length ≥ s.maxQueued : Bool) = false := by simp [hfull]
    rw [hkeeps, if_neg Bool.false_ne_true, Nat.sub_eq_zero_of_le (by omega), List.drop_zero]

theorem Fits.send (h : l.Fits s) (hmax : 0 < s.maxQueued) (x : Sending) :
    (l.send s x).Fits (s.send x.message x.qos x.retain).2 ∧
      (s.send x.message x.qos x.retain).2.maxQueued = s.maxQueued := by
  have houtcome := s.send_outcome x.message x.qos x.retain
  rw [Backlog.send]
  generalize s.send x.message x.qos x.retain = r at houtcome ⊢
  obtain ⟨d, s'⟩ := r
  dsimp only
  cases houtcome with
  | absent howner =>
    rw [if_neg (by simp)]
    by_cases hclears : x.message.qos = .atMostOnce
    · rw [if_pos ⟨howner, hclears⟩, Session.superseded, if_pos hclears]
      have hdropped : ({} : Backlog).Fits s.dropQueue := fits_nil rfl
      exact ⟨hdropped.enqueue hmax x.outgoing, rfl⟩
    · rw [if_neg fun hboth => hclears hboth.2, Session.superseded, if_neg hclears]
      exact ⟨h.enqueue hmax x.outgoing, rfl⟩
  | @exhausted token packetIds howner hq hall =>
    rw [if_neg (by simp), if_neg (by simp [howner])]
    have hsame : l.Fits { s with packetIds } := h.congr rfl rfl
    exact ⟨hsame.enqueue hmax x.outgoing, rfl⟩
  | tracked => exact ⟨h.congr rfl rfl, rfl⟩
  | passed => exact ⟨h, rfl⟩

theorem Fits.sendAll (h : l.Fits s) (hmax : 0 < s.maxQueued) (xs : List Sending) :
    (l.sendAll s xs).Fits (s.sendAll xs).2 ∧ (s.sendAll xs).2.maxQueued = s.maxQueued := by
  induction xs generalizing l s with
  | nil => exact ⟨h, rfl⟩
  | cons x xs ih =>
    obtain ⟨hsent, hsame⟩ := h.send hmax x
    obtain ⟨hall, hsame'⟩ := ih hsent (hsame ▸ hmax)
    exact ⟨hall, hsame'.trans hsame⟩

/-- What was there at the start is forgotten at once or not at all. -/
theorem held_send (l : Backlog) (s : Session) (x : Sending) : (l.send s x).held ≤ l.held := by
  unfold Backlog.send
  split
  · exact Nat.le_refl _
  · split
    · exact Nat.zero_le _
    · exact Nat.le_refl _

theorem held_sendAll (l : Backlog) (s : Session) (xs : List Sending) : (l.sendAll s xs).held ≤ l.held := by
  induction xs generalizing l s with
  | nil => exact Nat.le_refl _
  | cons x xs ih => exact (ih _ _).trans (l.held_send s x)

end Backlog

namespace Broker

/-! ### Calls -/

/-- What may be asked of a broker. -/
inductive Call where
  | publish (origin : Option String) (m : Message)
  | subscribe (client : String) (t : TopicRequest)
  | unsubscribe (client filter : String)
  | assignClientId
  | newSession (client : String) (token : Nat) (cleanSession : Bool)
  | renewSession (client : String) (token : Nat)
  | restartSession (client : String)
  | retainSession (client : String)
  | deleteSession (client : String)
  | releaseSession (client : String) (token : Nat)
  /-- The handshakes of a client change. -/
  | shake (client : String) (change : Inflight → Inflight)

def call (b : Broker) : Call → Broker
  | .publish origin m => (b.publish origin m).2
  | .subscribe client t => (b.subscribe client t.filter t.qos).2.2
  | .unsubscribe client filter => b.unsubscribe client filter
  | .assignClientId => b.assignClientId.2
  | .newSession client token cleanSession => b.newSession client token cleanSession
  | .renewSession client token => b.renewSession client token
  | .restartSession client => (b.restartSession client).2
  | .retainSession client => b.retainSession client
  | .deleteSession client => b.deleteSession client
  | .releaseSession client token => b.releaseSession client token
  | .shake client change => b.modifySession client fun s => { s with inflight := change s.inflight }

def callAll (b : Broker) (calls : List Call) : Broker := calls.foldl call b

theorem options_subscribe (b : Broker) (client filter : String) (q : QoS) :
    (b.subscribe client filter q).2.2.options = b.options := by
  unfold subscribe
  split
  · rfl
  · have hsends := replayRetained_sends (M := fun _ => True)
      (b := { b with subscriptions := (b.subscriptions.subscribe filter client (min q b.options.maxQoS)).2 })
      (RetainTree.only_of_forall fun _ => trivial) client filter (min q b.options.maxQoS)
    exact hsends.frame.options

/-- What waits for a client. -/
def waiting (b : Broker) (client : String) : List Message := (b.session? client).elim [] (·.queue)

end Broker

namespace Backlog

open Broker

/-- Messages are sent to the session of a client, if it has one. -/
def handTo (l : Backlog) (b : Broker) (client : String) (xs : List Sending) : Backlog :=
  match b.session? client with
  | some s => l.sendAll s xs
  | none => l

/-- A client is brought up to date: its queue is taken, and what cannot be sent comes to it again. -/
def restart (l : Backlog) (b : Broker) (client : String) : Backlog :=
  match b.session? client with
  | some s => if s.isActive then ({} : Backlog).sendAll s.dropQueue (b.restarted client s) else l
  | none => l

/-- What a call adds to the backlog of a client. -/
def record (client : String) (l : Backlog) (b : Broker) : Call → Backlog
  | .publish origin m => l.handTo b client (b.published origin m client)
  | .subscribe other t => if other = client then l.handTo b client (b.subscribed t) else l
  | .newSession other _ _ => if other = client then {} else l
  | .restartSession other => if other = client then l.restart b client else l
  | .unsubscribe _ _ | .assignClientId | .renewSession _ _ | .retainSession _ | .deleteSession _
  | .releaseSession _ _ | .shake _ _ => l

def recordAll (client : String) (l : Backlog) (b : Broker) : List Call → Backlog
  | [] => l
  | c :: calls => (l.record client b c).recordAll client (b.call c) calls

/-- The backlog of a client keeps up with its session, whose bound is that of the broker. -/
structure Tracks (client : String) (n : Nat) (l : Backlog) (b : Broker) : Prop where
  bound : b.options.maxQueuedMessages = n
  session : ∀ s, b.session? client = some s → s.maxQueued = n ∧ l.Fits s

section Steps

variable {client : String} {n : Nat} {l l' : Backlog} {b b' : Broker}

/-- The session is as it was as far as its queue goes, or there is none any more. -/
theorem Tracks.congr (h : l.Tracks client n b) (hbound : b'.options = b.options)
    (hsession : ∀ s', b'.session? client = some s' →
      ∃ s, b.session? client = some s ∧ s'.queue = s.queue ∧ s'.maxQueued = s.maxQueued) :
    l.Tracks client n b' := by
  refine ⟨by rw [hbound]; exact h.bound, ?_⟩
  intro s' hs'
  obtain ⟨s, hs, hqueue, hmax⟩ := hsession s' hs'
  obtain ⟨hsame, hfits⟩ := h.session s hs
  exact ⟨hmax.trans hsame, hfits.congr hqueue hmax⟩

/-- Messages are sent to the session. -/
theorem Tracks.handTo (h : l.Tracks client n b) (hn : 0 < n) (xs : List Sending) (hbound : b'.options = b.options)
    (hsession : b'.session? client = (b.session? client).map fun s => (s.sendAll xs).2) :
    (l.handTo b client xs).Tracks client n b' := by
  refine ⟨by rw [hbound]; exact h.bound, ?_⟩
  intro s' hs'
  rw [hsession] at hs'
  obtain ⟨s, hs, rfl⟩ := Option.map_eq_some_iff.1 hs'
  obtain ⟨hmax, hfits⟩ := h.session s hs
  obtain ⟨hafter, hsame⟩ := hfits.sendAll (hmax ▸ hn) xs
  rw [Backlog.handTo, hs]
  exact ⟨hsame.trans hmax, hafter⟩

theorem Tracks.modify (h : l.Tracks client n b) (other : String) {f : Session → Session}
    (hf : ∀ s, (f s).queue = s.queue ∧ (f s).maxQueued = s.maxQueued) :
    l.Tracks client n (b.modifySession other f) := by
  refine h.congr ?_ ?_
  · unfold modifySession
    split <;> rfl
  · intro s' hs'
    rw [session?_modifySession] at hs'
    split at hs'
    · obtain ⟨s, hs, rfl⟩ := Option.map_eq_some_iff.1 hs'
      exact ⟨s, hs, hf s⟩
    · exact ⟨s', hs', rfl, rfl⟩

theorem Tracks.delete (h : l.Tracks client n b) (other : String) : l.Tracks client n (b.deleteSession other) := by
  refine h.congr rfl ?_
  intro s' hs'
  rw [session?_deleteSession] at hs'
  split at hs'
  · cases hs'
  · exact ⟨s', hs', rfl, rfl⟩

theorem Tracks.release (h : l.Tracks client n b) (other : String) (token : Nat) :
    l.Tracks client n (b.releaseSession other token) := by
  unfold releaseSession
  split
  · exact h
  · split
    · split
      · exact h.delete other
      · exact h.modify other fun s => ⟨rfl, rfl⟩
    · exact h

theorem Tracks.new (h : l.Tracks client n b) (other : String) (token : Nat) (clean : Bool) :
    Tracks client n (if other = client then {} else l) (b.newSession other token clean) := by
  refine ⟨h.bound, ?_⟩
  intro s hs
  rw [session?_newSession] at hs
  by_cases hother : other = client
  · rw [if_pos hother] at hs ⊢
    cases hs
    exact ⟨h.bound, fits_nil rfl⟩
  · rw [if_neg hother] at hs ⊢
    exact h.session s hs

theorem Tracks.restart (h : l.Tracks client n b) (hn : 0 < n) (other : String) :
    Tracks client n (if other = client then l.restart b client else l) (b.restartSession other).2 := by
  cases hs : b.session? other with
  | none =>
    have hsame : (b.restartSession other).2 = b := by rw [restartSession, hs]
    rw [hsame]
    by_cases hother : other = client
    · subst hother
      rw [if_pos rfl, Backlog.restart, hs]
      exact h
    · rw [if_neg hother]
      exact h
  | some s =>
    cases howner : s.owner with
    | none =>
      have hsame : (b.restartSession other).2 = b := by simp [restartSession, hs, howner]
      rw [hsame]
      by_cases hother : other = client
      · subst hother
        rw [if_pos rfl, Backlog.restart, hs]
        simpa [Session.isActive, howner] using h
      · rw [if_neg hother]
        exact h
    | some token =>
      rw [restartSession_eq hs howner]
      refine ⟨h.bound, ?_⟩
      intro s' hs'
      rw [session?_setSession] at hs'
      by_cases hother : other = client
      · subst hother
        rw [if_pos rfl] at hs' ⊢
        cases hs'
        obtain ⟨hmax, -⟩ := h.session s hs
        have hdropped : ({} : Backlog).Fits s.dropQueue := fits_nil rfl
        obtain ⟨hafter, hsame⟩ := hdropped.sendAll (hmax ▸ hn) (b.restarted other s)
        have hactive : s.isActive = true := by rw [Session.isActive, howner]; rfl
        rw [Backlog.restart, hs]
        dsimp only
        rw [if_pos hactive]
        exact ⟨hsame.trans hmax, hafter⟩
      · rw [if_neg hother] at hs' ⊢
        exact h.session s' hs'

/-- A call keeps the backlog of a client in step with its session. -/
theorem Tracks.call (h : l.Tracks client n b) (hn : 0 < n) (c : Call) :
    (l.record client b c).Tracks client n (b.call c) := by
  cases c with
  | publish origin m =>
    rw [Backlog.record, Broker.call]
    exact h.handTo hn _ (publish_frame b origin m).options (session?_publish b origin m client)
  | subscribe other t =>
    have hoptions := options_subscribe b other t.filter t.qos
    have hsession := session?_subscribe b other t client
    rw [Backlog.record, Broker.call]
    by_cases hother : other = client
    · rw [if_pos hother] at hsession ⊢
      exact h.handTo hn _ hoptions hsession
    · rw [if_neg hother] at hsession ⊢
      exact h.congr hoptions fun s hs => ⟨s, hsession ▸ hs, rfl, rfl⟩
  | unsubscribe | assignClientId => exact ⟨h.bound, h.session⟩
  | newSession other token clean => exact h.new other token clean
  | renewSession other token => exact h.modify other fun s => ⟨rfl, rfl⟩
  | restartSession other => exact h.restart hn other
  | retainSession other => exact h.modify other fun s => ⟨rfl, rfl⟩
  | deleteSession other => exact h.delete other
  | releaseSession other token => exact h.release other token
  | shake other change => exact h.modify other fun s => ⟨rfl, rfl⟩

theorem Tracks.callAll (h : l.Tracks client n b) (hn : 0 < n) (calls : List Call) :
    (l.recordAll client b calls).Tracks client n (b.callAll calls) := by
  induction calls generalizing l b with
  | nil => exact h
  | cons c calls ih => exact ih (h.call hn c)

theorem held_handTo (l : Backlog) (b : Broker) (client : String) (xs : List Sending) :
    (l.handTo b client xs).held ≤ l.held := by
  unfold Backlog.handTo
  split
  · exact l.held_sendAll _ xs
  · exact Nat.le_refl _

theorem held_restart (l : Backlog) (b : Broker) (client : String) : (l.restart b client).held ≤ l.held := by
  unfold Backlog.restart
  split
  · split
    · exact (held_sendAll {} _ _).trans (Nat.zero_le _)
    · exact Nat.le_refl _
  · exact Nat.le_refl _

theorem held_record (client : String) (l : Backlog) (b : Broker) (c : Call) :
    (l.record client b c).held ≤ l.held := by
  cases c with
  | publish origin m => exact l.held_handTo b client _
  | subscribe other t =>
    rw [Backlog.record]
    split
    · exact l.held_handTo b client _
    · exact Nat.le_refl _
  | newSession other token clean =>
    rw [Backlog.record]
    split
    · exact Nat.zero_le _
    · exact Nat.le_refl _
  | restartSession other =>
    rw [Backlog.record]
    split
    · exact l.held_restart b client
    · exact Nat.le_refl _
  | unsubscribe | assignClientId | renewSession | retainSession | deleteSession | releaseSession | shake =>
    exact Nat.le_refl _

theorem held_recordAll (client : String) (l : Backlog) (b : Broker) (calls : List Call) :
    (l.recordAll client b calls).held ≤ l.held := by
  induction calls generalizing l b with
  | nil => exact Nat.le_refl _
  | cons c calls ih => exact (ih _ _).trans (held_record client l b c)

end Steps

end Backlog

namespace Broker

/-- The backlog of a client after some calls. At the start it is what waits. -/
def backlog (b : Broker) (client : String) (calls : List Call) : Backlog :=
  ({ joined := b.waiting client, held := (b.waiting client).length } : Backlog).recordAll client b calls

/-- A broker that begins anew, or goes on from any store, has the bound in all sessions. -/
theorem tracks_start {options : BrokerOptions} {b : Broker}
    (hb : b = .new options ∨ ∃ store, b = .restore options store) (client : String) :
    Backlog.Tracks client options.maxQueuedMessages ⟨b.waiting client, (b.waiting client).length⟩ b := by
  have hbound : b.options = options := by
    rcases hb with rfl | ⟨store, rfl⟩ <;> rfl
  have hsession : ∀ s, b.session? client = some s → s.maxQueued = options.maxQueuedMessages := by
    intro s hs
    rcases hb with rfl | ⟨store, rfl⟩
    · simp [session?, Broker.new] at hs
    · rw [session?_restore] at hs
      obtain ⟨s', -, rfl⟩ := Option.map_eq_some_iff.1 hs
      rfl
  refine ⟨by rw [hbound], fun s hs => ⟨hsession s hs, ?_, Nat.le_refl _⟩⟩
  have hwaiting : b.waiting client = s.queue := by rw [waiting, hs]; rfl
  dsimp only
  rw [hwaiting, newest]
  split
  · rfl
  · rw [Nat.sub_eq_zero_of_le (Nat.le_max_right _ _), List.drop_zero]

/-- **A queue is within its bound if and only if it was at the start.** From a broker with a bound that begins anew or
goes on from any store, whatever is asked of it: what waits for a client are the last of the messages that came since
its queue was last cleared or taken, in order. There are as many as the bound allows, as long as no more than that
waited at the start; if more did, there are as many as did, until the queue is cleared or taken. -/
theorem callAll_backlog {options : BrokerOptions} {b : Broker}
    (hb : b = .new options ∨ ∃ store, b = .restore options store) (hbound : 0 < options.maxQueuedMessages)
    (calls : List Call) (client : String) :
    let n := options.maxQueuedMessages
    let l := b.backlog client calls
    l.held ≤ (b.waiting client).length ∧
      ∀ s, (b.callAll calls).session? client = some s →
        s.queue = newest (max n l.held) l.joined ∧ (s.queue.length ≤ n ↔ l.held ≤ n) ∧
        (l.held ≤ n → s.queue = newest n l.joined) := by
  intro n l
  refine ⟨Backlog.held_recordAll client _ b calls, ?_⟩
  intro s hs
  obtain ⟨hmax, hfits⟩ := ((tracks_start hb client).callAll hbound calls).session s hs
  have hqueue : s.queue = newest (max n l.held) l.joined := by
    have hleft := hfits.queue
    rw [hmax] at hleft
    exact hleft
  refine ⟨hqueue, ?_, ?_⟩
  · have hheld : l.held ≤ l.joined.length := hfits.held
    rw [hqueue, length_newest (by omega)]
    omega
  · intro hheld
    rw [hqueue, Nat.max_eq_left hheld]

/-- A message for the topic "a". -/
def note (text : String) : Message := ⟨"a", text.toUTF8, .atLeastOnce, false⟩

/-- What a broker without a bound left behind: three messages wait for "c". -/
def threeWaiting : SessionStore where
  sessions := (∅ : Std.ExtTreeMap String Session).insert "c"
    { Session.new 1 false 0 with queue := [note "1", note "2", note "3"] }
  retained := .empty
  subscriptions := (SubscriptionTree.empty.subscribe "a" "c" .atLeastOnce).2

/-- The broker that goes on from there is to let one message wait. -/
def overfull : Broker := restore { maxQueuedMessages := 1 } threeWaiting

/-- When the client has come back and left again, one message waits of those that come then. -/
theorem callAll_backlog_overfull :
    let calls : List Call := [.publish none (note "4"), .renewSession "c" 2, .restartSession "c", .retainSession "c",
      .publish none (note "5"), .publish none (note "6")]
    overfull = restore { maxQueuedMessages := 1 } threeWaiting ∧
      ∃ s, (overfull.callAll calls).session? "c" = some s ∧ s.queue.length ≤ 1 ∧ s.queue = [note "6"] := by
  intro calls
  have hthere : ((overfull.callAll calls).session? "c").isSome = true := by decide +kernel
  obtain ⟨s, hs⟩ := Option.isSome_iff_exists.1 hthere
  have hcame : (overfull.backlog "c" calls).joined = [note "5", note "6"] ∧
      (overfull.backlog "c" calls).held = 0 := by decide +kernel
  have hstart : overfull = .new { maxQueuedMessages := 1 } ∨
      ∃ store, overfull = restore { maxQueuedMessages := 1 } store := .inr ⟨threeWaiting, rfl⟩
  have hbound : 0 < ({ maxQueuedMessages := 1 } : BrokerOptions).maxQueuedMessages := Nat.one_pos
  obtain ⟨-, hafter⟩ := callAll_backlog hstart hbound calls "c"
  obtain ⟨-, hlength, hqueue⟩ := hafter s hs
  have hheld : (overfull.backlog "c" calls).held ≤ 1 := by rw [hcame.2]; exact Nat.zero_le 1
  refine ⟨rfl, s, hs, hlength.2 hheld, ?_⟩
  rw [hqueue hheld, hcame.1]
  rfl

/-- A message comes, one gives way, and three wait where one may. -/
theorem overfull_stays : overfull.options.maxQueuedMessages = 1 ∧
    ((overfull.callAll [.publish none (note "4")]).session? "c").map (·.queue) =
      some [note "2", note "3", note "4"] := by
  decide +kernel

end Broker

end Mqtt
