import Hyperspace.Session

namespace Hyperspace

/-!
# Appends while a feed is being opened

The handler of `Open` and the task that it spawns both look at the feed, in no
fixed order: the handler reads the length for its response, and the task
subscribes.  This module interleaves one such handler, its task and the appends
of other sessions to the same feed.  The client is brought up to date in every
run in which nothing is appended after the handler has read the length and
before the task has subscribed.
-/

namespace SessionOpen

open Session (OpenPhase)

/-- A feed, the handler that opens it for a client, and the task it spawns. -/
structure State (Feed : Type) where
  feed : Feed
  handler : OpenPhase
  task : Option (NotifyTask Unit)
  /-- Every length and byte length sent to the client for the id. -/
  sent : List (Nat × Nat)

/-- The handler has found the feed. -/
def initial {Feed : Type} (feed : Feed) : State Feed where
  feed := feed
  handler := .spawn
  task := none
  sent := []

/-- What can happen next. -/
inductive Action where
  | advanceOpen
  | advanceNotify
  /-- Another session appends one block. -/
  | append (block : Bytes)
  deriving Repr, DecidableEq

section

variable {Feed : Type} (core : SessionFeed Feed) (id : Nat)

/-- The next step of the handler. -/
def advanceOpen (state : State Feed) : Option (State Feed) :=
  match state.handler with
  | .spawn =>
      some { state with handler := .insert, task := some (.spawn id) }
  | .insert => some { state with handler := .respond }
  | .respond =>
      let response := core.openResponse state.feed
      some { state with
        handler := .responded
        sent := state.sent ++ [(response.length, response.byteLength)] }
  | .responded => none

/-- The next step of the task. -/
def advanceNotify (state : State Feed) : Option (State Feed) :=
  match state.task with
  | none => none
  | some task =>
      match task.advance (core.extent state.feed) with
      | none => none
      | some (task, none) => some { state with task := some task }
      | some (task, some (notification, _)) =>
          some { state with
            task := some task
            sent := state.sent ++ notification.extent.toList }

/-- One step. -/
def step (state : State Feed) : Action → Option (State Feed)
  | .advanceOpen => advanceOpen core id state
  | .advanceNotify => advanceNotify core state
  | .append block =>
      match core.append state.feed block with
      | .error _ => some state
      | .ok feed =>
          some { state with
            feed := feed
            task := state.task.map fun task => task.emit .append () }

/-- The task has subscribed to the feed. -/
def Listening (state : State Feed) : Prop :=
  ∃ task, state.task = some task ∧ task.Subscribed

/-- The task has subscribed, has no event to handle and has sent everything. -/
def Quiet (state : State Feed) : Prop :=
  ∃ task, state.task = some task ∧ task.Idle

/--
The pair of the greatest length sent, if anything has been sent, is the
feed's.
-/
def UpToDate (state : State Feed) : Prop :=
  state.sent ≠ [] →
  core.extent state.feed ∈ state.sent ∧
    ∀ pair ∈ state.sent,
      pair ≠ core.extent state.feed → pair.1 < core.len state.feed

/--
Nothing is appended between the handler's look at the feed and the task's
subscription.
-/
def AppendsHeard (state : State Feed) : Action → Prop
  | .append block =>
      ∀ next,
        core.append state.feed block = .ok next →
        state.handler = .responded →
        Listening state
  | _ => True

/-- A subscribed task will still send the feed's extent. -/
def Underway (state : State Feed) (task : NotifyTask Unit) : Prop :=
  (.append, ()) ∈ task.queue ∨
    task.phase = .reading .append () ∨
    ∃ notification,
      task.phase = .sending notification () ∧
        notification.extent = some (core.extent state.feed)

/-- The invariant of runs in which every append is heard. -/
structure Tracking (state : State Feed) : Prop where
  /-- The task starts with the handler's first step. -/
  notSpawned :
    state.handler = .spawn → state.task = none
  /-- Only appends are queued. -/
  onlyAppends :
    ∀ task, state.task = some task →
      (∀ entry ∈ task.queue, entry.1 = .append) ∧
        ∀ event cause,
          task.phase = .reading event cause → event = .append
  /-- What is sent is the feed's extent or an earlier one. -/
  sentEarlier :
    ∀ pair ∈ state.sent,
      pair = core.extent state.feed ∨ pair.1 < core.len state.feed
  /-- The same holds of a message about to be sent. -/
  sendingEarlier :
    ∀ task notification cause,
      state.task = some task →
      task.phase = .sending notification cause →
      ∃ pair,
        notification.extent = some pair ∧
          (pair = core.extent state.feed ∨
            pair.1 < core.len state.feed)
  /-- Before the task has subscribed only the response has been sent. -/
  notListening :
    ¬ Listening state →
    state.sent = [] ∧ state.handler ≠ .responded ∨
      state.sent = [core.extent state.feed] ∧
        state.handler = .responded
  /-- Afterwards the feed's extent is sent, or an event leads to it. -/
  listening :
    ∀ task,
      state.task = some task →
      task.Subscribed →
      core.extent state.feed ∈ state.sent ∨
        Underway core state task ∨
        state.sent = [] ∧ task.phase = .waiting ∧
          state.handler ≠ .responded

end

section

variable
  {Feed : Type}
  {core : SessionFeed Feed}
  {id : Nat}
  {state next : State Feed}

/-- A handler that has just found its feed. -/
theorem tracking_initial (feed : Feed) : Tracking core (initial feed) where
  notSpawned := fun _ => rfl
  onlyAppends := by simp [initial]
  sentEarlier := by simp [initial]
  sendingEarlier := by simp [initial]
  notListening := fun _ => Or.inl ⟨rfl, by simp [initial]⟩
  listening := by simp [initial]

/-- Before the handler has responded nothing is sent unheard. -/
theorem Tracking.sent_eq_nil
    (tracking : Tracking core state)
    (unheard : ¬ Listening state)
    (unanswered : state.handler ≠ .responded) :
    state.sent = [] := by
  rcases tracking.notListening unheard with
    ⟨nothing, _⟩ | ⟨_, responded⟩
  · exact nothing
  · exact absurd responded unanswered

/-- The handler spawns the task, enters the feed and responds. -/
theorem Tracking.advanceOpen
    (tracking : Tracking core state)
    (stepped : SessionOpen.advanceOpen core id state = some next) :
    Tracking core next := by
  rw [SessionOpen.advanceOpen] at stepped
  split at stepped
  · next isSpawn =>
      cases stepped
      have noTask := tracking.notSpawned isSpawn
      have unheard : ¬ Listening state := by
        rintro ⟨task, isTask, _⟩
        rw [noTask] at isTask
        cases isTask
      refine ⟨by simp, ?_, tracking.sentEarlier, ?_, ?_, ?_⟩
      · intro task isTask
        cases isTask
        exact ⟨by simp [NotifyTask.spawn], by simp [NotifyTask.spawn]⟩
      · intro task notification cause isTask isSending
        cases isTask
        cases isSending
      · intro _
        have nothing := tracking.sent_eq_nil unheard (by simp [isSpawn])
        exact Or.inl ⟨nothing, by simp⟩
      · intro task isTask subscribed
        cases isTask
        exact absurd rfl subscribed
  · next isInsert =>
      cases stepped
      refine ⟨by simp, tracking.onlyAppends, tracking.sentEarlier,
        tracking.sendingEarlier, ?_, ?_⟩
      · intro unheard
        have nothing := tracking.sent_eq_nil unheard (by simp [isInsert])
        exact Or.inl ⟨nothing, by simp⟩
      · intro task isTask subscribed
        rcases tracking.listening task isTask subscribed with
          sent | underway | ⟨nothing, isWaiting, _⟩
        · exact Or.inl sent
        · exact Or.inr (Or.inl underway)
        · exact Or.inr (Or.inr ⟨nothing, isWaiting, by simp⟩)
  · next isRespond =>
      cases stepped
      refine ⟨by simp, tracking.onlyAppends, ?_,
        tracking.sendingEarlier, ?_, ?_⟩
      · intro pair member
        rcases List.mem_append.mp member with before | isNew
        · exact tracking.sentEarlier pair before
        · exact Or.inl (List.mem_singleton.mp isNew)
      · intro unheard
        have nothing := tracking.sent_eq_nil unheard (by simp [isRespond])
        refine Or.inr ⟨?_, rfl⟩
        simp [nothing, SessionFeed.openResponse, SessionFeed.extent]
      · intro task isTask subscribed
        exact Or.inl (List.mem_append_right _ (List.mem_singleton.mpr rfl))
  · cases stepped

/-- A task that has subscribed replaces the task. -/
theorem Tracking.withTask
    (tracking : Tracking core state)
    {task : NotifyTask Unit}
    {sent : List (Nat × Nat)}
    (spawned : state.task ≠ none)
    (subscribed : task.Subscribed)
    (onlyAppends : ∀ entry ∈ task.queue, entry.1 = .append)
    (readsAppend :
      ∀ event cause, task.phase = .reading event cause → event = .append)
    (sentEarlier :
      ∀ pair ∈ sent,
        pair = core.extent state.feed ∨ pair.1 < core.len state.feed)
    (sendingEarlier :
      ∀ notification cause,
        task.phase = .sending notification cause →
        ∃ pair,
          notification.extent = some pair ∧
            (pair = core.extent state.feed ∨
              pair.1 < core.len state.feed))
    (listening :
      core.extent state.feed ∈ sent ∨
        Underway core state task ∨
        sent = [] ∧ task.phase = .waiting ∧
          state.handler ≠ .responded) :
    Tracking core { state with task := some task, sent := sent } where
  notSpawned := fun isSpawn =>
    absurd (tracking.notSpawned isSpawn) spawned
  onlyAppends := by
    intro other isTask
    cases isTask
    exact ⟨onlyAppends, readsAppend⟩
  sentEarlier := sentEarlier
  sendingEarlier := by
    intro other notification cause isTask isSending
    cases isTask
    exact sendingEarlier notification cause isSending
  notListening := fun unheard =>
    absurd ⟨task, rfl, subscribed⟩ unheard
  listening := by
    intro other isTask _
    cases isTask
    exact listening

section

variable {task : NotifyTask Unit}

/-- The task subscribes: what was sent so far is at most the response. -/
theorem Tracking.subscribes
    (tracking : Tracking core state)
    (isTask : state.task = some task)
    (isStarting : task.phase = .starting) :
    Tracking core
      { state with task := some { task with phase := .waiting } } := by
  have unheard : ¬ Listening state := by
    rintro ⟨other, isOther, subscribed⟩
    rw [isTask] at isOther
    cases isOther
    exact subscribed isStarting
  refine tracking.withTask (by simp [isTask])
    (by simp [NotifyTask.Subscribed])
    (tracking.onlyAppends task isTask).1 (by simp) tracking.sentEarlier
    (by simp) ?_
  rcases tracking.notListening unheard with
    ⟨nothing, unanswered⟩ | ⟨response, _⟩
  · exact Or.inr (Or.inr ⟨nothing, rfl, unanswered⟩)
  · exact Or.inl (by simp [response])

/-- The task takes an event: it is going to read the feed's extent. -/
theorem Tracking.takes
    (tracking : Tracking core state)
    (isTask : state.task = some task)
    {event : FeedEvent}
    {cause : Unit}
    {rest : List (FeedEvent × Unit)}
    (queued : task.queue = (event, cause) :: rest) :
    Tracking core
      { state with
        task := some
          { task with phase := .reading event cause, queue := rest } } := by
  have onlyAppends := (tracking.onlyAppends task isTask).1
  have isAppend : event = .append :=
    onlyAppends (event, cause) (by simp [queued])
  subst event
  refine tracking.withTask (by simp [isTask])
    (by simp [NotifyTask.Subscribed]) ?_ ?_ tracking.sentEarlier
    (by simp) ?_
  · intro entry member
    exact onlyAppends entry (by simp [queued, member])
  · intro other otherCause isReading
    cases isReading
    rfl
  · exact Or.inr (Or.inl (Or.inr (Or.inl rfl)))

/-- The task reads the feed's extent for the notification of an append. -/
theorem Tracking.reads
    (tracking : Tracking core state)
    (isTask : state.task = some task)
    {event : FeedEvent}
    {cause : Unit}
    (isReading : task.phase = .reading event cause) :
    Tracking core
      { state with
        task := some
          { task with
            phase :=
              .sending
                (.ofEvent task.id (core.extent state.feed) event)
                cause } } := by
  obtain ⟨onlyAppends, readsAppend⟩ := tracking.onlyAppends task isTask
  have isAppend := readsAppend event cause isReading
  subst event
  refine tracking.withTask (by simp [isTask])
    (by simp [NotifyTask.Subscribed]) onlyAppends (by simp)
    tracking.sentEarlier ?_ ?_
  · intro notification other isSending
    cases isSending
    exact ⟨core.extent state.feed, rfl, Or.inl rfl⟩
  · exact Or.inr (Or.inl (Or.inr (Or.inr ⟨_, rfl, rfl⟩)))

/-- The task sends: a notification with the feed's extent is then sent. -/
theorem Tracking.sends
    (tracking : Tracking core state)
    (isTask : state.task = some task)
    {notification : Notification}
    {cause : Unit}
    (isSending : task.phase = .sending notification cause) :
    Tracking core
      { state with
        task := some { task with phase := .waiting }
        sent := state.sent ++ notification.extent.toList } := by
  obtain ⟨pair, hasPair, earlier⟩ :=
    tracking.sendingEarlier task notification cause isTask isSending
  have subscribed : task.Subscribed := by
    simp [NotifyTask.Subscribed, isSending]
  refine tracking.withTask (by simp [isTask])
    (by simp [NotifyTask.Subscribed])
    (tracking.onlyAppends task isTask).1 (by simp) ?_ (by simp) ?_
  · intro other member
    rcases List.mem_append.mp member with before | isNew
    · exact tracking.sentEarlier other before
    · simp only [hasPair, Option.toList_some,
        List.mem_singleton] at isNew
      subst other
      exact earlier
  · rcases tracking.listening task isTask subscribed with
      sent |
        (queued | isReading | ⟨other, otherSending, current⟩) |
        ⟨_, isWaiting, _⟩
    · exact Or.inl (List.mem_append_left _ sent)
    · exact Or.inr (Or.inl (Or.inl queued))
    · rw [isSending] at isReading
      cases isReading
    · rw [isSending] at otherSending
      cases otherSending
      exact Or.inl (List.mem_append_right _ (by simp [current]))
    · rw [isSending] at isWaiting
      cases isWaiting

end

/-- The task subscribes, takes an event, reads the feed and sends. -/
theorem Tracking.advanceNotify
    (tracking : Tracking core state)
    (stepped : SessionOpen.advanceNotify core state = some next) :
    Tracking core next := by
  rw [SessionOpen.advanceNotify] at stepped
  cases isTask : state.task with
  | none =>
      simp [isTask] at stepped
  | some task =>
      simp only [isTask] at stepped
      cases advanced : task.advance (core.extent state.feed) with
      | none =>
          simp [advanced] at stepped
      | some result =>
          obtain ⟨moved, sent⟩ := result
          simp only [advanced] at stepped
          rcases NotifyTask.advance_cases advanced with
            ⟨isStarting, rfl, rfl⟩ |
              ⟨event, cause, rest, -, queued, rfl, rfl⟩ |
              ⟨event, cause, isReading, rfl, rfl⟩ |
              ⟨notification, cause, isSending, rfl, rfl⟩
          · cases stepped
            exact tracking.subscribes isTask isStarting
          · cases stepped
            exact tracking.takes isTask queued
          · cases stepped
            exact tracking.reads isTask isReading
          · cases stepped
            exact tracking.sends isTask isSending

/-- An append that is heard, or that precedes the handler's response. -/
theorem Tracking.append
    (appendOnly : core.AppendOnly)
    (tracking : Tracking core state)
    {block : Bytes}
    {feed : Feed}
    (appended : core.append state.feed block = .ok feed)
    (heard : state.handler = .responded → Listening state) :
    Tracking core
      { state with
        feed := feed
        task := state.task.map fun task => task.emit .append () } := by
  have longer := appendOnly.longer appended
  have shrinks :
      ∀ pair : Nat × Nat,
        pair = core.extent state.feed ∨ pair.1 < core.len state.feed →
        pair.1 < core.len feed := by
    rintro pair (rfl | shorter)
    · simp only [SessionFeed.extent]
      omega
    · omega
  have emitted :
      ∀ task,
        (state.task.map fun task => task.emit .append ()) = some task →
        ∃ before, state.task = some before ∧
          task = before.emit .append () := by
    intro task isTask
    obtain ⟨before, isBefore, rfl⟩ := Option.map_eq_some_iff.mp isTask
    exact ⟨before, isBefore, rfl⟩
  refine ⟨?_, ?_, ?_, ?_, ?_, ?_⟩
  · intro isSpawn
    simp [tracking.notSpawned isSpawn]
  · intro task isTask
    obtain ⟨before, isBefore, rfl⟩ := emitted task isTask
    obtain ⟨onlyAppends, readsAppend⟩ :=
      tracking.onlyAppends before isBefore
    refine ⟨?_, by simpa using readsAppend⟩
    by_cases subscribed : before.Subscribed
    · rw [subscribed.emit_eq]
      intro entry member
      rcases List.mem_append.mp member with old | isNew
      · exact onlyAppends entry old
      · rw [List.mem_singleton.mp isNew]
    · rw [NotifyTask.emit_of_starting (not_not.mp subscribed)]
      exact onlyAppends
  · intro pair member
    exact Or.inr (shrinks pair (tracking.sentEarlier pair member))
  · intro task notification cause isTask isSending
    obtain ⟨before, isBefore, rfl⟩ := emitted task isTask
    rw [NotifyTask.emit_phase] at isSending
    obtain ⟨pair, hasPair, earlier⟩ :=
      tracking.sendingEarlier before notification cause isBefore
        isSending
    exact ⟨pair, hasPair, Or.inr (shrinks pair earlier)⟩
  · intro unheard
    have before : ¬ Listening state := by
      rintro ⟨task, isTask, subscribed⟩
      apply unheard
      refine ⟨task.emit .append (), by simp [isTask], ?_⟩
      simpa [NotifyTask.Subscribed] using subscribed
    have unanswered : state.handler ≠ .responded :=
      fun responded => before (heard responded)
    exact Or.inl ⟨tracking.sent_eq_nil before unanswered, unanswered⟩
  · intro task isTask subscribed
    obtain ⟨before, isBefore, rfl⟩ := emitted task isTask
    have subscribedBefore : before.Subscribed := by
      simpa [NotifyTask.Subscribed] using subscribed
    refine Or.inr (Or.inl (Or.inl ?_))
    rw [subscribedBefore.emit_eq]
    simp

/-- One step keeps the invariant, if appends are heard. -/
theorem Tracking.step
    (appendOnly : core.AppendOnly)
    (tracking : Tracking core state)
    {action : Action}
    (heard : AppendsHeard core state action)
    (stepped : SessionOpen.step core id state action = some next) :
    Tracking core next := by
  cases action with
  | advanceOpen =>
      exact tracking.advanceOpen stepped
  | advanceNotify =>
      exact tracking.advanceNotify stepped
  | append block =>
      simp only [SessionOpen.step] at stepped
      split at stepped
      · cases stepped
        exact tracking
      · next feed appended =>
          cases stepped
          exact tracking.append appendOnly appended
            (heard feed appended)

/-- With nothing left to send, the client has the feed's extent. -/
theorem Tracking.upToDate
    (tracking : Tracking core state)
    (quiet : Quiet state) :
    UpToDate core state := by
  obtain ⟨task, isTask, isWaiting, empty⟩ := quiet
  have subscribed : task.Subscribed := by
    simp [NotifyTask.Subscribed, isWaiting]
  intro nonempty
  refine ⟨?_, ?_⟩
  · rcases tracking.listening task isTask subscribed with
      sent | (queued | isReading | ⟨_, isSending, _⟩) | ⟨nothing, _⟩
    · exact sent
    · simp [empty] at queued
    · simp [isWaiting] at isReading
    · simp [isWaiting] at isSending
    · exact absurd nothing nonempty
  · intro pair member other
    exact (tracking.sentEarlier pair member).resolve_left other

end

/--
In every run in which nothing is appended after the handler has read the length
and before the task has subscribed: whenever the task has nothing left to
handle or to send, the greatest pair sent to the client is the feed's.
-/
theorem opened_client_up_to_date
    {Feed : Type}
    {core : SessionFeed Feed}
    (appendOnly : core.AppendOnly)
    {id : Nat}
    {feed : Feed}
    {actions : List Action}
    {state : State Feed}
    (heard :
      Machine.Along (step core id) (AppendsHeard core) (initial feed)
        actions)
    (ran : Machine.run (step core id) (initial feed) actions = some state)
    (quiet : Quiet state) :
    UpToDate core state := by
  have tracking : Tracking core state :=
    Machine.invariant_run_along (Tracking core)
      (fun holds condition stepped =>
        holds.step appendOnly condition stepped)
      (tracking_initial feed) heard ran
  exact tracking.upToDate quiet

/-- The task subscribes before the handler responds; a block is appended. -/
def subscribedFirst : List Action :=
  [.advanceOpen, .advanceNotify, .advanceOpen, .advanceOpen,
    .append [104], .advanceNotify, .advanceNotify, .advanceNotify]

/-- The client first has the empty feed and then the appended block. -/
theorem opened_client_up_to_date_subscribedFirst :
    ∃ state,
      Machine.run (step blockFeed 1) (initial []) subscribedFirst =
          some state ∧
        state.sent = [(0, 0), (1, 1)] ∧ Quiet state ∧
          UpToDate blockFeed state := by
  have quiet :
      ∃ state,
        Machine.run (step blockFeed 1) (initial []) subscribedFirst =
            some state ∧
          state.sent = [(0, 0), (1, 1)] ∧ Quiet state :=
    ⟨_, rfl, rfl, _, rfl, rfl, rfl⟩
  obtain ⟨state, ran, sent, isQuiet⟩ := quiet
  refine ⟨state, ran, sent, isQuiet, ?_⟩
  refine opened_client_up_to_date appendOnly_blockFeed ?_ ran isQuiet
  refine ⟨trivial, trivial, trivial, trivial, ?_, trivial, trivial,
    trivial, trivial⟩
  intro _ _ _
  exact ⟨_, rfl, by decide⟩

/-- A block is appended after the response and before the subscription. -/
def appendedUnheard : List Action :=
  [.advanceOpen, .advanceOpen, .advanceOpen, .append [104],
    .advanceNotify]

/--
The client is told that the feed is empty, the block appended then is not
announced, and nothing is left to handle or to send.
-/
theorem append_before_subscription_missed :
    blockFeed.AppendOnly ∧
      ∃ state,
        Machine.run (step blockFeed 1) (initial []) appendedUnheard =
            some state ∧
          Quiet state ∧ ¬ UpToDate blockFeed state := by
  refine ⟨appendOnly_blockFeed, _, rfl, ⟨_, rfl, rfl, rfl⟩, ?_⟩
  intro upToDate
  obtain ⟨sent, _⟩ := upToDate (List.cons_ne_nil _ _)
  exact absurd sent (by decide)

end SessionOpen

end Hyperspace
