import Hyperspace.Session
import Hyperspace.Table

namespace Hyperspace

/-!
# Notifications and the binding of ids

Each `Open` request spawns a `notify_loop` of its own and replaces the entry of
its id in the map `cores`.  The entry that is replaced holds the handle of the
earlier task, and dropping that handle lets the task run on.  This module
follows any sequence of opens on one session, with events on any number of
feeds, and records with every notification which event caused it and which feed
its id was bound to.

Notifications follow the bindings, once each, in every run in which no id is
opened twice and no task sends before its own handler has bound its id.
-/

namespace SessionNotify

/-- The structure `FeedState`; the task is named by its number. -/
structure FeedState where
  id : Nat
  feed : Nat
  notifyTask : Nat
  deriving Repr, DecidableEq

/-- A task and the feed that it follows. -/
structure Task where
  feed : Nat
  loop : NotifyTask Nat
  deriving Repr, DecidableEq

/-- A notification, the event that caused it, and the binding of its id. -/
structure Sent where
  notification : Notification
  feed : Nat
  cause : Nat
  boundTo : Option Nat
  deriving Repr, DecidableEq

/-- One session, with what proofs record of it. -/
structure State where
  tasks : List Task
  /-- Handlers that have spawned their task and not yet locked `cores`. -/
  inserting : List FeedState
  cores : Table Nat FeedState
  sent : List Sent
  /-- The number of feed events so far; it is the cause of the next one. -/
  events : Nat
  /-- Ids and events of which the client is to be notified under the id. -/
  due : List (Nat × Nat)

/-- A new session. -/
def initial : State where
  tasks := []
  inserting := []
  cores := ∅
  sent := []
  events := 0
  due := []

/-- What can happen next. -/
inductive Action where
  /-- A handler gets its feed from the corestore, or fails. -/
  | openFeed (request : OpenRequest) (found : Except IoError Nat)
  /-- A handler enters its feed into `cores`. -/
  | insert (handler : Nat)
  /-- A task takes its next step, with the feed's extent at that moment. -/
  | advance (task : Nat) (extent : Nat × Nat)
  /-- A feed emits an event to its subscribers. -/
  | emit (feed : Nat) (event : FeedEvent)
  deriving Repr, DecidableEq

/-- The task that an entry names has subscribed. -/
def TaskListens (tasks : List Task) (entry : FeedState) : Prop :=
  ∃ task ∈ tasks[entry.notifyTask]?, task.loop.Subscribed

instance (tasks : List Task) (entry : FeedState) :
    Decidable (TaskListens tasks entry) :=
  match found : tasks[entry.notifyTask]? with
  | none => .isFalse (by simp [TaskListens, found])
  | some task =>
      decidable_of_iff task.loop.Subscribed
        (by simp [TaskListens, found])

/-- The id is bound to the feed, and its last binding has subscribed. -/
def Follows (state : State) (feed id : Nat) : Prop :=
  ∃ entry ∈ state.cores.lookup id,
    entry.feed = feed ∧ TaskListens state.tasks entry

instance (state : State) (feed id : Nat) :
    Decidable (Follows state feed id) :=
  match found : state.cores.lookup id with
  | none => .isFalse (by simp [Follows, found])
  | some entry =>
      decidable_of_iff
        (entry.feed = feed ∧ TaskListens state.tasks entry)
        (by simp [Follows, found])

/-- The feed emits an event to the tasks that follow it. -/
def Task.hear (feed : Nat) (event : FeedEvent) (cause : Nat)
    (task : Task) : Task :=
  if task.feed = feed then
    { task with loop := task.loop.emit event cause }
  else
    task

/-- A task takes its next step. -/
def advance
    (state : State)
    (index : Nat)
    (extent : Nat × Nat) : Option State :=
  match state.tasks[index]? with
  | none => none
  | some task =>
      match task.loop.advance extent with
      | none => none
      | some (loop, none) =>
          some { state with
            tasks := state.tasks.set index { task with loop := loop } }
      | some (loop, some (notification, cause)) =>
          some { state with
            tasks := state.tasks.set index { task with loop := loop }
            sent :=
              state.sent ++
                [{ notification := notification
                   feed := task.feed
                   cause := cause
                   boundTo :=
                     (state.cores.lookup notification.id).map
                       FeedState.feed }] }

/-- One step. -/
def step (state : State) : Action → Option State
  | .openFeed request found =>
      match Session.findFeed (fun _ => found) (fun _ => found) request with
      | .error _ => some state
      | .ok feed =>
          some { state with
            tasks := state.tasks ++ [⟨feed, .spawn request.id⟩]
            inserting :=
              state.inserting ++
                [⟨request.id, feed, state.tasks.length⟩] }
  | .insert handler =>
      match state.inserting[handler]? with
      | none => none
      | some entry =>
          some { state with
            inserting := state.inserting.eraseIdx handler
            cores := state.cores.insert entry.id entry }
  | .advance index extent => advance state index extent
  | .emit feed event =>
      some { state with
        tasks := state.tasks.map (Task.hear feed event state.events)
        events := state.events + 1
        due :=
          state.due ++
            (state.cores.keys.filter (Follows state feed)).map
              fun id => (id, state.events) }

/-- Every notification is caused by an event of the feed bound to its id. -/
def Attributed (state : State) : Prop :=
  ∀ sent ∈ state.sent, sent.boundTo = some sent.feed

instance (state : State) : Decidable (Attributed state) :=
  inferInstanceAs (Decidable (∀ sent ∈ state.sent, _))

/-- The event that a task has in hand. -/
def phaseCauses : NotifyPhase Nat → List Nat
  | .starting => []
  | .waiting => []
  | .reading _ cause => [cause]
  | .sending _ cause => [cause]

/-- The events of which a task is still to notify the client. -/
def Task.causes (task : Task) : List Nat :=
  phaseCauses task.loop.phase ++ task.loop.queue.map Prod.snd

/-- The events of which the client is still to be notified under an id. -/
def pending (tasks : List Task) (id : Nat) : List Nat :=
  (tasks.filter fun task => task.loop.id = id).flatMap Task.causes

/-- The events of which the client has been notified under an id. -/
def notified (sent : List Sent) (id : Nat) : List Nat :=
  (sent.filter fun entry => entry.notification.id = id).map Sent.cause

/--
Of every event that is due under an id the client has been notified once, or
one task is about to do so.
-/
def ExactlyOnce (state : State) : Prop :=
  ∀ entry ∈ state.due,
    (notified state.sent entry.1).count entry.2 +
      (pending state.tasks entry.1).count entry.2 = 1

instance (state : State) : Decidable (ExactlyOnce state) :=
  inferInstanceAs (Decidable (∀ entry ∈ state.due, _))

/--
No id is opened twice, and no task sends before its own handler has bound its
id.
-/
def OpensOnce (state : State) : Action → Prop
  | .openFeed request found =>
      ∀ feed,
        Session.findFeed (fun _ => found) (fun _ => found) request =
          .ok feed →
        ∀ task ∈ state.tasks, task.loop.id ≠ request.id
  | .advance index _ =>
      ∀ task ∈ state.tasks[index]?,
        ∀ notification cause,
          task.loop.phase = .sending notification cause →
          (state.cores.lookup task.loop.id).isSome
  | _ => True

/-- The task that an entry names follows the entry's feed, under its id. -/
def Owns (tasks : List Task) (entry : FeedState) : Prop :=
  ∃ task,
    tasks[entry.notifyTask]? = some task ∧
      task.loop.id = entry.id ∧ task.feed = entry.feed

/-- The invariant of runs in which no id is opened twice. -/
structure Orderly (state : State) : Prop where
  distinctIds :
    (state.tasks.map fun task => task.loop.id).Nodup
  insertingOwns :
    ∀ entry ∈ state.inserting, Owns state.tasks entry
  boundOwns :
    ∀ id entry,
      state.cores.lookup id = some entry →
      entry.id = id ∧ Owns state.tasks entry
  sendsOwnId :
    ∀ task ∈ state.tasks,
      ∀ notification cause,
        task.loop.phase = .sending notification cause →
        notification.id = task.loop.id
  causesOld :
    ∀ task ∈ state.tasks, ∀ cause ∈ task.causes, cause < state.events
  sentOld :
    ∀ sent ∈ state.sent, sent.cause < state.events
  dueOld :
    ∀ entry ∈ state.due, entry.2 < state.events
  attributed :
    Attributed state
  once :
    ExactlyOnce state

section

variable {state next : State}

/-- A new session has no tasks. -/
theorem orderly_initial : Orderly initial where
  distinctIds := List.nodup_nil
  insertingOwns := by simp [initial]
  boundOwns := by simp [initial]
  sendsOwnId := by simp [initial]
  causesOld := by simp [initial]
  sentOld := by simp [initial]
  dueOld := by simp [initial]
  attributed := by simp [Attributed, initial]
  once := by simp [ExactlyOnce, initial]

/-- With distinct ids, the tasks of an id are the one that has it. -/
theorem filter_eq_singleton
    {tasks : List Task}
    (distinctIds : (tasks.map fun task => task.loop.id).Nodup)
    {task : Task}
    (member : task ∈ tasks) :
    (tasks.filter fun other => other.loop.id = task.loop.id) =
      [task] := by
  obtain ⟨before, after, rfl⟩ := List.append_of_mem member
  simp only [List.map_append, List.map_cons, List.nodup_append,
    List.nodup_cons, List.mem_map, List.mem_cons] at distinctIds
  obtain ⟨_, ⟨notAfter, _⟩, disjoint⟩ := distinctIds
  have noneBefore :
      (before.filter fun other => other.loop.id = task.loop.id) =
        [] := by
    apply List.filter_eq_nil_iff.mpr
    intro other isBefore
    simpa using
      disjoint other.loop.id ⟨other, isBefore, rfl⟩ task.loop.id
        (Or.inl rfl)
  have noneAfter :
      (after.filter fun other => other.loop.id = task.loop.id) =
        [] := by
    apply List.filter_eq_nil_iff.mpr
    intro other isAfter
    simpa using fun same => notAfter ⟨other, isAfter, same⟩
  simp [noneBefore, noneAfter]

/-- What is pending under the id of a task, when ids are distinct. -/
theorem pending_eq_causes
    {tasks : List Task}
    (distinctIds : (tasks.map fun task => task.loop.id).Nodup)
    {task : Task}
    (member : task ∈ tasks) :
    pending tasks task.loop.id = task.causes := by
  simp [pending, filter_eq_singleton distinctIds member]

/-- A spawned task has nothing pending. -/
theorem pending_append_spawn
    (tasks : List Task)
    (feed id other : Nat) :
    pending (tasks ++ [⟨feed, .spawn id⟩]) other =
      pending tasks other := by
  by_cases same : id = other
  · subst other
    simp [pending, NotifyTask.spawn, Task.causes, phaseCauses]
  · simp [pending, NotifyTask.spawn, same]

/-- A lookup in a longer list of tasks. -/
theorem Owns.append
    {tasks : List Task}
    {entry : FeedState}
    (owns : Owns tasks entry)
    (more : List Task) :
    Owns (tasks ++ more) entry := by
  obtain ⟨task, found, facts⟩ := owns
  refine ⟨task, ?_, facts⟩
  rw [List.getElem?_append_left (List.getElem?_eq_some_iff.mp found).1]
  exact found

/-- An open of a new id keeps the invariant. -/
theorem Orderly.openFeed
    (orderly : Orderly state)
    (id feed : Nat)
    (fresh : ∀ task ∈ state.tasks, task.loop.id ≠ id) :
    Orderly
      { state with
        tasks := state.tasks ++ [⟨feed, .spawn id⟩]
        inserting :=
          state.inserting ++ [⟨id, feed, state.tasks.length⟩] } where
  distinctIds := by
    simp only [List.map_append, List.map_cons, List.map_nil]
    refine orderly.distinctIds.append (by simp) ?_
    intro other member isNew
    obtain ⟨task, isTask, rfl⟩ := List.mem_map.mp member
    exact fresh task isTask (by simpa [NotifyTask.spawn] using isNew)
  insertingOwns := by
    intro entry member
    rcases List.mem_append.mp member with before | isNew
    · exact (orderly.insertingOwns entry before).append _
    · rw [List.mem_singleton.mp isNew]
      exact ⟨⟨feed, .spawn id⟩, by simp, rfl, rfl⟩
  boundOwns := by
    intro other entry bound
    obtain ⟨sameId, owns⟩ := orderly.boundOwns other entry bound
    exact ⟨sameId, owns.append _⟩
  sendsOwnId := by
    intro task member notification cause isSending
    rcases List.mem_append.mp member with before | isNew
    · exact orderly.sendsOwnId task before notification cause isSending
    · rw [List.mem_singleton.mp isNew] at isSending
      cases isSending
  causesOld := by
    intro task member cause isCause
    rcases List.mem_append.mp member with before | isNew
    · exact orderly.causesOld task before cause isCause
    · rw [List.mem_singleton.mp isNew] at isCause
      cases isCause
  sentOld := orderly.sentOld
  dueOld := orderly.dueOld
  attributed := orderly.attributed
  once := by
    intro entry member
    rw [pending_append_spawn]
    exact orderly.once entry member

/-- Binding an id keeps the invariant. -/
theorem Orderly.insert
    (orderly : Orderly state)
    {handler : Nat}
    {entry : FeedState}
    (found : state.inserting[handler]? = some entry) :
    Orderly
      { state with
        inserting := state.inserting.eraseIdx handler
        cores := state.cores.insert entry.id entry } := by
  refine ⟨orderly.distinctIds, ?_, ?_, orderly.sendsOwnId,
    orderly.causesOld, orderly.sentOld, orderly.dueOld,
    orderly.attributed, orderly.once⟩
  · intro other member
    exact orderly.insertingOwns other (List.mem_of_mem_eraseIdx member)
  · intro id other bound
    rw [Table.lookup_insert_ite] at bound
    split at bound
    · next same =>
        cases bound
        exact ⟨same.symm,
          orderly.insertingOwns entry (List.mem_of_getElem? found)⟩
    · exact orderly.boundOwns id other bound

/-- A step of a loop keeps its id, and hands on the event it has in hand. -/
theorem advance_causes
    {extent : Nat × Nat}
    {task : Task}
    {loop : NotifyTask Nat}
    {sent : Option (Notification × Nat)}
    (stepped : task.loop.advance extent = some (loop, sent)) :
    loop.id = task.loop.id ∧
      task.causes =
        (sent.map Prod.snd).toList ++
          ({ task with loop := loop } : Task).causes := by
  rcases NotifyTask.advance_cases stepped with
    ⟨isStarting, rfl, rfl⟩ |
      ⟨event, cause, rest, isWaiting, queued, rfl, rfl⟩ |
      ⟨event, cause, isReading, rfl, rfl⟩ |
      ⟨notification, cause, isSending, rfl, rfl⟩
  · simp [Task.causes, phaseCauses, isStarting]
  · simp [Task.causes, phaseCauses, isWaiting, queued]
  · simp [Task.causes, phaseCauses, isReading]
  · simp [Task.causes, phaseCauses, isSending]

/-- A loop about to send has read the feed under its own id. -/
theorem advance_sends
    {extent : Nat × Nat}
    {task : Task}
    {loop : NotifyTask Nat}
    {sent : Option (Notification × Nat)}
    (stepped : task.loop.advance extent = some (loop, sent)) :
    (∀ notification cause,
      loop.phase = .sending notification cause →
      notification.id = loop.id) ∧
      ∀ notification cause,
        sent = some (notification, cause) →
        task.loop.phase = .sending notification cause := by
  rcases NotifyTask.advance_cases stepped with
    ⟨isStarting, rfl, rfl⟩ |
      ⟨event, cause, rest, isWaiting, queued, rfl, rfl⟩ |
      ⟨event, cause, isReading, rfl, rfl⟩ |
      ⟨notification, cause, isSending, rfl, rfl⟩
  · simp
  · simp
  · refine ⟨?_, by simp⟩
    intro notification other same
    cases same
    simp
  · refine ⟨by simp, ?_⟩
    intro other otherCause same
    cases same
    exact isSending

/-- Ids of tasks when one task has moved on. -/
theorem map_id_set
    {tasks : List Task}
    {index : Nat}
    {task moved : Task}
    (found : tasks[index]? = some task)
    (sameId : moved.loop.id = task.loop.id) :
    ((tasks.set index moved).map fun other => other.loop.id) =
      tasks.map fun other => other.loop.id := by
  obtain ⟨bound, isTask⟩ := List.getElem?_eq_some_iff.mp found
  obtain ⟨before, after, shape, _, changed⟩ := List.exists_of_set bound
  rw [changed]
  conv_rhs => rw [shape, isTask]
  simp [sameId]

/-- Entries name the same tasks when one task has moved on. -/
theorem Owns.set
    {tasks : List Task}
    {index : Nat}
    {task moved : Task}
    {entry : FeedState}
    (owns : Owns tasks entry)
    (found : tasks[index]? = some task)
    (sameId : moved.loop.id = task.loop.id)
    (sameFeed : moved.feed = task.feed) :
    Owns (tasks.set index moved) entry := by
  obtain ⟨other, isOther, hasId, hasFeed⟩ := owns
  by_cases same : index = entry.notifyTask
  · subst index
    rw [found] at isOther
    cases isOther
    refine ⟨moved, ?_, sameId.trans hasId, sameFeed.trans hasFeed⟩
    simp [(List.getElem?_eq_some_iff.mp found).1]
  · exact ⟨other, by simp [same, isOther],
      hasId, hasFeed⟩

/-- What is pending under other ids does not change. -/
theorem pending_set_of_ne
    {tasks : List Task}
    {index other : Nat}
    {task moved : Task}
    (found : tasks[index]? = some task)
    (sameId : moved.loop.id = task.loop.id)
    (different : task.loop.id ≠ other) :
    pending (tasks.set index moved) other = pending tasks other := by
  obtain ⟨bound, isTask⟩ := List.getElem?_eq_some_iff.mp found
  obtain ⟨before, after, shape, _, changed⟩ := List.exists_of_set bound
  rw [pending, pending, changed]
  conv_rhs => rw [shape, isTask]
  simp [sameId, different]

/-- The event of which a step has notified the client under an id. -/
def handedOver (id : Nat) : Option (Notification × Nat) → List Nat
  | none => []
  | some (notification, cause) =>
      if notification.id = id then [cause] else []

/-- What is pending and what has been notified, after a step of a task. -/
theorem Orderly.once_advance
    (orderly : Orderly state)
    {index : Nat}
    {extent : Nat × Nat}
    {task : Task}
    {loop : NotifyTask Nat}
    {sent : Option (Notification × Nat)}
    (found : state.tasks[index]? = some task)
    (stepped : task.loop.advance extent = some (loop, sent))
    (id cause : Nat) :
    (handedOver id sent).count cause +
      (pending (state.tasks.set index { task with loop := loop })
        id).count cause =
      (pending state.tasks id).count cause := by
  have member := List.mem_of_getElem? found
  obtain ⟨sameId, causes⟩ := advance_causes stepped
  obtain ⟨_, sends⟩ := advance_sends stepped
  have ownId :
      ∀ entry, sent = some entry → entry.1.id = task.loop.id := by
    intro entry isSent
    exact orderly.sendsOwnId task member entry.1 entry.2
      (sends entry.1 entry.2 isSent)
  by_cases same : task.loop.id = id
  · subst id
    have distinct :
        ((state.tasks.set index { task with loop := loop }).map
          fun other => other.loop.id).Nodup := by
      rw [map_id_set found sameId]
      exact orderly.distinctIds
    have isMoved :
        ({ task with loop := loop } : Task) ∈
          state.tasks.set index { task with loop := loop } :=
      List.mem_set (List.getElem?_eq_some_iff.mp found).1 _
    have movedPending := pending_eq_causes distinct isMoved
    simp only [sameId] at movedPending
    rw [movedPending, pending_eq_causes orderly.distinctIds member,
      causes, List.count_append]
    congr 1
    cases sent with
    | none =>
        rfl
    | some entry =>
        simp [handedOver, ownId entry rfl]
  · rw [pending_set_of_ne found sameId same]
    cases sent with
    | none =>
        simp [handedOver]
    | some entry =>
        simp [handedOver, ownId entry rfl, same]

/-- The parts of the invariant about tasks, after a step of one of them. -/
theorem Orderly.tasks_advance
    (orderly : Orderly state)
    {index : Nat}
    {extent : Nat × Nat}
    {task : Task}
    {loop : NotifyTask Nat}
    {sent : Option (Notification × Nat)}
    (found : state.tasks[index]? = some task)
    (stepped : task.loop.advance extent = some (loop, sent))
    {records : List Sent}
    (recordsOld : ∀ record ∈ records, record.cause < state.events)
    (attributed :
      ∀ record ∈ records, record.boundTo = some record.feed)
    (once :
      ∀ id, notified records id = notified state.sent id ++ handedOver id sent) :
    Orderly
      { state with
        tasks := state.tasks.set index { task with loop := loop }
        sent := records } := by
  have member := List.mem_of_getElem? found
  obtain ⟨sameId, causes⟩ := advance_causes stepped
  refine ⟨?_, ?_, ?_, ?_, ?_, recordsOld, orderly.dueOld, attributed, ?_⟩
  · rw [map_id_set found sameId]
    exact orderly.distinctIds
  · intro entry isEntry
    exact (orderly.insertingOwns entry isEntry).set found sameId rfl
  · intro id entry bound
    obtain ⟨hasId, owns⟩ := orderly.boundOwns id entry bound
    exact ⟨hasId, owns.set found sameId rfl⟩
  · intro other isOther
    rcases List.mem_or_eq_of_mem_set isOther with before | rfl
    · exact orderly.sendsOwnId other before
    · exact (advance_sends stepped).1
  · intro other isOther
    rcases List.mem_or_eq_of_mem_set isOther with before | rfl
    · exact orderly.causesOld other before
    · intro cause isCause
      apply orderly.causesOld task member cause
      rw [causes]
      exact List.mem_append_right _ isCause
  · intro entry isDue
    have before := orderly.once entry isDue
    have kept := orderly.once_advance found stepped entry.1 entry.2
    simp only [once, List.count_append]
    omega

/-- The id of a task can only be bound to the feed that the task follows. -/
theorem Orderly.feed_of_bound
    (orderly : Orderly state)
    {task : Task}
    {entry : FeedState}
    (member : task ∈ state.tasks)
    (bound : state.cores.lookup task.loop.id = some entry) :
    entry.feed = task.feed := by
  obtain ⟨sameId, other, isOther, hasId, hasFeed⟩ :=
    orderly.boundOwns task.loop.id entry bound
  have same : other = task :=
    List.inj_on_of_nodup_map orderly.distinctIds
      (List.mem_of_getElem? isOther) member (hasId.trans sameId)
  rw [← hasFeed, same]

/-- A task that sends under a bound id sends for the feed that is bound. -/
theorem Orderly.sends
    (orderly : Orderly state)
    {index : Nat}
    {extent : Nat × Nat}
    {task : Task}
    {loop : NotifyTask Nat}
    {notification : Notification}
    {cause : Nat}
    (bound : OpensOnce state (.advance index extent))
    (found : state.tasks[index]? = some task)
    (advanced :
      task.loop.advance extent =
        some (loop, some (notification, cause))) :
    Orderly
      { state with
        tasks := state.tasks.set index { task with loop := loop }
        sent :=
          state.sent ++
            [{ notification := notification
               feed := task.feed
               cause := cause
               boundTo :=
                 (state.cores.lookup notification.id).map
                   FeedState.feed }] } := by
  have member := List.mem_of_getElem? found
  have isSending : task.loop.phase = .sending notification cause :=
    (advance_sends advanced).2 notification cause rfl
  have ownId : notification.id = task.loop.id :=
    orderly.sendsOwnId task member notification cause isSending
  refine orderly.tasks_advance found advanced ?_ ?_ ?_
  · intro record isRecord
    rcases List.mem_append.mp isRecord with before | isNew
    · exact orderly.sentOld record before
    · rw [List.mem_singleton.mp isNew]
      apply orderly.causesOld task member
      simp [Task.causes, phaseCauses, isSending]
  · intro record isRecord
    rcases List.mem_append.mp isRecord with before | isNew
    · exact orderly.attributed record before
    · rw [List.mem_singleton.mp isNew]
      have isBound := bound task found notification cause isSending
      obtain ⟨entry, isEntry⟩ := Option.isSome_iff_exists.mp isBound
      have boundHere :
          state.cores.lookup notification.id = some entry := by
        rw [ownId]
        exact isEntry
      simp [boundHere, orderly.feed_of_bound member isEntry]
  · intro id
    simp only [notified, handedOver, List.filter_append,
      List.map_append, List.append_cancel_left_eq]
    by_cases same : notification.id = id
    · simp [same]
    · simp [same]

/-- A step of a task keeps the invariant, if it sends under a bound id. -/
theorem Orderly.advance
    (orderly : Orderly state)
    {index : Nat}
    {extent : Nat × Nat}
    (bound : OpensOnce state (.advance index extent))
    (stepped : SessionNotify.advance state index extent = some next) :
    Orderly next := by
  rw [SessionNotify.advance] at stepped
  cases found : state.tasks[index]? with
  | none =>
      simp [found] at stepped
  | some task =>
      simp only [found] at stepped
      cases advanced : task.loop.advance extent with
      | none =>
          simp [advanced] at stepped
      | some result =>
          obtain ⟨loop, sent⟩ := result
          cases sent with
          | none =>
              simp only [advanced, Option.some.injEq] at stepped
              subst next
              exact orderly.tasks_advance found advanced
                orderly.sentOld orderly.attributed (by simp [handedOver])
          | some entry =>
              obtain ⟨notification, cause⟩ := entry
              simp only [advanced, Option.some.injEq] at stepped
              subst next
              exact orderly.sends bound found advanced

/-- What a task has pending after an event of a feed. -/
theorem causes_hear
    (feed : Nat)
    (event : FeedEvent)
    (cause : Nat)
    (task : Task) :
    (task.hear feed event cause).causes =
      task.causes ++
        if task.feed = feed ∧ task.loop.Subscribed then
          [cause]
        else
          [] := by
  by_cases same : task.feed = feed
  · by_cases subscribed : task.loop.Subscribed
    · simp [Task.hear, Task.causes, same, subscribed,
        subscribed.emit_eq]
    · simp [Task.hear, Task.causes, same, subscribed,
        NotifyTask.emit_of_starting (not_not.mp subscribed)]
  · simp [Task.hear, same]

@[simp] theorem hear_id
    (feed : Nat)
    (event : FeedEvent)
    (cause : Nat)
    (task : Task) :
    (task.hear feed event cause).loop.id = task.loop.id := by
  rw [Task.hear]
  split <;> simp

@[simp] theorem hear_phase
    (feed : Nat)
    (event : FeedEvent)
    (cause : Nat)
    (task : Task) :
    (task.hear feed event cause).loop.phase = task.loop.phase := by
  rw [Task.hear]
  split <;> simp

@[simp] theorem hear_feed
    (feed : Nat)
    (event : FeedEvent)
    (cause : Nat)
    (task : Task) :
    (task.hear feed event cause).feed = task.feed := by
  rw [Task.hear]
  split <;> rfl

/-- Entries name the same tasks after an event of a feed. -/
theorem Owns.hear
    {tasks : List Task}
    {entry : FeedState}
    (owns : Owns tasks entry)
    (feed : Nat)
    (event : FeedEvent)
    (cause : Nat) :
    Owns (tasks.map (Task.hear feed event cause)) entry := by
  obtain ⟨task, found, hasId, hasFeed⟩ := owns
  exact ⟨task.hear feed event cause, by simp [found],
    by simpa using hasId, by simpa using hasFeed⟩

/-- An event of a feed changes nothing about other events. -/
theorem count_pending_hear
    (tasks : List Task)
    (feed : Nat)
    (event : FeedEvent)
    {cause other : Nat}
    (different : cause ≠ other)
    (id : Nat) :
    (pending (tasks.map (Task.hear feed event cause)) id).count other =
      (pending tasks id).count other := by
  induction tasks with
  | nil =>
      rfl
  | cons task rest inductionHypothesis =>
      have heard :
          (task.hear feed event cause).causes.count other =
            task.causes.count other := by
        rw [causes_hear, List.count_append]
        split <;> simp [different]
      simp only [pending, List.map_cons] at inductionHypothesis ⊢
      by_cases same : task.loop.id = id
      · simp [same, heard, inductionHypothesis]
      · simpa [same] using inductionHypothesis

/-- The event of a feed is pending once under each id that follows it. -/
theorem Orderly.count_pending_emit
    (orderly : Orderly state)
    {feed id : Nat}
    (event : FeedEvent)
    (follows : Follows state feed id) :
    (pending (state.tasks.map (Task.hear feed event state.events))
      id).count state.events = 1 := by
  obtain ⟨entry, bound, sameFeed, listening, isTask, subscribed⟩ :=
    follows
  obtain ⟨sameId, task, found, hasId, hasFeed⟩ :=
    orderly.boundOwns id entry bound
  rw [Option.mem_def, found] at isTask
  have sameTask : task = listening := Option.some.inj isTask
  subst sameTask
  have member := List.mem_of_getElem? found
  have distinct :
      ((state.tasks.map (Task.hear feed event state.events)).map
        fun other => other.loop.id).Nodup := by
    rw [List.map_map]
    simpa [Function.comp_def] using orderly.distinctIds
  have heard :
      task.hear feed event state.events ∈
        state.tasks.map (Task.hear feed event state.events) :=
    List.mem_map_of_mem member
  have isPending := pending_eq_causes distinct heard
  rw [hear_id, hasId, sameId] at isPending
  have notOld : state.events ∉ task.causes := by
    intro old
    exact Nat.lt_irrefl _ (orderly.causesOld task member _ old)
  rw [isPending, causes_hear,
    if_pos ⟨hasFeed.trans sameFeed, subscribed⟩, List.count_append,
    List.count_eq_zero.mpr notOld]
  simp

/-- An event of a feed keeps the invariant. -/
theorem Orderly.emit
    (orderly : Orderly state)
    (feed : Nat)
    (event : FeedEvent) :
    Orderly
      { state with
        tasks := state.tasks.map (Task.hear feed event state.events)
        events := state.events + 1
        due :=
          state.due ++
            (state.cores.keys.filter (Follows state feed)).map
              fun id => (id, state.events) } := by
  refine ⟨?_, ?_, ?_, ?_, ?_, ?_, ?_, orderly.attributed, ?_⟩
  · rw [List.map_map]
    simpa [Function.comp_def] using orderly.distinctIds
  · intro entry isEntry
    exact (orderly.insertingOwns entry isEntry).hear _ _ _
  · intro id entry bound
    obtain ⟨hasId, owns⟩ := orderly.boundOwns id entry bound
    exact ⟨hasId, owns.hear _ _ _⟩
  · intro heard isHeard notification cause isSending
    obtain ⟨task, member, rfl⟩ := List.mem_map.mp isHeard
    rw [hear_phase] at isSending
    rw [hear_id]
    exact orderly.sendsOwnId task member notification cause isSending
  · intro heard isHeard cause isCause
    obtain ⟨task, member, rfl⟩ := List.mem_map.mp isHeard
    rw [causes_hear] at isCause
    rcases List.mem_append.mp isCause with old | isNew
    · exact Nat.lt_succ_of_lt (orderly.causesOld task member cause old)
    · split at isNew
      · rw [List.mem_singleton.mp isNew]
        exact Nat.lt_succ_self _
      · cases isNew
  · intro record isRecord
    exact Nat.lt_succ_of_lt (orderly.sentOld record isRecord)
  · intro entry isDue
    rcases List.mem_append.mp isDue with old | isNew
    · exact Nat.lt_succ_of_lt (orderly.dueOld entry old)
    · obtain ⟨id, _, rfl⟩ := List.mem_map.mp isNew
      exact Nat.lt_succ_self _
  · intro entry isDue
    rcases List.mem_append.mp isDue with old | isNew
    · have isOld := orderly.dueOld entry old
      rw [count_pending_hear _ _ _ (Nat.ne_of_gt isOld)]
      exact orderly.once entry old
    · obtain ⟨id, isFollower, rfl⟩ := List.mem_map.mp isNew
      have follows : Follows state feed id := by
        simpa using (List.mem_filter.mp isFollower).2
      have notNotified : state.events ∉ notified state.sent id := by
        intro isNotified
        obtain ⟨record, isRecord, same⟩ := List.mem_map.mp isNotified
        have isOld :=
          orderly.sentOld record (List.mem_filter.mp isRecord).1
        omega
      rw [orderly.count_pending_emit event follows,
        List.count_eq_zero.mpr notNotified]

/-- One step keeps the invariant, if no id is opened twice. -/
theorem Orderly.step
    (orderly : Orderly state)
    {action : Action}
    (opensOnce : OpensOnce state action)
    (stepped : SessionNotify.step state action = some next) :
    Orderly next := by
  cases action with
  | openFeed request found =>
      simp only [SessionNotify.step] at stepped
      split at stepped
      · cases stepped
        exact orderly
      · next feed isFound =>
          cases stepped
          exact orderly.openFeed request.id feed
            (opensOnce feed isFound)
  | insert handler =>
      simp only [SessionNotify.step] at stepped
      split at stepped
      · cases stepped
      · next entry found =>
          cases stepped
          exact orderly.insert found
  | advance index extent =>
      exact orderly.advance opensOnce stepped
  | emit feed event =>
      cases stepped
      exact orderly.emit feed event

end

/--
In every run in which no id is opened twice and no task sends before its own
handler has bound its id, every notification is caused by an event of the feed
bound to its id, and every event that is due under an id is notified exactly
once under that id.
-/
theorem notifications_follow_bindings
    {actions : List Action}
    {state : State}
    (opensOnce : Machine.Along step OpensOnce initial actions)
    (ran : Machine.run step initial actions = some state) :
    Attributed state ∧ ExactlyOnce state := by
  have orderly : Orderly state :=
    Machine.invariant_run_along Orderly
      (fun holds condition stepped => holds.step condition stepped)
      orderly_initial opensOnce ran
  exact ⟨orderly.attributed, orderly.once⟩

/-- A request for the name `foo`. -/
def openFoo (id : Nat) : OpenRequest where
  id := id
  key := none
  name := some "foo"

/-- One open, an append to its feed, and the notification of it. -/
def openedOnce : List Action :=
  [.openFeed (openFoo 1) (.ok 0), .insert 0, .advance 0 (0, 0),
    .emit 0 .append, .advance 0 (1, 3), .advance 0 (1, 3),
    .advance 0 (1, 3)]

/-- The client is notified once, under the id bound to the feed. -/
theorem notifications_follow_bindings_openedOnce :
    ∃ state,
      Machine.run step initial openedOnce = some state ∧
        state.due = [(1, 0)] ∧
          state.sent =
            [⟨.append ⟨1, 1, 3⟩, 0, 0, some 0⟩] ∧
          Attributed state ∧ ExactlyOnce state := by
  have opensOnce :
      Machine.Along step OpensOnce initial openedOnce := by
    refine ⟨?_, trivial, ?_, trivial, ?_, ?_, ?_, trivial⟩
    · intro feed _ task member
      cases member
    · intro task found notification cause isSending
      cases found
      cases isSending
    · intro task found notification cause isSending
      cases found
      cases isSending
    · intro task found notification cause isSending
      cases found
      cases isSending
    · intro task found notification cause isSending
      cases found
      rfl
  exact ⟨_, rfl, rfl, rfl,
    notifications_follow_bindings opensOnce rfl⟩

/-- The id 1 is opened twice, with the same name. -/
def openedTwice : List Action :=
  [.openFeed (openFoo 1) (.ok 0), .insert 0, .advance 0 (0, 0),
    .openFeed (openFoo 1) (.ok 0), .insert 0, .advance 1 (0, 0),
    .emit 0 .append, .advance 0 (1, 3), .advance 0 (1, 3),
    .advance 0 (1, 3), .advance 1 (1, 3), .advance 1 (1, 3),
    .advance 1 (1, 3)]

/-- The id 1 is opened for one feed and then for another. -/
def rebound : List Action :=
  [.openFeed (openFoo 1) (.ok 0), .insert 0, .advance 0 (0, 0),
    .openFeed ⟨1, none, some ""⟩ (.ok 1), .insert 0, .advance 1 (0, 0),
    .emit 0 .append, .advance 0 (1, 3), .advance 0 (1, 3),
    .advance 0 (1, 3)]

/--
An id opened twice for one feed is notified twice of an event; an id opened for
another feed is still notified of the events of the first.
-/
theorem reopened_id_misnotified :
    (∃ state,
      Machine.run step initial openedTwice = some state ∧
        ¬ ExactlyOnce state) ∧
      ∃ state,
        Machine.run step initial rebound = some state ∧
          ¬ Attributed state :=
  ⟨⟨_, rfl, by decide⟩, ⟨_, rfl, by decide⟩⟩

end SessionNotify

end Hyperspace
