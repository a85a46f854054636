import Hyperspace.Replicator

namespace Hyperspace.ReplicateLock

/-!
# The store's lock and its event channel

`open_feed` sends the event for a new feed while the call holds the store's
write lock, and the channel to `replicate_corestore` is bounded.  The receiver
takes events out of it in its loop, but a discovery key event makes the loop
call `get_by_dkey`, for which it needs the lock, and which may itself open a
feed and send.

A call opens at most one feed, so the store is reduced here to the discovery
keys of the feeds that calls open.  The sender of the bounded channel puts its
message into the channel and then, if there are more messages than the channel
was made for, waits until the receiver takes one.
-/

open Replicator (ReplicatorEvent)

/-- The argument of `mpsc::channel`. -/
def capacity : Nat := 100

/-- How far a call on the store is. -/
inductive Stage where
  /-- It has opened no feed yet. -/
  | running
  /-- It has opened a feed and is in `emit`. -/
  | emitting
  deriving Repr, DecidableEq

/-- Who calls the store. -/
inductive Task where
  | other (id : Nat)
  | loop
  deriving Repr, DecidableEq

/-- The call that holds the write lock. -/
structure Call where
  task : Task
  stage : Stage
  deriving Repr, DecidableEq

/-- Where `replicate_corestore` is after it has subscribed to the store. -/
inductive Phase where
  /-- It subscribes to the replicator. -/
  | subscribing
  | waiting
  /-- It adds a feed to the replicator. -/
  | adding (dkey : Key)
  /-- It waits for the write lock in `get_by_dkey`. -/
  | requesting (dkey : Key)
  /-- It holds the write lock in `get_by_dkey`. -/
  | lookingUp (dkey : Key)
  deriving Repr, DecidableEq

/-- Whether the loop is in `get_by_dkey`. -/
def Phase.inLookup : Phase → Bool
  | .requesting _ => true
  | .lookingUp _ => true
  | _ => false

/-- Whether the loop has subscribed to the replicator. -/
def Phase.listens : Phase → Bool
  | .subscribing => false
  | _ => true

/-- The lock, the two queues and the loop. -/
structure State where
  lock : Option Call
  /-- The event channel of the store, with the keys of the feeds in it. -/
  queue : List Key
  replicatorQueue : List ReplicatorEvent
  phase : Phase
  deriving Repr, DecidableEq

namespace State

/-- `replicate_corestore` has just subscribed to the store. -/
def start : State where
  lock := none
  queue := []
  replicatorQueue := []
  phase := .subscribing

/-- The method `emit` of the replicator. -/
def notify (state : State) (event : ReplicatorEvent) : State :=
  if state.phase.listens then
    { state with replicatorQueue := state.replicatorQueue ++ [event] }
  else
    state

/-- The phase after a call, which may be the loop's own, has returned. -/
def phaseAfter (state : State) (call : Call) : Phase :=
  match call.task with
  | .loop => .waiting
  | .other _ => state.phase

end State

/-- What can happen. -/
inductive Action where
  /-- A task that opens feeds gets the write lock. -/
  | begin (id : Nat)
  /-- The call that holds the lock opens a feed and sends its event. -/
  | openFeed (dkey : Key)
  /-- The call that holds the lock returns. -/
  | finish
  /-- A connection tells the replicator of a remote discovery key. -/
  | discoveryKey (dkey : Key)
  | subscribeReplicator
  | takeFeed
  | addTaken
  | takeReplicatorEvent
  /-- The loop gets the write lock. -/
  | lookUp
  deriving Repr, DecidableEq

/-- One step of the tasks or of the loop. -/
def step (state : State) : Action → Option State
  | .begin id =>
      match state.lock with
      | none => some { state with lock := some ⟨.other id, .running⟩ }
      | some _ => none
  | .openFeed dkey =>
      match state.lock with
      | some ⟨task, .running⟩ =>
          some { state with
            lock := some ⟨task, .emitting⟩
            queue := state.queue ++ [dkey] }
      | _ => none
  | .finish =>
      match state.lock with
      | some call =>
          if call.stage = .running ∨ state.queue.length ≤ capacity then
            some { state with
              lock := none
              phase := state.phaseAfter call }
          else
            none
      | none => none
  | .discoveryKey dkey => some (state.notify (.discoveryKey dkey))
  | .subscribeReplicator =>
      if state.phase = .subscribing then
        some { state with phase := .waiting }
      else
        none
  | .takeFeed =>
      match state.phase, state.queue with
      | .waiting, dkey :: rest =>
          some { state with queue := rest, phase := .adding dkey }
      | _, _ => none
  | .addTaken =>
      match state.phase with
      | .adding dkey =>
          some { state.notify (.feed dkey) with phase := .waiting }
      | _ => none
  | .takeReplicatorEvent =>
      match state.phase, state.replicatorQueue with
      | .waiting, .discoveryKey dkey :: rest =>
          some { state with
            replicatorQueue := rest
            phase := .requesting dkey }
      | .waiting, .feed _ :: rest =>
          some { state with replicatorQueue := rest }
      | _, _ => none
  | .lookUp =>
      match state.phase, state.lock with
      | .requesting dkey, none =>
          some { state with
            lock := some ⟨.loop, .running⟩
            phase := .lookingUp dkey }
      | _, _ => none

/-- A call holds the lock and waits in `emit` for the receiver. -/
def State.BlockedInEmit (state : State) (call : Call) : Prop :=
  state.lock = some call ∧ call.stage = .emitting ∧
    capacity < state.queue.length

/--
A call is blocked in `emit`, and the loop cannot take the event that would
release it: it waits for the lock, or the call is its own.
-/
def State.Deadlocked (state : State) : Prop :=
  ∃ call,
    state.BlockedInEmit call ∧
      (call.task = .loop ∨ ∃ dkey, state.phase = .requesting dkey)

/--
The condition on a step: while the loop is in `get_by_dkey`, a feed is opened
only if the channel has room for its event, and the loop takes a discovery key
event only if the channel is not overfull.
-/
def ChannelHasRoom (state : State) : Action → Prop
  | .openFeed _ =>
      state.phase.inLookup → state.queue.length < capacity
  | .takeReplicatorEvent =>
      (∃ dkey, state.replicatorQueue.head? = some (.discoveryKey dkey)) →
      state.queue.length ≤ capacity
  | _ => True

/-! ## What a step does -/

/-- The effects that a step can have. -/
inductive Effect (state : State) : Action → State → Prop
  | began
      {id : Nat}
      (free : state.lock = none) :
      Effect state (.begin id)
        { state with lock := some ⟨.other id, .running⟩ }
  | opened
      {dkey : Key}
      {task : Task}
      (held : state.lock = some ⟨task, .running⟩) :
      Effect state (.openFeed dkey)
        { state with
          lock := some ⟨task, .emitting⟩
          queue := state.queue ++ [dkey] }
  | returned
      {call : Call}
      (held : state.lock = some call)
      (returns :
        call.stage = .running ∨ state.queue.length ≤ capacity) :
      Effect state .finish
        { state with lock := none, phase := state.phaseAfter call }
  | notified
      {dkey : Key} :
      Effect state (.discoveryKey dkey)
        (state.notify (.discoveryKey dkey))
  | subscribed
      (subscribing : state.phase = .subscribing) :
      Effect state .subscribeReplicator { state with phase := .waiting }
  | taken
      {dkey : Key}
      {rest : List Key}
      (waiting : state.phase = .waiting)
      (queued : state.queue = dkey :: rest) :
      Effect state .takeFeed
        { state with queue := rest, phase := .adding dkey }
  | added
      {dkey : Key}
      (adding : state.phase = .adding dkey) :
      Effect state .addTaken
        { state.notify (.feed dkey) with phase := .waiting }
  | requested
      {dkey : Key}
      {rest : List ReplicatorEvent}
      (waiting : state.phase = .waiting)
      (queued : state.replicatorQueue = .discoveryKey dkey :: rest) :
      Effect state .takeReplicatorEvent
        { state with
          replicatorQueue := rest
          phase := .requesting dkey }
  | ignored
      {dkey : Key}
      {rest : List ReplicatorEvent}
      (waiting : state.phase = .waiting)
      (queued : state.replicatorQueue = .feed dkey :: rest) :
      Effect state .takeReplicatorEvent
        { state with replicatorQueue := rest }
  | locked
      {dkey : Key}
      (requesting : state.phase = .requesting dkey)
      (free : state.lock = none) :
      Effect state .lookUp
        { state with
          lock := some ⟨.loop, .running⟩
          phase := .lookingUp dkey }

/-- Every step has one of the effects. -/
theorem effect_of_step
    {state next : State}
    {action : Action}
    (stepped : step state action = some next) :
    Effect state action next := by
  cases action with
  | begin id =>
      simp only [step] at stepped
      split at stepped
      · next free =>
          cases stepped
          exact .began free
      · cases stepped
  | openFeed dkey =>
      simp only [step] at stepped
      split at stepped
      · next task held =>
          cases stepped
          exact .opened held
      · cases stepped
  | finish =>
      simp only [step] at stepped
      split at stepped
      · next call held =>
          simp only [Option.ite_none_right_eq_some,
            Option.some.injEq] at stepped
          obtain ⟨returns, rfl⟩ := stepped
          exact .returned held returns
      · cases stepped
  | discoveryKey dkey =>
      cases stepped
      exact .notified
  | subscribeReplicator =>
      simp only [step, Option.ite_none_right_eq_some,
        Option.some.injEq] at stepped
      obtain ⟨subscribing, rfl⟩ := stepped
      exact .subscribed subscribing
  | takeFeed =>
      simp only [step] at stepped
      split at stepped
      · next dkey rest waiting queued =>
          cases stepped
          exact .taken waiting queued
      · cases stepped
  | addTaken =>
      simp only [step] at stepped
      split at stepped
      · next dkey adding =>
          cases stepped
          exact .added adding
      · cases stepped
  | takeReplicatorEvent =>
      simp only [step] at stepped
      split at stepped
      · next dkey rest waiting queued =>
          cases stepped
          exact .requested waiting queued
      · next dkey rest waiting queued =>
          cases stepped
          exact .ignored waiting queued
      · cases stepped
  | lookUp =>
      simp only [step] at stepped
      split at stepped
      · next dkey requesting free =>
          cases stepped
          exact .locked requesting free
      · cases stepped

/-! ## The invariant -/

/-- The loop's own call, and who may have overfilled the channel. -/
structure Consistent (state : State) : Prop where
  ownCall :
    (∃ dkey, state.phase = .lookingUp dkey) ↔
      ∃ stage, state.lock = some ⟨.loop, stage⟩
  overfull :
    capacity < state.queue.length →
    ∃ task, state.lock = some ⟨task, .emitting⟩

section

variable {state next : State} {action : Action}

@[simp] theorem notify_lock (event : ReplicatorEvent) :
    (state.notify event).lock = state.lock := by
  simp only [State.notify]
  split <;> rfl

@[simp] theorem notify_queue (event : ReplicatorEvent) :
    (state.notify event).queue = state.queue := by
  simp only [State.notify]
  split <;> rfl

@[simp] theorem notify_phase (event : ReplicatorEvent) :
    (state.notify event).phase = state.phase := by
  simp only [State.notify]
  split <;> rfl

/-- The start is consistent. -/
theorem consistent_start : Consistent .start where
  ownCall := by simp [State.start]
  overfull := by simp [State.start]

/-- A channel of which nobody waits in `emit` is not overfull. -/
theorem Consistent.not_overfull
    (consistent : Consistent state)
    (nobody : ∀ task, state.lock ≠ some ⟨task, .emitting⟩) :
    ¬ capacity < state.queue.length := by
  intro full
  obtain ⟨task, held⟩ := consistent.overfull full
  exact nobody task held

/-- A loop that holds no lock has no call of its own. -/
theorem Consistent.not_own
    (consistent : Consistent state)
    (elsewhere : ∀ dkey, state.phase ≠ .lookingUp dkey)
    {call : Call}
    (held : state.lock = some call) :
    call.task ≠ .loop := by
  intro isLoop
  obtain ⟨task, stage⟩ := call
  simp only at isLoop
  subst task
  obtain ⟨dkey, lookingUp⟩ := consistent.ownCall.mpr ⟨stage, held⟩
  exact elsewhere dkey lookingUp

/-- Every step keeps the state consistent. -/
theorem Consistent.step
    (consistent : Consistent state)
    (stepped : ReplicateLock.step state action = some next) :
    Consistent next := by
  have ownCall := consistent.ownCall
  cases effect_of_step stepped with
  | began free =>
      have room := consistent.not_overfull (by simp [free])
      exact ⟨by simpa [free] using ownCall,
        fun full => (room full).elim⟩
  | @opened dkey task held =>
      exact ⟨by simpa [held] using ownCall, fun _ => ⟨task, rfl⟩⟩
  | @returned call held returns =>
      refine ⟨?_, ?_⟩
      · obtain ⟨task, stage⟩ := call
        cases task with
        | loop =>
            simp [State.phaseAfter]
        | other id =>
            simpa [State.phaseAfter, held] using ownCall
      · intro full
        obtain ⟨task, isEmitting⟩ := consistent.overfull full
        rw [held] at isEmitting
        cases isEmitting
        rcases returns with isRunning | fits
        · cases isRunning
        · exact absurd full (Nat.not_lt.mpr fits)
  | notified =>
      exact ⟨by simpa using ownCall,
        by simpa using consistent.overfull⟩
  | subscribed subscribing =>
      exact ⟨by simpa [subscribing] using ownCall,
        consistent.overfull⟩
  | taken waiting queued =>
      refine ⟨by simpa [waiting] using ownCall, ?_⟩
      intro full
      apply consistent.overfull
      rw [queued, List.length_cons]
      exact Nat.lt_succ_of_lt full
  | added adding =>
      exact ⟨by simpa [adding] using ownCall,
        by simpa using consistent.overfull⟩
  | requested waiting queued =>
      exact ⟨by simpa [waiting] using ownCall, consistent.overfull⟩
  | ignored waiting queued =>
      exact ⟨ownCall, consistent.overfull⟩
  | locked requesting free =>
      have room := consistent.not_overfull (by simp [free])
      exact ⟨by simp, fun full => (room full).elim⟩

/-- Nothing releases a deadlock. -/
theorem Deadlocked.step
    (consistent : Consistent state)
    (deadlocked : state.Deadlocked)
    (stepped : ReplicateLock.step state action = some next) :
    next.Deadlocked := by
  obtain ⟨⟨task, stage⟩, ⟨held, isEmitting, full⟩, stuck⟩ := deadlocked
  simp only at isEmitting stuck
  subst stage
  have cannotTake : state.phase ≠ .waiting := by
    intro waiting
    rcases stuck with isLoop | ⟨dkey, requesting⟩
    · exact consistent.not_own (by simp [waiting]) held isLoop
    · rw [waiting] at requesting
      cases requesting
  have stays :
      ∀ other : State,
        other.lock = state.lock →
        other.queue = state.queue →
        (∀ dkey, state.phase = .requesting dkey →
          other.phase = state.phase) →
        other.Deadlocked := by
    intro other sameLock sameQueue samePhase
    refine ⟨⟨task, .emitting⟩,
      ⟨sameLock.trans held, rfl, sameQueue ▸ full⟩, ?_⟩
    rcases stuck with isLoop | ⟨dkey, requesting⟩
    · exact Or.inl isLoop
    · exact Or.inr
        ⟨dkey, (samePhase dkey requesting).trans requesting⟩
  cases effect_of_step stepped with
  | began free =>
      rw [held] at free
      cases free
  | opened isHeld =>
      rw [held] at isHeld
      cases isHeld
  | returned isHeld returns =>
      rw [held] at isHeld
      cases isHeld
      rcases returns with isRunning | fits
      · cases isRunning
      · exact absurd full (Nat.not_lt.mpr fits)
  | notified =>
      exact stays _ (by simp) (by simp) (by simp)
  | subscribed subscribing =>
      exact stays _ rfl rfl (by simp [subscribing])
  | taken waiting queued =>
      exact (cannotTake waiting).elim
  | added adding =>
      exact stays _ (by simp) (by simp) (by simp [adding])
  | requested waiting queued =>
      exact (cannotTake waiting).elim
  | ignored waiting queued =>
      exact (cannotTake waiting).elim
  | locked requesting free =>
      rw [held] at free
      cases free

/-- The state after a call has opened a feed. -/
theorem deadlocked_openFeed_iff
    (consistent : Consistent state)
    {dkey : Key}
    (stepped :
      ReplicateLock.step state (.openFeed dkey) = some next) :
    next.Deadlocked ↔ ¬ ChannelHasRoom state (.openFeed dkey) := by
  cases effect_of_step stepped with
  | @opened _ task held =>
      simp only [ChannelHasRoom, Classical.not_imp, Nat.not_lt]
      constructor
      · rintro ⟨call, ⟨isCall, _, full⟩, stuck⟩
        cases isCall
        simp only [List.length_append, List.length_singleton] at full
        refine ⟨?_, Nat.lt_succ_iff.mp full⟩
        rcases stuck with isLoop | ⟨other, requesting⟩
        · cases isLoop
          obtain ⟨other, lookingUp⟩ :=
            consistent.ownCall.mpr ⟨.running, held⟩
          simp [lookingUp, Phase.inLookup]
        · simp only at requesting
          simp [requesting, Phase.inLookup]
      · rintro ⟨inLookup, full⟩
        refine ⟨⟨task, .emitting⟩, ⟨rfl, rfl, ?_⟩, ?_⟩
        · simp only [List.length_append, List.length_singleton]
          exact Nat.lt_succ_of_le full
        · cases phase : state.phase with
          | requesting other =>
              exact Or.inr ⟨other, rfl⟩
          | lookingUp other =>
              obtain ⟨stage, ownLock⟩ :=
                consistent.ownCall.mp ⟨other, phase⟩
              rw [held] at ownLock
              cases ownLock
              exact Or.inl rfl
          | _ =>
              simp [phase, Phase.inLookup] at inLookup

/-- The state after the loop has taken an event of the replicator. -/
theorem deadlocked_takeReplicatorEvent_iff
    (consistent : Consistent state)
    (stepped :
      ReplicateLock.step state .takeReplicatorEvent = some next) :
    next.Deadlocked ↔ ¬ ChannelHasRoom state .takeReplicatorEvent := by
  cases effect_of_step stepped with
  | @requested dkey rest waiting queued =>
      simp only [ChannelHasRoom, queued, List.head?_cons,
        Classical.not_imp, Nat.not_le]
      constructor
      · rintro ⟨call, ⟨_, _, full⟩, _⟩
        exact ⟨⟨dkey, rfl⟩, full⟩
      · rintro ⟨_, full⟩
        obtain ⟨task, held⟩ := consistent.overfull full
        exact ⟨⟨task, .emitting⟩, ⟨held, rfl, full⟩,
          Or.inr ⟨dkey, rfl⟩⟩
  | @ignored dkey rest waiting queued =>
      simp only [ChannelHasRoom, queued, List.head?_cons,
        Classical.not_imp]
      constructor
      · rintro ⟨call, ⟨held, _, _⟩, stuck⟩
        rcases stuck with isLoop | ⟨other, requesting⟩
        · exact (consistent.not_own (by simp [waiting]) held
            isLoop).elim
        · simp only at requesting
          rw [waiting] at requesting
          cases requesting
      · rintro ⟨⟨other, isHead⟩, _⟩
        cases isHead

/-- Whoever waits in `emit` holds the lock, and has opened a feed. -/
theorem not_deadlocked_of_lock
    (nobody : ∀ task, state.lock ≠ some ⟨task, .emitting⟩) :
    ¬ state.Deadlocked := by
  rintro ⟨⟨task, stage⟩, ⟨held, isEmitting, _⟩, _⟩
  simp only at isEmitting
  subst stage
  exact nobody task held

/-- A step that meets the condition leads into no deadlock. -/
theorem not_deadlocked_step
    (consistent : Consistent state)
    (free : ¬ state.Deadlocked)
    (room : ChannelHasRoom state action)
    (stepped : ReplicateLock.step state action = some next) :
    ¬ next.Deadlocked := by
  have stays :
      ∀ other : State,
        other.lock = state.lock →
        other.queue.length ≤ state.queue.length →
        (∀ dkey, other.phase = .requesting dkey →
          state.phase = .requesting dkey) →
        ¬ other.Deadlocked := by
    rintro other sameLock shorter samePhase
      ⟨call, ⟨held, isEmitting, full⟩, stuck⟩
    refine free ⟨call, ⟨sameLock ▸ held, isEmitting,
      Nat.lt_of_lt_of_le full shorter⟩, ?_⟩
    exact stuck.imp_right fun ⟨dkey, requesting⟩ =>
      ⟨dkey, samePhase dkey requesting⟩
  cases effect_of_step stepped with
  | began isFree =>
      exact not_deadlocked_of_lock (by simp)
  | opened held =>
      rw [deadlocked_openFeed_iff consistent stepped]
      exact not_not_intro room
  | returned held returns =>
      exact not_deadlocked_of_lock (by simp)
  | notified =>
      exact stays _ (by simp) (by simp) (by simp)
  | subscribed subscribing =>
      exact stays _ rfl (Nat.le_refl _) (by simp)
  | taken waiting queued =>
      exact stays _ rfl (by simp [queued]) (by simp)
  | added adding =>
      exact stays _ (by simp) (by simp) (by simp)
  | requested waiting queued =>
      rw [deadlocked_takeReplicatorEvent_iff consistent stepped]
      exact not_not_intro room
  | ignored waiting queued =>
      rw [deadlocked_takeReplicatorEvent_iff consistent stepped]
      exact not_not_intro room
  | locked requesting isFree =>
      exact not_deadlocked_of_lock (by simp)

/-- A step that breaks the condition deadlocks. -/
theorem deadlocked_of_no_room
    (consistent : Consistent state)
    (noRoom : ¬ ChannelHasRoom state action)
    (stepped : ReplicateLock.step state action = some next) :
    next.Deadlocked := by
  cases action with
  | openFeed dkey =>
      exact (deadlocked_openFeed_iff consistent stepped).mpr noRoom
  | takeReplicatorEvent =>
      exact (deadlocked_takeReplicatorEvent_iff consistent
        stepped).mpr noRoom
  | _ =>
      exact (noRoom trivial).elim

/-- The start is not deadlocked. -/
theorem not_deadlocked_start : ¬ State.start.Deadlocked :=
  not_deadlocked_of_lock (by simp [State.start])

end

/--
A run ends without a deadlock, and so had none, exactly when no feed was opened
with a full channel while the loop was in `get_by_dkey`, and no discovery key
event was taken with an overfull channel.
-/
theorem not_deadlocked_iff
    {actions : List Action}
    {final : State}
    (ran : Machine.run step .start actions = some final) :
    ¬ final.Deadlocked ↔
      Machine.Along step ChannelHasRoom .start actions := by
  constructor
  · intro free
    have always :
        Machine.Along step (fun _ _ => True) .start actions :=
      Machine.along_of_forall (fun _ _ => trivial) _ _
    exact Machine.along_of_not_marked Consistent State.Deadlocked
      (fun consistent _ stepped => consistent.step stepped)
      (fun consistent _ noRoom stepped =>
        deadlocked_of_no_room consistent noRoom stepped)
      (fun consistent _ deadlocked stepped =>
        Deadlocked.step consistent deadlocked stepped)
      consistent_start always ran free
  · intro room
    exact (Machine.invariant_run_along
      (fun state => Consistent state ∧ ¬ state.Deadlocked)
      (fun holds condition stepped =>
        ⟨holds.1.step stepped,
          not_deadlocked_step holds.1 holds.2 condition stepped⟩)
      ⟨consistent_start, not_deadlocked_start⟩ room ran).2

/-- A feed is opened and announced, and the loop looks up another one. -/
def sampleActions : List Action :=
  [.subscribeReplicator, .begin 0, .openFeed sampleFoo.discoveryKey,
    .finish, .discoveryKey sampleEmpty.discoveryKey,
    .takeReplicatorEvent, .lookUp,
    .openFeed sampleEmpty.discoveryKey, .finish, .takeFeed, .addTaken]

/-- The loop opens a feed itself, with room in the channel. -/
theorem not_deadlocked_iff_sample :
    ∃ final,
      Machine.run step .start sampleActions = some final ∧
        final.queue = [sampleEmpty.discoveryKey] ∧
        ¬ final.Deadlocked := by
  have finishes :
      ∃ final,
        Machine.run step .start sampleActions = some final ∧
          final.queue = [sampleEmpty.discoveryKey] :=
    ⟨_, rfl, rfl⟩
  obtain ⟨final, ran, queued⟩ := finishes
  refine ⟨final, ran, queued, (not_deadlocked_iff ran).mpr ?_⟩
  refine ⟨trivial, trivial, ?_, trivial, trivial, ?_, trivial, ?_,
    trivial, trivial, trivial, trivial⟩
  · intro inLookup
    decide
  · intro discovered
    decide
  · intro inLookup
    decide

/-! ## A run into the deadlock -/

/-- A task opens a feed, and its call returns. -/
def openAndReturn (dkey : Key) : List Action :=
  [.begin 0, .openFeed dkey, .finish]

/-- Feeds can be opened one after the other as long as the channel has room. -/
theorem run_openAndReturn
    (state : State)
    (dkeys : List Key)
    (free : state.lock = none)
    (room : state.queue.length + dkeys.length ≤ capacity) :
    Machine.run step state (dkeys.flatMap openAndReturn) =
      some { state with queue := state.queue ++ dkeys } := by
  induction dkeys generalizing state with
  | nil =>
      simp
  | cons dkey rest inductionHypothesis =>
      have fits : (state.queue ++ [dkey]).length ≤ capacity := by
        simp only [List.length_append, List.length_cons,
          List.length_nil] at room ⊢
        omega
      have opened :
          Machine.run step state (openAndReturn dkey) =
            some { state with queue := state.queue ++ [dkey] } := by
        simp only [openAndReturn, Machine.run, step, free, fits,
          or_true, ↓reduceIte, State.phaseAfter]
      have later :
          Machine.run step
              { state with queue := state.queue ++ [dkey] }
              (rest.flatMap openAndReturn) =
            some { state with
              queue := state.queue ++ [dkey] ++ rest } :=
        inductionHypothesis _ free (by
          simp only [List.length_append, List.length_cons,
            List.length_nil] at room ⊢
          omega)
      rw [List.flatMap_cons, Machine.run_append opened later]
      simp

/-- The discovery keys of a hundred feeds. -/
def hundredKeys : List Key :=
  (List.range 100).map fun number => Key.constant (UInt8.ofNat number)

/--
A hundred feeds are opened and wait in the channel; one more call opens a feed
and blocks; the loop takes a discovery key event.
-/
def deadlockingActions : List Action :=
  [.subscribeReplicator] ++
    (hundredKeys.flatMap openAndReturn ++
      [.begin 1, .openFeed sampleFoo.discoveryKey,
        .discoveryKey sampleEmpty.discoveryKey, .takeReplicatorEvent])

/-- The run ends with the call and the loop waiting for one another. -/
theorem full_channel_deadlocks :
    ∃ final,
      Machine.run step .start deadlockingActions = some final ∧
        final.Deadlocked := by
  have opened :=
    run_openAndReturn { State.start with phase := .waiting }
      hundredKeys rfl
      (by simp [State.start, hundredKeys, capacity])
  refine ⟨_,
    Machine.run_append rfl (Machine.run_append opened rfl),
    ⟨.other 1, .emitting⟩, ⟨rfl, rfl, ?_⟩, Or.inr ⟨_, rfl⟩⟩
  simp [State.start, hundredKeys, capacity, State.notify,
    Phase.listens]

end Hyperspace.ReplicateLock
