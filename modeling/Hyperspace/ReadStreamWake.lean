import Hyperspace.Machine
import Hyperspace.ReadStream

namespace Hyperspace

/-!
# Wake-ups of a live block stream

A live `ReadStream` that has come to the end of its feed decides to wait for an
event, and subscribes only when it is polled the next time.  This module
interleaves the polls of one stream with the events handled for its core, and
determines in which runs the stream comes to wait for a block that an append
handled earlier has already announced.
-/

namespace ReadStreamWake

/--
A stream and its core.  `appended` is the length of the last `AppendEvent`
handled for the core; nothing in the source records it.
-/
structure State where
  inner : InnerHypercore
  stream : ReadStream
  appended : Nat
  deriving Repr, DecidableEq

/-- A new stream of a core, before any event is handled. -/
def initial
    (inner : InnerHypercore)
    (start : Nat)
    (stop : Option Nat)
    (live : Bool) : State where
  inner := inner
  stream := .new start stop live
  appended := 0

/-- The consumer polls, or the client handles an event of the server. -/
inductive Action where
  | poll (reply : Option GetOutput)
  | onAppend (length byteLength : Nat)
  | onDownload (seq : Nat) (byteLength : Option Nat)

/-- One step; a poll that panics leaves no stream. -/
def step (overflowChecks : Bool) (state : State) :
    Action → Option State
  | .poll reply =>
      let polled :=
        state.stream.pollNext overflowChecks reply state.inner
      match polled.result with
      | .panicked _ => none
      | _ =>
          some { state with
            inner := polled.inner
            stream := polled.stream }
  | .onAppend length byteLength =>
      some { state with
        inner := state.inner.onAppend length byteLength
        appended := length }
  | .onDownload seq byteLength =>
      some { state with
        inner := state.inner.onDownload seq byteLength }

/--
The stream waits for an event, none is queued, and yet the block it waits for
is below the cached length because of an append handled before.
-/
def Lost (state : State) : Prop :=
  ∃ seq listener,
    state.stream.future = .listening seq listener ∧
      state.inner.listeners[listener]? = some [] ∧
        seq < state.inner.length ∧ seq < state.appended

/--
When `onappend_get` is polled for the first time, no append handled so far
reaches the block it is to wait for.
-/
def SubscribesInTime (state : State) : Action → Prop
  | .poll _ =>
      ∀ seq,
        state.stream.finished = false →
        state.stream.future = .onAppendGet seq →
        state.appended ≤ seq
  | _ => True

/-- The cached length reaches the last append. -/
def ReachesAppend (state : State) : Prop :=
  state.appended ≤ state.inner.length

/--
A waiting stream has a listener, and an append that reaches its block is still
queued there.
-/
def Wakes (state : State) : Prop :=
  ∀ seq listener,
    state.stream.future = .listening seq listener →
    ∃ queue,
      state.inner.listeners[listener]? = some queue ∧
        (.append ∉ queue → state.appended ≤ seq)

section

variable
  {overflowChecks : Bool}
  {reply : Option GetOutput}
  {inner : InnerHypercore}

/-- A poll of a future does not change the cached length. -/
@[simp] theorem poll_length (future : GetFuture) :
    (future.poll reply inner).inner.length = inner.length := by
  cases future with
  | get seq =>
      rfl
  | requested seq =>
      rfl
  | onAppendGet seq =>
      rfl
  | listening seq listener =>
      simp only [GetFuture.poll]
      split <;> rfl

/-- A stream never waits right after it has returned an item. -/
theorem nextFuture_ne_listening (len index seq listener : Nat) :
    ReadStream.nextFuture len index ≠ .listening seq listener := by
  rw [ReadStream.nextFuture]
  split <;> simp

/--
What a poll does that returns normally: nothing if the stream has ended, and
else what the poll of its future does to the core.  If the stream waits for an
event afterwards, its future does.
-/
theorem pollNext_cases
    (overflowChecks : Bool)
    (reply : Option GetOutput)
    (inner : InnerHypercore)
    (stream : ReadStream) :
    ((stream.pollNext overflowChecks reply inner).inner = inner ∧
        (stream.pollNext overflowChecks reply inner).stream =
          stream) ∨
      (stream.finished = false ∧
        (stream.pollNext overflowChecks reply inner).inner =
          (stream.future.poll reply inner).inner ∧
        ∀ seq listener,
          (stream.pollNext overflowChecks reply inner).stream.future =
            .listening seq listener →
          (stream.future.poll reply inner).future =
            .listening seq listener) := by
  simp only [ReadStream.pollNext]
  by_cases finished : stream.finished = true
  · rw [if_pos finished]
    exact Or.inl ⟨rfl, rfl⟩
  · rw [if_neg finished]
    refine Or.inr ⟨by simpa using finished, ?_⟩
    cases (stream.future.poll reply inner).output with
    | none =>
        exact ⟨rfl, fun _ _ waits => waits⟩
    | some output =>
        cases addU64 overflowChecks stream.index 1 with
        | none =>
            exact ⟨rfl, fun _ _ waits => waits⟩
        | some index =>
            simp only
            split
            · exact ⟨rfl, fun _ _ waits => waits⟩
            · refine ⟨rfl, ?_⟩
              intro seq listener waits
              exact absurd waits (nextFuture_ne_listening _ _ _ _)

/-- What a future that waits after a poll has done in it. -/
theorem poll_listening
    {future : GetFuture}
    {seq listener : Nat}
    (waits :
      (future.poll reply inner).future = .listening seq listener) :
    (future = .onAppendGet seq ∧
        (future.poll reply inner).inner.listeners[listener]? =
          some []) ∨
      (future = .listening seq listener ∧
        .append ∉ inner.listeners.getD listener [] ∧
          (future.poll reply inner).inner.listeners =
            inner.listeners.set listener []) := by
  cases future with
  | get other =>
      cases waits
  | requested other =>
      cases waits
  | onAppendGet other =>
      cases waits
      left
      simp [GetFuture.poll, InnerHypercore.subscribe]
  | listening other otherListener =>
      simp only [GetFuture.poll] at waits ⊢
      split at waits
      · cases waits
      · next rest ended =>
          cases waits
          obtain ⟨noAppend, rfl⟩ := GetFuture.takeEvent_false ended
          exact Or.inr ⟨rfl, noAppend, rfl⟩

end

section

variable
  {overflowChecks : Bool}
  {state next : State}
  {action : Action}

/-- What a poll that does not panic does to the state. -/
theorem step_poll
    {reply : Option GetOutput}
    (stepped : step overflowChecks state (.poll reply) = some next) :
    next =
      { state with
        inner :=
          (state.stream.pollNext overflowChecks reply
            state.inner).inner
        stream :=
          (state.stream.pollNext overflowChecks reply
            state.inner).stream } := by
  simp only [step] at stepped
  split at stepped
  · cases stepped
  · exact (Option.some.inj stepped).symm

/-- Every step keeps the cached length at the last append or above. -/
theorem ReachesAppend.step
    (reaches : ReachesAppend state)
    (stepped :
      ReadStreamWake.step overflowChecks state action = some next) :
    ReachesAppend next := by
  cases action with
  | poll reply =>
      rw [ReachesAppend] at reaches ⊢
      rw [step_poll stepped]
      rcases
        pollNext_cases overflowChecks reply state.inner
          state.stream with
        ⟨sameInner, _⟩ | ⟨_, sameInner, _⟩
      · simpa [sameInner] using reaches
      · simpa [sameInner] using reaches
  | onAppend length byteLength =>
      cases stepped
      simp [ReachesAppend]
  | onDownload seq byteLength =>
      cases stepped
      rw [ReachesAppend, InnerHypercore.onDownload_length]
      exact le_trans reaches (le_max_left _ _)

/-- A poll keeps the wake-up if the stream subscribes in time. -/
theorem Wakes.poll
    {reply : Option GetOutput}
    (wakes : Wakes state)
    (inTime : SubscribesInTime state (.poll reply))
    (stepped :
      ReadStreamWake.step overflowChecks state (.poll reply) =
        some next) :
    Wakes next := by
  rw [step_poll stepped]
  intro seq listener waits
  rcases
    pollNext_cases overflowChecks reply state.inner state.stream with
    ⟨sameInner, sameStream⟩ | ⟨unfinished, sameInner, fromFuture⟩
  · simp only [sameInner, sameStream] at waits ⊢
    exact wakes seq listener waits
  · simp only [sameInner] at waits ⊢
    rcases poll_listening (fromFuture seq listener waits) with
      ⟨unpolled, empty⟩ | ⟨waited, noAppend, emptied⟩
    · exact ⟨[], empty, fun _ => inTime seq unfinished unpolled⟩
    · obtain ⟨queue, found, queued⟩ := wakes seq listener waited
      refine ⟨[], ?_, fun _ => queued ?_⟩
      · rw [emptied]
        simp [(List.getElem?_eq_some_iff.mp found).1]
      · simpa [List.getD, found] using noAppend

/-- Every step keeps the wake-up if the stream subscribes in time. -/
theorem Wakes.step
    (wakes : Wakes state)
    (inTime : SubscribesInTime state action)
    (stepped :
      ReadStreamWake.step overflowChecks state action = some next) :
    Wakes next := by
  cases action with
  | poll reply =>
      exact wakes.poll inTime stepped
  | onAppend length byteLength =>
      cases stepped
      intro seq listener waits
      obtain ⟨queue, found, _⟩ := wakes seq listener waits
      refine ⟨queue ++ [.append], ?_, by simp⟩
      simp [InnerHypercore.onAppend_listeners, found]
  | onDownload downloaded byteLength =>
      cases stepped
      intro seq listener waits
      obtain ⟨queue, found, queued⟩ := wakes seq listener waits
      refine ⟨queue ++ [.download downloaded], ?_, ?_⟩
      · simp [InnerHypercore.onDownload_listeners, found]
      · intro noAppend
        exact queued (fun member => noAppend (by simp [member]))

/-- A stream whose wake-up is queued is not lost. -/
theorem Wakes.not_lost (wakes : Wakes state) : ¬ Lost state := by
  rintro ⟨seq, listener, waits, empty, _, reached⟩
  obtain ⟨queue, found, queued⟩ := wakes seq listener waits
  rw [empty] at found
  cases found
  have late := queued (by simp)
  omega

/-- A stream that subscribes too late is lost at once. -/
theorem lost_of_late
    (reaches : ReachesAppend state)
    (late : ¬ SubscribesInTime state action) :
    ∃ next,
      step overflowChecks state action = some next ∧ Lost next := by
  cases action with
  | poll reply =>
      simp only [SubscribesInTime, not_forall, not_le] at late
      obtain ⟨seq, unfinished, unpolled, reached⟩ := late
      have polled :
          state.stream.pollNext overflowChecks reply state.inner =
            ⟨state.inner.subscribe,
              { state.stream with
                future :=
                  .listening seq state.inner.listeners.length },
              none, .pending⟩ := by
        simp [ReadStream.pollNext, unfinished, unpolled,
          GetFuture.poll]
      refine
        ⟨{ state with
            inner := state.inner.subscribe
            stream :=
              { state.stream with
                future :=
                  .listening seq state.inner.listeners.length } },
          by simp [step, polled], seq,
          state.inner.listeners.length, rfl, ?_, ?_, reached⟩
      · simp [InnerHypercore.subscribe]
      · exact lt_of_lt_of_le reached reaches
  | onAppend length byteLength =>
      exact absurd trivial late
  | onDownload seq byteLength =>
      exact absurd trivial late

end

/-- No step of a run leads to a lost stream. -/
def NeverLost
    (overflowChecks : Bool)
    (state : State)
    (actions : List Action) : Prop :=
  Machine.Along (step overflowChecks)
    (fun before action =>
      ∀ next,
        step overflowChecks before action = some next → ¬ Lost next)
    state actions

/--
A stream loses no wake-up in a run exactly when, each time it subscribes, no
append handled before reaches the block it is to wait for.
-/
theorem never_lost_iff
    (overflowChecks : Bool)
    (inner : InnerHypercore)
    (start : Nat)
    (stop : Option Nat)
    (live : Bool)
    (actions : List Action) :
    NeverLost overflowChecks (initial inner start stop live) actions ↔
      Machine.Along (step overflowChecks) SubscribesInTime
        (initial inner start stop live) actions := by
  constructor
  · intro neverLost
    refine
      Machine.along_imp ReachesAppend
        (fun reaches _ stepped => reaches.step stepped)
        ?_ (Nat.zero_le _) neverLost
    intro state action reaches notLost
    by_contra late
    obtain ⟨next, stepped, lost⟩ := lost_of_late reaches late
    exact notLost next stepped lost
  · intro inTime
    refine
      Machine.along_imp Wakes
        (fun wakes subscribes stepped => wakes.step subscribes stepped)
        ?_ ?_ inTime
    · intro state action wakes subscribes next stepped
      exact (wakes.step subscribes stepped).not_lost
    · intro seq listener waits
      cases waits

/-- A core opened with one block. -/
def oneBlock : InnerHypercore :=
  (InnerHypercore.new none (some "foo")).onOpenResponse
    ⟨sampleFoo.publicKey.bytes, 1, 3, true⟩

/-- An append is handled between the decision to wait and the next poll. -/
def appendInBetween : List Action :=
  [.poll (some (.ok (some [1, 2, 3]))), .onAppend 2 6, .poll none]

/--
A live stream decides to wait for block 1, the append of that block is handled,
and the stream then waits for an event with nothing queued.
-/
theorem append_before_subscription_lost :
    ¬ (∀ overflowChecks inner start actions state,
      Machine.run (step overflowChecks)
          (initial inner start none true) actions = some state →
      ¬ Lost state) := by
  intro always
  exact always true oneBlock 0 appendInBetween _ rfl
    ⟨1, 0, rfl, rfl, by decide, by decide⟩

end ReadStreamWake

end Hyperspace
