import Hyperspace.ReadStreamRange

namespace Hyperspace

/-!
# Live block streams

A live `ReadStream` without an end is to follow its feed: it yields block after
block, and at the cached length of the core it waits for an event.  It decides
between the two by comparing its index with the cached length for equality, so
it must never have passed the length.

An event that ends the wait need not be news: each block of a batch is announced
with the length of the feed at the time of the announcement, so that the same
length may be announced more than once.

This module interleaves the polls of one stream with appends to the feed, the
events that tell the client of them, and the answers of the server, each of
which is given at some time between the request and the poll that sees it.
-/

namespace ReadStreamLive

open ReadStreamRange (Reader results_append poll_get)

/--
A stream of a feed that grows.  `sentLength` is the length that the feed had
when the request in flight was sent.
-/
structure State where
  reader : Reader
  feedLength : Nat
  sentLength : Nat
  deriving Repr, DecidableEq

/-- A new live stream without an end. -/
def initial
    (inner : InnerHypercore)
    (start feedLength : Nat) : State where
  reader := .new inner start none true
  feedLength := feedLength
  sentLength := feedLength

/-- What can happen. -/
inductive Action where
  /-- A poll; if the answer is there, with the feed's length in it. -/
  | poll (answered : Option Nat)
  /-- Blocks are appended to the feed. -/
  | append (count : Nat)
  | onAppend (length byteLength : Nat)
  | onDownload (seq : Nat) (byteLength : Option Nat)
  deriving Repr, DecidableEq

/-- The answer of the server when the feed has a length. -/
def answer (block : Nat → Bytes) (seq length : Nat) : GetOutput :=
  if seq < length then .ok (some (block seq)) else .ok none

/-- Whether a future has sent its request. -/
def requestSent : GetFuture → Bool
  | .requested _ => true
  | _ => false

/-- The length of the feed when the request of this poll is sent or was. -/
def State.limit (state : State) : Nat :=
  if requestSent state.reader.stream.future then
    state.sentLength
  else
    state.feedLength

/-- One step. -/
def step
    (overflowChecks : Bool)
    (block : Nat → Bytes)
    (state : State) : Action → Option State
  | .poll answered =>
      (state.reader.poll overflowChecks
        (answered.map (answer block state.reader.wanted))).map
        fun reader =>
          { state with reader := reader, sentLength := state.limit }
  | .append count =>
      some { state with feedLength := state.feedLength + count }
  | .onAppend length byteLength =>
      some { state with
        reader :=
          { state.reader with
            inner := state.reader.inner.onAppend length byteLength } }
  | .onDownload seq byteLength =>
      some { state with
        reader :=
          { state.reader with
            inner := state.reader.inner.onDownload seq byteLength } }

/--
What the environment does: it answers a request after it was sent, it tells of
blocks that are in the feed, and its events do not lower the cached length.
-/
def Allowed (state : State) : Action → Prop
  | .poll answered =>
      ∀ length ∈ answered,
        state.limit ≤ length ∧ length ≤ state.feedLength
  | .append count => state.feedLength + count < 2 ^ 64
  | .onAppend length _ =>
      state.reader.inner.length ≤ length ∧ length ≤ state.feedLength
  | .onDownload seq _ => seq < state.feedLength

/-- Whether the environment may take a step can be decided. -/
instance decidableAllowed (state : State) :
    (action : Action) → Decidable (Allowed state action)
  | .poll answered =>
      inferInstanceAs (Decidable
        (∀ length ∈ answered,
          state.limit ≤ length ∧ length ≤ state.feedLength))
  | .append count =>
      inferInstanceAs (Decidable (state.feedLength + count < 2 ^ 64))
  | .onAppend length _ =>
      inferInstanceAs (Decidable
        (state.reader.inner.length ≤ length ∧
          length ≤ state.feedLength))
  | .onDownload seq _ =>
      inferInstanceAs (Decidable (seq < state.feedLength))

/-- Whether a future waits for an event. -/
def waits : GetFuture → Bool
  | .listening _ _ => true
  | _ => false

/--
An `AppendEvent` that is handled while the stream waits for the block at the
cached length raises that length.
-/
def TellsOfMore (state : State) : Action → Prop
  | .onAppend length _ =>
      waits state.reader.stream.future = true →
      state.reader.stream.index = state.reader.inner.length →
      state.reader.inner.length < length
  | _ => True

/-- Whether an event tells of more can be decided. -/
instance decidableTellsOfMore (state : State) :
    (action : Action) → Decidable (TellsOfMore state action)
  | .onAppend length _ =>
      inferInstanceAs (Decidable
        (waits state.reader.stream.future = true →
          state.reader.stream.index = state.reader.inner.length →
          state.reader.inner.length < length))
  | .poll _ => inferInstanceAs (Decidable True)
  | .append _ => inferInstanceAs (Decidable True)
  | .onDownload _ _ => inferInstanceAs (Decidable True)

/--
The stream has requested blocks of the feed only, and the items it has yielded
are the blocks from its start on.
-/
structure Delivered
    (block : Nat → Bytes)
    (start : Nat)
    (state : State) : Prop where
  requests : ∀ seq ∈ state.reader.requests, seq < state.feedLength
  results :
    ∀ (place : Nat) (result : Option ReadStream.Item),
      state.reader.results[place]? = some result →
      result = some (.ok (block (start + place)))

/-- In one run the stream delivers its feed, and no poll panics. -/
def DeliversIn
    (overflowChecks : Bool)
    (block : Nat → Bytes)
    (inner : InnerHypercore)
    (start feedLength : Nat)
    (actions : List Action) : Prop :=
  ∃ final,
    Machine.run (step overflowChecks block)
        (initial inner start feedLength) actions =
      some final ∧
    Delivered block start final

/-- In every run the stream delivers its feed. -/
def Delivers
    (overflowChecks : Bool)
    (block : Nat → Bytes)
    (inner : InnerHypercore)
    (start : Nat) : Prop :=
  ∀ feedLength actions,
    inner.length ≤ feedLength →
    feedLength < 2 ^ 64 →
    Machine.Along (step overflowChecks block) Allowed
      (initial inner start feedLength) actions →
    DeliversIn overflowChecks block inner start feedLength actions

/-- Polls alone lead to a state in which the stream has not delivered. -/
def FailsByPolls
    (overflowChecks : Bool)
    (block : Nat → Bytes)
    (start : Nat)
    (state : State) : Prop :=
  ∃ (polls : List (Option Nat)) (final : State),
    Machine.Along (step overflowChecks block) Allowed state
        (polls.map .poll) ∧
      Machine.run (step overflowChecks block) state (polls.map .poll) =
        some final ∧
      ¬ Delivered block start final

/--
The future of a stream at an index: it gets a block below the cached length, or
it waits, and an event that ends the wait has raised the length over the index.
-/
def Ready
    (inner : InnerHypercore)
    (sentLength index : Nat) : GetFuture → Prop
  | .get seq => seq = index ∧ index < inner.length
  | .requested seq =>
      seq = index ∧ index < inner.length ∧ index < sentLength
  | .onAppendGet seq => seq = index ∧ index ≤ inner.length
  | .listening seq listener =>
      seq = index ∧ index ≤ inner.length ∧
        listener < inner.listeners.length ∧
        ∀ event ∈ inner.listeners.getD listener [],
          GetFuture.Ends seq event → index < inner.length

/-- The invariant of a stream that begins below the cached length. -/
structure Following
    (block : Nat → Bytes)
    (start : Nat)
    (state : State) : Prop where
  live : state.reader.stream.live = true
  unbounded : state.reader.stream.stop = none
  unfinished : state.reader.stream.finished = false
  cached : state.reader.inner.length ≤ state.feedLength
  fits : state.feedLength < 2 ^ 64
  sent : state.sentLength ≤ state.feedLength
  index :
    state.reader.stream.index = start + state.reader.results.length
  future :
    Ready state.reader.inner state.sentLength state.reader.stream.index
      state.reader.stream.future
  delivered : Delivered block start state

section

variable
  {overflowChecks : Bool}
  {block : Nat → Bytes}
  {inner : InnerHypercore}
  {start : Nat}
  {state : State}

/-- What a poll of the future at an index does. -/
structure PollsAt
    (inner : InnerHypercore)
    (limit index : Nat)
    (reply : Option GetOutput)
    (polled : GetFuture.Polled) : Prop where
  length : polled.inner.length = inner.length
  request : ∀ seq ∈ polled.request, seq = index ∧ index < inner.length
  pending :
    polled.output = none → Ready polled.inner limit index polled.future
  output :
    ∀ output ∈ polled.output,
      reply = some output ∧ index < inner.length ∧ index < limit

/-- A future that sends its request, or has sent it, and takes the answer. -/
theorem pollsAt_requested
    {limit index : Nat}
    {after : InnerHypercore}
    {request : Option Nat}
    (sameLength : after.length = inner.length)
    (isIndex : ∀ seq ∈ request, seq = index)
    (below : index < inner.length)
    (inFeed : index < limit)
    (reply : Option GetOutput) :
    PollsAt inner limit index reply
      ⟨after, .requested index, request, reply⟩ where
  length := sameLength
  request := fun seq isRequest => ⟨isIndex seq isRequest, below⟩
  pending := fun _ => ⟨rfl, by rw [sameLength]; exact below, inFeed⟩
  output := fun _ isOutput => ⟨isOutput, below, inFeed⟩

/-- A future that waits for an event, with none in its queue. -/
theorem pollsAt_listening
    {limit index listener : Nat}
    {after : InnerHypercore}
    (sameLength : after.length = inner.length)
    (notPassed : index ≤ inner.length)
    (inside : listener < after.listeners.length)
    (empty : after.listeners.getD listener [] = [])
    (reply : Option GetOutput) :
    PollsAt inner limit index reply
      ⟨after, .listening index listener, none, none⟩ where
  length := sameLength
  request := by
    intro seq isRequest
    cases isRequest
  pending := by
    intro _
    refine ⟨rfl, by rw [sameLength]; exact notPassed, inside, ?_⟩
    intro event member
    rw [empty] at member
    cases member
  output := by
    intro output isOutput
    cases isOutput

/-- A poll of a future that is ready at an index. -/
theorem Ready.poll
    {sentLength feedLength index : Nat}
    {future : GetFuture}
    (ready : Ready inner sentLength index future)
    (cached : inner.length ≤ feedLength)
    (reply : Option GetOutput) :
    PollsAt inner
      (if requestSent future then sentLength else feedLength) index reply
      (future.poll reply inner) := by
  cases future with
  | get seq =>
      obtain ⟨rfl, below⟩ := ready
      exact pollsAt_requested rfl (by simp) below
        (Nat.lt_of_lt_of_le below cached) reply
  | requested seq =>
      obtain ⟨rfl, below, inFeed⟩ := ready
      exact pollsAt_requested rfl (by simp) below inFeed reply
  | onAppendGet seq =>
      obtain ⟨rfl, notPassed⟩ := ready
      refine pollsAt_listening ?_ notPassed ?_ ?_ reply
      · rfl
      · simp [InnerHypercore.subscribe]
      · simp [InnerHypercore.subscribe]
  | listening seq listener =>
      obtain ⟨rfl, notPassed, inside, raised⟩ := ready
      simp only [GetFuture.poll, requestSent, Bool.false_eq_true,
        if_false]
      split
      · next rest taken =>
          obtain ⟨event, member, ends⟩ :=
            GetFuture.exists_ends_of_takeEvent taken
          have below := raised event member ends
          refine pollsAt_requested ?_ ?_ below
            (Nat.lt_of_lt_of_le below cached) reply
          · rfl
          · simp
      · next rest taken =>
          obtain ⟨_, rfl⟩ := GetFuture.takeEvent_false taken
          refine pollsAt_listening ?_ notPassed ?_ ?_ reply
          · rfl
          · simpa using inside
          · simp [List.getElem?_set_self inside]

/-- The future wants the block at the index. -/
theorem Ready.seq_eq
    {sentLength index : Nat}
    {future : GetFuture}
    (ready : Ready inner sentLength index future) :
    future.seq = index := by
  cases future with
  | get seq =>
      exact ready.1
  | requested seq =>
      exact ready.1
  | onAppendGet seq =>
      exact ready.1
  | listening seq listener =>
      exact ready.1

/-- The listeners after an event, by their place. -/
theorem getD_listeners_emit
    {after : InnerHypercore}
    {event : HypercoreEvent}
    (queued :
      after.listeners = inner.listeners.map fun queue => queue ++ [event])
    {listener : Nat}
    (inside : listener < inner.listeners.length) :
    after.listeners.getD listener [] =
      inner.listeners.getD listener [] ++ [event] := by
  rw [queued, List.getD_eq_getElem?_getD, List.getD_eq_getElem?_getD,
    List.getElem?_map, List.getElem?_eq_getElem inside]
  rfl

/-- An event that raises the cached length keeps the future ready. -/
theorem Ready.emit
    {after : InnerHypercore}
    {sentLength index : Nat}
    {future : GetFuture}
    {event : HypercoreEvent}
    (ready : Ready inner sentLength index future)
    (raised : inner.length ≤ after.length)
    (queued :
      after.listeners = inner.listeners.map fun queue => queue ++ [event])
    (wakes :
      waits future = true →
      GetFuture.Ends index event →
      index ≤ inner.length →
      index < after.length) :
    Ready after sentLength index future := by
  cases future with
  | get seq =>
      exact ⟨ready.1, Nat.lt_of_lt_of_le ready.2 raised⟩
  | requested seq =>
      exact ⟨ready.1, Nat.lt_of_lt_of_le ready.2.1 raised, ready.2.2⟩
  | onAppendGet seq =>
      exact ⟨ready.1, ready.2.trans raised⟩
  | listening seq listener =>
      obtain ⟨rfl, notPassed, inside, before⟩ := ready
      refine ⟨rfl, notPassed.trans raised, ?_, ?_⟩
      · rw [queued, List.length_map]
        exact inside
      · intro other member ends
        rw [getD_listeners_emit queued inside, List.mem_append,
          List.mem_singleton] at member
        rcases member with old | rfl
        · exact Nat.lt_of_lt_of_le (before other old ends) raised
        · exact wakes rfl ends notPassed

/-- A stream that begins below the cached length follows its feed. -/
theorem following_initial
    {feedLength : Nat}
    (below : start < inner.length)
    (cached : inner.length ≤ feedLength)
    (fits : feedLength < 2 ^ 64) :
    Following block start (initial inner start feedLength) where
  live := rfl
  unbounded := rfl
  unfinished := rfl
  cached := cached
  fits := fits
  sent := Nat.le_refl _
  index := rfl
  future := ⟨rfl, below⟩
  delivered := ⟨by simp [initial, Reader.new], by simp [initial, Reader.new]⟩

/-- The requests after one for a block of the feed. -/
theorem Delivered.requests_append
    (delivered : Delivered block start state)
    {index : Nat}
    {request : Option Nat}
    (isIndex :
      ∀ seq ∈ request, seq = index ∧ index < state.reader.inner.length)
    (cached : state.reader.inner.length ≤ state.feedLength) :
    ∀ seq ∈ state.reader.requests ++ request.toList,
      seq < state.feedLength := by
  intro seq member
  rcases List.mem_append.mp member with old | new
  · exact delivered.requests seq old
  · obtain ⟨rfl, below⟩ := isIndex seq (by simpa using new)
    exact Nat.lt_of_lt_of_le below cached

/-- A poll keeps the stream following. -/
theorem Following.poll
    (following : Following block start state)
    {answered : Option Nat}
    (allowed : Allowed state (.poll answered)) :
    ∃ next,
      step overflowChecks block state (.poll answered) = some next ∧
        Following block start next := by
  have wanted :
      state.reader.wanted = state.reader.stream.index :=
    following.future.seq_eq
  have limited : state.limit ≤ state.feedLength := by
    rw [State.limit]
    split
    · exact following.sent
    · exact Nat.le_refl _
  have polls :
      PollsAt state.reader.inner state.limit state.reader.stream.index
        (answered.map (answer block state.reader.wanted))
        (state.reader.stream.future.poll
          (answered.map (answer block state.reader.wanted))
          state.reader.inner) :=
    following.future.poll following.cached _
  have requests :=
    following.delivered.requests_append polls.request following.cached
  have cached := following.cached
  rw [← polls.length] at cached
  cases output :
      (state.reader.stream.future.poll
        (answered.map (answer block state.reader.wanted))
        state.reader.inner).output with
  | none =>
      have waits :=
        ReadStream.pollNext_of_pending overflowChecks
          following.unfinished output
      refine ⟨_, by simp only [step, Reader.poll, waits]; rfl, ?_⟩
      exact ⟨following.live, following.unbounded, following.unfinished,
        cached, following.fits, limited, following.index,
        polls.pending output, requests, following.delivered.results⟩
  | some result =>
      obtain ⟨isReply, below, inFeed⟩ := polls.output result output
      have bounded := following.fits
      have cachedBefore := following.cached
      have completes :=
        ReadStream.pollNext_of_output overflowChecks
          following.unfinished (by omega) output
      have isBlock :
          ReadStream.transpose result =
            some (.ok (block (start + state.reader.results.length))) := by
        obtain ⟨length, isAnswered, isAnswer⟩ :=
          Option.map_eq_some_iff.mp isReply
        have later := (allowed length isAnswered).1
        rw [← isAnswer, answer, wanted, if_pos (by omega),
          following.index]
        rfl
      refine ⟨_, by simp only [step, Reader.poll, completes]; rfl, ?_⟩
      have results :=
        results_append following.delivered.results isBlock
      simp only [following.unbounded, Option.getD_none, polls.length,
        ReadStream.advanced, following.live, Bool.true_eq_false,
        and_false, if_false]
      refine ⟨rfl, rfl, following.unfinished, cached, following.fits,
        limited, ?_, ?_, requests, results⟩
      · have isIndex := following.index
        simp only [List.length_append, List.length_singleton]
        omega
      · simp only [ReadStream.nextFuture]
        split
        · next atEnd =>
            exact ⟨rfl, by rw [polls.length]; omega⟩
        · next before =>
            exact ⟨rfl, by rw [polls.length]; omega⟩

/-- Every step of the environment keeps the stream following. -/
theorem Following.step
    (following : Following block start state)
    {action : Action}
    (allowed : Allowed state action)
    (tellsOfMore : TellsOfMore state action) :
    ∃ next,
      ReadStreamLive.step overflowChecks block state action =
          some next ∧
        Following block start next := by
  cases action with
  | poll answered =>
      exact following.poll allowed
  | append count =>
      have longer :
          state.feedLength ≤ state.feedLength + count :=
        Nat.le_add_right _ _
      refine ⟨_, rfl, following.live, following.unbounded,
        following.unfinished, following.cached.trans longer, allowed,
        following.sent.trans longer, following.index, following.future,
        ?_, following.delivered.results⟩
      intro seq member
      exact Nat.lt_of_lt_of_le
        (following.delivered.requests seq member) longer
  | onAppend length byteLength =>
      obtain ⟨raises, inFeed⟩ := allowed
      refine ⟨_, rfl, following.live, following.unbounded,
        following.unfinished, ?_, following.fits, following.sent,
        following.index, ?_, following.delivered.requests,
        following.delivered.results⟩
      · simpa using inFeed
      · refine following.future.emit ?_
          (InnerHypercore.onAppend_listeners _ _ _) ?_
        · rw [InnerHypercore.onAppend_length]
          exact raises
        · intro waiting _ notPassed
          rw [InnerHypercore.onAppend_length]
          rcases Nat.lt_or_eq_of_le notPassed with below | atEnd
          · exact Nat.lt_of_lt_of_le below raises
          · rw [atEnd]
            exact tellsOfMore waiting atEnd
  | onDownload seq byteLength =>
      refine ⟨_, rfl, following.live, following.unbounded,
        following.unfinished, ?_, following.fits, following.sent,
        following.index, ?_, following.delivered.requests,
        following.delivered.results⟩
      · rw [InnerHypercore.onDownload_length]
        exact Nat.max_le.mpr ⟨following.cached, allowed⟩
      · refine following.future.emit ?_
          (InnerHypercore.onDownload_listeners _ _ _) ?_
        · rw [InnerHypercore.onDownload_length]
          exact Nat.le_max_left _ _
        · intro _ isSeq _
          have sameSeq : seq = state.reader.stream.index := isSeq
          rw [InnerHypercore.onDownload_length]
          omega

/-- A stream that begins at the cached length requests a missing block. -/
theorem not_deliversIn_of_atEnd
    (overflowChecks : Bool)
    (block : Nat → Bytes)
    (atEnd : inner.length ≤ start) :
    ∃ actions,
      Machine.Along (ReadStreamLive.step overflowChecks block) Allowed
          (initial inner start inner.length) actions ∧
        Machine.Along (ReadStreamLive.step overflowChecks block)
          TellsOfMore (initial inner start inner.length) actions ∧
        ¬ DeliversIn overflowChecks block inner start inner.length
            actions := by
  refine ⟨[.poll none], ?_, ?_, ?_⟩
  · refine Machine.along_cons.mpr ⟨?_, fun _ _ => trivial⟩
    intro length isAnswered
    cases isAnswered
  · exact Machine.along_cons.mpr ⟨trivial, fun _ _ => trivial⟩
  · rintro ⟨final, ran, delivered⟩
    cases ran
    have inFeed : start < inner.length :=
      delivered.requests start (List.mem_singleton.mpr rfl)
    omega

/-- In a run whose events tell of more, the stream follows its feed. -/
theorem following_run
    {feedLength : Nat}
    {actions : List Action}
    (below : start < inner.length)
    (cached : inner.length ≤ feedLength)
    (fits : feedLength < 2 ^ 64)
    (along :
      Machine.Along (ReadStreamLive.step overflowChecks block) Allowed
        (initial inner start feedLength) actions)
    (tellsOfMore :
      Machine.Along (ReadStreamLive.step overflowChecks block)
        TellsOfMore (initial inner start feedLength) actions) :
    ∃ final,
      Machine.run (ReadStreamLive.step overflowChecks block)
          (initial inner start feedLength) actions =
        some final ∧
      Following block start final :=
  Machine.exists_run_along (Following block start)
    (fun following both => following.step both.1 both.2)
    (following_initial below cached fits)
    (Machine.along_and along tellsOfMore)

/--
The stream has passed the cached length: it will not meet it again while no
event arrives, and gets block after block.
-/
structure Passing (state : State) : Prop where
  unbounded : state.reader.stream.stop = none
  unfinished : state.reader.stream.finished = false
  future :
    state.reader.stream.future = .get state.reader.stream.index
  passed : state.reader.inner.length < state.reader.stream.index
  inFeed : state.reader.stream.index ≤ state.feedLength
  fits : state.feedLength < 2 ^ 64

/-- A poll that sends a request for a block that is not in the feed. -/
theorem not_delivered_of_request
    (request : Nat)
    (polled :
      (state.reader.stream.future.poll none
        state.reader.inner).request = some request)
    (pending :
      (state.reader.stream.future.poll none
        state.reader.inner).output = none)
    (unfinished : state.reader.stream.finished = false)
    (missing : state.feedLength ≤ request) :
    ∃ final,
      ReadStreamLive.step overflowChecks block state (.poll none) =
          some final ∧
        ¬ Delivered block start final := by
  have waits :=
    ReadStream.pollNext_of_pending overflowChecks unfinished pending
  refine ⟨_, by
    simp only [ReadStreamLive.step, Reader.poll, Option.map_none, waits]
    rfl, ?_⟩
  intro delivered
  have inFeed : request < state.feedLength :=
    delivered.requests request (by simp [polled])
  omega

/-- A stream that gets the block at the cached length passes the length. -/
theorem passing_of_answered
    (overflowChecks : Bool)
    (block : Nat → Bytes)
    (state : State)
    (unbounded : state.reader.stream.stop = none)
    (unfinished : state.reader.stream.finished = false)
    (atLength :
      state.reader.inner.length ≤ state.reader.stream.index)
    (inFeed : state.reader.stream.index < state.feedLength)
    (fits : state.feedLength < 2 ^ 64)
    {reply : GetOutput}
    (isReply :
      reply = answer block state.reader.wanted state.feedLength)
    (completed :
      (state.reader.stream.future.poll (some reply)
        state.reader.inner).output = some reply)
    (sameLength :
      (state.reader.stream.future.poll (some reply)
        state.reader.inner).inner.length =
        state.reader.inner.length) :
    ∃ next,
      ReadStreamLive.step overflowChecks block state
          (.poll (some state.feedLength)) =
          some next ∧
        Passing next ∧
        next.feedLength = state.feedLength ∧
        next.reader.stream.index = state.reader.stream.index + 1 := by
  have completes :=
    ReadStream.pollNext_of_output overflowChecks unfinished
      (by omega) completed
  have notLast :
      state.reader.inner.length ≠ state.reader.stream.index + 1 := by
    omega
  simp only [unbounded, Option.getD_none, sameLength,
    ReadStream.advanced, notLast, false_and, if_false,
    ReadStream.nextFuture] at completes
  refine ⟨_, by
    simp only [ReadStreamLive.step, Reader.poll, Option.map_some,
      ← isReply, completes]
    rfl, ?_⟩
  refine ⟨⟨rfl, unfinished, rfl, ?_, inFeed, fits⟩, rfl, rfl⟩
  simp only [sameLength]
  omega

/-- A poll that comes before the request may be answered at once. -/
theorem allowed_poll
    (notSent : requestSent state.reader.stream.future = false) :
    Allowed state (.poll (some state.feedLength)) := by
  intro length isAnswered
  cases isAnswered
  rw [State.limit, notSent]
  exact ⟨Nat.le_refl _, Nat.le_refl _⟩

/-- The property is lost with one poll. -/
theorem failsByPolls_of_missing
    (missing :
      ∃ final,
        ReadStreamLive.step overflowChecks block state (.poll none) =
            some final ∧
          ¬ Delivered block start final) :
    FailsByPolls overflowChecks block start state := by
  obtain ⟨final, stepped, notDelivered⟩ := missing
  refine ⟨[none], final, ?_, ?_, notDelivered⟩
  · refine Machine.along_cons.mpr ⟨?_, fun _ _ => trivial⟩
    intro length isAnswered
    cases isAnswered
  · exact Machine.run_cons.mpr ⟨final, stepped, rfl⟩

/-- The property is lost after one more poll. -/
theorem FailsByPolls.cons
    {next : State}
    {answered : Option Nat}
    (fails : FailsByPolls overflowChecks block start next)
    (allowed : Allowed state (.poll answered))
    (stepped :
      ReadStreamLive.step overflowChecks block state
          (.poll answered) =
        some next) :
    FailsByPolls overflowChecks block start state := by
  obtain ⟨polls, final, along, ran, notDelivered⟩ := fails
  exact ⟨answered :: polls, final,
    Machine.along_cons_of_step allowed stepped along,
    Machine.run_cons.mpr ⟨next, stepped, ran⟩, notDelivered⟩

/-- Polls alone take a stream that has passed the length out of the feed. -/
theorem Passing.failsByPolls
    (passing : Passing state) :
    FailsByPolls overflowChecks block start state := by
  induction left : state.feedLength - state.reader.stream.index
      generalizing state with
  | zero =>
      have atEnd := passing.inFeed
      refine failsByPolls_of_missing
        (not_delivered_of_request state.reader.stream.index ?_ ?_
          passing.unfinished (by omega))
      · rw [passing.future]
        rfl
      · rw [passing.future]
        rfl
  | succ left inductionHypothesis =>
      obtain ⟨next, stepped, further, sameFeed, isNext⟩ :=
        passing_of_answered overflowChecks block state
          passing.unbounded passing.unfinished
          (Nat.le_of_lt passing.passed) (by omega) passing.fits rfl
          (by rw [passing.future]; rfl) (by rw [passing.future]; rfl)
      refine (inductionHypothesis further (by omega)).cons
        (allowed_poll ?_) stepped
      rw [passing.future]
      rfl

/-- A wait that has heard of an append ends with the next poll. -/
theorem poll_of_append
    {seq listener : Nat}
    {future : GetFuture}
    (listening : future = .listening seq listener)
    (heard : .append ∈ inner.listeners.getD listener [])
    (reply : Option GetOutput) :
    ∃ rest,
      future.poll reply inner =
        ⟨{ inner with listeners := inner.listeners.set listener rest },
          .requested seq, some seq, reply⟩ := by
  subst listening
  cases taken :
      GetFuture.takeEvent seq (inner.listeners.getD listener []) with
  | mk ended rest =>
      cases ended with
      | true =>
          exact ⟨rest, by simp only [GetFuture.poll, taken]⟩
      | false =>
          exact absurd heard (GetFuture.takeEvent_false taken).1

/--
An `AppendEvent` that repeats the cached length, while the stream waits there,
lets polls alone take the stream out of the feed.
-/
theorem Following.failsByPolls
    (overflowChecks : Bool)
    (following : Following block start state)
    {length byteLength : Nat}
    (allowed : Allowed state (.onAppend length byteLength))
    (notMore : ¬ TellsOfMore state (.onAppend length byteLength)) :
    ∃ next,
      ReadStreamLive.step overflowChecks block state
          (.onAppend length byteLength) =
          some next ∧
        FailsByPolls overflowChecks block start next := by
  simp only [TellsOfMore, Classical.not_imp, Nat.not_lt] at notMore
  obtain ⟨waiting, atLength, notLonger⟩ := notMore
  obtain ⟨notShorter, inFeed⟩ := allowed
  have sameLength : length = state.reader.inner.length :=
    Nat.le_antisymm notLonger notShorter
  cases isFuture : state.reader.stream.future with
  | get seq =>
      simp [isFuture, waits] at waiting
  | requested seq =>
      simp [isFuture, waits] at waiting
  | onAppendGet seq =>
      simp [isFuture, waits] at waiting
  | listening seq listener =>
      have ready := following.future
      rw [isFuture] at ready
      obtain ⟨isIndex, _, inside, _⟩ := ready
      have heard :
          .append ∈
            (state.reader.inner.onAppend length
              byteLength).listeners.getD listener [] := by
        rw [getD_listeners_emit
          (InnerHypercore.onAppend_listeners _ _ _) inside]
        simp
      refine ⟨_, rfl, ?_⟩
      rcases Nat.lt_or_ge state.reader.stream.index state.feedLength
        with below | atEnd
      · obtain ⟨rest, polled⟩ :=
          poll_of_append isFuture heard
            (some (answer block state.reader.wanted state.feedLength))
        obtain ⟨next, stepped, passing, _⟩ :=
          passing_of_answered overflowChecks block
            { state with
              reader :=
                { state.reader with
                  inner :=
                    state.reader.inner.onAppend length byteLength } }
            following.unbounded following.unfinished
            (by simpa [sameLength] using Nat.le_of_eq atLength.symm)
            below following.fits rfl
            (congrArg GetFuture.Polled.output polled)
            (congrArg (fun after => after.inner.length) polled)
        refine passing.failsByPolls.cons (allowed_poll ?_) stepped
        simp [isFuture, requestSent]
      · obtain ⟨rest, polled⟩ := poll_of_append isFuture heard none
        refine failsByPolls_of_missing
          (not_delivered_of_request state.reader.stream.index ?_ ?_
            following.unfinished atEnd)
        · rw [← isIndex]
          exact congrArg GetFuture.Polled.request polled
        · exact congrArg GetFuture.Polled.output polled

/-- A run whose events tell of more, and then one that repeats the length. -/
theorem exists_polls_of_repeated
    (overflowChecks : Bool)
    (block : Nat → Bytes)
    {feedLength : Nat}
    {actions : List Action}
    (below : start < inner.length)
    (cached : inner.length ≤ feedLength)
    (fits : feedLength < 2 ^ 64)
    (along :
      Machine.Along (ReadStreamLive.step overflowChecks block) Allowed
        (initial inner start feedLength) actions)
    (tellsOfMore :
      Machine.Along (ReadStreamLive.step overflowChecks block)
        TellsOfMore (initial inner start feedLength) actions)
    (ran :
      Machine.run (ReadStreamLive.step overflowChecks block)
          (initial inner start feedLength) actions =
        some state)
    {length byteLength : Nat}
    (allowed : Allowed state (.onAppend length byteLength))
    (notMore : ¬ TellsOfMore state (.onAppend length byteLength)) :
    ∃ polls : List (Option Nat),
      Machine.Along (ReadStreamLive.step overflowChecks block) Allowed
          (initial inner start feedLength)
          (actions ++
            .onAppend length byteLength :: polls.map .poll) ∧
        ¬ DeliversIn overflowChecks block inner start feedLength
            (actions ++
              .onAppend length byteLength :: polls.map .poll) := by
  obtain ⟨final, alsoRan, following⟩ :=
    following_run below cached fits along tellsOfMore
  have same : final = state :=
    Option.some.inj (alsoRan.symm.trans ran)
  subst same
  obtain ⟨next, stepped, polls, after, later, polled, notDelivered⟩ :=
    following.failsByPolls overflowChecks allowed notMore
  refine ⟨polls, Machine.along_append.mpr ⟨along, ?_⟩, ?_⟩
  · intro middle ranMiddle
    rw [ran] at ranMiddle
    cases ranMiddle
    exact Machine.along_cons_of_step allowed stepped later
  · rintro ⟨other, ranOther, delivered⟩
    have whole :=
      Machine.run_append ran
        (Machine.run_cons.mpr ⟨next, stepped, polled⟩)
    rw [whole] at ranOther
    cases ranOther
    exact notDelivered delivered

end

/--
For every feed, every core and every start up to the cached length: a live
stream without an end yields the blocks of the feed from its start on, requests
no block before it is in the feed, and never ends, in every interleaving with
appends and with events that do not lower the cached length, if its start is
below the cached length when it is created and no `AppendEvent` repeats that
length while the stream waits there.

Both conditions are needed.  A start that is not below the length fails in some
run; and after an event that repeats the length, polls alone make any run fail.
-/
theorem delivers_feed_iff
    (overflowChecks : Bool)
    (block : Nat → Bytes)
    (inner : InnerHypercore)
    (start : Nat)
    (fits : inner.length < 2 ^ 64) :
    (start < inner.length ↔
      ∀ feedLength actions,
        inner.length ≤ feedLength →
        feedLength < 2 ^ 64 →
        Machine.Along (step overflowChecks block) Allowed
          (initial inner start feedLength) actions →
        Machine.Along (step overflowChecks block) TellsOfMore
          (initial inner start feedLength) actions →
        DeliversIn overflowChecks block inner start feedLength
          actions) ∧
      ∀ feedLength actions state length byteLength,
        start < inner.length →
        inner.length ≤ feedLength →
        feedLength < 2 ^ 64 →
        Machine.Along (step overflowChecks block) Allowed
          (initial inner start feedLength) actions →
        Machine.Along (step overflowChecks block) TellsOfMore
          (initial inner start feedLength) actions →
        Machine.run (step overflowChecks block)
            (initial inner start feedLength) actions =
          some state →
        Allowed state (.onAppend length byteLength) →
        ¬ TellsOfMore state (.onAppend length byteLength) →
        ∃ polls : List (Option Nat),
          Machine.Along (step overflowChecks block) Allowed
              (initial inner start feedLength)
              (actions ++
                .onAppend length byteLength :: polls.map .poll) ∧
            ¬ DeliversIn overflowChecks block inner start feedLength
                (actions ++
                  .onAppend length byteLength :: polls.map .poll) := by
  refine ⟨⟨?_, ?_⟩, ?_⟩
  · intro below feedLength actions cached feedFits along tellsOfMore
    obtain ⟨final, ran, following⟩ :=
      following_run below cached feedFits along tellsOfMore
    exact ⟨final, ran, following.delivered⟩
  · intro delivers
    by_contra atEnd
    obtain ⟨polls, along, tellsOfMore, fails⟩ :=
      not_deliversIn_of_atEnd overflowChecks block
        (Nat.not_lt.mp atEnd)
    exact fails
      (delivers inner.length polls (Nat.le_refl _) fits along
        tellsOfMore)
  · intro feedLength actions state length byteLength below cached
      feedFits along tellsOfMore ran allowed notMore
    exact exists_polls_of_repeated overflowChecks block below cached
      feedFits along tellsOfMore ran allowed notMore

/-- The stream of a feed with three blocks, from the second on, at its end. -/
def readToEnd : List Action :=
  [.poll (some 3), .poll none, .poll (some 3), .poll none]

/--
The stream of a feed with three blocks, from the second on.  It delivers a
fourth block that is appended, but fails when the length 3 is announced again.
-/
theorem delivers_feed_iff_threeBlocks :
    DeliversIn true (fun seq => [UInt8.ofNat seq])
        ReadStreamRange.threeBlocks 1 3
        (readToEnd ++
          [.append 1, .onAppend 4 8, .poll none, .poll (some 4)]) ∧
      ∃ polls : List (Option Nat),
        ¬ DeliversIn true (fun seq => [UInt8.ofNat seq])
            ReadStreamRange.threeBlocks 1 3
            (readToEnd ++ .onAppend 3 6 :: polls.map .poll) := by
  have both :=
    delivers_feed_iff true (fun seq => [UInt8.ofNat seq])
      ReadStreamRange.threeBlocks 1 (by decide)
  constructor
  · exact both.1.mp (by decide) 3 _ (by decide) (by decide) (by decide)
      (by decide)
  · obtain ⟨polls, _, fails⟩ :=
      both.2 3 readToEnd _ 3 6 (by decide) (by decide) (by decide)
        (by decide) (by decide) rfl (by decide) (by decide)
    exact ⟨polls, fails⟩

/--
A live stream of a feed without blocks requests block 0 at once; and a stream
that waits for block 3 requests it when the length 3 is announced again.
-/
theorem live_stream_requests_missing_block :
    ¬ Delivers true (fun seq => [UInt8.ofNat seq])
        (InnerHypercore.new none (some "foo")) 0 ∧
      ¬ Delivers true (fun seq => [UInt8.ofNat seq])
        ReadStreamRange.threeBlocks 1 := by
  constructor
  · intro delivers
    obtain ⟨polls, along, _, fails⟩ :=
      not_deliversIn_of_atEnd true (fun seq => [UInt8.ofNat seq])
        (Nat.le_refl (InnerHypercore.new none (some "foo")).length)
    exact fails (delivers 0 polls (Nat.le_refl 0) (by decide) along)
  · intro delivers
    have isAllowed :
        Machine.Along (step true fun seq => [UInt8.ofNat seq]) Allowed
          (initial ReadStreamRange.threeBlocks 1 3) readToEnd := by
      decide
    obtain ⟨polls, along, fails⟩ :=
      exists_polls_of_repeated true _ (by decide) (by decide)
        (by decide) isAllowed (by decide) rfl
        (show Allowed _ (.onAppend 3 6) by decide) (by decide)
    exact fails (delivers 3 _ (by decide) (by decide) along)

end ReadStreamLive

end Hyperspace
