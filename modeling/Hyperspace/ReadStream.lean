import Hyperspace.ByteStream

namespace Hyperspace

/-!
# The block stream of a remote feed

`ReadStream` of `client/src/stream.rs` yields the blocks of a feed one by one.
It holds one future at a time: a plain `get` of its current index, or an
`onappend_get`, which subscribes to the events of the core, waits until an
event says that the block may be there, and then gets it.

Both are `async fn`s, so nothing of their body runs before the first poll.  A
future is represented by the place in its body where it is suspended.  One poll
of the stream polls its future once; whether the request for a block has
completed by then, and with what, is an argument of the poll.
-/

/-- The output of a get, `GetOutput` of the source. -/
abbrev GetOutput := Except IoError (Option Bytes)

/-- The futures of a `ReadStream`. -/
inductive GetFuture where
  /-- `get`, not polled yet. -/
  | get (seq : Nat)
  /-- `onappend_get`, not polled yet. -/
  | onAppendGet (seq : Nat)
  /-- `onappend_get`, waiting for an event at one of the core's listeners. -/
  | listening (seq listener : Nat)
  /-- A request has been sent and its response is awaited. -/
  | requested (seq : Nat)
  deriving Repr, DecidableEq

/-- What a poll of a future does to the core, and what it returns. -/
structure GetFuture.Polled where
  inner : InnerHypercore
  future : GetFuture
  /-- The sequence number of the request sent by this poll. -/
  request : Option Nat
  /-- The output, or nothing if the future is pending. -/
  output : Option GetOutput
  deriving Repr, DecidableEq

namespace GetFuture

/-- The block that a future is for. -/
def seq : GetFuture → Nat
  | .get seq => seq
  | .onAppendGet seq => seq
  | .listening seq _ => seq
  | .requested seq => seq

/--
The loop of `onappend_get` over the queued events: whether one of them ends it,
and the events left in the queue.
-/
def takeEvent (seq : Nat) :
    List HypercoreEvent → Bool × List HypercoreEvent
  | [] => (false, [])
  | .append :: rest => (true, rest)
  | .download downloaded :: rest =>
      if downloaded = seq then
        (true, rest)
      else
        takeEvent seq rest

/-- Poll a future; `reply` is the response to its request, if it is there. -/
def poll
    (reply : Option GetOutput)
    (inner : InnerHypercore) : GetFuture → Polled
  | .get seq =>
      { inner := inner
        future := .requested seq
        request := some seq
        output := reply }
  | .requested seq =>
      { inner := inner
        future := .requested seq
        request := none
        output := reply }
  | .onAppendGet seq =>
      { inner := inner.subscribe
        future := .listening seq inner.listeners.length
        request := none
        output := none }
  | .listening seq listener =>
      match takeEvent seq (inner.listeners.getD listener []) with
      | (true, rest) =>
          { inner :=
              { inner with
                listeners := inner.listeners.set listener rest }
            future := .requested seq
            request := some seq
            output := reply }
      | (false, rest) =>
          { inner :=
              { inner with
                listeners := inner.listeners.set listener rest }
            future := .listening seq listener
            request := none
            output := none }

/-- A wait that has not ended has seen no append, and nothing is left. -/
theorem takeEvent_false
    {seq : Nat}
    {queue rest : List HypercoreEvent}
    (ended : takeEvent seq queue = (false, rest)) :
    .append ∉ queue ∧ rest = [] := by
  induction queue with
  | nil =>
      cases ended
      simp
  | cons event later inductionHypothesis =>
      cases event with
      | append =>
          cases ended
      | download downloaded =>
          simp only [takeEvent] at ended
          split at ended
          · cases ended
          · simpa using inductionHypothesis ended

/-- An event that ends the wait for a block. -/
def Ends (seq : Nat) : HypercoreEvent → Prop
  | .append => True
  | .download downloaded => downloaded = seq

/-- A wait has ended with an event that ends it. -/
theorem exists_ends_of_takeEvent
    {seq : Nat}
    {queue rest : List HypercoreEvent}
    (taken : takeEvent seq queue = (true, rest)) :
    ∃ event ∈ queue, Ends seq event := by
  induction queue with
  | nil =>
      cases taken
  | cons event later inductionHypothesis =>
      cases event with
      | append =>
          exact ⟨.append, by simp, trivial⟩
      | download downloaded =>
          simp only [takeEvent] at taken
          split at taken
          · next same =>
              exact ⟨.download downloaded, by simp, same⟩
          · obtain ⟨other, member, ends⟩ := inductionHypothesis taken
            exact ⟨other, by simp [member], ends⟩

end GetFuture

/-- The structure `ReadStream`; `stop` is its field `end`. -/
structure ReadStream where
  future : GetFuture
  index : Nat
  stop : Option Nat
  live : Bool
  finished : Bool
  deriving Repr, DecidableEq

namespace ReadStream

/-- The function `new`. -/
def new (start : Nat) (stop : Option Nat) (live : Bool) : ReadStream where
  future := .get start
  index := start
  stop := stop
  live := live
  finished := false

/-- An item of the stream: a block or an error. -/
abbrev Item := Except IoError Bytes

/-- The method `transpose` of a result. -/
def transpose : GetOutput → Option Item
  | .ok (some block) => some (.ok block)
  | .ok none => none
  | .error message => some (.error message)

/-- The future that follows when the stream has come to an index. -/
def nextFuture (len index : Nat) : GetFuture :=
  if len = index then
    .onAppendGet index
  else
    .get index

/-- What one poll of the stream does and returns. -/
structure Polled where
  inner : InnerHypercore
  stream : ReadStream
  request : Option Nat
  result : Poll (Option Item)
  deriving Repr, DecidableEq

/-- The method `poll_next`. -/
def pollNext
    (overflowChecks : Bool)
    (reply : Option GetOutput)
    (inner : InnerHypercore)
    (stream : ReadStream) : Polled :=
  if stream.finished then
    ⟨inner, stream, none, .ready none⟩
  else
    let polled := stream.future.poll reply inner
    let suspended := { stream with future := polled.future }
    match polled.output with
    | none => ⟨polled.inner, suspended, polled.request, .pending⟩
    | some output =>
        let len := stream.stop.getD polled.inner.length
        match addU64 overflowChecks stream.index 1 with
        | none =>
            ⟨polled.inner, suspended, polled.request,
              .panicked "attempt to add with overflow"⟩
        | some index =>
            if len = index ∧ stream.live = false then
              ⟨polled.inner,
                { suspended with index := index, finished := true },
                polled.request, .ready (transpose output)⟩
            else
              ⟨polled.inner,
                { suspended with
                  index := index
                  future := nextFuture len index },
                polled.request, .ready (transpose output)⟩

/-- The stream after its future has completed. -/
def advanced (stream : ReadStream) (len : Nat) : ReadStream :=
  if len = stream.index + 1 ∧ stream.live = false then
    { stream with index := stream.index + 1, finished := true }
  else
    { stream with
      index := stream.index + 1
      future := nextFuture len (stream.index + 1) }

/-- A stream that has ended stays so. -/
theorem pollNext_of_finished
    (overflowChecks : Bool)
    {stream : ReadStream}
    (finished : stream.finished = true)
    (reply : Option GetOutput)
    (inner : InnerHypercore) :
    stream.pollNext overflowChecks reply inner =
      ⟨inner, stream, none, .ready none⟩ := by
  rw [pollNext, if_pos finished]

/-- A poll of a stream whose future stays pending. -/
theorem pollNext_of_pending
    (overflowChecks : Bool)
    {reply : Option GetOutput}
    {inner : InnerHypercore}
    {stream : ReadStream}
    (unfinished : stream.finished = false)
    (pending : (stream.future.poll reply inner).output = none) :
    stream.pollNext overflowChecks reply inner =
      ⟨(stream.future.poll reply inner).inner,
        { stream with
          future := (stream.future.poll reply inner).future },
        (stream.future.poll reply inner).request, .pending⟩ := by
  simp [pollNext, unfinished, pending]

/-- A poll of a stream whose future completes. -/
theorem pollNext_of_output
    (overflowChecks : Bool)
    {reply : Option GetOutput}
    {inner : InnerHypercore}
    {stream : ReadStream}
    {output : GetOutput}
    (unfinished : stream.finished = false)
    (fits : stream.index + 1 < 2 ^ 64)
    (completed :
      (stream.future.poll reply inner).output = some output) :
    stream.pollNext overflowChecks reply inner =
      ⟨(stream.future.poll reply inner).inner,
        { stream with
          future :=
            (stream.future.poll reply inner).future }.advanced
          (stream.stop.getD
            (stream.future.poll reply inner).inner.length),
        (stream.future.poll reply inner).request,
        .ready (transpose output)⟩ := by
  have added :
      addU64 overflowChecks stream.index 1 =
        some (stream.index + 1) := by
    rw [addU64, if_pos fits]
  simp only [pollNext, unfinished, completed, added, advanced,
    Bool.false_eq_true, if_false]
  split <;> rfl

end ReadStream

end Hyperspace
