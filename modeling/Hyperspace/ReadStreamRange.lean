import Hyperspace.Machine
import Hyperspace.ReadStream

namespace Hyperspace

/-!
# Block streams with an end

A `ReadStream` that is not live is to yield the blocks from its start up to its
end, or up to the cached length of the core, and then to end.  It gets the block
at its start in any case, and it compares its index with the end only after the
index has been advanced.

This module polls one such stream, with any pattern of pending polls, and
determines for which starts it yields its range.
-/

namespace ReadStreamRange

/--
A stream and its core, with the requests that it has sent and the results of
its polls that were not pending.
-/
structure Reader where
  inner : InnerHypercore
  stream : ReadStream
  requests : List Nat
  results : List (Option ReadStream.Item)
  deriving Repr, DecidableEq

namespace Reader

/-- A new stream of a core. -/
def new
    (inner : InnerHypercore)
    (start : Nat)
    (stop : Option Nat)
    (live : Bool) : Reader where
  inner := inner
  stream := .new start stop live
  requests := []
  results := []

/-- The block that the current future is for. -/
def wanted (reader : Reader) : Nat :=
  reader.stream.future.seq

/-- One poll; a poll that panics leaves no stream. -/
def poll
    (overflowChecks : Bool)
    (reader : Reader)
    (reply : Option GetOutput) : Option Reader :=
  let polled :=
    reader.stream.pollNext overflowChecks reply reader.inner
  let after : Reader :=
    { reader with
      inner := polled.inner
      stream := polled.stream
      requests := reader.requests ++ polled.request.toList }
  match polled.result with
  | .pending => some after
  | .ready result =>
      some { after with results := reader.results ++ [result] }
  | .panicked _ => none
  | .unfinished => none

end Reader

/-- The consumer polls, or the client handles an event of the server. -/
inductive Action where
  | poll (reply : Option GetOutput)
  | onAppend (length byteLength : Nat)
  | onDownload (seq : Nat) (byteLength : Option Nat)

/-- One step. -/
def step (overflowChecks : Bool) (reader : Reader) :
    Action → Option Reader
  | .poll reply => reader.poll overflowChecks reply
  | .onAppend length byteLength =>
      some { reader with
        inner := reader.inner.onAppend length byteLength }
  | .onDownload seq byteLength =>
      some { reader with
        inner := reader.inner.onDownload seq byteLength }

/--
What the environment does: a request is answered by the server, and the cached
length does not change if it is the end of the stream.
-/
def Allowed
    (get : Nat → GetOutput)
    (reader : Reader) : Action → Prop
  | .poll reply => ∀ output ∈ reply, output = get reader.wanted
  | .onAppend length _ =>
      reader.stream.stop = none → length = reader.inner.length
  | .onDownload seq _ =>
      reader.stream.stop = none → seq < reader.inner.length

/-- The result of a poll that is not pending, by its place among them. -/
def expected
    (block : Nat → Bytes)
    (start stop place : Nat) : Option ReadStream.Item :=
  if start + place < stop then
    some (.ok (block (start + place)))
  else
    none

/-- What a consumer may expect of a stream from `start` to `stop`. -/
structure InRange
    (overflowChecks : Bool)
    (get : Nat → GetOutput)
    (block : Nat → Bytes)
    (start stop : Nat)
    (reader : Reader) : Prop where
  /-- Only blocks of the range have been requested. -/
  requests : ∀ seq ∈ reader.requests, start ≤ seq ∧ seq < stop
  /-- The blocks of the range have been returned in order, then nothing. -/
  results :
    ∀ place result,
      reader.results[place]? = some result →
      result = expected block start stop place
  /-- A poll whose request has been answered is not pending. -/
  answered :
    (reader.stream.pollNext overflowChecks (some (get reader.wanted))
      reader.inner).result ≠ .pending
  /-- After the range, every poll returns at once that the stream has ended. -/
  ended :
    stop ≤ start + reader.results.length →
    ∀ reply,
      (reader.stream.pollNext overflowChecks reply
        reader.inner).result = .ready none

/-- In every run the stream yields its range, and no poll panics. -/
def YieldsRange
    (overflowChecks : Bool)
    (inner : InnerHypercore)
    (get : Nat → GetOutput)
    (block : Nat → Bytes)
    (start : Nat)
    (stop : Option Nat) : Prop :=
  ∀ actions,
    Machine.Along (step overflowChecks) (Allowed get)
      (.new inner start stop false) actions →
    ∃ final,
      Machine.run (step overflowChecks) (.new inner start stop false)
          actions =
        some final ∧
      InRange overflowChecks get block start
        (stop.getD inner.length) final

/-- The stream is in its range, or at its end. -/
inductive Position (start stop : Nat) (reader : Reader) : Prop where
  | reading :
      reader.stream.finished = false →
      reader.stream.index = start + reader.results.length →
      reader.stream.index < stop →
      reader.stream.future = .get reader.stream.index ∨
        reader.stream.future = .requested reader.stream.index →
      Position start stop reader
  | ended :
      reader.stream.finished = true →
      stop ≤ start + reader.results.length →
      Position start stop reader

/-- The invariant of a stream that begins inside its range. -/
structure Reading
    (block : Nat → Bytes)
    (start stop : Nat)
    (reader : Reader) : Prop where
  live : reader.stream.live = false
  stop_eq : reader.stream.stop.getD reader.inner.length = stop
  position : Position start stop reader
  requests : ∀ seq ∈ reader.requests, start ≤ seq ∧ seq < stop
  results :
    ∀ place result,
      reader.results[place]? = some result →
      result = expected block start stop place

section

variable
  {overflowChecks : Bool}
  {inner : InnerHypercore}
  {get : Nat → GetOutput}
  {block : Nat → Bytes}
  {start stop : Nat}
  {reader : Reader}

/-- The stream has its start in its range. -/
theorem reading_new
    {stop : Option Nat}
    (inside : start < stop.getD inner.length) :
    Reading block start (stop.getD inner.length)
      (.new inner start stop false) where
  live := rfl
  stop_eq := rfl
  position := .reading rfl rfl inside (Or.inl rfl)
  requests := by simp [Reader.new]
  results := by simp [Reader.new]

/-- Polling a future that gets a block: its output is the answer. -/
theorem poll_get
    {future : GetFuture}
    {seq : Nat}
    (gets : future = .get seq ∨ future = .requested seq)
    (reply : Option GetOutput)
    (inner : InnerHypercore) :
    ∃ request,
      future.poll reply inner =
          ⟨inner, .requested seq, request, reply⟩ ∧
        ∀ other ∈ request, other = seq := by
  rcases gets with rfl | rfl
  · exact ⟨some seq, rfl, by simp⟩
  · exact ⟨none, rfl, by simp⟩

/-- The requests after one for a block of the range. -/
theorem mem_requests_append
    {requests : List Nat}
    (inRange : ∀ seq ∈ requests, start ≤ seq ∧ seq < stop)
    {index : Nat}
    {request : Option Nat}
    (isIndex : ∀ seq ∈ request, seq = index)
    (above : start ≤ index)
    (below : index < stop) :
    ∀ seq ∈ requests ++ request.toList, start ≤ seq ∧ seq < stop := by
  intro seq member
  rcases List.mem_append.mp member with old | new
  · exact inRange seq old
  · rw [isIndex seq (by simpa using new)]
    exact ⟨above, below⟩

/-- The results after one more. -/
theorem results_append
    {results : List (Option ReadStream.Item)}
    {expected : Nat → Option ReadStream.Item}
    (asExpected :
      ∀ place result,
        results[place]? = some result → result = expected place)
    {last : Option ReadStream.Item}
    (lastExpected : last = expected results.length) :
    ∀ place result,
      (results ++ [last])[place]? = some result →
      result = expected place := by
  intro place result found
  rcases Machine.getElem?_concat_cases found with old | ⟨rfl, rfl⟩
  · exact asExpected place result old
  · exact lastExpected

/-- A poll of a stream that has ended returns nothing. -/
theorem Reading.poll_ended
    (reading : Reading block start stop reader)
    (finished : reader.stream.finished = true)
    (atEnd : stop ≤ start + reader.results.length)
    (reply : Option GetOutput) :
    ∃ next,
      reader.poll overflowChecks reply = some next ∧
        Reading block start stop next := by
  refine ⟨{ reader with results := reader.results ++ [none] }, ?_, ?_⟩
  · simp [Reader.poll, ReadStream.pollNext_of_finished _ finished]
  · refine ⟨reading.live, reading.stop_eq, .ended finished ?_,
      reading.requests, ?_⟩
    · simp only [List.length_append, List.length_singleton]
      omega
    · refine results_append reading.results ?_
      rw [expected, if_neg (Nat.not_lt.mpr atEnd)]

/-- A stream that has returned a block goes to the next one, or ends. -/
theorem Reading.advanced
    (reading : Reading block start stop reader)
    (unfinished : reader.stream.finished = false)
    (isIndex :
      reader.stream.index = start + reader.results.length)
    (below : reader.stream.index < stop)
    {future : GetFuture}
    {requests : List Nat}
    (inRange : ∀ seq ∈ requests, start ≤ seq ∧ seq < stop) :
    Reading block start stop
      { reader with
        stream := { reader.stream with future := future }.advanced stop
        requests := requests
        results :=
          reader.results ++
            [some (.ok (block reader.stream.index))] } := by
  have isNext :
      some (.ok (block reader.stream.index)) =
        expected block start stop reader.results.length := by
    rw [expected, ← isIndex, if_pos below]
  have results := results_append reading.results isNext
  simp only [ReadStream.advanced, reading.live, and_true]
  by_cases last : stop = reader.stream.index + 1
  · rw [if_pos last]
    refine ⟨rfl, reading.stop_eq, .ended rfl ?_, inRange, results⟩
    simp only [List.length_append, List.length_singleton]
    omega
  · rw [if_neg last]
    refine ⟨rfl, reading.stop_eq,
      .reading unfinished ?_ ?_ (Or.inl ?_), inRange, results⟩
    · simp only [List.length_append, List.length_singleton]
      omega
    · simp only
      omega
    · simp only [ReadStream.nextFuture, if_neg last]

/-- A poll of a stream in its range keeps it there. -/
theorem Reading.poll
    (available :
      ∀ seq,
        start ≤ seq → seq < stop → get seq = .ok (some (block seq)))
    (fits : stop < 2 ^ 64)
    (reading : Reading block start stop reader)
    {reply : Option GetOutput}
    (allowed : Allowed get reader (.poll reply)) :
    ∃ next,
      reader.poll overflowChecks reply = some next ∧
        Reading block start stop next := by
  cases reading.position with
  | ended finished atEnd =>
      exact reading.poll_ended finished atEnd reply
  | reading unfinished isIndex below future =>
      obtain ⟨request, polled, isRequest⟩ :=
        poll_get future reply reader.inner
      have above : start ≤ reader.stream.index := by omega
      have requests :=
        mem_requests_append reading.requests isRequest above below
      cases reply with
      | none =>
          have waits :=
            ReadStream.pollNext_of_pending overflowChecks unfinished
              (by rw [polled])
          rw [polled] at waits
          refine ⟨_, by simp only [Reader.poll, waits]; rfl, ?_⟩
          exact ⟨reading.live, reading.stop_eq,
            .reading unfinished isIndex below (Or.inr rfl), requests,
            reading.results⟩
      | some output =>
          have isBlock :
              output = .ok (some (block reader.stream.index)) := by
            rw [allowed output rfl]
            have sameSeq : reader.wanted = reader.stream.index := by
              rcases future with isGet | isRequested
              · rw [Reader.wanted, isGet, GetFuture.seq]
              · rw [Reader.wanted, isRequested, GetFuture.seq]
            rw [sameSeq]
            exact available _ above below
          have completes :=
            ReadStream.pollNext_of_output overflowChecks unfinished
              (by omega) (by rw [polled])
          rw [polled, isBlock] at completes
          simp only [reading.stop_eq, ReadStream.transpose] at completes
          rw [← isBlock] at completes
          refine ⟨_, by simp only [Reader.poll, completes]; rfl, ?_⟩
          exact reading.advanced unfinished isIndex below requests

/-- Every step of a stream in its range keeps it there. -/
theorem Reading.step
    (available :
      ∀ seq,
        start ≤ seq → seq < stop → get seq = .ok (some (block seq)))
    (fits : stop < 2 ^ 64)
    (reading : Reading block start stop reader)
    {action : Action}
    (allowed : Allowed get reader action) :
    ∃ next,
      ReadStreamRange.step overflowChecks reader action = some next ∧
        Reading block start stop next := by
  have handled :
      ∀ after : InnerHypercore,
        (reader.stream.stop = none →
          after.length = reader.inner.length) →
        Reading block start stop { reader with inner := after } := by
    intro after sameLength
    refine ⟨reading.live, ?_, ?_, reading.requests, reading.results⟩
    · cases isStop : reader.stream.stop with
      | none =>
          rw [← reading.stop_eq, isStop]
          exact sameLength isStop
      | some given =>
          rw [← reading.stop_eq, isStop]
          rfl
    · cases reading.position with
      | reading unfinished isIndex below future =>
          exact .reading unfinished isIndex below future
      | ended finished atEnd =>
          exact .ended finished atEnd
  cases action with
  | poll reply =>
      exact reading.poll available fits allowed
  | onAppend length byteLength =>
      refine ⟨_, rfl, handled _ ?_⟩
      intro noStop
      rw [InnerHypercore.onAppend_length]
      exact allowed noStop
  | onDownload seq byteLength =>
      refine ⟨_, rfl, handled _ ?_⟩
      intro noStop
      rw [InnerHypercore.onDownload_length]
      exact Nat.max_eq_left (allowed noStop)

/-- What a consumer sees of a stream in its range. -/
theorem Reading.inRange
    (fits : stop < 2 ^ 64)
    (reading : Reading block start stop reader) :
    InRange overflowChecks get block start stop reader := by
  refine ⟨reading.requests, reading.results, ?_, ?_⟩
  · cases reading.position with
    | ended finished atEnd =>
        simp [ReadStream.pollNext_of_finished _ finished]
    | reading unfinished isIndex below future =>
        obtain ⟨request, polled, _⟩ :=
          poll_get future (some (get reader.wanted)) reader.inner
        rw [ReadStream.pollNext_of_output _ unfinished (by omega)
          (by rw [polled])]
        simp
  · intro atEnd reply
    cases reading.position with
    | ended finished _ =>
        rw [ReadStream.pollNext_of_finished _ finished]
    | reading unfinished isIndex below future =>
        omega

/-- A stream whose start is not in its range requests its start. -/
theorem not_yieldsRange
    {stop : Option Nat}
    (outside : stop.getD inner.length ≤ start) :
    ¬ YieldsRange overflowChecks inner get block start stop := by
  intro yields
  have polls :
      Machine.Along (ReadStreamRange.step overflowChecks) (Allowed get)
        (.new inner start stop false) [.poll none] := by
    refine Machine.along_cons.mpr ⟨?_, fun _ _ => trivial⟩
    intro output isReply
    cases isReply
  obtain ⟨final, ran, inRange⟩ := yields [.poll none] polls
  cases ran
  have below :=
    (inRange.requests start (List.mem_singleton.mpr rfl)).2
  omega

end

/--
For every core and server, every start and every end: a stream that is not live,
and whose blocks from the start to the end can be read, yields exactly these
blocks, requests no others and then ends, with any pattern of pending polls, if
and only if its start lies before its end.
-/
theorem yields_range_iff
    (overflowChecks : Bool)
    (inner : InnerHypercore)
    (get : Nat → GetOutput)
    (block : Nat → Bytes)
    (start : Nat)
    (stop : Option Nat)
    (available :
      ∀ seq,
        start ≤ seq →
        seq < stop.getD inner.length →
        get seq = .ok (some (block seq)))
    (fits : stop.getD inner.length < 2 ^ 64) :
    YieldsRange overflowChecks inner get block start stop ↔
      start < stop.getD inner.length := by
  constructor
  · intro yields
    by_contra outside
    exact not_yieldsRange (Nat.not_lt.mp outside) yields
  · intro inside actions along
    obtain ⟨final, ran, reading⟩ :=
      Machine.exists_run_along
        (Reading block start (stop.getD inner.length))
        (fun reading allowed => reading.step available fits allowed)
        (reading_new inside) along
    exact ⟨final, ran, reading.inRange fits⟩

/-- A core opened with three blocks. -/
def threeBlocks : InnerHypercore :=
  (InnerHypercore.new none (some "foo")).onOpenResponse
    ⟨sampleFoo.publicKey.bytes, 3, 6, true⟩

/-- A server that has three blocks. -/
def getThree (seq : Nat) : GetOutput :=
  if seq < 3 then .ok (some [UInt8.ofNat seq, 7]) else .ok none

/-- The stream of the second and the third of three blocks. -/
theorem yields_range_iff_threeBlocks :
    YieldsRange true threeBlocks getThree
      (fun seq => [UInt8.ofNat seq, 7]) 1 none := by
  refine
    (yields_range_iff true threeBlocks getThree
      (fun seq => [UInt8.ofNat seq, 7]) 1 none ?_ (by decide)).mpr
      (by decide)
  intro seq _ below
  have inFeed : seq < 3 := below
  simp [getThree, inFeed]

/-- A stream of a feed without blocks requests block 0. -/
theorem empty_range_requests_block :
    ¬ YieldsRange true (InnerHypercore.new none (some "foo"))
      (fun _ => .ok none) (fun _ => []) 0 none :=
  not_yieldsRange (Nat.le_refl 0)

end ReadStreamRange

end Hyperspace
