import Hyperspace.ReadStreamLive

namespace Hyperspace

/-!
# Every block stream asks in order

A `ReadStream` may be live or not, with an end or without, and may start
anywhere.  The cached length may change in any way while it is read, and the
server may answer with blocks, with nothing or with errors.

Whatever happens, the stream requests the blocks from its start on, one after
the other, each once, and never before the request before has been answered, as
long as its index stays below the largest `u64`; advancing it there panics, or
takes it to 0.
What its polls return are the answers, in this order; after that, if it has
finished, nothing.  A stream that is not live never waits for an event.
-/

namespace ReadStreamOrder

open ReadStreamRange (Reader Action step results_append)
open ReadStreamLive (requestSent)

/-- The number of requests of a future that have been sent. -/
def sentBy (future : GetFuture) : Nat :=
  if requestSent future then 1 else 0

/-- A future that gets a block without waiting for an event. -/
def Direct (future : GetFuture) : Prop :=
  future = .get future.seq ∨ future = .requested future.seq

/--
Every request is answered with what may be answered to it, and the index stays
in the range of a `u64`.
-/
def Answers
    (answers : Nat → GetOutput → Prop)
    (reader : Reader) : Action → Prop
  | .poll reply =>
      reader.stream.index + 1 < 2 ^ 64 ∧
        ∀ output ∈ reply, answers reader.wanted output
  | _ => True

/-- The stream has got the answers to its first requests. -/
structure Ordered
    (answers : Nat → GetOutput → Prop)
    (start count : Nat)
    (reader : Reader) : Prop where
  answered :
    ∀ place < count,
      ∃ output,
        answers (start + place) output ∧
          reader.results[place]? = some (ReadStream.transpose output)
  nothing :
    ∀ place result,
      count ≤ place →
      reader.results[place]? = some result →
      result = none
  enough : count ≤ reader.results.length
  finished :
    reader.stream.finished = true →
    reader.requests = List.range' start count
  reading :
    reader.stream.finished = false →
    reader.results.length = count ∧
      reader.stream.index = start + count ∧
      reader.stream.future.seq = start + count ∧
      reader.requests =
        List.range' start (count + sentBy reader.stream.future)
  direct :
    reader.stream.live = false → Direct reader.stream.future

section

variable
  {overflowChecks : Bool}
  {answers : Nat → GetOutput → Prop}
  {start count : Nat}
  {reader next : Reader}

/-- What a poll of a future sends and returns. -/
theorem poll_sends
    (future : GetFuture)
    (reply : Option GetOutput)
    (inner : InnerHypercore) :
    (future.poll reply inner).future.seq = future.seq ∧
      (future.poll reply inner).request.toList.length + sentBy future =
        sentBy (future.poll reply inner).future ∧
      (∀ seq ∈ (future.poll reply inner).request, seq = future.seq) ∧
      (∀ output ∈ (future.poll reply inner).output,
        reply = some output ∧
          sentBy (future.poll reply inner).future = 1) ∧
      (Direct future → Direct (future.poll reply inner).future) := by
  cases future with
  | get seq =>
      refine ⟨rfl, rfl, by simp [GetFuture.poll, GetFuture.seq],
        fun output isOutput => ⟨isOutput, rfl⟩, fun _ => Or.inr rfl⟩
  | requested seq =>
      refine ⟨rfl, rfl, by simp [GetFuture.poll],
        fun output isOutput => ⟨isOutput, rfl⟩, fun _ => Or.inr rfl⟩
  | onAppendGet seq =>
      refine ⟨rfl, rfl, by simp [GetFuture.poll],
        by simp [GetFuture.poll], ?_⟩
      rintro (isGet | isRequested)
      · cases isGet
      · cases isRequested
  | listening seq listener =>
      have notDirect : ¬ Direct (.listening seq listener) := by
        rintro (isGet | isRequested)
        · cases isGet
        · cases isRequested
      simp only [GetFuture.poll]
      split
      · exact ⟨rfl, rfl, by simp [GetFuture.seq],
          fun output isOutput => ⟨isOutput, rfl⟩, fun _ => Or.inr rfl⟩
      · exact ⟨rfl, rfl, by simp, by simp,
          fun isDirect => absurd isDirect notDirect⟩

/-- A future has sent one request at most. -/
theorem sentBy_le_one (future : GetFuture) : sentBy future ≤ 1 := by
  rw [sentBy]
  split <;> omega

/-- The requests go on in order with the poll of a future. -/
theorem requests_poll
    {requests : List Nat}
    {future : GetFuture}
    (isSeq : future.seq = start + count)
    (before : requests = List.range' start (count + sentBy future))
    (reply : Option GetOutput)
    (inner : InnerHypercore) :
    requests ++ (future.poll reply inner).request.toList =
      List.range' start
        (count + sentBy (future.poll reply inner).future) := by
  obtain ⟨_, sent, isRequest, _⟩ := poll_sends future reply inner
  cases request : (future.poll reply inner).request with
  | none =>
      rw [request] at sent
      simp only [Option.toList_none, List.length_nil,
        Nat.zero_add] at sent
      rw [Option.toList_none, List.append_nil, before, sent]
  | some seq =>
      rw [request] at sent
      simp only [Option.toList_some, List.length_singleton] at sent
      have few := sentBy_le_one (future.poll reply inner).future
      have noneBefore : sentBy future = 0 := by omega
      have isSent : sentBy (future.poll reply inner).future = 1 := by
        omega
      rw [Option.toList_some, isRequest seq request, isSeq, before,
        noneBefore, isSent, Nat.add_zero, List.range'_1_concat]

/-- A new stream has asked for nothing. -/
theorem ordered_new
    (answers : Nat → GetOutput → Prop)
    (inner : InnerHypercore)
    (start : Nat)
    (stop : Option Nat)
    (live : Bool) :
    Ordered answers start 0 (.new inner start stop live) where
  answered := by
    intro place below
    omega
  nothing := by simp [Reader.new]
  enough := Nat.zero_le _
  finished := by simp [Reader.new, ReadStream.new]
  reading := fun _ => ⟨rfl, rfl, rfl, rfl⟩
  direct := fun _ => Or.inl rfl

/-- A poll of a stream that has finished returns nothing. -/
theorem Ordered.poll_finished
    (ordered : Ordered answers start count reader)
    (finished : reader.stream.finished = true)
    {reply : Option GetOutput}
    (polled : reader.poll overflowChecks reply = some next) :
    Ordered answers start count next := by
  rw [Reader.poll,
    ReadStream.pollNext_of_finished overflowChecks finished] at polled
  cases polled
  refine ⟨?_, ?_, ?_, ?_, ?_, ordered.direct⟩
  · intro place below
    obtain ⟨output, isAnswer, isResult⟩ := ordered.answered place below
    refine ⟨output, isAnswer, ?_⟩
    rw [List.getElem?_append_left
      (List.getElem?_eq_some_iff.mp isResult).1]
    exact isResult
  · intro place result atLeast isResult
    rw [List.getElem?_append] at isResult
    split at isResult
    · exact ordered.nothing place result atLeast isResult
    · exact (List.mem_singleton.mp (List.mem_of_getElem? isResult))
  · have enough := ordered.enough
    simp only [List.length_append, List.length_singleton]
    omega
  · intro _
    simpa using ordered.finished finished
  · intro unfinished
    rw [finished] at unfinished
    cases unfinished

/-- A poll whose answer is not there yet. -/
theorem Ordered.poll_pending
    (ordered : Ordered answers start count reader)
    (unfinished : reader.stream.finished = false)
    {reply : Option GetOutput}
    (pending :
      (reader.stream.future.poll reply reader.inner).output = none)
    (polled : reader.poll overflowChecks reply = some next) :
    Ordered answers start count next := by
  obtain ⟨sameSeq, _, _, _, staysDirect⟩ :=
    poll_sends reader.stream.future reply reader.inner
  obtain ⟨isLength, isIndex, isSeq, requests⟩ :=
    ordered.reading unfinished
  rw [Reader.poll,
    ReadStream.pollNext_of_pending overflowChecks unfinished pending]
    at polled
  cases polled
  refine ⟨ordered.answered, ordered.nothing, ordered.enough, ?_, ?_,
    fun notLive => staysDirect (ordered.direct notLive)⟩
  · intro finished
    rw [show reader.stream.finished = true from finished] at unfinished
    cases unfinished
  · intro _
    exact ⟨isLength, isIndex, sameSeq.trans isSeq,
      requests_poll isSeq requests reply reader.inner⟩

/-- The future that follows is for the next block, and not yet sent. -/
theorem nextFuture_seq (len index : Nat) :
    (ReadStream.nextFuture len index).seq = index ∧
      sentBy (ReadStream.nextFuture len index) = 0 ∧
      (len ≠ index → Direct (ReadStream.nextFuture len index)) := by
  rw [ReadStream.nextFuture]
  split
  · next same =>
      exact ⟨rfl, rfl, fun different => absurd same different⟩
  · exact ⟨rfl, rfl, fun _ => Or.inl rfl⟩

/-- A poll that takes the answer. -/
theorem Ordered.poll_output
    (ordered : Ordered answers start count reader)
    (unfinished : reader.stream.finished = false)
    {reply : Option GetOutput}
    {output : GetOutput}
    (fits : reader.stream.index + 1 < 2 ^ 64)
    (isAnswer : ∀ output ∈ reply, answers reader.wanted output)
    (completed :
      (reader.stream.future.poll reply reader.inner).output =
        some output)
    (polled : reader.poll overflowChecks reply = some next) :
    Ordered answers start (count + 1) next := by
  obtain ⟨_, _, _, takes, staysDirect⟩ :=
    poll_sends reader.stream.future reply reader.inner
  obtain ⟨isReply, isSent⟩ := takes output completed
  obtain ⟨isLength, isIndex, isSeq, requests⟩ :=
    ordered.reading unfinished
  have allRequests :=
    requests_poll isSeq requests reply reader.inner
  rw [isSent] at allRequests
  have answered := isAnswer output isReply
  rw [Reader.wanted, isSeq] at answered
  rw [Reader.poll,
    ReadStream.pollNext_of_output overflowChecks unfinished fits
      completed] at polled
  cases polled
  refine ⟨?_, ?_, ?_, ?_, ?_, ?_⟩
  · intro place below
    by_cases isLast : place = count
    · subst isLast
      refine ⟨output, answered, ?_⟩
      rw [← isLength]
      exact List.getElem?_concat_length
    · obtain ⟨earlier, isEarlier, isResult⟩ :=
        ordered.answered place (by omega)
      refine ⟨earlier, isEarlier, ?_⟩
      rw [List.getElem?_append_left
        (List.getElem?_eq_some_iff.mp isResult).1]
      exact isResult
  · intro place result atLeast isResult
    have inside := (List.getElem?_eq_some_iff.mp isResult).1
    simp only [List.length_append, List.length_singleton] at inside
    omega
  · simp only [List.length_append, List.length_singleton]
    omega
  · intro _
    exact allRequests
  · intro isReading
    simp only [ReadStream.advanced] at isReading ⊢
    split at isReading
    · cases isReading
    · next notEnd =>
        obtain ⟨nextSeq, notSent, _⟩ :=
          nextFuture_seq
            (reader.stream.stop.getD
              (reader.stream.future.poll reply
                reader.inner).inner.length)
            (reader.stream.index + 1)
        rw [if_neg notEnd]
        refine ⟨?_, ?_, ?_, ?_⟩
        · simp [isLength]
        · simp only [isIndex]
          omega
        · exact nextSeq.trans (by omega)
        · simp only [notSent]
          exact allRequests
  · intro stillNotLive
    have notLive : reader.stream.live = false := by
      rw [ReadStream.advanced] at stillNotLive
      split at stillNotLive <;> exact stillNotLive
    simp only [ReadStream.advanced]
    split
    · exact staysDirect (ordered.direct notLive)
    · next notEnd =>
        refine (nextFuture_seq _ _).2.2 ?_
        intro same
        exact notEnd ⟨same, notLive⟩

/-- Every step keeps the order. -/
theorem Ordered.step
    (ordered : Ordered answers start count reader)
    {action : Action}
    (answering : Answers answers reader action)
    (stepped :
      ReadStreamRange.step overflowChecks reader action = some next) :
    ∃ later, Ordered answers start later next := by
  cases action with
  | poll reply =>
      obtain ⟨fits, isAnswer⟩ := answering
      cases isFinished : reader.stream.finished with
      | true =>
          exact ⟨count, ordered.poll_finished isFinished stepped⟩
      | false =>
          cases completed :
              (reader.stream.future.poll reply reader.inner).output with
          | none =>
              exact ⟨count,
                ordered.poll_pending isFinished completed stepped⟩
          | some output =>
              exact ⟨count + 1,
                ordered.poll_output isFinished fits isAnswer completed
                  stepped⟩
  | onAppend length byteLength =>
      cases stepped
      exact ⟨count, ordered.answered, ordered.nothing, ordered.enough,
        ordered.finished, ordered.reading, ordered.direct⟩
  | onDownload seq byteLength =>
      cases stepped
      exact ⟨count, ordered.answered, ordered.nothing, ordered.enough,
        ordered.finished, ordered.reading, ordered.direct⟩

/--
Every stream, whatever its start, its end and its liveness, and whatever
happens to the cached length, requests the blocks from its start on in order and
each once.  Its results are the answers to these requests in the same order, and
nothing afterwards.  Polls are followed as long as the index is below the largest
`u64` when they are made.
-/
theorem requests_and_results_in_order
    {inner : InnerHypercore}
    {stop : Option Nat}
    {live : Bool}
    {actions : List Action}
    {final : Reader}
    (along :
      Machine.Along (ReadStreamRange.step overflowChecks)
        (Answers answers) (.new inner start stop live) actions)
    (ran :
      Machine.run (ReadStreamRange.step overflowChecks)
          (.new inner start stop live) actions =
        some final) :
    ∃ count,
      (final.requests = List.range' start count ∨
        final.requests = List.range' start (count + 1)) ∧
      (∀ place < count,
        ∃ output,
          answers (start + place) output ∧
            final.results[place]? =
              some (ReadStream.transpose output)) ∧
      (final.results.drop count =
        List.replicate (final.results.length - count) none) ∧
      (final.stream.finished = false →
        final.results.length = count) ∧
      (final.stream.live = false → Direct final.stream.future) := by
  obtain ⟨count, ordered⟩ :=
    Machine.invariant_run_along
      (fun reader => ∃ count, Ordered answers start count reader)
      (by
        rintro reader action next ⟨count, ordered⟩ answering stepped
        exact ordered.step answering stepped)
      ⟨0, ordered_new answers inner start stop live⟩ along ran
  refine ⟨count, ?_, ordered.answered, ?_,
    fun unfinished => (ordered.reading unfinished).1, ordered.direct⟩
  · cases isFinished : final.stream.finished with
    | true =>
        exact Or.inl (ordered.finished isFinished)
    | false =>
        obtain ⟨_, _, _, requests⟩ := ordered.reading isFinished
        rw [requests, sentBy]
        split
        · exact Or.inr rfl
        · exact Or.inl rfl
  · rw [List.eq_replicate_iff]
    refine ⟨List.length_drop, ?_⟩
    intro result member
    obtain ⟨place, isResult⟩ := List.mem_iff_getElem?.mp member
    rw [List.getElem?_drop] at isResult
    exact ordered.nothing _ result (Nat.le_add_right count place)
      isResult

end

/-- The answers of a server that has one block of three, and an error. -/
def mixedAnswer (seq : Nat) : GetOutput :=
  if seq = 5 then .ok (some [104])
  else if seq = 6 then .ok none
  else .error "gone"

/-- A stream whose end lies before its start, and is never met. -/
def pastTheEnd : List Action :=
  [.poll (some (mixedAnswer 5)), .poll none, .onAppend 9 9,
    .poll (some (mixedAnswer 6)), .poll (some (mixedAnswer 7))]

/-- Its three requests are answered in order, over an end and an error. -/
theorem requests_and_results_in_order_pastTheEnd :
    ∃ final,
      Machine.run (ReadStreamRange.step true)
          (.new ReadStreamRange.threeBlocks 5 (some 4) true)
          pastTheEnd =
          some final ∧
        final.requests = List.range' 5 3 ∧
        final.results =
          [some (.ok [104]), none, some (.error "gone")] := by
  obtain ⟨final, ran, requests, isLength, unfinished⟩ :
      ∃ final,
        Machine.run (ReadStreamRange.step true)
            (.new ReadStreamRange.threeBlocks 5 (some 4) true)
            pastTheEnd =
            some final ∧
          final.requests = List.range' 5 3 ∧
          final.results.length = 3 ∧
          final.stream.finished = false :=
    ⟨_, rfl, rfl, rfl, rfl⟩
  have along :
      Machine.Along (ReadStreamRange.step true)
        (Answers fun seq output => output = mixedAnswer seq)
        (.new ReadStreamRange.threeBlocks 5 (some 4) true)
        pastTheEnd := by
    refine ⟨⟨by decide, ?_⟩, ⟨by decide, by simp⟩, trivial,
      ⟨by decide, ?_⟩, ⟨by decide, ?_⟩, trivial⟩ <;>
    · intro output isOutput
      cases isOutput
      rfl
  obtain ⟨count, _, answered, _, isCount, _⟩ :=
    requests_and_results_in_order along ran
  have isThree : count = 3 := by
    rw [← isCount unfinished, isLength]
  subst isThree
  have each :
      ∀ place < 3,
        final.results[place]? =
          some (ReadStream.transpose (mixedAnswer (5 + place))) := by
    intro place below
    obtain ⟨output, rfl, isResult⟩ := answered place below
    exact isResult
  refine ⟨final, ran, requests, ?_⟩
  refine List.ext_getElem? ?_
  intro place
  match place with
  | 0 => exact each 0 (by decide)
  | 1 => exact each 1 (by decide)
  | 2 => exact each 2 (by decide)
  | place + 3 =>
      rw [List.getElem?_eq_none (by omega)]
      rfl

end ReadStreamOrder

end Hyperspace
