import Mathlib.Data.List.Infix
import Hyperspace.ReadStreamOrder

namespace Hyperspace

/-!
# Writing and reading from the command line

The client has two commands.  `write` reads its input in pieces and appends
each piece as one block, in a loop that only an error ends.  `read` makes a live
stream of the core's blocks, turns it into a reader of bytes and copies that to
its output.

This module runs both commands on one feed, with other clients that append to
it as well.  The input goes into the feed in order, and at every moment the
output is the beginning of what is in the feed, whatever the order in which
requests are answered and events arrive, and whatever fails.
-/

namespace ClientCopy

open ReadStreamRange (Reader)
open ReadStreamOrder (Ordered ordered_new poll_sends)

/-- The size of the buffer of `write`. -/
def bufferLength : Nat := 1024 * 1024

/-- The two commands, and the feed that they work on. -/
structure State where
  /-- The blocks of the feed. -/
  blocks : List Bytes
  /-- The bytes that `write` has read, and the blocks that it has made. -/
  input : Bytes
  written : List Bytes
  /-- The error that `write` has returned. -/
  writeError : Option IoError
  /-- The block whose append has failed, and which the server may yet store. -/
  unconfirmed : Option Bytes
  reader : Reader
  /-- The rest of the block that the reader of bytes is at. -/
  chunk : Bytes
  output : Bytes
  /-- What `read` has returned. -/
  readResult : Option (Except IoError Unit)

/-- Both commands begin on a feed with some blocks. -/
def initial (blocks : List Bytes) (inner : InnerHypercore) : State where
  blocks := blocks
  input := []
  written := []
  writeError := none
  unconfirmed := none
  reader := .new inner 0 none true
  chunk := []
  output := []
  readResult := none

/-- What can happen. -/
inductive Action where
  /-- One turn of the loop in `write`, for the bytes read from the input. -/
  | write (read : Except IoError Bytes) (appended : Except IoError Unit)
  /-- The server stores the block whose append has failed for `write`. -/
  | storeUnconfirmed
  /-- Another client appends. -/
  | append (block : Bytes)
  /-- Some bytes of the block at hand are copied. -/
  | copy (size : Nat)
  /-- The stream is polled; an answer is given for a length of the feed. -/
  | poll (answered : Option (Except IoError Nat))
  /-- Writing to the output fails. -/
  | outputFails (message : IoError)
  | onAppend (length byteLength : Nat)
  | onDownload (seq : Nat) (byteLength : Option Nat)

/-- The answer of the server to a get, at a time when the feed was shorter. -/
def answer
    (blocks : List Bytes)
    (seq : Nat) : Except IoError Nat → GetOutput
  | .error message => .error message
  | .ok length => .ok (blocks.take length)[seq]?

/-- One turn of the loop of `write`. -/
def State.writeTurn
    (state : State)
    (read : Except IoError Bytes)
    (appended : Except IoError Unit) : State :=
  match read with
  | .error message => { state with writeError := some message }
  | .ok [] => state
  | .ok bytes =>
      match appended with
      | .error message =>
          { state with
            input := state.input ++ bytes
            writeError := some message
            unconfirmed := some bytes }
      | .ok () =>
          { state with
            blocks := state.blocks ++ [bytes]
            input := state.input ++ bytes
            written := state.written ++ [bytes] }

/-- What the reader of bytes does with an item of the stream. -/
def State.take
    (state : State)
    (reader : Reader) : Option ReadStream.Item → State
  | none =>
      { state with reader := reader, readResult := some (.ok ()) }
  | some (.error message) =>
      { state with
        reader := reader, readResult := some (.error message) }
  | some (.ok block) =>
      { state with reader := reader, chunk := block }

/-- One step. -/
def step
    (overflowChecks : Bool)
    (state : State) : Action → Option State
  | .write read appended =>
      match state.writeError with
      | some _ => none
      | none => some (state.writeTurn read appended)
  | .storeUnconfirmed =>
      state.unconfirmed.map fun block =>
        { state with
          blocks := state.blocks ++ [block], unconfirmed := none }
  | .append block =>
      some { state with blocks := state.blocks ++ [block] }
  | .copy size =>
      match state.readResult with
      | some _ => none
      | none =>
          some { state with
            chunk := state.chunk.drop size
            output := state.output ++ state.chunk.take size }
  | .poll answered =>
      match state.readResult, state.chunk with
      | none, [] =>
          (state.reader.poll overflowChecks
            (answered.map
              (answer state.blocks state.reader.wanted))).map
            fun reader =>
              match reader.results.drop state.reader.results.length with
              | [] => { state with reader := reader }
              | result :: _ => state.take reader result
      | _, _ => none
  | .outputFails message =>
      match state.readResult with
      | some _ => none
      | none => some { state with readResult := some (.error message) }
  | .onAppend length byteLength =>
      some { state with
        reader :=
          { state.reader with
            inner := state.reader.inner.onAppend length byteLength } }
  | .onDownload seq byteLength =>
      some { state with
        reader :=
          { state.reader with
            inner := state.reader.inner.onDownload seq byteLength } }

/-- The input is read in pieces of the buffer's size, and indices stay small. -/
def Allowed (state : State) : Action → Prop
  | .write (.ok bytes) _ => bytes.length ≤ bufferLength
  | .poll _ => state.reader.stream.index + 1 < 2 ^ 64
  | _ => True

instance decidableAllowed
    (state : State) :
    (action : Action) → Decidable (Allowed state action)
  | .write (.ok bytes) _ =>
      inferInstanceAs (Decidable (bytes.length ≤ bufferLength))
  | .write (.error _) _ => inferInstanceAs (Decidable True)
  | .poll _ =>
      inferInstanceAs
        (Decidable (state.reader.stream.index + 1 < 2 ^ 64))
  | .storeUnconfirmed => inferInstanceAs (Decidable True)
  | .append _ => inferInstanceAs (Decidable True)
  | .copy _ => inferInstanceAs (Decidable True)
  | .outputFails _ => inferInstanceAs (Decidable True)
  | .onAppend _ _ => inferInstanceAs (Decidable True)
  | .onDownload _ _ => inferInstanceAs (Decidable True)

/-- A live stream that has got a number of answers. -/
structure Streaming (count : Nat) (reader : Reader) : Prop where
  ordered : Ordered (fun _ _ => True) 0 count reader
  live : reader.stream.live = true
  unfinished : reader.stream.finished = false

/-- What holds of the two commands in every state. -/
structure Copied (before : List Bytes) (state : State) : Prop where
  /-- The blocks that were there at first stay, and those of `write` follow. -/
  written :
    ∃ later,
      state.blocks = before ++ later ∧ state.written.Sublist later
  /-- The blocks of `write` are the beginning of its input. -/
  begins : state.written.flatten <+: state.input
  /-- They are all of it as long as nothing has failed. -/
  whole :
    state.writeError = none → state.written.flatten = state.input
  /-- The output is made of the first blocks. -/
  copied :
    ∃ count ≤ state.blocks.length,
      state.output ++ state.chunk =
          (state.blocks.take count).flatten ∧
        (state.readResult = none → Streaming count state.reader)
  /-- The reader has returned at the end of a block. -/
  returned : state.readResult = some (.ok ()) → state.chunk = []

section

variable
  {overflowChecks : Bool}
  {before : List Bytes}
  {state next : State}

/-- The stream of a new reader. -/
theorem streaming_new (inner : InnerHypercore) :
    Streaming 0 (.new inner 0 none true) where
  ordered := ordered_new _ inner 0 none true
  live := rfl
  unfinished := rfl

/-- Both commands begin with nothing copied. -/
theorem copied_initial
    (blocks : List Bytes)
    (inner : InnerHypercore) :
    Copied blocks (initial blocks inner) where
  written := ⟨[], by simp [initial], List.Sublist.refl []⟩
  begins := List.prefix_rfl
  whole := fun _ => rfl
  copied := ⟨0, Nat.zero_le _, rfl, fun _ => streaming_new inner⟩
  returned := by simp [initial]

/-- Events of the core leave the answers of a stream as they are. -/
theorem Streaming.of_event
    {count : Nat}
    {reader : Reader}
    (streaming : Streaming count reader)
    (inner : InnerHypercore) :
    Streaming count { reader with inner := inner } where
  ordered :=
    ⟨streaming.ordered.answered, streaming.ordered.nothing,
      streaming.ordered.enough, streaming.ordered.finished,
      streaming.ordered.reading, streaming.ordered.direct⟩
  live := streaming.live
  unfinished := streaming.unfinished

/-- A poll of a live stream is pending, or takes the answer to its request. -/
theorem Streaming.poll
    {count : Nat}
    {reader after : Reader}
    (streaming : Streaming count reader)
    {reply : Option GetOutput}
    (fits : reader.stream.index + 1 < 2 ^ 64)
    (polled : reader.poll overflowChecks reply = some after) :
    (after.results = reader.results ∧ Streaming count after) ∨
      ∃ output,
        reply = some output ∧
          after.results =
            reader.results ++ [ReadStream.transpose output] ∧
          Streaming (count + 1) after := by
  obtain ⟨ordered, live, unfinished⟩ := streaming
  cases completed :
      (reader.stream.future.poll reply reader.inner).output with
  | none =>
      refine Or.inl ?_
      have kept := ordered.poll_pending unfinished completed polled
      rw [Reader.poll,
        ReadStream.pollNext_of_pending overflowChecks unfinished
          completed] at polled
      cases polled
      exact ⟨rfl, kept, live, unfinished⟩
  | some output =>
      have isReply :=
        ((poll_sends reader.stream.future reply
          reader.inner).2.2.2.1 output completed).1
      refine Or.inr ⟨output, isReply, ?_⟩
      have kept :=
        ordered.poll_output unfinished fits
          (fun _ _ => trivial) completed polled
      rw [Reader.poll,
        ReadStream.pollNext_of_output overflowChecks unfinished fits
          completed] at polled
      cases polled
      refine ⟨rfl, kept, ?_, ?_⟩
      · simp only [ReadStream.advanced]
        split <;> exact live
      · simp only [ReadStream.advanced]
        split
        · next ended =>
            exact absurd ended.2 (by simp [live])
        · exact unfinished

/-- A block that is appended, but not by a turn of `write`. -/
theorem Copied.append
    (copied : Copied before state)
    (block : Bytes) :
    Copied before
      { state with blocks := state.blocks ++ [block] } where
  written := by
    obtain ⟨later, isBlocks, sublist⟩ := copied.written
    exact ⟨later ++ [block], by simp [isBlocks],
      sublist.trans (List.sublist_append_left later [block])⟩
  begins := copied.begins
  whole := copied.whole
  copied := by
    obtain ⟨count, atMost, isCopied, streaming⟩ := copied.copied
    refine ⟨count, by simp; omega, ?_, streaming⟩
    rw [List.take_append_of_le_length atMost]
    exact isCopied
  returned := copied.returned

/-- One turn of `write` that has appended its piece. -/
theorem Copied.writeAppended
    (copied : Copied before state)
    (working : state.writeError = none)
    (bytes : Bytes) :
    Copied before
      { state with
        blocks := state.blocks ++ [bytes]
        input := state.input ++ bytes
        written := state.written ++ [bytes] } where
  written := by
    obtain ⟨later, isBlocks, sublist⟩ := copied.written
    exact ⟨later ++ [bytes], by simp [isBlocks],
      sublist.append (List.Sublist.refl [bytes])⟩
  begins := by
    simp [copied.whole working]
  whole := fun _ => by
    simp [copied.whole working]
  copied := (copied.append bytes).copied
  returned := copied.returned

/-- One turn of `write`. -/
theorem Copied.writeTurn
    (copied : Copied before state)
    (working : state.writeError = none)
    (read : Except IoError Bytes)
    (appended : Except IoError Unit) :
    Copied before (state.writeTurn read appended) := by
  cases read with
  | error message =>
      exact ⟨copied.written, copied.begins,
        by simp [State.writeTurn], copied.copied, copied.returned⟩
  | ok bytes =>
      cases bytes with
      | nil =>
          exact copied
      | cons byte rest =>
          cases appended with
          | error message =>
              refine ⟨copied.written, ?_, by simp [State.writeTurn],
                copied.copied, copied.returned⟩
              exact copied.begins.trans (List.prefix_append _ _)
          | ok done =>
              exact copied.writeAppended working (byte :: rest)

/-- Some bytes of the block at hand are copied. -/
theorem Copied.copy
    (copied : Copied before state)
    (reading : state.readResult = none)
    (size : Nat) :
    Copied before
      { state with
        chunk := state.chunk.drop size
        output := state.output ++ state.chunk.take size } where
  written := copied.written
  begins := copied.begins
  whole := copied.whole
  copied := by
    obtain ⟨count, atMost, isCopied, streaming⟩ := copied.copied
    refine ⟨count, atMost, ?_, streaming⟩
    rw [List.append_assoc, List.take_append_drop]
    exact isCopied
  returned := by
    intro isResult
    rw [show state.readResult = some (.ok ()) from isResult] at reading
    cases reading

/-- The answer to a get is a block only if it is the block asked for. -/
theorem transpose_answer_ok
    {blocks : List Bytes}
    {seq : Nat}
    {answered : Except IoError Nat}
    {block : Bytes}
    (isBlock :
      ReadStream.transpose (answer blocks seq answered) =
        some (.ok block)) :
    blocks[seq]? = some block := by
  cases answered with
  | error message =>
      cases isBlock
  | ok length =>
      rw [answer] at isBlock
      cases found : (blocks.take length)[seq]? with
      | none =>
          rw [found] at isBlock
          cases isBlock
      | some other =>
          rw [found] at isBlock
          cases isBlock
          obtain ⟨inside, isOther⟩ := List.getElem?_eq_some_iff.mp found
          rw [List.getElem_take] at isOther
          exact List.getElem?_eq_some_iff.mpr ⟨_, isOther⟩

/-- The first blocks with the one that follows them. -/
theorem flatten_take_succ
    {blocks : List Bytes}
    {count : Nat}
    {block : Bytes}
    (isBlock : blocks[count]? = some block) :
    (blocks.take (count + 1)).flatten =
      (blocks.take count).flatten ++ block := by
  rw [List.take_add_one, isBlock]
  simp

/-- The reader takes the answer to its request. -/
theorem Copied.take
    (copied : Copied before state)
    (reading : state.readResult = none)
    (empty : state.chunk = [])
    {count : Nat}
    (atMost : count ≤ state.blocks.length)
    (isCopied : state.output = (state.blocks.take count).flatten)
    {after : Reader}
    (streaming : Streaming (count + 1) after)
    (answered : Except IoError Nat) :
    Copied before
      (state.take after
        (ReadStream.transpose
          (answer state.blocks count answered))) := by
  cases item :
      ReadStream.transpose (answer state.blocks count answered) with
  | none =>
      refine ⟨copied.written, copied.begins, copied.whole,
        ⟨count, atMost, ?_, by simp [State.take]⟩, fun _ => empty⟩
      simp [State.take, empty, isCopied]
  | some result =>
      cases result with
      | error message =>
          refine ⟨copied.written, copied.begins, copied.whole,
            ⟨count, atMost, ?_, by simp [State.take]⟩,
            fun _ => empty⟩
          simp [State.take, empty, isCopied]
      | ok block =>
          have isBlock := transpose_answer_ok item
          have inside :=
            (List.getElem?_eq_some_iff.mp isBlock).1
          refine ⟨copied.written, copied.begins, copied.whole,
            ⟨count + 1, inside, ?_, fun _ => streaming⟩, ?_⟩
          · simp only [State.take]
            rw [isCopied, flatten_take_succ isBlock]
          · intro isResult
            rw [show state.readResult = some (.ok ()) from isResult]
              at reading
            cases reading

/-- A poll of the stream between two blocks. -/
theorem Copied.poll
    (copied : Copied before state)
    (reading : state.readResult = none)
    (empty : state.chunk = [])
    (fits : state.reader.stream.index + 1 < 2 ^ 64)
    {answered : Option (Except IoError Nat)}
    (stepped :
      ((state.reader.poll overflowChecks
        (answered.map
          (answer state.blocks state.reader.wanted))).map
        fun reader =>
          match reader.results.drop state.reader.results.length with
          | [] => { state with reader := reader }
          | result :: _ => state.take reader result) =
        some next) :
    Copied before next := by
  obtain ⟨after, polled, isNext⟩ := Option.map_eq_some_iff.mp stepped
  obtain ⟨count, atMost, isCopied, streams⟩ := copied.copied
  have streaming := streams reading
  rw [empty, List.append_nil] at isCopied
  obtain ⟨_, _, isSeq, _⟩ :=
    streaming.ordered.reading streaming.unfinished
  have wanted : state.reader.wanted = count :=
    isSeq.trans (Nat.zero_add count)
  rcases streaming.poll fits polled with
    ⟨sameResults, kept⟩ | ⟨output, isOutput, results, kept⟩
  · rw [sameResults, List.drop_length] at isNext
    subst isNext
    refine ⟨copied.written, copied.begins, copied.whole,
      ⟨count, atMost, ?_, fun _ => kept⟩, copied.returned⟩
    rw [← isCopied, empty, List.append_nil]
  · obtain ⟨given, -, isAnswer⟩ := Option.map_eq_some_iff.mp isOutput
    rw [wanted] at isAnswer
    rw [results, List.drop_left, ← isAnswer] at isNext
    subst isNext
    exact copied.take reading empty atMost isCopied kept given

/-- Events of the core leave what has been copied as it is. -/
theorem Copied.of_event
    (copied : Copied before state)
    (inner : InnerHypercore) :
    Copied before
      { state with
        reader := { state.reader with inner := inner } } where
  written := copied.written
  begins := copied.begins
  whole := copied.whole
  copied := by
    obtain ⟨count, atMost, isCopied, streams⟩ := copied.copied
    exact ⟨count, atMost, isCopied,
      fun reading => (streams reading).of_event inner⟩
  returned := copied.returned

/-- Every step keeps what has been copied. -/
theorem Copied.step
    (copied : Copied before state)
    {action : Action}
    (allowed : Allowed state action)
    (stepped : step overflowChecks state action = some next) :
    Copied before next := by
  cases action with
  | write read appended =>
      simp only [ClientCopy.step] at stepped
      split at stepped
      · cases stepped
      · next working =>
          cases stepped
          exact copied.writeTurn working read appended
  | storeUnconfirmed =>
      obtain ⟨block, -, rfl⟩ := Option.map_eq_some_iff.mp stepped
      have stored := copied.append block
      exact ⟨stored.written, stored.begins, stored.whole,
        stored.copied, stored.returned⟩
  | append block =>
      cases stepped
      exact copied.append block
  | copy size =>
      simp only [ClientCopy.step] at stepped
      split at stepped
      · cases stepped
      · next reading =>
          cases stepped
          exact copied.copy reading size
  | poll answered =>
      simp only [ClientCopy.step] at stepped
      split at stepped
      · next reading empty =>
          exact copied.poll reading empty allowed stepped
      · cases stepped
  | outputFails message =>
      simp only [ClientCopy.step] at stepped
      split at stepped
      · cases stepped
      · cases stepped
        obtain ⟨count, atMost, isCopied, _⟩ := copied.copied
        exact ⟨copied.written, copied.begins, copied.whole,
          ⟨count, atMost, isCopied, by simp⟩, by simp⟩
  | onAppend length byteLength =>
      cases stepped
      exact copied.of_event _
  | onDownload seq byteLength =>
      cases stepped
      exact copied.of_event _

/-- An action that is not another client's append. -/
def Alone : Action → Prop
  | .append _ => False
  | _ => True

/--
Only `write` has appended: what was appended, with the block that the server may
yet store, is the beginning of the input.
-/
structure OnlyWritten (before : List Bytes) (state : State) : Prop where
  appended :
    ∃ later,
      state.blocks = before ++ later ∧
        later.flatten ++ state.unconfirmed.getD [] <+: state.input
  /-- As long as nothing has failed, these are the blocks of `write`. -/
  confirmed :
    state.writeError = none →
    state.blocks = before ++ state.written ∧ state.unconfirmed = none

/-- Nothing is appended at first. -/
theorem onlyWritten_initial
    (blocks : List Bytes)
    (inner : InnerHypercore) :
    OnlyWritten blocks (initial blocks inner) where
  appended := ⟨[], by simp [initial]⟩
  confirmed := fun _ => by simp [initial]

/-- A turn of `write` appends what it has read, or leaves it unconfirmed. -/
theorem OnlyWritten.writeTurn
    (only : OnlyWritten before state)
    (copied : Copied before state)
    (working : state.writeError = none)
    (read : Except IoError Bytes)
    (appended : Except IoError Unit) :
    OnlyWritten before (state.writeTurn read appended) := by
  obtain ⟨isBlocks, settled⟩ := only.confirmed working
  have whole := copied.whole working
  cases read with
  | error message =>
      exact ⟨only.appended, by simp [State.writeTurn]⟩
  | ok bytes =>
      cases bytes with
      | nil =>
          exact only
      | cons byte rest =>
          cases appended with
          | error message =>
              refine ⟨⟨state.written, isBlocks, ?_⟩,
                by simp [State.writeTurn]⟩
              simp [State.writeTurn, whole]
          | ok done =>
              refine ⟨⟨state.written ++ [byte :: rest], ?_, ?_⟩,
                fun _ => ⟨?_, settled⟩⟩
              · simp [State.writeTurn, isBlocks]
              · simp [State.writeTurn, whole, settled]
              · simp [State.writeTurn, isBlocks]

/-- The server stores the block whose append has failed. -/
theorem OnlyWritten.storeUnconfirmed
    (only : OnlyWritten before state)
    {block : Bytes}
    (pending : state.unconfirmed = some block) :
    OnlyWritten before
      { state with
        blocks := state.blocks ++ [block], unconfirmed := none } where
  appended := by
    obtain ⟨later, isBlocks, begins⟩ := only.appended
    refine ⟨later ++ [block], by simp [isBlocks], ?_⟩
    simpa [pending] using begins
  confirmed := by
    intro working
    have settled := (only.confirmed working).2
    rw [pending] at settled
    cases settled

/-- What a step that is not another client's append leaves in the feed. -/
theorem OnlyWritten.step
    (only : OnlyWritten before state)
    (copied : Copied before state)
    {action : Action}
    (alone : Alone action)
    (stepped : step overflowChecks state action = some next) :
    OnlyWritten before next := by
  have appended := only.appended
  have confirmed := only.confirmed
  cases action with
  | write read outcome =>
      simp only [ClientCopy.step] at stepped
      split at stepped
      · cases stepped
      · next working =>
          cases stepped
          exact only.writeTurn copied working read outcome
  | storeUnconfirmed =>
      obtain ⟨block, pending, rfl⟩ := Option.map_eq_some_iff.mp stepped
      exact only.storeUnconfirmed pending
  | append block =>
      exact absurd alone id
  | poll answered =>
      simp only [ClientCopy.step] at stepped
      split at stepped
      · obtain ⟨after, -, rfl⟩ := Option.map_eq_some_iff.mp stepped
        split
        · exact ⟨appended, confirmed⟩
        · rw [State.take.eq_def]
          split <;> exact ⟨appended, confirmed⟩
      · cases stepped
  | copy size =>
      simp only [ClientCopy.step] at stepped
      split at stepped
      · cases stepped
      · cases stepped
        exact ⟨appended, confirmed⟩
  | outputFails message =>
      simp only [ClientCopy.step] at stepped
      split at stepped
      · cases stepped
      · cases stepped
        exact ⟨appended, confirmed⟩
  | onAppend length byteLength =>
      cases stepped
      exact ⟨appended, confirmed⟩
  | onDownload seq byteLength =>
      cases stepped
      exact ⟨appended, confirmed⟩

/--
Whatever the two commands, other clients and the server do: the feed has the
blocks of `write` in order, these are the input of `write` up to its error, and
the output of `read` is the beginning of the feed, whole blocks of it when
`read` has returned without an error.  With no other client on a new feed the
output of `read` is the beginning of the input of `write`, also when the server
stores a block whose append has failed.
-/
theorem output_is_beginning_of_feed
    {before : List Bytes}
    {inner : InnerHypercore}
    {actions : List Action}
    {final : State}
    (along :
      Machine.Along (step overflowChecks) Allowed
        (initial before inner) actions)
    (ran :
      Machine.run (step overflowChecks) (initial before inner)
          actions =
        some final) :
    (∃ later,
      final.blocks = before ++ later ∧
        final.written.Sublist later) ∧
      final.written.flatten <+: final.input ∧
      (final.writeError = none →
        final.written.flatten = final.input) ∧
      final.output <+: final.blocks.flatten ∧
      (final.readResult = some (.ok ()) →
        ∃ count, final.output = (final.blocks.take count).flatten) ∧
      (before = [] →
        (∀ action ∈ actions, Alone action) →
        final.output <+: final.input) := by
  have copied :=
    Machine.invariant_run_along (Copied before)
      (fun copied allowed stepped => copied.step allowed stepped)
      (copied_initial before inner) along ran
  obtain ⟨count, _, isCopied, _⟩ := copied.copied
  have outputBegins : final.output <+: final.blocks.flatten := by
    refine (List.prefix_append final.output final.chunk).trans ?_
    rw [isCopied]
    exact List.IsPrefix.flatten (List.take_prefix count final.blocks)
  refine ⟨copied.written, copied.begins, copied.whole, outputBegins,
    ?_, ?_⟩
  · intro returned
    rw [copied.returned returned, List.append_nil] at isCopied
    exact ⟨count, isCopied⟩
  · intro isEmpty alone
    have both :
        Copied before final ∧ OnlyWritten before final :=
      Machine.invariant_run_along
        (fun state => Copied before state ∧ OnlyWritten before state)
        (fun both condition stepped =>
          ⟨both.1.step condition.1 stepped,
            both.2.step both.1 condition.2 stepped⟩)
        ⟨copied_initial before inner, onlyWritten_initial before inner⟩
        (Machine.along_and along (Machine.along_of_mem alone)) ran
    obtain ⟨later, isBlocks, begins⟩ := both.2.appended
    rw [isEmpty, List.nil_append] at isBlocks
    rw [isBlocks] at outputBegins
    exact outputBegins.trans ((List.prefix_append _ _).trans begins)

end

/-- Two pieces are written, and the second is copied only in part. -/
def twoPieces : List Action :=
  [.write (.ok [104, 105]) (.ok ()), .poll none,
    .poll (some (.ok 1)), .copy 8, .write (.ok []) (.ok ()),
    .write (.ok [33, 10]) (.ok ()), .onAppend 2 4,
    .poll (some (.ok 2)), .copy 1]

/-- A client that has just opened an empty feed. -/
def emptyCore : InnerHypercore :=
  InnerHypercore.new none (some "foo")

/-- What has been copied of two pieces is the beginning of the input. -/
theorem output_is_beginning_of_feed_twoPieces :
    ∃ final,
      Machine.run (step true) (initial [] emptyCore) twoPieces =
          some final ∧
        final.output = [104, 105, 33] ∧
        final.written.flatten = final.input ∧
        final.output <+: final.input := by
  obtain ⟨final, ran, isOutput, noError⟩ :
      ∃ final,
        Machine.run (step true) (initial [] emptyCore) twoPieces =
            some final ∧
          final.output = [104, 105, 33] ∧
          final.writeError = none :=
    ⟨_, rfl, rfl, rfl⟩
  have along :
      Machine.Along (step true) Allowed (initial [] emptyCore)
        twoPieces := by
    decide
  obtain ⟨_, _, whole, _, _, alone⟩ :=
    output_is_beginning_of_feed along ran
  refine ⟨final, ran, isOutput, whole noError, alone rfl ?_⟩
  simp [twoPieces, Alone]

end ClientCopy

end Hyperspace
