import Hyperspace.ByteStream
import Hyperspace.Machine

namespace Hyperspace

/-!
# The end of a byte reader

Callers of `AsyncRead` take a read of zero bytes for the end of the file.  A read
of `ByteStream` copies from one block at most, so a block without bytes makes it
return zero bytes wherever the block is; and after the last block the reader
gets one more, whose absence the server can report in two ways.

This module reads a new byte reader with any buffers and any pattern of pending
polls, and determines for which feeds and servers a read of zero bytes means
that all bytes have been returned.
-/

namespace ByteStreamEnd

/-- A byte reader, and the bytes that its reads have returned. -/
structure Consumer where
  stream : ByteStream
  returned : Bytes
  deriving Repr, DecidableEq

/-- A new byte reader. -/
def Consumer.new : Consumer where
  stream := .new
  returned := []

/-- One poll of a read, and whether the request in flight has completed. -/
structure Read where
  size : Nat
  completed : Bool
  deriving Repr, DecidableEq

/-- One poll; a poll that panics leaves no reader. -/
def step
    (server : FeedServer)
    (consumer : Consumer)
    (read : Read) : Option Consumer :=
  match consumer.stream.pollRead server read.completed read.size with
  | (stream, .ready bytes) => some ⟨stream, consumer.returned ++ bytes⟩
  | (stream, .pending) => some ⟨stream, consumer.returned⟩
  | (_, .panicked _) => none
  | (_, .unfinished) => none

/-- What the server answers for a feed with the given blocks. -/
structure Gets (blocks : List Bytes) (server : FeedServer) : Prop where
  stored :
    ∀ {seq block},
      blocks[seq]? = some block → server.get seq = .ok (some block)
  /-- A missing block is reported by an error, or by no block. -/
  missing :
    ∀ {seq},
      blocks.length ≤ seq →
      server.get seq = .ok none ∨
        ∃ message, server.get seq = .error message

/--
A read returns zero bytes exactly when all bytes have been returned; it is
pending only if its request has not completed, and it does not panic.
-/
def EndsRead
    (blocks : List Bytes)
    (returned : Bytes)
    (completed : Bool) : Poll Bytes → Prop
  | .ready bytes => bytes = [] ↔ returned = blocks.flatten
  | .pending => completed = false
  | .panicked _ => False
  | .unfinished => False

/--
After every sequence of reads with buffers that are not empty, the next read
tells the end of the feed.
-/
def SignalsEnd (blocks : List Bytes) (server : FeedServer) : Prop :=
  ∀ reads,
    Machine.Along (step server) (fun _ read => 0 < read.size) .new reads →
    ∃ final,
      Machine.run (step server) .new reads = some final ∧
        ∀ size completed,
          0 < size →
          EndsRead blocks final.returned completed
            (final.stream.pollRead server completed size).2

/-- No block without bytes stands before a block with bytes. -/
def EmptyOnlyAtEnd (blocks : List Bytes) : Prop :=
  ∀ (first second : Nat) (block : Bytes),
    first < second →
    blocks[first]? = some [] →
    blocks[second]? = some block →
    block = []

/-- The reader has returned all blocks before its own. -/
def AtBlock (blocks : List Bytes) (consumer : Consumer) : Prop :=
  consumer.stream.seq ≤ blocks.length ∧
    consumer.stream.blockOffset = 0 ∧
    consumer.returned = (blocks.take consumer.stream.seq).flatten

/-- What the reader has returned, in every state. -/
def At (blocks : List Bytes) (consumer : Consumer) : Prop :=
  match consumer.stream.state with
  | .idle => AtBlock blocks consumer
  | .reading seq => seq = consumer.stream.seq ∧ AtBlock blocks consumer
  | .ready block =>
      blocks[consumer.stream.seq]? = some block ∧
        consumer.stream.blockOffset < block.length ∧
        consumer.returned =
          (blocks.take consumer.stream.seq).flatten ++
            block.take consumer.stream.blockOffset
  | .finished => consumer.returned = blocks.flatten
  | .seeking _ => False

section

variable
  {blocks : List Bytes}
  {server : FeedServer}
  {consumer : Consumer}

/-- One more block has been returned. -/
theorem flatten_take_succ
    {seq : Nat}
    {block : Bytes}
    (stored : blocks[seq]? = some block) :
    (blocks.take (seq + 1)).flatten =
      (blocks.take seq).flatten ++ block := by
  rw [List.take_add_one, stored]
  simp

/-- The bytes of all blocks, seen from one of them. -/
theorem flatten_eq_append
    {seq : Nat}
    {block : Bytes}
    (stored : blocks[seq]? = some block) :
    blocks.flatten =
      (blocks.take seq).flatten ++
        (block ++ (blocks.drop (seq + 1)).flatten) := by
  rw [← List.append_assoc, ← flatten_take_succ stored,
    ← List.flatten_append, List.take_append_drop]

/-- Inside a block, not all bytes have been returned. -/
theorem returned_ne_flatten
    {seq offset : Nat}
    {block : Bytes}
    (stored : blocks[seq]? = some block)
    (inside : offset < block.length) :
    (blocks.take seq).flatten ++ block.take offset ≠
      blocks.flatten := by
  intro same
  have sameLength := congrArg List.length same
  rw [flatten_eq_append stored] at sameLength
  simp only [List.length_append, List.length_take] at sameLength
  omega

/-- After a block without bytes there are none. -/
theorem EmptyOnlyAtEnd.flatten_take
    (emptyAtEnd : EmptyOnlyAtEnd blocks)
    {seq : Nat}
    (empty : blocks[seq]? = some []) :
    (blocks.take seq).flatten = blocks.flatten := by
  have restEmpty : (blocks.drop (seq + 1)).flatten = [] := by
    rw [List.flatten_eq_nil_iff]
    intro block member
    obtain ⟨offset, found⟩ := List.mem_iff_getElem?.mp member
    rw [List.getElem?_drop] at found
    exact emptyAtEnd seq (seq + 1 + offset) block (by omega) empty found
  rw [flatten_eq_append empty, restEmpty]
  simp

/-- Copying from a block that has bytes left. -/
theorem exists_copyBlock
    {stream : ByteStream}
    {block : Bytes}
    {size : Nat}
    (stored : blocks[stream.seq]? = some block)
    (inside : stream.blockOffset < block.length)
    (positive : 0 < size) :
    ∃ after bytes,
      ByteStream.copyBlock size stream block = (after, .ready bytes) ∧
        bytes ≠ [] ∧
        At blocks
          ⟨after,
            (blocks.take stream.seq).flatten ++
              block.take stream.blockOffset ++ bytes⟩ := by
  have copied :
      (block.drop stream.blockOffset).take size ≠ [] := by
    intro none
    have noLength := congrArg List.length none
    simp only [List.length_take, List.length_drop,
      List.length_nil] at noLength
    omega
  have joined :
      block.take stream.blockOffset ++
          (block.drop stream.blockOffset).take size =
        block.take (stream.blockOffset + size) := by
    rw [List.take_add]
  simp only [ByteStream.copyBlock,
    if_neg (Nat.not_lt.mpr (Nat.le_of_lt inside))]
  by_cases toEnd : block.length ≤ stream.blockOffset + size
  · rw [if_pos toEnd]
    refine ⟨_, _, rfl, copied, ?_, rfl, ?_⟩
    · exact (List.getElem?_eq_some_iff.mp stored).1
    · simp only
      rw [List.append_assoc, joined, List.take_of_length_le toEnd,
        flatten_take_succ stored]
  · rw [if_neg toEnd]
    refine ⟨_, _, rfl, copied, stored, Nat.not_le.mp toEnd, ?_⟩
    simp only
    rw [List.append_assoc, joined]

/-- What the reader does in one poll, and what its caller learns. -/
def Reads
    (blocks : List Bytes)
    (server : FeedServer)
    (consumer : Consumer)
    (read : Read) : Prop :=
  (∃ next, step server consumer read = some next ∧ At blocks next) ∧
    EndsRead blocks consumer.returned read.completed
      (consumer.stream.pollRead server read.completed read.size).2

/-- A read that copies from a block that has bytes left. -/
theorem reads_of_copyBlock
    {stream : ByteStream}
    {block : Bytes}
    {read : Read}
    (copies :
      consumer.stream.pollRead server read.completed read.size =
        ByteStream.copyBlock read.size stream block)
    (stored : blocks[stream.seq]? = some block)
    (inside : stream.blockOffset < block.length)
    (isReturned :
      consumer.returned =
        (blocks.take stream.seq).flatten ++
          block.take stream.blockOffset)
    (positive : 0 < read.size) :
    Reads blocks server consumer read := by
  obtain ⟨after, bytes, copied, notEmpty, atAfter⟩ :=
    exists_copyBlock stored inside positive
  rw [← isReturned] at atAfter
  refine ⟨⟨_, by simp only [step, copies, copied], atAfter⟩, ?_⟩
  rw [copies, copied]
  refine iff_of_false notEmpty ?_
  rw [isReturned]
  exact returned_ne_flatten stored inside

/-- A read that returns zero bytes after all have been returned. -/
theorem reads_of_nothing
    {after : ByteStream}
    {read : Read}
    (ends :
      consumer.stream.pollRead server read.completed read.size =
        (after, .ready []))
    (allReturned : consumer.returned = blocks.flatten)
    (atAfter : At blocks ⟨after, consumer.returned⟩) :
    Reads blocks server consumer read := by
  refine ⟨⟨⟨after, consumer.returned⟩, ?_, atAfter⟩, ?_⟩
  · simp only [step, ends, List.append_nil]
  · rw [ends]
    exact iff_of_true rfl allReturned

/-- A read that gets an empty block, which only empty ones follow. -/
theorem reads_of_emptyBlock
    (emptyAtEnd : EmptyOnlyAtEnd blocks)
    {read : Read}
    (atBlock : AtBlock blocks consumer)
    (copies :
      consumer.stream.pollRead server read.completed read.size =
        ByteStream.copyBlock read.size consumer.stream [])
    (stored : blocks[consumer.stream.seq]? = some []) :
    Reads blocks server consumer read := by
  obtain ⟨-, noOffset, isReturned⟩ := atBlock
  have copied :
      ByteStream.copyBlock read.size consumer.stream [] =
        ({ consumer.stream with
            seq := consumer.stream.seq + 1
            blockOffset := 0
            state := .idle },
          .ready []) := by
    simp [ByteStream.copyBlock, noOffset]
  rw [copied] at copies
  refine reads_of_nothing copies ?_
    ⟨(List.getElem?_eq_some_iff.mp stored).1, rfl, ?_⟩
  · rw [isReturned]
    exact emptyAtEnd.flatten_take stored
  · simp only
    rw [flatten_take_succ stored, List.append_nil, isReturned]

/-- A read that gets the block at which the reader stands. -/
theorem reads_of_fetchBlock
    (gets : Gets blocks server)
    (emptyAtEnd : EmptyOnlyAtEnd blocks)
    (error : ∃ message, server.get blocks.length = .error message)
    {read : Read}
    (atBlock : AtBlock blocks consumer)
    (fetches :
      consumer.stream.pollRead server read.completed read.size =
        ByteStream.fetchBlock server read.completed read.size
          consumer.stream consumer.stream.seq)
    (positive : 0 < read.size) :
    Reads blocks server consumer read := by
  obtain ⟨notPassed, noOffset, isReturned⟩ := atBlock
  cases completed : read.completed with
  | true =>
      simp only [completed, ByteStream.fetchBlock, if_true] at fetches
      cases stored : blocks[consumer.stream.seq]? with
      | none =>
          have isEnd : consumer.stream.seq = blocks.length := by
            have passed := List.getElem?_eq_none_iff.mp stored
            omega
          obtain ⟨message, reply⟩ := error
          rw [← isEnd] at reply
          rw [reply] at fetches
          have allReturned : consumer.returned = blocks.flatten := by
            rw [isReturned, isEnd, List.take_length]
          rw [← completed] at fetches
          exact reads_of_nothing fetches allReturned allReturned
      | some block =>
          rw [gets.stored stored] at fetches
          cases block with
          | cons first rest =>
              rw [← completed] at fetches
              refine
                reads_of_copyBlock fetches stored (by simp [noOffset])
                  ?_ positive
              rw [isReturned, noOffset]
              simp
          | nil =>
              rw [← completed] at fetches
              exact reads_of_emptyBlock emptyAtEnd
                ⟨notPassed, noOffset, isReturned⟩ fetches stored
  | false =>
      simp only [completed, ByteStream.fetchBlock, Bool.false_eq_true,
        if_false] at fetches
      refine ⟨⟨_, by simp only [step, completed, fetches]; rfl, ?_⟩, ?_⟩
      · exact ⟨rfl, notPassed, noOffset, isReturned⟩
      · rw [completed, fetches]
        rfl

/-- Every read of a reader at its place. -/
theorem At.reads
    (gets : Gets blocks server)
    (emptyAtEnd : EmptyOnlyAtEnd blocks)
    (error : ∃ message, server.get blocks.length = .error message)
    (atPlace : At blocks consumer)
    {read : Read}
    (positive : 0 < read.size) :
    Reads blocks server consumer read := by
  have polls :=
    ByteStream.pollRead_eq server read.completed read.size
      consumer.stream
  cases isState : consumer.stream.state with
  | idle =>
      simp only [At, isState] at atPlace polls
      exact reads_of_fetchBlock gets emptyAtEnd error atPlace polls
        positive
  | reading seq =>
      simp only [At, isState] at atPlace polls
      obtain ⟨rfl, atBlock⟩ := atPlace
      exact reads_of_fetchBlock gets emptyAtEnd error atBlock polls
        positive
  | ready block =>
      simp only [At, isState] at atPlace polls
      obtain ⟨stored, inside, isReturned⟩ := atPlace
      exact reads_of_copyBlock polls stored inside isReturned positive
  | finished =>
      simp only [isState] at polls
      have allReturned : consumer.returned = blocks.flatten := by
        simpa only [At, isState] using atPlace
      refine reads_of_nothing polls allReturned ?_
      simpa only [At, isState] using allReturned
  | seeking target =>
      simp [At, isState] at atPlace

/-- A new reader has returned nothing. -/
theorem at_new : At blocks .new :=
  ⟨Nat.zero_le _, rfl, rfl⟩

/-! ## Reading block by block -/

/-- A read with a buffer that is large enough for every block. -/
def wholeBlock (blocks : List Bytes) : Read where
  size := blocks.flatten.length + 1
  completed := true

/-- Reads with a large buffer return one block after the other. -/
theorem run_wholeBlocks
    (gets : Gets blocks server)
    {count : Nat}
    (inside : count ≤ blocks.length) :
    Machine.run (step server) .new
        (List.replicate count (wholeBlock blocks)) =
      some ⟨⟨count, 0, 0, .idle⟩, (blocks.take count).flatten⟩ := by
  induction count with
  | zero =>
      rfl
  | succ count inductionHypothesis =>
      have before := inductionHypothesis (Nat.le_of_succ_le inside)
      have stored : blocks[count]? = some (blocks.get ⟨count, inside⟩) :=
        List.getElem?_eq_getElem inside
      have fitsBuffer :
          (blocks.get ⟨count, inside⟩).length ≤
            blocks.flatten.length + 1 := by
        rw [flatten_eq_append stored]
        simp only [List.length_append]
        omega
      rw [List.replicate_succ']
      refine Machine.run_append before ?_
      refine Machine.run_cons.mpr ⟨_, ?_, rfl⟩
      simp only [step, ByteStream.pollRead_eq, wholeBlock,
        ByteStream.fetchBlock, if_true, gets.stored stored,
        ByteStream.copyBlock, Nat.not_lt_zero, if_false, Nat.zero_add,
        if_pos fitsBuffer, List.drop_zero,
        List.take_of_length_le fitsBuffer, flatten_take_succ stored]

/-- Before every block the next read has to tell the end. -/
theorem SignalsEnd.atBlock
    (gets : Gets blocks server)
    (signals : SignalsEnd blocks server)
    {count : Nat}
    (inside : count ≤ blocks.length) :
    EndsRead blocks (blocks.take count).flatten true
      (ByteStream.fetchBlock server true 1 ⟨count, 0, 0, .idle⟩
        count).2 := by
  have along :
      Machine.Along (step server) (fun _ read => 0 < read.size) .new
        (List.replicate count (wholeBlock blocks)) := by
    refine Machine.along_of_mem ?_
    intro read member
    rw [List.eq_of_mem_replicate member]
    exact Nat.succ_pos _
  obtain ⟨final, ran, ends⟩ := signals _ along
  rw [run_wholeBlocks gets inside] at ran
  cases ran
  have next := ends 1 true Nat.one_pos
  rwa [ByteStream.pollRead_eq] at next

/-- A reader that tells the end has empty blocks only at the end. -/
theorem SignalsEnd.emptyOnlyAtEnd
    (gets : Gets blocks server)
    (signals : SignalsEnd blocks server) :
    EmptyOnlyAtEnd blocks := by
  intro first second block earlier empty stored
  have inside := (List.getElem?_eq_some_iff.mp empty).1
  have ends := signals.atBlock gets (Nat.le_of_lt inside)
  simp only [ByteStream.fetchBlock, if_true, gets.stored empty,
    ByteStream.copyBlock, List.length_nil, Nat.not_lt_zero, if_false,
    Nat.zero_le, List.drop_nil, List.take_nil, EndsRead,
    true_iff] at ends
  rw [flatten_eq_append empty, List.nil_append] at ends
  have restEmpty : (blocks.drop (first + 1)).flatten = [] := by
    simpa using ends
  rw [List.flatten_eq_nil_iff] at restEmpty
  apply restEmpty
  refine List.mem_iff_getElem?.mpr ⟨second - (first + 1), ?_⟩
  rw [List.getElem?_drop, ← stored]
  congr 1
  omega

/-- A reader that tells the end is told of it by an error. -/
theorem SignalsEnd.error
    (gets : Gets blocks server)
    (signals : SignalsEnd blocks server) :
    ∃ message, server.get blocks.length = .error message := by
  rcases gets.missing (Nat.le_refl blocks.length) with
    noBlock | isError
  · have ends := signals.atBlock gets (Nat.le_refl blocks.length)
    simp only [ByteStream.fetchBlock, if_true, noBlock,
      EndsRead] at ends
  · exact isError

end

/--
For every feed and every server: in every sequence of reads with buffers that
are not empty, with any pattern of pending polls, a read returns zero bytes
exactly when all bytes of the feed have been returned, and no read panics, if
and only if no empty block stands before one that is not, and the server reports
the block after the last by an error.
-/
theorem signals_end_iff
    {blocks : List Bytes}
    {server : FeedServer}
    (gets : Gets blocks server) :
    SignalsEnd blocks server ↔
      EmptyOnlyAtEnd blocks ∧
        ∃ message, server.get blocks.length = .error message := by
  constructor
  · intro signals
    exact ⟨signals.emptyOnlyAtEnd gets, signals.error gets⟩
  · rintro ⟨emptyAtEnd, error⟩ reads along
    obtain ⟨final, ran, atPlace⟩ :=
      Machine.exists_run_along (At blocks)
        (fun atPlace positive =>
          (atPlace.reads gets emptyAtEnd error positive).1)
        at_new along
    refine ⟨final, ran, ?_⟩
    intro size completed positive
    have reads :
        Reads blocks server final ⟨size, completed⟩ :=
      atPlace.reads gets emptyAtEnd error positive
    exact reads.2

/-- A server that holds the given blocks answers for them. -/
theorem gets_serverOf (blocks : List Bytes) :
    Gets blocks (ByteStream.serverOf blocks) where
  stored := by
    intro seq block stored
    simp [ByteStream.serverOf, stored]
  missing := by
    intro seq beyond
    right
    simp [ByteStream.serverOf, List.getElem?_eq_none beyond]

/-- A feed of two blocks with bytes and one without. -/
theorem signals_end_iff_emptyLast :
    SignalsEnd [[97, 98], [99], []]
      (ByteStream.serverOf [[97, 98], [99], []]) := by
  refine (signals_end_iff (gets_serverOf _)).mpr ⟨?_, _, rfl⟩
  intro first second block earlier empty stored
  have below := (List.getElem?_eq_some_iff.mp stored).1
  simp only [List.length_cons, List.length_nil] at below
  have isFirst : first = 0 ∨ first = 1 := by omega
  rcases isFirst with rfl | rfl
  · cases empty
  · cases empty

/-- An empty block before another makes the first read return zero bytes. -/
theorem empty_block_reads_as_end :
    ¬ SignalsEnd [[], [97]] (ByteStream.serverOf [[], [97]]) := by
  intro signals
  have atEnd :=
    signals.emptyOnlyAtEnd (gets_serverOf _) 0 1 [97] (by decide)
      rfl rfl
  cases atEnd

end ByteStreamEnd

end Hyperspace
