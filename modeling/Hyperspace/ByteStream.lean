import Hyperspace.RemoteHypercore

namespace Hyperspace

/-!
# The byte reader of a remote feed

`ByteStream` of `client/src/stream.rs` reads a feed as one string of bytes.  It
implements `AsyncRead` and `AsyncSeek`, so its methods are polls: each runs a
loop over the states `Idle`, `Seeking`, `Reading`, `Ready` and `Finished`, and
returns `Pending` when the future in the current state has not completed.

A future is represented by the argument of the request it makes.  One call of a
poll method polls at most one future, and whether that future has completed is
an argument of the call.
-/

/-- The replies of the server that the byte reader uses. -/
structure FeedServer where
  get : Nat → Except IoError (Option Bytes)
  seek : Nat → Except IoError (Nat × Nat)

/-- What a poll returns. -/
inductive Poll (α : Type) where
  | pending
  | ready (value : α)
  /-- The call panics; the text says where. -/
  | panicked (message : String)
  /-- The loop has not ended after the iterations it was given. -/
  | unfinished
  deriving Repr, DecidableEq

/-- The argument of `poll_seek`. -/
inductive SeekFrom where
  | start (position : Nat)
  | fromEnd (offset : Int)
  | current (offset : Int)
  deriving Repr, DecidableEq

namespace ByteStream

/-- The enumeration `State`; futures are named by the request they make. -/
inductive State where
  | idle
  | seeking (byteOffset : Nat)
  | reading (seq : Nat)
  | ready (block : Bytes)
  | finished
  deriving Repr, DecidableEq

end ByteStream

/-- The structure `ByteStream`, without the handle its requests go to. -/
structure ByteStream where
  seq : Nat
  blockOffset : Nat
  byteOffset : Nat
  state : ByteStream.State
  deriving Repr, DecidableEq

namespace ByteStream

/-- The function `new`. -/
def new : ByteStream where
  seq := 0
  blockOffset := 0
  byteOffset := 0
  state := .idle

/-- One iteration of a poll loop continues or ends the call. -/
inductive Iteration (α : Type) where
  | again (stream : ByteStream) (filled : Bytes)
  | done (stream : ByteStream) (result : Poll α)

/-- Repeat an iteration, at most `fuel` times. -/
def loop
    {α : Type}
    (iterate : ByteStream → Bytes → Iteration α) :
    Nat → ByteStream → Bytes → ByteStream × Poll α
  | 0, stream, _ => (stream, .unfinished)
  | fuel + 1, stream, filled =>
      match iterate stream filled with
      | .done stream result => (stream, result)
      | .again stream filled => loop iterate fuel stream filled

/--
One iteration of `poll_read`; `filled` is the part of the buffer written so
far, `buf[..pos]`.
-/
def readIteration
    (server : FeedServer)
    (completed : Bool)
    (size : Nat)
    (stream : ByteStream)
    (filled : Bytes) : Iteration Bytes :=
  match stream.state with
  | .seeking _ =>
      .done stream (.panicked "unreachable")
  | .finished =>
      .done stream (.ready [])
  | .idle =>
      .again { stream with state := .reading stream.seq } filled
  | .reading seq =>
      if completed then
        match server.get seq with
        | .error _ => .again { stream with state := .finished } filled
        | .ok none => .done stream (.panicked "unwrap")
        | .ok (some block) =>
            .again { stream with state := .ready block } filled
      else
        .done stream .pending
  | .ready block =>
      if block.length < stream.blockOffset then
        .done stream (.panicked "range start index")
      else
        let blockSlice := block.drop stream.blockOffset
        let len := min (size - filled.length) blockSlice.length
        let blockOffset := stream.blockOffset + len
        let copied := filled ++ blockSlice.take len
        if blockOffset = block.length then
          .done
            { stream with
              seq := stream.seq + 1
              blockOffset := 0
              state := .idle }
            (.ready copied)
        else
          .done { stream with blockOffset := blockOffset }
            (.ready copied)

/--
The method `poll_read` for a buffer of `size` bytes, returning the bytes it
puts there.  A call makes at most three iterations: it leaves `Idle`, it leaves
`Reading`, and it returns.
-/
def pollRead
    (server : FeedServer)
    (completed : Bool)
    (size : Nat)
    (stream : ByteStream) : ByteStream × Poll Bytes :=
  loop (readIteration server completed size) 3 stream []

/--
The target of a seek, or the text of the panic; the sum for `Current` is
computed in `i64` and cast to `u64`.
-/
def nextByteOffset
    (overflowChecks : Bool)
    (stream : ByteStream) : SeekFrom → Except String Nat
  | .start position => .ok position
  | .fromEnd _ => .error "not implemented"
  | .current offset =>
      (addI64 overflowChecks (toI64 stream.byteOffset) offset).elim
        (.error "attempt to add with overflow")
        (fun sum => .ok (ofI64 sum))

/-- One iteration of `poll_seek`. -/
def seekIteration
    (server : FeedServer)
    (overflowChecks completed : Bool)
    (position : SeekFrom)
    (stream : ByteStream)
    (filled : Bytes) : Iteration Nat :=
  match stream.state with
  | .seeking target =>
      if completed then
        match server.seek target with
        | .error _ => .done stream (.panicked "unwrap")
        | .ok (seq, offset) =>
            .done
              { stream with
                seq := seq
                blockOffset := offset
                state := .idle }
              (.ready stream.byteOffset)
      else
        .done stream .pending
  | _ =>
      match stream.nextByteOffset overflowChecks position with
      | .error message => .done stream (.panicked message)
      | .ok target =>
          .again
            { stream with
              byteOffset := target
              state := .seeking target }
            filled

/-- The method `poll_seek`. -/
def pollSeek
    (server : FeedServer)
    (overflowChecks completed : Bool)
    (position : SeekFrom)
    (stream : ByteStream) : ByteStream × Poll Nat :=
  loop (seekIteration server overflowChecks completed position) 2 stream []

/-! ## What a poll does -/

/-- Copying from the block that a stream holds. -/
def copyBlock
    (size : Nat)
    (stream : ByteStream)
    (block : Bytes) : ByteStream × Poll Bytes :=
  if block.length < stream.blockOffset then
    ({ stream with state := .ready block },
      .panicked "range start index")
  else
    let copied := (block.drop stream.blockOffset).take size
    if block.length ≤ stream.blockOffset + size then
      ({ stream with
         seq := stream.seq + 1
         blockOffset := 0
         state := .idle },
        .ready copied)
    else
      ({ stream with
         blockOffset := stream.blockOffset + size
         state := .ready block },
        .ready copied)

/-- Polling the request for a block, and copying from it if it is there. -/
def fetchBlock
    (server : FeedServer)
    (completed : Bool)
    (size : Nat)
    (stream : ByteStream)
    (seq : Nat) : ByteStream × Poll Bytes :=
  if completed then
    match server.get seq with
    | .error _ => ({ stream with state := .finished }, .ready [])
    | .ok none =>
        ({ stream with state := .reading seq }, .panicked "unwrap")
    | .ok (some block) => copyBlock size stream block
  else
    ({ stream with state := .reading seq }, .pending)

/-- Polling the seek in flight. -/
def finishSeek
    (server : FeedServer)
    (completed : Bool)
    (stream : ByteStream)
    (target : Nat) : ByteStream × Poll Nat :=
  if completed then
    match server.seek target with
    | .error _ =>
        ({ stream with state := .seeking target }, .panicked "unwrap")
    | .ok (seq, offset) =>
        ({ stream with
           seq := seq
           blockOffset := offset
           state := .idle },
          .ready stream.byteOffset)
  else
    ({ stream with state := .seeking target }, .pending)

section

variable
  (server : FeedServer)
  (overflowChecks completed : Bool)
  (size : Nat)

/-- The last iteration of a read copies from the block. -/
theorem loop_ready
    (stream : ByteStream)
    (block : Bytes)
    (fuel : Nat) :
    loop (readIteration server completed size) (fuel + 1)
        { stream with state := .ready block } [] =
      copyBlock size stream block := by
  simp only [loop, readIteration, copyBlock, List.length_nil,
    Nat.sub_zero, List.length_drop, List.nil_append]
  by_cases beyond : block.length < stream.blockOffset
  · simp [beyond]
  · have sameTake :
        (block.drop stream.blockOffset).take
            (min size (block.length - stream.blockOffset)) =
          (block.drop stream.blockOffset).take size := by
      rw [← List.length_drop, ← List.take_eq_take_min]
    rw [if_neg beyond, if_neg beyond, sameTake]
    by_cases toEnd : block.length ≤ stream.blockOffset + size
    · have reached :
          stream.blockOffset +
              min size (block.length - stream.blockOffset) =
            block.length := by
        omega
      rw [if_pos reached, if_pos toEnd]
    · have notReached :
          ¬ stream.blockOffset +
              min size (block.length - stream.blockOffset) =
            block.length := by
        omega
      have whole :
          min size (block.length - stream.blockOffset) = size := by
        omega
      rw [if_neg notReached, if_neg toEnd, whole]

/-- The last two iterations of a read fetch the block. -/
theorem loop_reading
    (stream : ByteStream)
    (seq fuel : Nat) :
    loop (readIteration server completed size) (fuel + 2)
        { stream with state := .reading seq } [] =
      fetchBlock server completed size stream seq := by
  rw [loop]
  cases completed with
  | false =>
      rfl
  | true =>
      simp only [readIteration, fetchBlock, ↓reduceIte]
      cases server.get seq with
      | error message =>
          rfl
      | ok found =>
          cases found with
          | none =>
              rfl
          | some block =>
              exact loop_ready server true size
                { stream with state := .reading seq } block fuel

/-- What a read does, in every state of the stream. -/
theorem pollRead_eq (stream : ByteStream) :
    stream.pollRead server completed size =
      match stream.state with
      | .seeking _ => (stream, .panicked "unreachable")
      | .finished => (stream, .ready [])
      | .idle => fetchBlock server completed size stream stream.seq
      | .reading seq => fetchBlock server completed size stream seq
      | .ready block => copyBlock size stream block := by
  obtain ⟨seq, blockOffset, byteOffset, state⟩ := stream
  rw [pollRead]
  cases state with
  | seeking target =>
      rfl
  | finished =>
      rfl
  | idle =>
      rw [loop]
      exact loop_reading server completed size
        ⟨seq, blockOffset, byteOffset, .idle⟩ seq 0
  | reading requested =>
      exact loop_reading server completed size
        ⟨seq, blockOffset, byteOffset, .reading requested⟩ requested 1
  | ready block =>
      exact loop_ready server completed size
        ⟨seq, blockOffset, byteOffset, .ready block⟩ block 2

/-- The last iteration of a seek polls the request in flight. -/
theorem loop_seeking
    (position : SeekFrom)
    (stream : ByteStream)
    (target fuel : Nat) :
    loop (seekIteration server overflowChecks completed position)
        (fuel + 1) { stream with state := .seeking target } [] =
      finishSeek server completed stream target := by
  rw [loop]
  cases completed with
  | false =>
      rfl
  | true =>
      simp only [seekIteration, finishSeek, ↓reduceIte]
      cases server.seek target <;> rfl

/-- A seek that is in flight is polled, whatever the argument is. -/
theorem pollSeek_of_seeking
    {stream : ByteStream}
    {target : Nat}
    (seeking : stream.state = .seeking target)
    (position : SeekFrom) :
    stream.pollSeek server overflowChecks completed position =
      finishSeek server completed stream target := by
  obtain ⟨seq, blockOffset, byteOffset, state⟩ := stream
  simp only at seeking
  subst seeking
  exact loop_seeking server overflowChecks completed position
    ⟨seq, blockOffset, byteOffset, .seeking target⟩ target 1

/-- From any other state, the first iteration of a seek makes the request. -/
theorem seekIteration_of_not_seeking
    {stream : ByteStream}
    (free : ∀ target, stream.state ≠ .seeking target)
    (position : SeekFrom)
    (filled : Bytes) :
    seekIteration server overflowChecks completed position stream filled =
      match stream.nextByteOffset overflowChecks position with
      | .error message => .done stream (.panicked message)
      | .ok target =>
          .again
            { stream with
              byteOffset := target
              state := .seeking target }
            filled := by
  rw [seekIteration]
  split
  · next target seeking =>
      exact absurd seeking (free target)
  · rfl

/-- From any other state, a seek begins afresh. -/
theorem pollSeek_of_not_seeking
    {stream : ByteStream}
    (free : ∀ target, stream.state ≠ .seeking target)
    (position : SeekFrom) :
    stream.pollSeek server overflowChecks completed position =
      match stream.nextByteOffset overflowChecks position with
      | .error message => (stream, .panicked message)
      | .ok target =>
          finishSeek server completed
            { stream with byteOffset := target } target := by
  rw [pollSeek, loop,
    seekIteration_of_not_seeking server overflowChecks completed free]
  cases stream.nextByteOffset overflowChecks position with
  | error message =>
      rfl
  | ok target =>
      exact loop_seeking server overflowChecks completed position
        { stream with byteOffset := target } target 0

end

/-! ## A server for examples -/

/-- The block and the offset in it of a byte position. -/
def locate : List Bytes → Nat → Except IoError (Nat × Nat)
  | [], _ => .error "out of range"
  | block :: rest, position =>
      if position < block.length then
        .ok (0, position)
      else
        (locate rest (position - block.length)).map
          fun (seq, offset) => (seq + 1, offset)

/-- A server that holds the given blocks. -/
def serverOf (blocks : List Bytes) : FeedServer where
  get seq :=
    match blocks[seq]? with
    | some block => .ok (some block)
    | none => .error "Block not available from peers"
  seek := locate blocks

end ByteStream

end Hyperspace
