import Hyperspace.ByteStreamCursor
import Hyperspace.ByteStreamEnd

namespace Hyperspace

/-!
# The position of a byte reader, stored twice

`ByteStream` keeps its position as `seq` with `block_offset`, from which it
reads, and as `byte_offset`, from which a relative seek starts.  A seek sets
both, a read moves only the first.  The sum for a relative seek is made of casts
between `u64` and `i64`, and no branch of `poll_seek` returns an error.

This module takes reads and seeks that are polled until they complete, in any
order, and determines for which of them the two positions stay the same and a
relative seek goes where it should.
-/

namespace ByteStreamPosition

/-- A read that is polled until it completes, pending `pendings` times. -/
def completeRead
    (server : FeedServer)
    (size : Nat) : Nat → ByteStream → ByteStream × Poll Bytes
  | 0, stream => stream.pollRead server true size
  | pendings + 1, stream =>
      match stream.pollRead server false size with
      | (stream, .pending) => completeRead server size pendings stream
      | other => other

/-- A seek that is polled until it completes, pending `pendings` times. -/
def completeSeek
    (server : FeedServer)
    (overflowChecks : Bool)
    (position : SeekFrom) : Nat → ByteStream → ByteStream × Poll Nat
  | 0, stream => stream.pollSeek server overflowChecks true position
  | pendings + 1, stream =>
      match stream.pollSeek server overflowChecks false position with
      | (stream, .pending) =>
          completeSeek server overflowChecks position pendings stream
      | other => other

/-- The `Result` in what a seek returns: no branch of it makes an error. -/
def seekResult : Poll Nat → Poll (Except IoError Nat)
  | .pending => .pending
  | .ready returned => .ready (.ok returned)
  | .panicked message => .panicked message
  | .unfinished => .unfinished

/-- An operation of the caller, and how often it is pending. -/
inductive Operation where
  | read (size pendings : Nat)
  | seek (position : SeekFrom) (pendings : Nat)
  deriving Repr, DecidableEq

/-- One operation, which has to complete. -/
def step
    (server : FeedServer)
    (overflowChecks : Bool)
    (stream : ByteStream) : Operation → Option ByteStream
  | .read size pendings =>
      match completeRead server size pendings stream with
      | (next, .ready _) => some next
      | _ => none
  | .seek position pendings =>
      match completeSeek server overflowChecks position pendings stream with
      | (next, .ready _) => some next
      | _ => none

/-- The position from which a stream reads. -/
def position (blocks : List Bytes) (stream : ByteStream) : Nat :=
  ByteStream.blockStart blocks stream.seq + stream.blockOffset

/-- Both positions of a stream are the same. -/
def Consistent (blocks : List Bytes) (stream : ByteStream) : Prop :=
  stream.byteOffset = position blocks stream

/-- What the server answers for a feed with the given blocks. -/
structure Locates (blocks : List Bytes) (server : FeedServer) : Prop where
  gets : ByteStreamEnd.Gets blocks server
  /-- A position that the server finds is in the block it names. -/
  seeks :
    ∀ {target seq offset},
      server.seek target = .ok (seq, offset) →
      target = ByteStream.blockStart blocks seq + offset

/-- The server knows the block of a position. -/
def Answers (server : FeedServer) (target : Nat) : Prop :=
  ∃ seq offset, server.seek target = .ok (seq, offset)

/--
The arguments that a caller can give, where the server answers for the position
that is meant.
-/
def Given
    (blocks : List Bytes)
    (server : FeedServer)
    (stream : ByteStream) : Operation → Prop
  | .read _ _ => True
  | .seek (.start target) _ => target < 2 ^ 64 ∧ Answers server target
  | .seek (.fromEnd _) _ => True
  | .seek (.current offset) _ =>
      -2 ^ 63 ≤ offset ∧
        offset < 2 ^ 63 ∧
        ∀ target : Nat,
          (target : Int) = position blocks stream + offset →
          target < 2 ^ 64 →
          Answers server target

/--
After an operation both positions are the same; a relative seek that is not
negative goes to the position that is meant and returns it, and one that is
negative returns an error and leaves the position as it was.
-/
def Keeps
    (blocks : List Bytes)
    (server : FeedServer)
    (overflowChecks : Bool)
    (stream : ByteStream)
    (operation : Operation) : Prop :=
  (∀ next,
    step server overflowChecks stream operation = some next →
    Consistent blocks next) ∧
  match operation with
  | .seek (.current offset) pendings =>
      ∃ next returned,
        completeSeek server overflowChecks (.current offset) pendings
            stream = (next, returned) ∧
          if 0 ≤ position blocks stream + offset then
            (position blocks next : Int) =
                position blocks stream + offset ∧
              seekResult returned = .ready (.ok (position blocks next))
          else
            position blocks next = position blocks stream ∧
              ∃ message, seekResult returned = .ready (.error message)
  | _ => True

/--
The operations that keep the position: a read that has nothing to copy, and a
relative seek to a `u64` for which the sum of `i64`s, if it is checked, does not
overflow.
-/
def Harmless
    (blocks : List Bytes)
    (overflowChecks : Bool)
    (stream : ByteStream) : Operation → Prop
  | .read size _ =>
      size = 0 ∨
        stream.state = .finished ∨
        ∀ block,
          blocks[stream.seq]? = some block →
          block.length ≤ stream.blockOffset
  | .seek (.current offset) _ =>
      0 ≤ position blocks stream + offset ∧
        position blocks stream + offset < 2 ^ 64 ∧
        (overflowChecks = true →
          (position blocks stream < 2 ^ 63 ↔
            position blocks stream + offset < 2 ^ 63))
  | .seek _ _ => True

/-! ## Polling until completion -/

section

variable
  (server : FeedServer)
  (overflowChecks : Bool)

/-- A stream that waits for a block reads on as if it had not waited. -/
theorem pollRead_again
    {size : Nat}
    {stream next : ByteStream}
    (waits : stream.pollRead server false size = (next, .pending)) :
    next.pollRead server true size =
      stream.pollRead server true size := by
  rw [ByteStream.pollRead_eq] at waits
  cases isState : stream.state with
  | seeking target =>
      simp [isState] at waits
  | finished =>
      simp [isState] at waits
  | ready block =>
      simp only [isState, ByteStream.copyBlock] at waits
      split at waits
      · cases waits
      · split at waits <;> cases waits
  | idle =>
      simp only [isState, ByteStream.fetchBlock, Bool.false_eq_true,
        if_false, Prod.mk.injEq, and_true] at waits
      subst next
      rw [ByteStream.pollRead_eq, ByteStream.pollRead_eq, isState]
      rfl
  | reading seq =>
      simp only [isState, ByteStream.fetchBlock, Bool.false_eq_true,
        if_false, Prod.mk.injEq, and_true] at waits
      subst next
      rw [ByteStream.pollRead_eq, ByteStream.pollRead_eq, isState]
      rfl

/-- A read that does not wait does the same when its request has completed. -/
theorem pollRead_completed
    {size : Nat}
    {stream : ByteStream}
    (returns : (stream.pollRead server false size).2 ≠ .pending) :
    stream.pollRead server false size =
      stream.pollRead server true size := by
  rw [ByteStream.pollRead_eq] at returns ⊢
  rw [ByteStream.pollRead_eq]
  cases isState : stream.state with
  | seeking target =>
      rfl
  | finished =>
      rfl
  | ready block =>
      rfl
  | idle =>
      simp [isState, ByteStream.fetchBlock] at returns
  | reading seq =>
      simp [isState, ByteStream.fetchBlock] at returns

/-- How often a read is pending makes no difference. -/
theorem completeRead_eq
    (size pendings : Nat)
    (stream : ByteStream) :
    completeRead server size pendings stream =
      stream.pollRead server true size := by
  induction pendings generalizing stream with
  | zero =>
      rfl
  | succ pendings inductionHypothesis =>
      rw [completeRead]
      split
      · next next waits =>
          rw [inductionHypothesis, pollRead_again server waits]
      · next returns =>
          refine pollRead_completed server ?_
          intro waits
          exact returns _ (Prod.ext rfl waits)

/-- A stream that waits for a seek goes on as if it had not waited. -/
theorem pollSeek_again
    {position : SeekFrom}
    {stream next : ByteStream}
    (waits :
      stream.pollSeek server overflowChecks false position =
        (next, .pending)) :
    next.pollSeek server overflowChecks true position =
      stream.pollSeek server overflowChecks true position := by
  by_cases inFlight : ∃ target, stream.state = .seeking target
  · obtain ⟨target, seeking⟩ := inFlight
    rw [ByteStream.pollSeek_of_seeking server overflowChecks false
      seeking] at waits
    simp only [ByteStream.finishSeek, Bool.false_eq_true, if_false,
      Prod.mk.injEq, and_true] at waits
    subst next
    rw [ByteStream.pollSeek_of_seeking server overflowChecks true rfl,
      ByteStream.pollSeek_of_seeking server overflowChecks true seeking]
    rfl
  · have free := not_exists.mp inFlight
    rw [ByteStream.pollSeek_of_not_seeking server overflowChecks false
      free] at waits
    rw [ByteStream.pollSeek_of_not_seeking server overflowChecks true
      free]
    cases isTarget :
        stream.nextByteOffset overflowChecks position with
    | error message =>
        simp [isTarget] at waits
    | ok target =>
        simp only [isTarget, ByteStream.finishSeek,
          Bool.false_eq_true, if_false, Prod.mk.injEq,
          and_true] at waits
        subst next
        rw [ByteStream.pollSeek_of_seeking server overflowChecks true
          rfl]
        rfl

/-- A seek that does not wait does the same when its request has completed. -/
theorem pollSeek_completed
    {position : SeekFrom}
    {stream : ByteStream}
    (returns :
      (stream.pollSeek server overflowChecks false position).2 ≠
        .pending) :
    stream.pollSeek server overflowChecks false position =
      stream.pollSeek server overflowChecks true position := by
  by_cases inFlight : ∃ target, stream.state = .seeking target
  · obtain ⟨target, seeking⟩ := inFlight
    rw [ByteStream.pollSeek_of_seeking server overflowChecks false
      seeking] at returns
    simp [ByteStream.finishSeek] at returns
  · have free := not_exists.mp inFlight
    rw [ByteStream.pollSeek_of_not_seeking server overflowChecks false
      free] at returns ⊢
    rw [ByteStream.pollSeek_of_not_seeking server overflowChecks true
      free]
    cases isTarget :
        stream.nextByteOffset overflowChecks position with
    | error message =>
        rfl
    | ok target =>
        simp [isTarget, ByteStream.finishSeek] at returns

/-- How often a seek is pending makes no difference. -/
theorem completeSeek_eq
    (position : SeekFrom)
    (pendings : Nat)
    (stream : ByteStream) :
    completeSeek server overflowChecks position pendings stream =
      stream.pollSeek server overflowChecks true position := by
  induction pendings generalizing stream with
  | zero =>
      rfl
  | succ pendings inductionHypothesis =>
      rw [completeSeek]
      split
      · next next waits =>
          rw [inductionHypothesis,
            pollSeek_again server overflowChecks waits]
      · next returns =>
          refine pollSeek_completed server overflowChecks ?_
          intro waits
          exact returns _ (Prod.ext rfl waits)

end

/-! ## The target of a relative seek -/

/-- The value of the cast of a `u64` to `i64`. -/
theorem toI64_eq
    {number : Nat}
    (small : number < 2 ^ 64) :
    toI64 number =
      if number < 2 ^ 63 then (number : Int) else number - 2 ^ 64 := by
  rw [toI64, wrapI64]
  split <;> omega

/-- The cast of an `i64` is a `u64`. -/
theorem ofI64_lt (number : Int) : ofI64 number < 2 ^ 64 := by
  rw [ofI64]
  omega

/-- A position that is computed in `i64` is right up to wrapping. -/
theorem ofI64_addI64
    {overflowChecks : Bool}
    {number : Nat}
    {offset sum : Int}
    (added : addI64 overflowChecks (toI64 number) offset = some sum) :
    (ofI64 sum : Int) = (number + offset) % 2 ^ 64 := by
  rw [addI64, toI64, wrapI64] at added
  rw [ofI64]
  split at added
  · simp only [Option.some.injEq] at added
    omega
  · split at added
    · cases added
    · simp only [Option.some.injEq] at added
      rw [← added, wrapI64]
      omega

/-- A sum of `i64`s panics when it is checked and out of range. -/
theorem addI64_eq_none_iff
    {overflowChecks : Bool}
    {first second : Int} :
    addI64 overflowChecks first second = none ↔
      overflowChecks = true ∧
        ¬ (-2 ^ 63 ≤ first + second ∧ first + second < 2 ^ 63) := by
  rw [addI64]
  split
  · next inRange =>
      simp only [reduceCtorEq, false_iff]
      rintro ⟨-, outOfRange⟩
      exact outOfRange inRange
  · next outOfRange =>
      cases overflowChecks with
      | false =>
          simp
      | true =>
          exact iff_of_true rfl ⟨rfl, outOfRange⟩

/--
A relative seek asks for the position that is meant exactly when that is a `u64`
and the sum of `i64`s, if it is checked, does not overflow.
-/
theorem nextByteOffset_current_iff
    (overflowChecks : Bool)
    {stream : ByteStream}
    {offset : Int}
    (small : stream.byteOffset < 2 ^ 64)
    (lower : -2 ^ 63 ≤ offset)
    (upper : offset < 2 ^ 63) :
    (∃ target : Nat,
      stream.nextByteOffset overflowChecks (.current offset) =
          .ok target ∧
        (target : Int) = stream.byteOffset + offset) ↔
      0 ≤ stream.byteOffset + offset ∧
        stream.byteOffset + offset < 2 ^ 64 ∧
        (overflowChecks = true →
          (stream.byteOffset < 2 ^ 63 ↔
            stream.byteOffset + offset < 2 ^ 63)) := by
  rw [ByteStream.nextByteOffset]
  have cast := toI64_eq small
  cases added :
      addI64 overflowChecks (toI64 stream.byteOffset) offset with
  | none =>
      obtain ⟨checked, outOfRange⟩ := addI64_eq_none_iff.mp added
      simp only [Option.elim_none, reduceCtorEq, false_and,
        exists_false, checked, true_implies, false_iff]
      rintro ⟨notNegative, isSmall, sameSign⟩
      split at cast <;> omega
  | some sum =>
      have isTarget := ofI64_addI64 added
      have inRange :
          overflowChecks = true →
            -2 ^ 63 ≤ toI64 stream.byteOffset + offset ∧
              toI64 stream.byteOffset + offset < 2 ^ 63 := by
        intro checked
        by_contra outOfRange
        rw [addI64_eq_none_iff.mpr ⟨checked, outOfRange⟩] at added
        cases added
      simp only [Option.elim_some, Except.ok.injEq, exists_eq_left']
      rw [isTarget]
      constructor
      · intro meant
        refine ⟨by omega, by omega, ?_⟩
        intro checked
        have bounds := inRange checked
        split at cast <;> omega
      · rintro ⟨notNegative, isSmall, -⟩
        omega

/-! ## Between operations -/

/-- A block that a stream holds between operations is the one it is at. -/
def Held (blocks : List Bytes) (stream : ByteStream) : Prop :=
  match stream.state with
  | .idle => True
  | .finished => True
  | .ready block => blocks[stream.seq]? = some block
  | .reading _ => False
  | .seeking _ => False

/-- A stream between operations, both positions of which are the same. -/
structure Rests (blocks : List Bytes) (stream : ByteStream) : Prop where
  consistent : Consistent blocks stream
  small : stream.byteOffset < 2 ^ 64
  held : Held blocks stream

/-- A new stream is at the first byte. -/
theorem rests_new (blocks : List Bytes) : Rests blocks .new where
  consistent := by
    simp [Consistent, position, ByteStream.blockStart, ByteStream.new]
  small := by
    simp [ByteStream.new]
  held := trivial

section

variable
  {blocks : List Bytes}
  {server : FeedServer}
  {overflowChecks : Bool}
  {stream next : ByteStream}

/-- Between operations no seek is in flight. -/
theorem Held.not_seeking
    (held : Held blocks stream)
    (target : Nat) :
    stream.state ≠ .seeking target := by
  intro seeking
  simp [Held, seeking] at held

/-! ### A read -/

/--
What a read does: it ends in a panic and has nothing to copy, or it moves the
position from which the stream reads and leaves `byte_offset` alone.
-/
def ReadMoves
    (blocks : List Bytes)
    (size : Nat)
    (stream : ByteStream)
    (outcome : ByteStream × Poll Bytes) : Prop :=
  ((∃ message, outcome.2 = .panicked message) ∧
    Harmless blocks false stream (.read size 0)) ∨
  ∃ bytes moved,
    outcome.2 = .ready bytes ∧
      position blocks outcome.1 = position blocks stream + moved ∧
      outcome.1.byteOffset = stream.byteOffset ∧
      Held blocks outcome.1 ∧
      (moved = 0 ↔ Harmless blocks false stream (.read size 0))

/-- Copying from a block moves the position by the bytes copied. -/
theorem readMoves_copyBlock
    (size : Nat)
    {block : Bytes}
    (unfinished : stream.state ≠ .finished)
    (stored : blocks[stream.seq]? = some block) :
    ReadMoves blocks size stream
      (ByteStream.copyBlock size stream block) := by
  rw [ByteStream.copyBlock]
  by_cases beyond : block.length < stream.blockOffset
  · rw [if_pos beyond]
    refine .inl ⟨⟨_, rfl⟩, .inr (.inr ?_)⟩
    intro other otherStored
    rw [stored] at otherStored
    cases otherStored
    exact Nat.le_of_lt beyond
  · have harmless :
        Harmless blocks false stream (.read size 0) ↔
          size = 0 ∨ block.length ≤ stream.blockOffset := by
      simp [Harmless, unfinished, stored]
    rw [if_neg beyond, ReadMoves, harmless]
    right
    by_cases toEnd : block.length ≤ stream.blockOffset + size
    · rw [if_pos toEnd]
      refine ⟨_, block.length - stream.blockOffset, rfl, ?_, rfl,
        trivial, by omega⟩
      simp only [position, ByteStream.blockStart_succ stored]
      omega
    · rw [if_neg toEnd]
      refine ⟨_, size, rfl, ?_, rfl, stored, by omega⟩
      simp only [position]
      omega

/-- What every read does between operations. -/
theorem readMoves_pollRead
    (gets : ByteStreamEnd.Gets blocks server)
    (held : Held blocks stream)
    (size : Nat) :
    ReadMoves blocks size stream
      (stream.pollRead server true size) := by
  rw [ByteStream.pollRead_eq]
  cases isState : stream.state with
  | seeking target =>
      exact absurd isState (held.not_seeking target)
  | reading seq =>
      simp [Held, isState] at held
  | finished =>
      exact .inr ⟨[], 0, rfl, rfl, rfl, held,
        iff_of_true rfl (.inr (.inl isState))⟩
  | ready block =>
      simp only [Held, isState] at held
      exact readMoves_copyBlock size (by simp [isState]) held
  | idle =>
      simp only [ByteStream.fetchBlock, if_true]
      cases stored : blocks[stream.seq]? with
      | some block =>
          rw [gets.stored stored]
          exact readMoves_copyBlock size (by simp [isState]) stored
      | none =>
          have nothing :
              Harmless blocks false stream (.read size 0) := by
            refine .inr (.inr ?_)
            intro block otherStored
            rw [stored] at otherStored
            cases otherStored
          rcases gets.missing (List.getElem?_eq_none_iff.mp stored) with
            noBlock | ⟨message, isError⟩
          · rw [noBlock]
            exact .inl ⟨⟨_, rfl⟩, nothing⟩
          · rw [isError]
            exact .inr ⟨[], 0, rfl, rfl, rfl, trivial,
              iff_of_true rfl nothing⟩

/-- After a read that keeps both positions the same, the stream is at rest. -/
theorem Rests.read
    (gets : ByteStreamEnd.Gets blocks server)
    (rests : Rests blocks stream)
    {size pendings : Nat}
    (stepped :
      step server overflowChecks stream (.read size pendings) =
        some next)
    (consistent : Consistent blocks next) :
    Rests blocks next := by
  simp only [step, completeRead_eq] at stepped
  rcases readMoves_pollRead gets rests.held size with
    ⟨⟨message, panics⟩, -⟩ | ⟨bytes, moved, returns, -, same, held, -⟩
  · rw [← Prod.mk.eta (p := stream.pollRead server true size),
      panics] at stepped
    cases stepped
  · rw [← Prod.mk.eta (p := stream.pollRead server true size),
      returns] at stepped
    simp only [Option.some.injEq] at stepped
    subst next
    exact ⟨consistent, by rw [same]; exact rests.small, held⟩

/-- A read keeps both positions the same exactly when it is harmless. -/
theorem Rests.keeps_read_iff
    (gets : ByteStreamEnd.Gets blocks server)
    (rests : Rests blocks stream)
    (size pendings : Nat) :
    Keeps blocks server overflowChecks stream (.read size pendings) ↔
      Harmless blocks overflowChecks stream (.read size pendings) := by
  simp only [Keeps, step, completeRead_eq, and_true]
  rcases readMoves_pollRead gets rests.held size with
    ⟨⟨message, panics⟩, harmless⟩ |
      ⟨bytes, moved, returns, moves, same, -, harmless⟩
  · rw [← Prod.mk.eta (p := stream.pollRead server true size), panics]
    refine iff_of_true ?_ harmless
    intro next stepped
    cases stepped
  · rw [← Prod.mk.eta (p := stream.pollRead server true size), returns]
    simp only [Option.some.injEq, forall_eq']
    rw [Consistent, same, moves, rests.consistent]
    refine Iff.trans ?_ harmless
    omega

/-! ### A seek -/

/-- The stream after a seek. -/
def landed
    (stream : ByteStream)
    (target seq offset : Nat) : ByteStream :=
  { stream with
    seq := seq
    blockOffset := offset
    byteOffset := target
    state := .idle }

/-- A seek for which the server answers. -/
theorem completeSeek_of_answer
    (held : Held blocks stream)
    {asked : SeekFrom}
    {target seq offset : Nat}
    (pendings : Nat)
    (isTarget : stream.nextByteOffset overflowChecks asked = .ok target)
    (answer : server.seek target = .ok (seq, offset)) :
    completeSeek server overflowChecks asked pendings stream =
      (landed stream target seq offset, .ready target) := by
  rw [completeSeek_eq,
    ByteStream.pollSeek_of_not_seeking server overflowChecks true
      held.not_seeking, isTarget]
  simp only [ByteStream.finishSeek, if_true, answer]
  rfl

/-- Every seek that completes has asked the server for its target. -/
theorem exists_answer_of_ready
    (held : Held blocks stream)
    {asked : SeekFrom}
    {pendings returned : Nat}
    (ready :
      completeSeek server overflowChecks asked pendings stream =
        (next, .ready returned)) :
    ∃ seq offset,
      stream.nextByteOffset overflowChecks asked = .ok returned ∧
        server.seek returned = .ok (seq, offset) ∧
        next = landed stream returned seq offset := by
  have polled := ready
  rw [completeSeek_eq,
    ByteStream.pollSeek_of_not_seeking server overflowChecks true
      held.not_seeking] at polled
  cases isTarget : stream.nextByteOffset overflowChecks asked with
  | error message =>
      simp [isTarget] at polled
  | ok target =>
      cases answer : server.seek target with
      | error message =>
          simp [isTarget, ByteStream.finishSeek, answer] at polled
      | ok found =>
          obtain ⟨seq, offset⟩ := found
          rw [completeSeek_of_answer held pendings isTarget
            answer] at ready
          cases ready
          exact ⟨seq, offset, rfl, answer, rfl⟩

/-- A seek lands at its target. -/
theorem position_landed
    (locates : Locates blocks server)
    {target seq offset : Nat}
    (answer : server.seek target = .ok (seq, offset)) :
    position blocks (landed stream target seq offset) = target :=
  (locates.seeks answer).symm

/-- After a seek that completes, the stream is at rest. -/
theorem Rests.seek
    (locates : Locates blocks server)
    (rests : Rests blocks stream)
    {asked : SeekFrom}
    {pendings : Nat}
    (given : Given blocks server stream (.seek asked pendings))
    (stepped :
      step server overflowChecks stream (.seek asked pendings) =
        some next) :
    Rests blocks next := by
  simp only [step] at stepped
  split at stepped
  · next after returned ready =>
      simp only [Option.some.injEq] at stepped
      subst next
      obtain ⟨seq, offset, isTarget, answer, rfl⟩ :=
        exists_answer_of_ready rests.held ready
      refine ⟨(position_landed locates answer).symm, ?_, trivial⟩
      cases asked with
      | start target =>
          cases isTarget
          exact given.1
      | fromEnd fromEnd =>
          cases isTarget
      | current relative =>
          rw [ByteStream.nextByteOffset] at isTarget
          cases added :
              addI64 overflowChecks (toI64 stream.byteOffset)
                relative with
          | none =>
              simp [added] at isTarget
          | some sum =>
              simp only [added, Option.elim_some,
                Except.ok.injEq] at isTarget
              rw [← isTarget]
              exact ofI64_lt sum
  · cases stepped

/-- A seek that completes makes both positions the same. -/
theorem Rests.consistent_seek
    (locates : Locates blocks server)
    (rests : Rests blocks stream)
    {asked : SeekFrom}
    {pendings : Nat}
    (given : Given blocks server stream (.seek asked pendings))
    (next : ByteStream)
    (stepped :
      step server overflowChecks stream (.seek asked pendings) =
        some next) :
    Consistent blocks next :=
  (rests.seek locates given stepped).consistent

/-- A relative seek goes where it should exactly when it is harmless. -/
theorem Rests.keeps_current_iff
    (locates : Locates blocks server)
    (rests : Rests blocks stream)
    {relative : Int}
    {pendings : Nat}
    (given :
      Given blocks server stream (.seek (.current relative) pendings)) :
    Keeps blocks server overflowChecks stream
        (.seek (.current relative) pendings) ↔
      Harmless blocks overflowChecks stream
        (.seek (.current relative) pendings) := by
  obtain ⟨lower, upper, answers⟩ := given
  have here : stream.byteOffset = position blocks stream :=
    rests.consistent
  have asksFor :=
    nextByteOffset_current_iff overflowChecks rests.small lower upper
  rw [here] at asksFor
  rw [Harmless, ← asksFor]
  constructor
  · rintro ⟨-, after, returned, ready, lands⟩
    cases returned with
    | pending =>
        split at lands <;> simp [seekResult] at lands
    | panicked message =>
        split at lands <;> simp [seekResult] at lands
    | unfinished =>
        split at lands <;> simp [seekResult] at lands
    | ready target =>
        obtain ⟨seq, offset, isTarget, answer, rfl⟩ :=
          exists_answer_of_ready rests.held ready
        split at lands
        · refine ⟨target, isTarget, ?_⟩
          rw [← lands.1, position_landed locates answer]
        · simp [seekResult] at lands
  · rintro ⟨target, isTarget, isMeant⟩
    have bounds := asksFor.mp ⟨target, isTarget, isMeant⟩
    obtain ⟨seq, offset, answer⟩ :=
      answers target isMeant (by omega)
    refine ⟨rests.consistent_seek locates ⟨lower, upper, answers⟩,
      _, _, completeSeek_of_answer rests.held pendings isTarget answer,
      ?_⟩
    rw [if_pos bounds.1, position_landed locates answer]
    exact ⟨isMeant, rfl⟩

/-! ## Runs -/

/-- An operation keeps the position exactly when it is harmless. -/
theorem Rests.keeps_iff
    (locates : Locates blocks server)
    (rests : Rests blocks stream)
    {operation : Operation}
    (given : Given blocks server stream operation) :
    Keeps blocks server overflowChecks stream operation ↔
      Harmless blocks overflowChecks stream operation := by
  cases operation with
  | read size pendings =>
      exact rests.keeps_read_iff locates.gets size pendings
  | seek asked pendings =>
      cases asked with
      | start target =>
          exact iff_of_true
            ⟨rests.consistent_seek locates given, trivial⟩ trivial
      | fromEnd fromEnd =>
          exact iff_of_true
            ⟨rests.consistent_seek locates given, trivial⟩ trivial
      | current relative =>
          exact rests.keeps_current_iff locates given

/-- An operation that keeps the position keeps the stream at rest. -/
theorem Rests.step
    (locates : Locates blocks server)
    (rests : Rests blocks stream)
    {operation : Operation}
    (given : Given blocks server stream operation)
    (keeps : Keeps blocks server overflowChecks stream operation)
    (stepped :
      step server overflowChecks stream operation = some next) :
    Rests blocks next := by
  cases operation with
  | read size pendings =>
      exact rests.read locates.gets stepped (keeps.1 next stepped)
  | seek asked pendings =>
      exact rests.seek locates given stepped

end

/--
For every feed and every sequence of reads and seeks that complete: after every
operation `byte_offset` is the position from which the stream reads, and every
relative seek goes where it should, or fails where it should, if and only if no
read copies a byte and every relative seek goes to a `u64` without an overflow
that is checked.
-/
theorem keeps_position_iff
    {blocks : List Bytes}
    {server : FeedServer}
    (locates : Locates blocks server)
    (overflowChecks : Bool)
    {operations : List Operation}
    (given :
      Machine.Along (step server overflowChecks) (Given blocks server)
        .new operations) :
    Machine.Along (step server overflowChecks)
        (Keeps blocks server overflowChecks) .new operations ↔
      Machine.Along (step server overflowChecks)
        (Harmless blocks overflowChecks) .new operations := by
  constructor
  · intro keeps
    refine
      Machine.along_imp (Rests blocks) ?_ ?_ (rests_new blocks)
        (Machine.along_and given keeps)
    · rintro stream operation next rests ⟨isGiven, kept⟩ stepped
      exact rests.step locates isGiven kept stepped
    · rintro stream operation rests ⟨isGiven, kept⟩
      exact (rests.keeps_iff locates isGiven).mp kept
  · intro harmless
    refine
      Machine.along_imp (Rests blocks) ?_ ?_ (rests_new blocks)
        (Machine.along_and given harmless)
    · rintro stream operation next rests ⟨isGiven, isHarmless⟩ stepped
      exact rests.step locates isGiven
        ((rests.keeps_iff locates isGiven).mpr isHarmless) stepped
    · rintro stream operation rests ⟨isGiven, isHarmless⟩
      exact (rests.keeps_iff locates isGiven).mpr isHarmless

/-- A position that is located is in the block it is located in. -/
theorem eq_blockStart_of_locate
    {blocks : List Bytes}
    {target seq offset : Nat}
    (located : ByteStream.locate blocks target = .ok (seq, offset)) :
    target = ByteStream.blockStart blocks seq + offset := by
  induction blocks generalizing target seq with
  | nil =>
      cases located
  | cons block rest inductionHypothesis =>
      simp only [ByteStream.locate] at located
      split at located
      · cases located
        simp [ByteStream.blockStart]
      · next beyond =>
          cases found :
              ByteStream.locate rest (target - block.length) with
          | error message =>
              rw [found] at located
              cases located
          | ok place =>
              rw [found] at located
              cases located
              have further := inductionHypothesis found
              simp only [ByteStream.blockStart, List.take_succ_cons,
                List.map_cons, List.sum_cons] at further ⊢
              omega

/-- A server that holds the given blocks locates positions in them. -/
theorem locates_serverOf (blocks : List Bytes) :
    Locates blocks (ByteStream.serverOf blocks) where
  gets := ByteStreamEnd.gets_serverOf blocks
  seeks := eq_blockStart_of_locate

/-- Two seeks and a read into an empty buffer. -/
theorem keeps_position_iff_seeks :
    Machine.Along
      (step (ByteStream.serverOf [[97, 98, 99], [100, 101]]) true)
      (Keeps [[97, 98, 99], [100, 101]]
        (ByteStream.serverOf [[97, 98, 99], [100, 101]]) true)
      .new
      [.seek (.start 4) 2, .seek (.current (-2)) 1, .read 0 1] := by
  refine
    (keeps_position_iff (locates_serverOf _) true ?_).mpr ?_
  · refine Machine.along_cons.mpr ⟨⟨by decide, _, _, rfl⟩, ?_⟩
    rintro next ⟨⟩
    refine Machine.along_cons.mpr ⟨⟨by decide, by decide, ?_⟩, ?_⟩
    · intro target isTarget _
      have isTwo : (target : Int) = 2 := isTarget
      obtain rfl : target = 2 := by omega
      exact ⟨_, _, rfl⟩
    · rintro next ⟨⟩
      exact Machine.along_cons.mpr ⟨trivial, fun _ _ => trivial⟩
  · refine Machine.along_cons.mpr ⟨trivial, ?_⟩
    rintro next ⟨⟩
    refine Machine.along_cons.mpr
      ⟨⟨by decide, by decide, fun _ => by decide⟩, ?_⟩
    rintro next ⟨⟩
    exact Machine.along_cons.mpr ⟨.inl rfl, fun _ _ => trivial⟩

/--
After a read of one byte the stream is at byte 1 and `byte_offset` is 0, and a
relative seek by 0 goes back to byte 0.
-/
theorem relative_seek_goes_back :
    Machine.run (step (ByteStream.serverOf [[97, 98, 99]]) true) .new
        [.read 1 0] = some ⟨0, 1, 0, .ready [97, 98, 99]⟩ ∧
      position [[97, 98, 99]] ⟨0, 1, 0, .ready [97, 98, 99]⟩ = 1 ∧
      completeSeek (ByteStream.serverOf [[97, 98, 99]]) true (.current 0) 0
          ⟨0, 1, 0, .ready [97, 98, 99]⟩ =
        (⟨0, 0, 0, .idle⟩, .ready 0) ∧
      ¬ Machine.Along (step (ByteStream.serverOf [[97, 98, 99]]) true)
          (Keeps [[97, 98, 99]] (ByteStream.serverOf [[97, 98, 99]]) true)
          .new [.read 1 0, .seek (.current 0) 0] := by
  refine ⟨rfl, rfl, rfl, ?_⟩
  intro keeps
  have consistent := keeps.1.1 ⟨0, 1, 0, .ready [97, 98, 99]⟩ rfl
  cases consistent

end ByteStreamPosition

end Hyperspace
