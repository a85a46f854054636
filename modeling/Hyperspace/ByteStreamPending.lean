import Hyperspace.ByteStream
import Hyperspace.Machine

namespace Hyperspace

/-!
# A seek that is left pending

The state of a `ByteStream` survives between polls and is shared by `poll_seek`
and `poll_read`.  A caller may poll a seek once, leave it pending, and poll a
read or another seek next.  The read then meets `State::Seeking`, which its code
takes for unreachable, and the other seek is handed the request in flight
together with the `byte_offset` that the first one has set.

This module polls reads and seeks in any order, with requests that complete at
any later poll, and determines which polls meet a seek that is not their own.
-/

namespace ByteStreamPending

/--
A stream, and the `byte_offset` it had before the seek that is in flight, or has
now if there is none.
-/
structure Caller where
  stream : ByteStream
  base : Nat
  deriving Repr, DecidableEq

/-- A caller with a new stream. -/
def Caller.new : Caller where
  stream := .new
  base := 0

/-- What the caller knows after a poll. -/
def Caller.after (caller : Caller) (stream : ByteStream) : Caller :=
  match stream.state with
  | .seeking _ => ⟨stream, caller.base⟩
  | _ => ⟨stream, stream.byteOffset⟩

/-- One poll, and whether the request in flight has completed. -/
inductive Action where
  | read (size : Nat) (completed : Bool)
  | seek (position : SeekFrom) (completed : Bool)
  deriving Repr, DecidableEq

/-- The stream after a poll; a poll that panics leaves none. -/
def polled {α : Type} : ByteStream × Poll α → Option ByteStream
  | (stream, .ready _) => some stream
  | (stream, .pending) => some stream
  | (_, .panicked _) => none
  | (_, .unfinished) => none

/-- One poll by the caller. -/
def step
    (server : FeedServer)
    (overflowChecks : Bool)
    (caller : Caller) : Action → Option Caller
  | .read size completed =>
      (polled (caller.stream.pollRead server completed size)).map
        caller.after
  | .seek position completed =>
      (polled (caller.stream.pollSeek server overflowChecks completed
        position)).map caller.after

/-- The target of a seek, whatever other seek is in flight. -/
def ownTarget
    (overflowChecks : Bool)
    (caller : Caller)
    (position : SeekFrom) : Except String Nat :=
  { caller.stream with byteOffset := caller.base }.nextByteOffset
    overflowChecks position

/--
A read does not meet a seek in flight; a seek that completes returns its own
target and installs the block and the offset that the server has for it.
-/
def Meets
    (server : FeedServer)
    (overflowChecks : Bool)
    (caller : Caller) : Action → Prop
  | .read size completed =>
      (caller.stream.pollRead server completed size).2 ≠
        .panicked "unreachable"
  | .seek position completed =>
      ∀ next returned,
        caller.stream.pollSeek server overflowChecks completed position =
            (next, .ready returned) →
        ownTarget overflowChecks caller position = .ok returned ∧
          ∃ seq offset,
            server.seek returned = .ok (seq, offset) ∧
              next =
                { seq := seq
                  blockOffset := offset
                  byteOffset := returned
                  state := .idle }

/--
No seek is in flight, except one that a seek with the same target polls, or one
that does not complete at this poll.
-/
def Undisturbed
    (server : FeedServer)
    (overflowChecks : Bool)
    (caller : Caller) : Action → Prop
  | .read _ _ => ∀ target, caller.stream.state ≠ .seeking target
  | .seek position completed =>
      ∀ target seq offset,
        caller.stream.state = .seeking target →
        completed = true →
        server.seek target = .ok (seq, offset) →
        ownTarget overflowChecks caller position = .ok target

/-- A seek in flight has set `byte_offset`; else the caller's is the same. -/
def Settled (caller : Caller) : Prop :=
  match caller.stream.state with
  | .seeking target => caller.stream.byteOffset = target
  | _ => caller.base = caller.stream.byteOffset

section

variable
  {server : FeedServer}
  {overflowChecks : Bool}
  {caller next : Caller}

/-- A seek in flight has set `byte_offset`. -/
theorem Settled.byteOffset_eq
    (settled : Settled caller)
    {target : Nat}
    (seeking : caller.stream.state = .seeking target) :
    caller.stream.byteOffset = target := by
  simpa only [Settled, seeking] using settled

/-- Without a seek in flight, a seek has the target that the code computes. -/
theorem Settled.ownTarget_eq
    (settled : Settled caller)
    (free : ∀ target, caller.stream.state ≠ .seeking target)
    (position : SeekFrom) :
    ownTarget overflowChecks caller position =
      caller.stream.nextByteOffset overflowChecks position := by
  have same : caller.base = caller.stream.byteOffset := by
    rw [Settled] at settled
    split at settled
    · next target seeking =>
        exact absurd seeking (free target)
    · exact settled
  rw [ownTarget, same]

/-- What is known after a poll is right, if a seek in flight has set its offset. -/
theorem settled_after
    {stream : ByteStream}
    (set :
      ∀ target,
        stream.state = .seeking target →
        stream.byteOffset = target) :
    Settled (caller.after stream) := by
  rw [Caller.after]
  split
  · next target seeking =>
      simpa only [Settled, seeking] using set target seeking
  · next free =>
      rw [Settled]
      split
      · next target seeking =>
          exact absurd seeking (free target)
      · rfl

/-- A poll that leaves a stream has not panicked. -/
theorem of_polled
    {α : Type}
    {outcome : ByteStream × Poll α}
    {after : ByteStream}
    (returns : polled outcome = some after) :
    after = outcome.1 ∧
      ∀ message, outcome.2 ≠ .panicked message := by
  obtain ⟨stream, poll⟩ := outcome
  cases poll with
  | ready value =>
      cases returns
      simp
  | pending =>
      cases returns
      simp
  | panicked message =>
      cases returns
  | unfinished =>
      cases returns

/-! ## Reads -/

/-- Copying from a block does not seek. -/
theorem copyBlock_not_seeking
    (size : Nat)
    (stream : ByteStream)
    (block : Bytes)
    (target : Nat) :
    (ByteStream.copyBlock size stream block).1.state ≠
      .seeking target := by
  rw [ByteStream.copyBlock]
  split
  · simp
  · dsimp only
    split <;> simp

/-- Polling the request for a block does not seek. -/
theorem fetchBlock_not_seeking
    (completed : Bool)
    (size : Nat)
    (stream : ByteStream)
    (seq target : Nat) :
    (ByteStream.fetchBlock server completed size stream seq).1.state ≠
      .seeking target := by
  rw [ByteStream.fetchBlock]
  split
  · split
    · simp
    · simp
    · exact copyBlock_not_seeking size stream _ target
  · simp

/-- Copying from a block does not meet a seek. -/
theorem copyBlock_ne_unreachable
    (size : Nat)
    (stream : ByteStream)
    (block : Bytes) :
    (ByteStream.copyBlock size stream block).2 ≠
      .panicked "unreachable" := by
  rw [ByteStream.copyBlock]
  split
  · simp
  · dsimp only
    split <;> simp

/-- Polling the request for a block does not meet a seek. -/
theorem fetchBlock_ne_unreachable
    (completed : Bool)
    (size : Nat)
    (stream : ByteStream)
    (seq : Nat) :
    (ByteStream.fetchBlock server completed size stream seq).2 ≠
      .panicked "unreachable" := by
  rw [ByteStream.fetchBlock]
  split
  · split
    · simp
    · simp
    · exact copyBlock_ne_unreachable size stream _
  · simp

/-- A read meets a seek exactly when one is in flight. -/
theorem pollRead_ne_unreachable_iff
    (completed : Bool)
    (size : Nat)
    (stream : ByteStream) :
    (stream.pollRead server completed size).2 ≠
        .panicked "unreachable" ↔
      ∀ target, stream.state ≠ .seeking target := by
  rw [ByteStream.pollRead_eq]
  cases stream.state with
  | seeking target =>
      simp
  | finished =>
      simp
  | idle =>
      simp [fetchBlock_ne_unreachable]
  | reading seq =>
      simp [fetchBlock_ne_unreachable]
  | ready block =>
      simp [copyBlock_ne_unreachable]

/-- A read that does not panic leaves no seek in flight. -/
theorem pollRead_not_seeking
    {completed : Bool}
    {size : Nat}
    {stream after : ByteStream}
    (returns :
      polled (stream.pollRead server completed size) = some after)
    (target : Nat) :
    after.state ≠ .seeking target := by
  obtain ⟨rfl, noPanic⟩ := of_polled returns
  have free :=
    (pollRead_ne_unreachable_iff completed size stream).mp
      (noPanic "unreachable")
  rw [ByteStream.pollRead_eq]
  cases isState : stream.state with
  | seeking other =>
      exact absurd isState (free other)
  | finished =>
      simp [isState]
  | idle =>
      exact fetchBlock_not_seeking completed size stream _ target
  | reading seq =>
      exact fetchBlock_not_seeking completed size stream _ target
  | ready block =>
      exact copyBlock_not_seeking size stream block target

/-! ## Seeks -/

/-- Polling the seek in flight leaves it or ends it. -/
theorem finishSeek_state
    {completed : Bool}
    {stream : ByteStream}
    {target other : Nat}
    (seeking :
      (ByteStream.finishSeek server completed stream target).1.state =
        .seeking other) :
    other = target ∧
      (ByteStream.finishSeek server completed stream
        target).1.byteOffset = stream.byteOffset := by
  rw [ByteStream.finishSeek] at seeking ⊢
  split at seeking
  · split at seeking
    · simp_all
    · cases seeking
  · simp_all

/-- After a seek is polled, the seek in flight has set `byte_offset`. -/
theorem Settled.pollSeek
    (settled : Settled caller)
    {completed : Bool}
    {position : SeekFrom}
    {target : Nat}
    (seeking :
      (caller.stream.pollSeek server overflowChecks completed
        position).1.state = .seeking target) :
    (caller.stream.pollSeek server overflowChecks completed
      position).1.byteOffset = target := by
  by_cases inFlight : ∃ other, caller.stream.state = .seeking other
  · obtain ⟨other, seekingOther⟩ := inFlight
    rw [ByteStream.pollSeek_of_seeking server overflowChecks completed
      seekingOther] at seeking ⊢
    obtain ⟨rfl, same⟩ := finishSeek_state seeking
    rw [same]
    exact settled.byteOffset_eq seekingOther
  · have free := not_exists.mp inFlight
    rw [ByteStream.pollSeek_of_not_seeking server overflowChecks
      completed free] at seeking ⊢
    split at seeking
    · exact absurd seeking (free target)
    · next asked isTarget =>
        obtain ⟨rfl, same⟩ := finishSeek_state seeking
        exact same

/-- A seek that completes returns `byte_offset`, and installs the answer. -/
theorem finishSeek_ready
    {completed : Bool}
    {stream after : ByteStream}
    {target returned : Nat}
    (ready :
      ByteStream.finishSeek server completed stream target =
        (after, .ready returned)) :
    completed = true ∧
      returned = stream.byteOffset ∧
      ∃ seq offset,
        server.seek target = .ok (seq, offset) ∧
          after =
            { seq := seq
              blockOffset := offset
              byteOffset := returned
              state := .idle } := by
  rw [ByteStream.finishSeek] at ready
  split at ready
  · next isCompleted =>
      split at ready
      · cases ready
      · next seq offset answer =>
          cases ready
          exact ⟨isCompleted, rfl, seq, offset, answer, rfl⟩
  · cases ready

/-- A seek meets its own target exactly when it is not disturbed. -/
theorem Settled.meets_seek_iff
    (settled : Settled caller)
    (position : SeekFrom)
    (completed : Bool) :
    Meets server overflowChecks caller (.seek position completed) ↔
      Undisturbed server overflowChecks caller
        (.seek position completed) := by
  by_cases inFlight : ∃ target, caller.stream.state = .seeking target
  · obtain ⟨target, seeking⟩ := inFlight
    have isOffset := settled.byteOffset_eq seeking
    simp only [Meets, Undisturbed,
      ByteStream.pollSeek_of_seeking server overflowChecks completed
        seeking, seeking, ByteStream.State.seeking.injEq]
    constructor
    · rintro meets other seq offset rfl rfl answer
      refine (meets ⟨seq, offset, target, .idle⟩ target ?_).1
      simp [ByteStream.finishSeek, answer, isOffset]
    · intro undisturbed next returned ready
      obtain ⟨isCompleted, rfl, seq, offset, answer, isNext⟩ :=
        finishSeek_ready ready
      rw [isOffset] at isNext ⊢
      exact ⟨undisturbed target seq offset rfl isCompleted answer,
        seq, offset, answer, isNext⟩
  · have free := not_exists.mp inFlight
    refine iff_of_true ?_
      (fun target _ _ seeking => absurd seeking (free target))
    intro next returned ready
    rw [ByteStream.pollSeek_of_not_seeking server overflowChecks
      completed free] at ready
    rw [settled.ownTarget_eq free]
    split at ready
    · cases ready
    · next target isTarget =>
        obtain ⟨-, rfl, seq, offset, answer, isNext⟩ :=
          finishSeek_ready ready
        exact ⟨isTarget, seq, offset, answer, isNext⟩

/-! ## Runs -/

/-- Every poll keeps what the caller knows. -/
theorem Settled.step
    (settled : Settled caller)
    {action : Action}
    (stepped : step server overflowChecks caller action = some next) :
    Settled next := by
  cases action with
  | read size completed =>
      simp only [ByteStreamPending.step, Option.map_eq_some_iff]
        at stepped
      obtain ⟨after, returns, rfl⟩ := stepped
      refine settled_after ?_
      intro target seeking
      exact absurd seeking (pollRead_not_seeking returns target)
  | seek position completed =>
      simp only [ByteStreamPending.step, Option.map_eq_some_iff]
        at stepped
      obtain ⟨after, returns, rfl⟩ := stepped
      obtain ⟨rfl, -⟩ := of_polled returns
      exact settled_after (fun _ seeking => settled.pollSeek seeking)

/-- A poll does what it should exactly when it is not disturbed. -/
theorem Settled.meets_iff
    (settled : Settled caller)
    (action : Action) :
    Meets server overflowChecks caller action ↔
      Undisturbed server overflowChecks caller action := by
  cases action with
  | read size completed =>
      exact pollRead_ne_unreachable_iff completed size caller.stream
  | seek position completed =>
      exact settled.meets_seek_iff position completed

end

/--
In every sequence of polls of reads and seeks, with requests that complete at
any later poll: no read meets a seek in flight and every seek that completes
returns and installs its own target, if and only if no read is polled while a
seek is in flight, and no seek with another target is polled when the one in
flight completes.
-/
theorem meets_own_iff
    (server : FeedServer)
    (overflowChecks : Bool)
    (actions : List Action) :
    Machine.Along (step server overflowChecks)
        (Meets server overflowChecks) .new actions ↔
      Machine.Along (step server overflowChecks)
        (Undisturbed server overflowChecks) .new actions := by
  constructor
  · intro meets
    exact Machine.along_imp Settled
      (fun settled _ stepped => settled.step stepped)
      (fun settled met => (settled.meets_iff _).mp met) rfl meets
  · intro undisturbed
    exact Machine.along_imp Settled
      (fun settled _ stepped => settled.step stepped)
      (fun settled free => (settled.meets_iff _).mpr free) rfl
      undisturbed

/-- A server that finds every position in one block. -/
def oneBlockServer : FeedServer where
  get _ := .ok (some [97, 98, 99])
  seek target := .ok (0, target)

/--
A seek to byte 2 is left pending: a read that is polled next panics, and a seek
to byte 0 that is polled next returns and installs 2.
-/
theorem pending_seek_disturbs :
    (∃ pending,
      Machine.run (step oneBlockServer true) .new
          [.seek (.start 2) false] = some pending ∧
        (pending.stream.pollRead oneBlockServer true 1).2 =
          .panicked "unreachable" ∧
        pending.stream.pollSeek oneBlockServer true true (.start 0) =
          (⟨0, 2, 2, .idle⟩, .ready 2)) ∧
      ¬ Machine.Along (step oneBlockServer true)
          (Meets oneBlockServer true) .new
          [.seek (.start 2) false, .read 1 true] ∧
      ¬ Machine.Along (step oneBlockServer true)
          (Meets oneBlockServer true) .new
          [.seek (.start 2) false, .seek (.start 0) true] := by
  refine ⟨⟨_, rfl, rfl, rfl⟩, ?_, ?_⟩
  · rintro ⟨-, meets, -⟩
    exact meets rfl
  · rintro ⟨-, meets, -⟩
    obtain ⟨own, -⟩ := meets ⟨0, 2, 2, .idle⟩ 2 rfl
    cases own

end ByteStreamPending

end Hyperspace
