import Hyperspace.ByteStream
import Hyperspace.Machine
import Mathlib.Algebra.BigOperators.Group.List.Basic

namespace Hyperspace

/-!
# The byte reader refines a cursor

The abstract machine of this module is a position in the concatenation of all
blocks: a read returns the bytes at the position and advances it, a seek sets
it.  The byte reader spreads its position over the block number, the offset in
the block, the buffered block and the request in flight.  The relation
`AtCursor` ties the two together in every state of the reader, and every poll
of a run is matched by a step of the cursor.
-/

namespace ByteStream

/-- Number of bytes before a block. -/
def blockStart (blocks : List Bytes) (seq : Nat) : Nat :=
  ((blocks.take seq).map List.length).sum

/-- The server's replies for a feed with the given blocks. -/
structure Serves (blocks : List Bytes) (server : FeedServer) : Prop where
  getStored :
    ∀ {seq block},
      blocks[seq]? = some block →
      server.get seq = .ok (some block)
  getMissing :
    ∀ {seq},
      blocks[seq]? = none →
      ∃ message, server.get seq = .error message
  seekInside :
    ∀ {position},
      position < blocks.flatten.length →
      ∃ seq offset block,
        server.seek position = .ok (seq, offset) ∧
          blocks[seq]? = some block ∧
          offset < block.length ∧
          position = blockStart blocks seq + offset

/-! ## Positions in the concatenation of the blocks -/

/-- Dropping all bytes before a block leaves the later blocks. -/
theorem flatten_drop_blockStart
    (blocks : List Bytes)
    (seq : Nat) :
    blocks.flatten.drop (blockStart blocks seq) =
      (blocks.drop seq).flatten := by
  induction seq generalizing blocks with
  | zero =>
      simp [blockStart]
  | succ seq inductionHypothesis =>
      cases blocks with
      | nil =>
          simp
      | cons block rest =>
          have further := inductionHypothesis rest
          simp only [blockStart, List.take_succ_cons, List.map_cons,
            List.sum_cons, List.flatten_cons, List.drop_succ_cons] at further ⊢
          rw [List.drop_length_add_append, further]

/-- The next block starts where this one ends. -/
theorem blockStart_succ
    {blocks : List Bytes}
    {seq : Nat}
    {block : Bytes}
    (stored : blocks[seq]? = some block) :
    blockStart blocks (seq + 1) =
      blockStart blocks seq + block.length := by
  simp [blockStart, List.take_add_one, stored]

/-- Inside a block, the rest of the block comes first. -/
theorem flatten_drop_inside
    {blocks : List Bytes}
    {seq offset : Nat}
    {block : Bytes}
    (stored : blocks[seq]? = some block)
    (inside : offset ≤ block.length) :
    blocks.flatten.drop (blockStart blocks seq + offset) =
      block.drop offset ++ (blocks.drop (seq + 1)).flatten := by
  obtain ⟨bound, sameBlock⟩ := List.getElem?_eq_some_iff.mp stored
  rw [← List.drop_drop, flatten_drop_blockStart,
    List.drop_eq_getElem_cons bound, sameBlock, List.flatten_cons,
    List.drop_append_of_le_length inside]

/-! ## The cursor -/

/-- What the caller of the reader sees of one poll. -/
inductive Observation where
  | pending
  | read (size : Nat) (bytes : Bytes)
  | seek (asked returned : Nat)
  | failed
  deriving Repr, DecidableEq

/-- The cursor over a string of bytes. -/
def cursorStep
    (content : Bytes)
    (position : Nat) : Observation → Option Nat
  | .pending => some position
  | .read size bytes =>
      if bytes.length ≤ size ∧
          (content.drop position).take bytes.length = bytes then
        some (position + bytes.length)
      else
        none
  | .seek asked returned =>
      if returned = asked then some asked else none
  | .failed => none

/-! ## Sessions with the reader -/

/-- The reader, and the seek that its caller has begun and not completed. -/
structure Session where
  stream : ByteStream
  seekingTo : Option Nat
  deriving Repr, DecidableEq

namespace Session

/-- A session with a new reader. -/
def new : Session where
  stream := .new
  seekingTo := none

/-- One poll by the caller. -/
inductive Action where
  | read (size : Nat) (completed : Bool)
  | seek (position : Nat) (completed : Bool)
  deriving Repr, DecidableEq

/--
Reads and seeks in any order.  A seek goes to a position inside the feed and is
polled with the same position until it completes; a pending read may be given
up for a seek.
-/
def step
    (blocks : List Bytes)
    (server : FeedServer)
    (overflowChecks : Bool)
    (session : Session) : Action → Option Session
  | .read size completed =>
      if session.seekingTo = none then
        some { session with
          stream := (session.stream.pollRead server completed size).1 }
      else
        none
  | .seek position completed =>
      if position < blocks.flatten.length ∧
          (session.seekingTo = none ∨
            session.seekingTo = some position) then
        let (stream, result) :=
          session.stream.pollSeek server overflowChecks completed
            (.start position)
        some {
          stream := stream
          seekingTo :=
            match result with
            | .pending => some position
            | _ => none }
      else
        none

/-- The observation of one poll. -/
def view
    (server : FeedServer)
    (overflowChecks : Bool)
    (session : Session) : Action → Observation
  | .read size completed =>
      match (session.stream.pollRead server completed size).2 with
      | .pending => .pending
      | .ready bytes => .read size bytes
      | _ => .failed
  | .seek position completed =>
      match (session.stream.pollSeek server overflowChecks completed
          (.start position)).2 with
      | .pending => .pending
      | .ready returned => .seek position returned
      | _ => .failed

end Session

/-! ## The simulation -/

/-- Block number and offset denote a position, inside or just after a block. -/
def Located
    (blocks : List Bytes)
    (stream : ByteStream)
    (position : Nat) : Prop :=
  position = blockStart blocks stream.seq + stream.blockOffset ∧
    ∀ block,
      blocks[stream.seq]? = some block →
      stream.blockOffset ≤ block.length

/--
The reader stands at a cursor position: the buffered block is the block the
position is in, and the request in flight is for that block.
-/
def AtCursor
    (blocks : List Bytes)
    (session : Session)
    (position : Nat) : Prop :=
  match session.stream.state with
  | .seeking target =>
      session.seekingTo = some target ∧
        session.stream.byteOffset = target
  | .idle =>
      session.seekingTo = none ∧
        Located blocks session.stream position
  | .reading seq =>
      session.seekingTo = none ∧
        Located blocks session.stream position ∧
        seq = session.stream.seq
  | .ready block =>
      session.seekingTo = none ∧
        Located blocks session.stream position ∧
        blocks[session.stream.seq]? = some block
  | .finished =>
      session.seekingTo = none

section

variable
  {blocks : List Bytes}
  {server : FeedServer}
  {overflowChecks : Bool}
  {stream : ByteStream}
  {position : Nat}

/-- A new reader stands at the first byte. -/
theorem atCursor_new : AtCursor blocks Session.new 0 :=
  ⟨rfl, by simp [Session.new, new, blockStart], fun _ _ => Nat.zero_le _⟩

/-- What the caller learns from a poll of `poll_read` at a position. -/
def ReadsAt
    (blocks : List Bytes)
    (position size : Nat)
    (outcome : ByteStream × Poll Bytes) : Prop :=
  match outcome.2 with
  | .pending => AtCursor blocks ⟨outcome.1, none⟩ position
  | .ready bytes =>
      bytes.length ≤ size ∧
        (blocks.flatten.drop position).take bytes.length = bytes ∧
        AtCursor blocks ⟨outcome.1, none⟩ (position + bytes.length)
  | _ => False

/-- Copying from the block at the position. -/
theorem readsAt_copyBlock
    {block : Bytes}
    (size : Nat)
    (located : Located blocks stream position)
    (stored : blocks[stream.seq]? = some block) :
    ReadsAt blocks position size (copyBlock size stream block) := by
  obtain ⟨here, inBlock⟩ := located
  have inside : stream.blockOffset ≤ block.length := inBlock block stored
  have rest := flatten_drop_inside stored inside
  rw [← here] at rest
  have copiedLength :
      ((block.drop stream.blockOffset).take size).length =
        min size (block.length - stream.blockOffset) := by
    simp
  have fits :
      ((block.drop stream.blockOffset).take size).length ≤ size := by
    rw [copiedLength]
    exact Nat.min_le_left _ _
  have content :
      (blocks.flatten.drop position).take
          ((block.drop stream.blockOffset).take size).length =
        (block.drop stream.blockOffset).take size := by
    rw [rest, copiedLength, List.take_append_of_le_length (by simp),
      ← List.length_drop, ← List.take_eq_take_min]
  simp only [copyBlock, if_neg (Nat.not_lt.mpr inside)]
  by_cases toEnd : block.length ≤ stream.blockOffset + size
  · rw [if_pos toEnd]
    refine ⟨fits, content, rfl, ?_, fun _ _ => Nat.zero_le _⟩
    rw [copiedLength, blockStart_succ stored, here]
    simp only
    omega
  · rw [if_neg toEnd]
    refine ⟨fits, content, rfl, ⟨?_, ?_⟩, stored⟩
    · rw [copiedLength, here]
      simp only
      omega
    · intro other otherStored
      rw [stored] at otherStored
      cases otherStored
      simp only
      omega

/-- Polling the request for the block at the position. -/
theorem readsAt_fetchBlock
    (serves : Serves blocks server)
    (completed : Bool)
    (size : Nat)
    (located : Located blocks stream position) :
    ReadsAt blocks position size
      (fetchBlock server completed size stream stream.seq) := by
  cases completed with
  | false =>
      exact ⟨rfl, located, rfl⟩
  | true =>
      simp only [fetchBlock, ↓reduceIte]
      cases stored : blocks[stream.seq]? with
      | some block =>
          rw [serves.getStored stored]
          exact readsAt_copyBlock size located stored
      | none =>
          obtain ⟨message, reply⟩ := serves.getMissing stored
          rw [reply]
          simp [ReadsAt, AtCursor]

/-- A read polled at a position returns the bytes there. -/
theorem readsAt_pollRead
    (serves : Serves blocks server)
    (completed : Bool)
    (size : Nat)
    (atCursor : AtCursor blocks ⟨stream, none⟩ position) :
    ReadsAt blocks position size
      (stream.pollRead server completed size) := by
  rw [pollRead_eq]
  cases isState : stream.state with
  | idle =>
      simp only [AtCursor, isState] at atCursor
      exact readsAt_fetchBlock serves completed size atCursor.2
  | seeking target =>
      simp [AtCursor, isState] at atCursor
  | reading requested =>
      simp only [AtCursor, isState] at atCursor
      obtain ⟨_, located, rfl⟩ := atCursor
      exact readsAt_fetchBlock serves completed size located
  | ready block =>
      simp only [AtCursor, isState] at atCursor
      obtain ⟨_, located, stored⟩ := atCursor
      exact readsAt_copyBlock size located stored
  | finished =>
      simp [ReadsAt, AtCursor, isState]

/-- What the caller learns from a poll of `poll_seek`. -/
def SeeksTo
    (blocks : List Bytes)
    (target : Nat)
    (outcome : ByteStream × Poll Nat) : Prop :=
  match outcome.2 with
  | .pending =>
      outcome.1.state = .seeking target ∧
        outcome.1.byteOffset = target
  | .ready returned =>
      returned = target ∧
        AtCursor blocks ⟨outcome.1, none⟩ target
  | _ => False

/-- Polling the seek in flight. -/
theorem seeksTo_finishSeek
    (serves : Serves blocks server)
    (completed : Bool)
    {target : Nat}
    (inside : target < blocks.flatten.length)
    (offset : stream.byteOffset = target) :
    SeeksTo blocks target
      (finishSeek server completed stream target) := by
  cases completed with
  | false =>
      exact ⟨rfl, offset⟩
  | true =>
      obtain ⟨seq, blockOffset, block, reply, stored, inBlock, here⟩ :=
        serves.seekInside inside
      simp only [finishSeek, ↓reduceIte, reply]
      refine ⟨offset, rfl, here, ?_⟩
      intro other otherStored
      simp only [stored, Option.some.injEq] at otherStored
      subst other
      exact Nat.le_of_lt inBlock

/-- From any state outside a seek, a seek starts afresh. -/
theorem seeksTo_pollSeek
    (serves : Serves blocks server)
    (overflowChecks completed : Bool)
    {target : Nat}
    (inside : target < blocks.flatten.length)
    (free :
      ∀ other,
        stream.state = .seeking other →
        other = target ∧ stream.byteOffset = target) :
    SeeksTo blocks target
      (stream.pollSeek server overflowChecks completed
        (.start target)) := by
  by_cases seeking : ∃ other, stream.state = .seeking other
  · obtain ⟨other, isSeeking⟩ := seeking
    obtain ⟨rfl, offset⟩ := free other isSeeking
    rw [pollSeek_of_seeking server overflowChecks completed isSeeking]
    exact seeksTo_finishSeek serves completed inside offset
  · rw [pollSeek_of_not_seeking server overflowChecks completed
      (fun other isSeeking => seeking ⟨other, isSeeking⟩)]
    exact seeksTo_finishSeek serves completed inside rfl

/-- A pending seek is the only state in which the caller is seeking. -/
theorem AtCursor.seekingTo_eq
    {session : Session}
    (atCursor : AtCursor blocks session position)
    {other : Nat}
    (seeking : session.stream.state = .seeking other) :
    session.seekingTo = some other ∧
      session.stream.byteOffset = other := by
  rw [AtCursor, seeking] at atCursor
  exact atCursor

/-- Every poll of a session is a step of the cursor. -/
theorem atCursor_step
    (serves : Serves blocks server)
    {session next : Session}
    {action : Session.Action}
    (atCursor : AtCursor blocks session position)
    (stepped :
      session.step blocks server overflowChecks action = some next) :
    ∃ positionNext,
      cursorStep blocks.flatten position
          (session.view server overflowChecks action) =
          some positionNext ∧
        AtCursor blocks next positionNext := by
  obtain ⟨stream, seekingTo⟩ := session
  cases action with
  | read size completed =>
      simp only [Session.step] at stepped
      split at stepped
      · next free =>
          subst free
          cases stepped
          have reads := readsAt_pollRead serves completed size atCursor
          simp only [ReadsAt] at reads
          simp only [Session.view]
          split at reads
          · exact ⟨position, rfl, reads⟩
          · obtain ⟨fits, content, after⟩ := reads
            refine ⟨_, ?_, after⟩
            simp only [cursorStep]
            rw [if_pos ⟨fits, content⟩]
          · exact reads.elim
      · cases stepped
  | seek target completed =>
      simp only [Session.step] at stepped
      split at stepped
      · next allowed =>
          cases stepped
          have seeks :
              SeeksTo blocks target
                (stream.pollSeek server overflowChecks completed
                  (.start target)) := by
            apply seeksTo_pollSeek serves overflowChecks completed
              allowed.1
            intro other seeking
            obtain ⟨pending, offset⟩ := atCursor.seekingTo_eq seeking
            simp only at pending
            subst seekingTo
            have same : other = target := by
              simpa using allowed.2
            exact ⟨same, offset.trans same⟩
          simp only [SeeksTo] at seeks
          simp only [Session.view]
          split at seeks
          · next pending =>
              refine ⟨position, rfl, ?_⟩
              simp only [AtCursor, seeks.1, pending]
              exact ⟨trivial, seeks.2⟩
          · next returned ready =>
              obtain ⟨same, after⟩ := seeks
              refine ⟨target, by simp [cursorStep, same], ?_⟩
              simpa only [ready] using after
          · exact seeks.elim
      · cases stepped

end

/--
The byte reader refines a cursor that starts at the first byte: the results of
all polls of a session, in order, are results of the cursor, and none of them
is a panic.
-/
theorem byteStream_refines_cursor
    {blocks : List Bytes}
    {server : FeedServer}
    (serves : Serves blocks server)
    {overflowChecks : Bool}
    {actions : List Session.Action}
    {final : Session}
    (ran :
      Machine.run (Session.step blocks server overflowChecks) .new
          actions =
        some final) :
    ∃ position,
      Machine.run (cursorStep blocks.flatten) 0
          (Machine.observe (Session.step blocks server overflowChecks)
            (Session.view server overflowChecks) .new actions) =
          some position ∧
        AtCursor blocks final position :=
  Machine.simulation_run
    (fun atCursor stepped => atCursor_step serves atCursor stepped)
    atCursor_new ran

private theorem locate_inside
    {blocks : List Bytes}
    {position : Nat}
    (inside : position < blocks.flatten.length) :
    ∃ seq offset block,
      locate blocks position = .ok (seq, offset) ∧
        blocks[seq]? = some block ∧
        offset < block.length ∧
        position = blockStart blocks seq + offset := by
  induction blocks generalizing position with
  | nil =>
      simp at inside
  | cons block rest inductionHypothesis =>
      simp only [locate]
      by_cases here : position < block.length
      · rw [if_pos here]
        exact ⟨0, position, block, rfl, rfl, here, by simp [blockStart]⟩
      · rw [if_neg here]
        have inRest :
            position - block.length < rest.flatten.length := by
          simp only [List.flatten_cons, List.length_append] at inside
          omega
        obtain ⟨seq, offset, stored, located, found, inBlock, same⟩ :=
          inductionHypothesis inRest
        refine
          ⟨seq + 1, offset, stored, by simp [located, Except.map],
            by simpa using found, inBlock, ?_⟩
        simp only [blockStart, List.take_succ_cons, List.map_cons,
          List.sum_cons] at same ⊢
        omega

/-- Such a server serves the feed with these blocks. -/
theorem serves_serverOf (blocks : List Bytes) :
    Serves blocks (serverOf blocks) where
  getStored := by
    intro seq block stored
    simp [serverOf, stored]
  getMissing := by
    intro seq missing
    simp [serverOf, missing]
  seekInside := locate_inside

/--
A session over the blocks `abc`, an empty block and `de`: a read across a
pending poll, a seek away from a partly consumed block, and a read at the end.
-/
theorem byteStream_refines_cursor_abcde :
    ∃ final,
      Machine.run
          (Session.step [[97, 98, 99], [], [100, 101]]
            (serverOf [[97, 98, 99], [], [100, 101]]) true)
          .new
          [.read 2 false, .read 2 true, .seek 4 false, .seek 4 true,
            .read 8 true, .read 8 true] = some final ∧
        ∃ position,
          Machine.run (cursorStep [97, 98, 99, 100, 101]) 0
              [.pending, .read 2 [97, 98], .pending, .seek 4 4,
                .read 8 [101], .read 8 []] = some position ∧
            AtCursor [[97, 98, 99], [], [100, 101]] final position := by
  have finishes :
      ∃ final,
        Machine.run
            (Session.step [[97, 98, 99], [], [100, 101]]
              (serverOf [[97, 98, 99], [], [100, 101]]) true)
            .new
            [.read 2 false, .read 2 true, .seek 4 false, .seek 4 true,
              .read 8 true, .read 8 true] = some final :=
    ⟨_, rfl⟩
  obtain ⟨final, ran⟩ := finishes
  exact ⟨final, ran, byteStream_refines_cursor (serves_serverOf _) ran⟩

end ByteStream

end Hyperspace
