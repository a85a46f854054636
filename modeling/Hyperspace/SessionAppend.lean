import Hyperspace.Session
import Hyperspace.Table

namespace Hyperspace

/-!
# Batches of appends

`Session::append` locks the session's map `cores`, finds the feed, locks the
feed, and appends the blocks of its request one by one; both locks are held
until it returns.  `Session::get` takes the same two locks.  Every session has a
map and a lock of its own, while the feeds are shared between sessions.

This module interleaves the RPCs of any number of sessions at the granularity
of single appends and lock operations.  Each batch is contiguous, batches do not
overlap, and what a later get returns is the block of the batch.
-/

namespace SessionAppend

open Machine (getElem?_set_cases getElem?_concat_cases)

/-- The two RPCs. -/
inductive Request where
  | append (id : Nat) (blocks : List Bytes)
  | get (id seq : Nat)
  deriving Repr, DecidableEq

/-- The id that a request names. -/
def Request.id : Request → Nat
  | .append id _ => id
  | .get id _ => id

/--
Where an RPC stands.  While a batch is being appended, its start and the blocks
written so far are recorded for proofs.
-/
inductive Phase where
  | lockCores
  | lockFeed (feed : Nat)
  | appending (feed start : Nat) (written remaining : List Bytes)
  | getting (feed : Nat)
  /-- The id is not in the map. -/
  | refused (message : IoError)
  | appended (feed : Nat) (result : Except IoError AppendResponse)
  | got (feed : Nat) (result : Except IoError (Option Bytes))

/-- One RPC of a session. -/
structure Rpc where
  session : Nat
  request : Request
  phase : Phase

/-- All sessions of a server and the feeds that they share. -/
structure State (Feed : Type) where
  feeds : Nat → Feed
  /-- The RPC that holds the lock of a feed. -/
  feedLock : Nat → Option Nat
  /-- The map `cores` of each session. -/
  cores : Nat → Table Nat Nat
  /-- The RPC that holds the lock of a session's map. -/
  coresLock : Nat → Option Nat
  rpcs : List Rpc

/-- A server with some feeds and sessions, before any RPC. -/
def initial
    {Feed : Type}
    (feeds : Nat → Feed)
    (cores : Nat → Table Nat Nat) : State Feed where
  feeds := feeds
  feedLock := fun _ => none
  cores := cores
  coresLock := fun _ => none
  rpcs := []

/-- What can happen next. -/
inductive Action where
  | request (session : Nat) (request : Request)
  | advance (rpc : Nat)
  /-- The handler of `Open` enters a feed into the map of its session. -/
  | bind (session id feed : Nat)
  deriving Repr, DecidableEq

section

variable {Feed : Type}

/-- An RPC moves on. -/
def State.setPhase
    (state : State Feed)
    (index : Nat)
    (rpc : Rpc)
    (phase : Phase) : State Feed :=
  { state with
    rpcs := state.rpcs.set index { rpc with phase := phase } }

/-- An RPC returns and drops both of its guards. -/
def State.finish
    (state : State Feed)
    (index : Nat)
    (rpc : Rpc)
    (feed : Nat)
    (phase : Phase) : State Feed :=
  { state.setPhase index rpc phase with
    feedLock := Function.update state.feedLock feed none
    coresLock := Function.update state.coresLock rpc.session none }

variable (core : SessionFeed Feed)

/-- The response of `append`. -/
def appendResponse (feed : Feed) : AppendResponse where
  length := core.len feed
  byteLength := core.byteLen feed

/-- What an RPC does once it holds both locks. -/
def start (feeds : Nat → Feed) (feed : Nat) : Request → Phase
  | .append _ blocks =>
      .appending feed (core.len (feeds feed)) [] blocks
  | .get _ _ => .getting feed

/-- The next step of an RPC. -/
def advance
    (state : State Feed)
    (index : Nat)
    (rpc : Rpc) : Option (State Feed) :=
  match rpc.phase with
  | .lockCores =>
      match state.coresLock rpc.session with
      | some _ => none
      | none =>
          match (state.cores rpc.session).lookup rpc.request.id with
          | none =>
              some (state.setPhase index rpc (.refused Session.badId))
          | some feed =>
              some { state.setPhase index rpc (.lockFeed feed) with
                coresLock :=
                  Function.update state.coresLock rpc.session
                    (some index) }
  | .lockFeed feed =>
      match state.feedLock feed with
      | some _ => none
      | none =>
          some { state.setPhase index rpc
              (start core state.feeds feed rpc.request) with
            feedLock := Function.update state.feedLock feed (some index) }
  | .appending feed start written (block :: remaining) =>
      match core.append (state.feeds feed) block with
      | .error message =>
          some (state.finish index rpc feed
            (.appended feed (.error message)))
      | .ok next =>
          some { state.setPhase index rpc
              (.appending feed start (written ++ [block])
                remaining) with
            feeds := Function.update state.feeds feed next }
  | .appending feed _ _ [] =>
      some (state.finish index rpc feed
        (.appended feed
          (.ok (appendResponse core (state.feeds feed)))))
  | .getting feed =>
      match rpc.request with
      | .append _ _ => none
      | .get _ seq =>
          some (state.finish index rpc feed
            (.got feed (core.get (state.feeds feed) seq)))
  | .refused _ => none
  | .appended _ _ => none
  | .got _ _ => none

/-- One step. -/
def step (state : State Feed) : Action → Option (State Feed)
  | .request session request =>
      some { state with
        rpcs := state.rpcs ++ [⟨session, request, .lockCores⟩] }
  | .advance index =>
      match state.rpcs[index]? with
      | none => none
      | some rpc => advance core state index rpc
  | .bind session id feed =>
      match state.coresLock session with
      | some _ => none
      | none =>
          some { state with
            cores :=
              Function.update state.cores session
                ((state.cores session).insert id feed) }

/-- The blocks are in the feed, in order, from an index on. -/
def Stored (feed : Feed) (first : Nat) (blocks : List Bytes) : Prop :=
  ∀ offset block,
    blocks[offset]? = some block →
    core.get feed (first + offset) = .ok (some block)

end

/-- What one step of an RPC can do. -/
inductive Advances
    {Feed : Type}
    (core : SessionFeed Feed)
    (state : State Feed)
    (index : Nat)
    (rpc : Rpc) : State Feed → Prop where
  | refuse :
      rpc.phase = .lockCores →
      state.coresLock rpc.session = none →
      (state.cores rpc.session).lookup rpc.request.id = none →
      Advances core state index rpc
        (state.setPhase index rpc (.refused Session.badId))
  | takeCores {feed : Nat} :
      rpc.phase = .lockCores →
      state.coresLock rpc.session = none →
      (state.cores rpc.session).lookup rpc.request.id = some feed →
      Advances core state index rpc
        { state.setPhase index rpc (.lockFeed feed) with
          coresLock :=
            Function.update state.coresLock rpc.session (some index) }
  | takeFeed {feed : Nat} :
      rpc.phase = .lockFeed feed →
      state.feedLock feed = none →
      Advances core state index rpc
        { state.setPhase index rpc
            (start core state.feeds feed rpc.request) with
          feedLock := Function.update state.feedLock feed (some index) }
  | append
      {feed first : Nat}
      {written remaining : List Bytes}
      {block : Bytes}
      {later : Feed} :
      rpc.phase = .appending feed first written (block :: remaining) →
      core.append (state.feeds feed) block = .ok later →
      Advances core state index rpc
        { state.setPhase index rpc
            (.appending feed first (written ++ [block]) remaining) with
          feeds := Function.update state.feeds feed later }
  | fail
      {feed first : Nat}
      {written remaining : List Bytes}
      {block : Bytes}
      {message : IoError} :
      rpc.phase = .appending feed first written (block :: remaining) →
      core.append (state.feeds feed) block = .error message →
      Advances core state index rpc
        (state.finish index rpc feed (.appended feed (.error message)))
  | respond {feed first : Nat} {written : List Bytes} :
      rpc.phase = .appending feed first written [] →
      Advances core state index rpc
        (state.finish index rpc feed
          (.appended feed
            (.ok (appendResponse core (state.feeds feed)))))
  | get {feed id seq : Nat} :
      rpc.phase = .getting feed →
      rpc.request = .get id seq →
      Advances core state index rpc
        (state.finish index rpc feed
          (.got feed (core.get (state.feeds feed) seq)))

/-- The blocks that an RPC has appended, with their feed and first index. -/
def Rpc.written (rpc : Rpc) : Option (Nat × Nat × List Bytes) :=
  match rpc.phase, rpc.request with
  | .appending feed start written _, _ => some (feed, start, written)
  | .appended feed (.ok response), .append _ blocks =>
      some (feed, response.length - blocks.length, blocks)
  | _, _ => none

/-- The feed whose lock an RPC holds. -/
def Phase.holds : Phase → Option Nat
  | .appending feed _ _ _ => some feed
  | .getting feed => some feed
  | _ => none

/-- An index of a feed that an RPC has written. -/
def Rpc.Wrote (rpc : Rpc) (feed index : Nat) : Prop :=
  ∃ first blocks,
    rpc.written = some (feed, first, blocks) ∧
      first ≤ index ∧ index < first + blocks.length

/-- A batch holds the lock of its feed and has come to the feed's end. -/
def Batch
    {Feed : Type}
    (core : SessionFeed Feed)
    (state : State Feed)
    (rpc : Rpc) : Prop :=
  ∀ feed first written remaining,
    rpc.phase = .appending feed first written remaining →
    (∃ id, rpc.request = .append id (written ++ remaining)) ∧
      first + written.length = core.len (state.feeds feed)

/-- A response is to an append, and its length reaches over the batch. -/
def Answered (rpc : Rpc) : Prop :=
  ∀ feed response,
    rpc.phase = .appended feed (.ok response) →
    ∃ id blocks,
      rpc.request = .append id blocks ∧
        blocks.length ≤ response.length

/-- The invariant of all runs. -/
structure Sound
    {Feed : Type}
    (core : SessionFeed Feed)
    (state : State Feed) : Prop where
  locked :
    ∀ {index feed : Nat} {rpc : Rpc},
      state.rpcs[index]? = some rpc →
      rpc.phase.holds = some feed →
      state.feedLock feed = some index
  batch :
    ∀ {index : Nat} {rpc : Rpc},
      state.rpcs[index]? = some rpc → Batch core state rpc
  answered :
    ∀ {index : Nat} {rpc : Rpc},
      state.rpcs[index]? = some rpc → Answered rpc
  stored :
    ∀ {index feed first : Nat} {rpc : Rpc} {blocks : List Bytes},
      state.rpcs[index]? = some rpc →
      rpc.written = some (feed, first, blocks) →
      first + blocks.length ≤ core.len (state.feeds feed) ∧
        Stored core (state.feeds feed) first blocks
  apart :
    ∀ {index other feed place : Nat} {rpc otherRpc : Rpc},
      state.rpcs[index]? = some rpc →
      state.rpcs[other]? = some otherRpc →
      rpc.Wrote feed place →
      otherRpc.Wrote feed place →
      index = other

section

variable
  {Feed : Type}
  {core : SessionFeed Feed}
  {state next : State Feed}

/-- Every step of an RPC is one of these. -/
theorem advances_of_advance
    {index : Nat}
    {rpc : Rpc}
    (stepped : advance core state index rpc = some next) :
    Advances core state index rpc next := by
  cases isPhase : rpc.phase with
  | lockCores =>
      simp only [advance, isPhase] at stepped
      split at stepped
      · cases stepped
      · next free =>
          split at stepped
          · next unknown =>
              cases stepped
              exact Advances.refuse isPhase free unknown
          · next known =>
              cases stepped
              exact Advances.takeCores isPhase free known
  | lockFeed feed =>
      simp only [advance, isPhase] at stepped
      split at stepped
      · cases stepped
      · next free =>
          cases stepped
          exact Advances.takeFeed isPhase free
  | appending feed first written remaining =>
      cases remaining with
      | nil =>
          simp only [advance, isPhase] at stepped
          cases stepped
          exact Advances.respond isPhase
      | cons block remaining =>
          simp only [advance, isPhase] at stepped
          split at stepped
          · next failed =>
              cases stepped
              exact Advances.fail isPhase failed
          · next appended =>
              cases stepped
              exact Advances.append isPhase appended
  | getting feed =>
      simp only [advance, isPhase] at stepped
      split at stepped
      · cases stepped
      · next isRequest =>
          cases stepped
          exact Advances.get isPhase isRequest
  | refused message =>
      simp [advance, isPhase] at stepped
  | appended feed result =>
      simp [advance, isPhase] at stepped
  | got feed result =>
      simp [advance, isPhase] at stepped

/-- No RPC has been made yet. -/
theorem sound_initial
    (feeds : Nat → Feed)
    (cores : Nat → Table Nat Nat) :
    Sound core (initial feeds cores) where
  locked := by simp [initial]
  batch := by simp [initial]
  answered := by simp [initial]
  stored := by simp [initial]
  apart := by simp [initial]

/-- A new RPC has done nothing yet. -/
theorem Sound.request
    (sound : Sound core state)
    (session : Nat)
    (request : Request) :
    Sound core
      { state with
        rpcs := state.rpcs ++ [⟨session, request, .lockCores⟩] } := by
  have before :
      ∀ {index : Nat} {rpc : Rpc},
        (state.rpcs ++ [⟨session, request, .lockCores⟩])[index]? =
          some rpc →
        state.rpcs[index]? = some rpc ∨ rpc.phase = .lockCores := by
    intro index rpc found
    rcases getElem?_concat_cases found with old | ⟨_, rfl⟩
    · exact Or.inl old
    · exact Or.inr rfl
  have notWritten :
      ∀ {rpc : Rpc}, rpc.phase = .lockCores → rpc.written = none := by
    intro rpc isNew
    simp [Rpc.written, isNew]
  refine ⟨?_, ?_, ?_, ?_, ?_⟩
  · intro index feed rpc found holds
    rcases before found with old | isNew
    · exact sound.locked old holds
    · simp [isNew, Phase.holds] at holds
  · intro index rpc found
    rcases before found with old | isNew
    · exact sound.batch old
    · intro feed first written remaining isAppending
      simp [isNew] at isAppending
  · intro index rpc found
    rcases before found with old | isNew
    · exact sound.answered old
    · intro feed response isAppended
      simp [isNew] at isAppended
  · intro index feed first rpc blocks found wrote
    rcases before found with old | isNew
    · exact sound.stored old wrote
    · simp [notWritten isNew] at wrote
  · intro index other feed place rpc otherRpc found otherFound wrote
      otherWrote
    rcases before found with old | isNew
    · rcases before otherFound with otherOld | otherNew
      · exact sound.apart old otherOld wrote otherWrote
      · obtain ⟨first, blocks, isWritten, _⟩ := otherWrote
        simp [notWritten otherNew] at isWritten
    · obtain ⟨first, blocks, isWritten, _⟩ := wrote
      simp [notWritten isNew] at isWritten

/-- What an RPC has written lies within its feed. -/
theorem Sound.wrote_below
    (sound : Sound core state)
    {index feed place : Nat}
    {rpc : Rpc}
    (found : state.rpcs[index]? = some rpc)
    (wrote : rpc.Wrote feed place) :
    place < core.len (state.feeds feed) := by
  obtain ⟨first, blocks, isWritten, _, below⟩ := wrote
  have bounded := (sound.stored found isWritten).1
  omega

/--
RPCs stay apart when one of them moves on and has newly written only beyond the
end of a feed.
-/
theorem Sound.apart_set
    (sound : Sound core state)
    {index : Nat}
    {rpc moved : Rpc}
    (found : state.rpcs[index]? = some rpc)
    (newAtEnd :
      ∀ feed place,
        moved.Wrote feed place →
        rpc.Wrote feed place ∨ core.len (state.feeds feed) ≤ place)
    {one other feed place : Nat}
    {oneRpc otherRpc : Rpc}
    (isOne : (state.rpcs.set index moved)[one]? = some oneRpc)
    (isOther : (state.rpcs.set index moved)[other]? = some otherRpc)
    (wrote : oneRpc.Wrote feed place)
    (otherWrote : otherRpc.Wrote feed place) :
    one = other := by
  rcases getElem?_set_cases isOne with ⟨rfl, rfl⟩ | ⟨_, oldOne⟩
  · rcases getElem?_set_cases isOther with ⟨rfl, rfl⟩ | ⟨_, old⟩
    · rfl
    · rcases newAtEnd feed place wrote with before | atEnd
      · exact sound.apart found old before otherWrote
      · have below := sound.wrote_below old otherWrote
        omega
  · rcases getElem?_set_cases isOther with ⟨rfl, rfl⟩ | ⟨_, old⟩
    · rcases newAtEnd feed place otherWrote with before | atEnd
      · exact sound.apart oldOne found wrote before
      · have below := sound.wrote_below oldOne wrote
        omega
    · exact sound.apart oldOne old wrote otherWrote

/--
An RPC moves on without touching a feed.  What it has written stays as it was,
or is forgotten, or is the empty batch at the end of a feed.
-/
theorem Sound.moved
    (sound : Sound core state)
    {index : Nat}
    {rpc : Rpc}
    (found : state.rpcs[index]? = some rpc)
    {phase : Phase}
    {feedLock : Nat → Option Nat}
    (cores : Nat → Table Nat Nat)
    (coresLock : Nat → Option Nat)
    (held :
      ∀ feed, phase.holds = some feed → feedLock feed = some index)
    (others :
      ∀ other feed,
        other ≠ index →
        state.feedLock feed = some other →
        feedLock feed = some other)
    (batch : Batch core state { rpc with phase := phase })
    (answered : Answered { rpc with phase := phase })
    (written :
      ∀ feed first blocks,
        ({ rpc with phase := phase } : Rpc).written =
          some (feed, first, blocks) →
        rpc.written = some (feed, first, blocks) ∨
          blocks = [] ∧ first ≤ core.len (state.feeds feed)) :
    Sound core
      { feeds := state.feeds
        feedLock := feedLock
        cores := cores
        coresLock := coresLock
        rpcs := state.rpcs.set index { rpc with phase := phase } } := by
  have wroteBefore :
      ∀ feed place,
        ({ rpc with phase := phase } : Rpc).Wrote feed place →
        rpc.Wrote feed place := by
    rintro feed place ⟨first, blocks, isWritten, above, below⟩
    rcases written feed first blocks isWritten with same | ⟨rfl, _⟩
    · exact ⟨first, blocks, same, above, below⟩
    · simp only [List.length_nil] at below
      omega
  refine ⟨?_, ?_, ?_, ?_, ?_⟩
  · intro other feed otherRpc isOther holds
    rcases getElem?_set_cases isOther with ⟨rfl, rfl⟩ | ⟨different, old⟩
    · exact held feed holds
    · exact others other feed different (sound.locked old holds)
  · intro other otherRpc isOther
    rcases getElem?_set_cases isOther with ⟨rfl, rfl⟩ | ⟨_, old⟩
    · exact batch
    · exact sound.batch old
  · intro other otherRpc isOther
    rcases getElem?_set_cases isOther with ⟨rfl, rfl⟩ | ⟨_, old⟩
    · exact answered
    · exact sound.answered old
  · intro other feed first otherRpc blocks isOther isWritten
    rcases getElem?_set_cases isOther with ⟨rfl, rfl⟩ | ⟨_, old⟩
    · rcases written feed first blocks isWritten with
        same | ⟨rfl, bounded⟩
      · exact sound.stored found same
      · exact ⟨by simpa using bounded, by simp [Stored]⟩
    · exact sound.stored old isWritten
  · intro one other feed place oneRpc otherRpc isOne isOther wrote
      otherWrote
    exact sound.apart_set found
      (fun feed place wroteNow => Or.inl (wroteBefore feed place wroteNow))
      isOne isOther wrote otherWrote

/-- What is stored stays stored when a block is appended. -/
theorem Stored.append
    (appendOnly : core.AppendOnly)
    {feed later : Feed}
    {first : Nat}
    {blocks : List Bytes}
    {block : Bytes}
    (stored : Stored core feed first blocks)
    (appended : core.append feed block = .ok later) :
    Stored core later first blocks := by
  intro offset other found
  exact appendOnly.keeps appended (stored offset other found)

/-- A batch that has come to the feed's end grows by the appended block. -/
theorem Stored.snoc
    (appendOnly : core.AppendOnly)
    {feed later : Feed}
    {first : Nat}
    {blocks : List Bytes}
    {block : Bytes}
    (stored : Stored core feed first blocks)
    (atEnd : first + blocks.length = core.len feed)
    (appended : core.append feed block = .ok later) :
    Stored core later first (blocks ++ [block]) := by
  intro offset other found
  rcases getElem?_concat_cases found with old | ⟨rfl, rfl⟩
  · exact appendOnly.keeps appended (stored offset other old)
  · rw [atEnd]
    exact appendOnly.stores appended

/-- A feed after an append, seen from any feed. -/
theorem len_le_update
    (appendOnly : core.AppendOnly)
    {feeds : Nat → Feed}
    {feed : Nat}
    {later : Feed}
    {block : Bytes}
    (appended : core.append (feeds feed) block = .ok later)
    (other : Nat) :
    core.len (feeds other) ≤
      core.len (Function.update feeds feed later other) := by
  by_cases same : other = feed
  · subst other
    rw [Function.update_self, appendOnly.longer appended]
    exact Nat.le_succ _
  · rw [Function.update_of_ne same]

/-- What is stored in any feed stays stored when one feed is appended to. -/
theorem Stored.update
    (appendOnly : core.AppendOnly)
    {feeds : Nat → Feed}
    {feed other first : Nat}
    {later : Feed}
    {block : Bytes}
    {blocks : List Bytes}
    (stored : Stored core (feeds other) first blocks)
    (appended : core.append (feeds feed) block = .ok later) :
    Stored core (Function.update feeds feed later other) first
      blocks := by
  by_cases same : other = feed
  · subst other
    rw [Function.update_self]
    exact stored.append appendOnly appended
  · rw [Function.update_of_ne same]
    exact stored

/-- RPCs other than the holder of a feed's lock are not at that feed. -/
theorem Sound.ne_of_held
    (sound : Sound core state)
    {index other feed otherFeed : Nat}
    {otherRpc : Rpc}
    (held : state.feedLock feed = some index)
    (different : other ≠ index)
    (isOther : state.rpcs[other]? = some otherRpc)
    (holds : otherRpc.phase.holds = some otherFeed) :
    otherFeed ≠ feed := by
  rintro rfl
  have otherHeld := sound.locked isOther holds
  rw [held] at otherHeld
  exact different (Option.some.inj otherHeld).symm

/-- The holder of a feed's lock appends one block of its batch. -/
theorem Sound.append
    (appendOnly : core.AppendOnly)
    (sound : Sound core state)
    {index feed first : Nat}
    {rpc : Rpc}
    {written remaining : List Bytes}
    {block : Bytes}
    {later : Feed}
    (found : state.rpcs[index]? = some rpc)
    (isAppending :
      rpc.phase = .appending feed first written (block :: remaining))
    (appended : core.append (state.feeds feed) block = .ok later) :
    Sound core
      { state with
        feeds := Function.update state.feeds feed later
        rpcs :=
          state.rpcs.set index
            { rpc with
              phase :=
                .appending feed first (written ++ [block])
                  remaining } } := by
  obtain ⟨⟨id, isRequest⟩, atEnd⟩ :=
    sound.batch found feed first written (block :: remaining)
      isAppending
  have held : state.feedLock feed = some index :=
    sound.locked found (by simp [isAppending, Phase.holds])
  have isWritten : rpc.written = some (feed, first, written) := by
    simp [Rpc.written, isAppending]
  obtain ⟨_, stored⟩ := sound.stored found isWritten
  have longer := appendOnly.longer appended
  have newAtEnd :
      ∀ other place,
        ({ rpc with
           phase :=
             .appending feed first (written ++ [block])
               remaining } : Rpc).Wrote other place →
        rpc.Wrote other place ∨ core.len (state.feeds other) ≤ place := by
    rintro other place ⟨start, blocks, isNow, above, below⟩
    simp only [Rpc.written, Option.some.injEq, Prod.mk.injEq] at isNow
    obtain ⟨rfl, rfl, rfl⟩ := isNow
    by_cases isBefore : place < core.len (state.feeds feed)
    · exact Or.inl ⟨first, written, isWritten, above, by omega⟩
    · exact Or.inr (Nat.not_lt.mp isBefore)
  refine ⟨?_, ?_, ?_, ?_, ?_⟩
  · intro other otherFeed otherRpc isOther holds
    rcases getElem?_set_cases isOther with ⟨rfl, rfl⟩ | ⟨_, old⟩
    · cases holds
      exact held
    · exact sound.locked old holds
  · intro other otherRpc isOther
    rcases getElem?_set_cases isOther with ⟨rfl, rfl⟩ | ⟨different, old⟩
    · intro otherFeed start done rest isPhase
      cases isPhase
      refine ⟨⟨id, by simpa using isRequest⟩, ?_⟩
      simp only [Function.update_self, List.length_append,
        List.length_singleton]
      omega
    · intro otherFeed start done rest isPhase
      obtain ⟨isBatch, otherEnd⟩ :=
        sound.batch old otherFeed start done rest isPhase
      have notSame : otherFeed ≠ feed :=
        sound.ne_of_held held different old
          (by simp [isPhase, Phase.holds])
      simp only [Function.update_of_ne notSame]
      exact ⟨isBatch, otherEnd⟩
  · intro other otherRpc isOther
    rcases getElem?_set_cases isOther with ⟨rfl, rfl⟩ | ⟨_, old⟩
    · intro otherFeed response isPhase
      cases isPhase
    · exact sound.answered old
  · intro other otherFeed start otherRpc blocks isOther wrote
    rcases getElem?_set_cases isOther with ⟨rfl, rfl⟩ | ⟨_, old⟩
    · simp only [Rpc.written, Option.some.injEq, Prod.mk.injEq] at wrote
      obtain ⟨rfl, rfl, rfl⟩ := wrote
      simp only [Function.update_self]
      refine ⟨?_, stored.snoc appendOnly atEnd appended⟩
      simp only [List.length_append, List.length_singleton]
      omega
    · obtain ⟨bounded, before⟩ := sound.stored old wrote
      exact ⟨bounded.trans (len_le_update appendOnly appended otherFeed),
        before.update appendOnly appended⟩
  · intro one other otherFeed place oneRpc otherRpc isOne isOther wrote
      otherWrote
    exact sound.apart_set found newAtEnd isOne isOther wrote otherWrote

/-- An RPC that holds the lock of its feed returns. -/
theorem Sound.finish
    (sound : Sound core state)
    {index feed : Nat}
    {rpc : Rpc}
    (found : state.rpcs[index]? = some rpc)
    (holds : rpc.phase.holds = some feed)
    {phase : Phase}
    (released : phase.holds = none)
    (answered : Answered { rpc with phase := phase })
    (written :
      ∀ first blocks other,
        ({ rpc with phase := phase } : Rpc).written =
          some (other, first, blocks) →
        rpc.written = some (other, first, blocks)) :
    Sound core (state.finish index rpc feed phase) := by
  have held := sound.locked found holds
  refine sound.moved found state.cores _ ?_ ?_ ?_ answered ?_
  · intro other stillHolds
    rw [released] at stillHolds
    cases stillHolds
  · intro other otherFeed different otherHeld
    have notSame : otherFeed ≠ feed := by
      intro same
      subst same
      rw [held] at otherHeld
      exact different (Option.some.inj otherHeld).symm
    rw [Function.update_of_ne notSame]
    exact otherHeld
  · intro other first done rest isAppending
    simp only at isAppending
    rw [isAppending] at released
    cases released
  · intro other first blocks isWritten
    exact Or.inl (written first blocks other isWritten)

/-- An RPC that gets the lock of its feed begins its work. -/
theorem Sound.lockFeed
    (sound : Sound core state)
    {index feed : Nat}
    {rpc : Rpc}
    (found : state.rpcs[index]? = some rpc)
    (free : state.feedLock feed = none) :
    Sound core
      { state.setPhase index rpc
          (start core state.feeds feed rpc.request) with
        feedLock := Function.update state.feedLock feed (some index) } := by
  have others :
      ∀ other otherFeed,
        other ≠ index →
        state.feedLock otherFeed = some other →
        Function.update state.feedLock feed (some index) otherFeed =
          some other := by
    intro other otherFeed _ otherHeld
    have notSame : otherFeed ≠ feed := by
      intro same
      subst same
      rw [free] at otherHeld
      cases otherHeld
    rw [Function.update_of_ne notSame]
    exact otherHeld
  cases isRequest : rpc.request with
  | append id blocks =>
      refine sound.moved found state.cores state.coresLock ?_ others
        ?_ ?_ ?_
      · intro other holds
        cases holds
        simp
      · intro other first done rest isAppending
        cases isAppending
        exact ⟨⟨id, by simpa using isRequest⟩, by simp⟩
      · intro other response isAppended
        cases isAppended
      · intro other first done isWritten
        simp only [start, Rpc.written, Option.some.injEq,
          Prod.mk.injEq] at isWritten
        obtain ⟨rfl, rfl, rfl⟩ := isWritten
        exact Or.inr ⟨rfl, le_refl _⟩
  | get id seq =>
      refine sound.moved found state.cores state.coresLock ?_ others
        ?_ ?_ ?_
      · intro other holds
        cases holds
        simp
      · intro other first done rest isAppending
        cases isAppending
      · intro other response isAppended
        cases isAppended
      · intro other first done isWritten
        simp [start, Rpc.written] at isWritten

/-- An RPC that waits for the map or gets it has written nothing. -/
theorem Sound.lockCores
    (sound : Sound core state)
    {index : Nat}
    {rpc : Rpc}
    (found : state.rpcs[index]? = some rpc)
    {phase : Phase}
    (isNext : (∃ feed, phase = .lockFeed feed) ∨
      ∃ message, phase = .refused message)
    (coresLock : Nat → Option Nat) :
    Sound core
      { state.setPhase index rpc phase with coresLock := coresLock } := by
  refine sound.moved found state.cores coresLock ?_ ?_ ?_ ?_ ?_
  · rcases isNext with ⟨feed, rfl⟩ | ⟨message, rfl⟩ <;>
      simp [Phase.holds]
  · intro other feed _ held
    exact held
  · rcases isNext with ⟨feed, rfl⟩ | ⟨message, rfl⟩ <;> simp [Batch]
  · rcases isNext with ⟨feed, rfl⟩ | ⟨message, rfl⟩ <;> simp [Answered]
  · rcases isNext with ⟨feed, rfl⟩ | ⟨message, rfl⟩ <;>
      simp [Rpc.written]

/-- One step of an RPC keeps the invariant. -/
theorem Sound.advance
    (appendOnly : core.AppendOnly)
    (sound : Sound core state)
    {index : Nat}
    {rpc : Rpc}
    (found : state.rpcs[index]? = some rpc)
    (advances : Advances core state index rpc next) :
    Sound core next := by
  cases advances with
  | refuse isPhase free unknown =>
      exact sound.lockCores found (Or.inr ⟨_, rfl⟩) state.coresLock
  | takeCores isPhase free known =>
      exact sound.lockCores found (Or.inl ⟨_, rfl⟩) _
  | takeFeed isPhase free =>
      exact sound.lockFeed found free
  | append isPhase appended =>
      exact sound.append appendOnly found isPhase appended
  | @fail feed first written remaining block message isPhase failed =>
      have holds : rpc.phase.holds = some feed := by
        simp [isPhase, Phase.holds]
      refine sound.finish found holds rfl ?_ ?_
      · intro other response isAppended
        cases isAppended
      · intro start blocks other isWritten
        simp [Rpc.written] at isWritten
  | @respond feed first written isPhase =>
      have holds : rpc.phase.holds = some feed := by
        simp [isPhase, Phase.holds]
      obtain ⟨⟨id, isRequest⟩, atEnd⟩ :=
        sound.batch found feed first written [] isPhase
      simp only [List.append_nil] at isRequest
      refine sound.finish found holds rfl ?_ ?_
      · intro other response isAppended
        cases isAppended
        refine ⟨id, written, isRequest, ?_⟩
        simp only [appendResponse]
        omega
      · intro start blocks other isWritten
        simp only [Rpc.written, isRequest, isPhase,
          Option.some.injEq, Prod.mk.injEq,
          appendResponse] at isWritten ⊢
        obtain ⟨sameFeed, sameStart, sameBlocks⟩ := isWritten
        refine ⟨sameFeed, ?_, sameBlocks⟩
        omega
  | @get feed id seq isPhase isRequest =>
      have holds : rpc.phase.holds = some feed := by
        simp [isPhase, Phase.holds]
      refine sound.finish found holds rfl ?_ ?_
      · intro other response isAppended
        cases isAppended
      · intro start blocks other isWritten
        simp [Rpc.written] at isWritten

/-- One step keeps the invariant. -/
theorem Sound.step
    (appendOnly : core.AppendOnly)
    (sound : Sound core state)
    {action : Action}
    (stepped : SessionAppend.step core state action = some next) :
    Sound core next := by
  cases action with
  | request session request =>
      cases stepped
      exact sound.request session request
  | advance index =>
      simp only [SessionAppend.step] at stepped
      split at stepped
      · cases stepped
      · next rpc found =>
          exact sound.advance appendOnly found
            (advances_of_advance stepped)
  | bind session id feed =>
      simp only [SessionAppend.step] at stepped
      split at stepped
      · cases stepped
      · cases stepped
        exact ⟨sound.locked, sound.batch, sound.answered, sound.stored,
          sound.apart⟩

end

/--
Every get that was made after a number of RPCs, and has returned from a feed,
has returned the block stored at its index.
-/
def GetsReturn
    {Feed : Type}
    (state : State Feed)
    (since feed first : Nat)
    (blocks : List Bytes) : Prop :=
  ∀ index session id seq result offset block,
    since ≤ index →
    state.rpcs[index]? =
      some ⟨session, .get id seq, .got feed result⟩ →
    blocks[offset]? = some block →
    seq = first + offset →
    result = .ok (some block)

section

variable
  {Feed : Type}
  {core : SessionFeed Feed}
  {state next : State Feed}
  {since feed first : Nat}
  {blocks : List Bytes}

/-- An RPC that moves on returns nothing, or the block stored. -/
theorem GetsReturn.set
    (returns : GetsReturn state since feed first blocks)
    {index : Nat}
    {rpc : Rpc}
    {phase : Phase}
    {later : State Feed}
    (sameRpcs :
      later.rpcs = state.rpcs.set index { rpc with phase := phase })
    (fits :
      ∀ id seq result offset block,
        rpc.request = .get id seq →
        phase = .got feed result →
        blocks[offset]? = some block →
        seq = first + offset →
        result = .ok (some block)) :
    GetsReturn later since feed first blocks := by
  intro other session id seq result offset block isLater found isBlock
    isPlace
  rw [sameRpcs] at found
  rcases getElem?_set_cases found with ⟨_, isMoved⟩ | ⟨_, old⟩
  · simp only [Rpc.mk.injEq] at isMoved
    obtain ⟨_, isRequest, isPhase⟩ := isMoved
    exact fits id seq result offset block isRequest.symm isPhase.symm
      isBlock isPlace
  · exact returns other session id seq result offset block isLater old
      isBlock isPlace

/-- One step of an RPC keeps what is stored, and gets return it. -/
theorem GetsReturn.advance
    (appendOnly : core.AppendOnly)
    (stored : Stored core (state.feeds feed) first blocks)
    (returns : GetsReturn state since feed first blocks)
    {index : Nat}
    {rpc : Rpc}
    (advances : Advances core state index rpc next) :
    Stored core (next.feeds feed) first blocks ∧
      GetsReturn next since feed first blocks := by
  cases advances with
  | refuse isPhase free unknown =>
      exact ⟨stored, returns.set rfl (by simp)⟩
  | takeCores isPhase free known =>
      exact ⟨stored, returns.set rfl (by simp)⟩
  | takeFeed isPhase free =>
      refine ⟨stored, returns.set rfl ?_⟩
      intro id seq result offset block isRequest isGot
      simp [start, isRequest] at isGot
  | append isPhase appended =>
      exact ⟨stored.update appendOnly appended,
        returns.set rfl (by simp)⟩
  | fail isPhase failed =>
      exact ⟨stored, returns.set rfl (by simp)⟩
  | respond isPhase =>
      exact ⟨stored, returns.set rfl (by simp)⟩
  | get isPhase isRequest =>
      refine ⟨stored, returns.set rfl ?_⟩
      intro otherId place result offset block isGet isGot isBlock
        isPlace
      rw [isRequest] at isGet
      cases isGet
      cases isGot
      rw [isPlace]
      exact stored offset block isBlock

/-- One step keeps what is stored, and gets return it. -/
theorem GetsReturn.step
    (appendOnly : core.AppendOnly)
    (stored : Stored core (state.feeds feed) first blocks)
    (returns : GetsReturn state since feed first blocks)
    {action : Action}
    (stepped : SessionAppend.step core state action = some next) :
    Stored core (next.feeds feed) first blocks ∧
      GetsReturn next since feed first blocks := by
  cases action with
  | request session request =>
      cases stepped
      refine ⟨stored, ?_⟩
      intro index other id seq result offset block isLater found
      rcases getElem?_concat_cases found with old | ⟨_, isNew⟩
      · exact returns index other id seq result offset block isLater old
      · cases isNew
  | advance index =>
      simp only [SessionAppend.step] at stepped
      split at stepped
      · cases stepped
      · exact returns.advance appendOnly stored
          (advances_of_advance stepped)
  | bind session id other =>
      simp only [SessionAppend.step] at stepped
      split at stepped
      · cases stepped
      · cases stepped
        exact ⟨stored, returns⟩

end

end SessionAppend

end Hyperspace
