import Hyperspace.RemoteLength
import Hyperspace.Session

namespace Hyperspace

/-!
# The client's length while a feed is downloaded

A feed that the server replicates from peers grows by `put`: each block comes
with a proof, and a proof signed for a greater length raises the length of the
feed.  The event of a downloaded block carries the index of the block and no
length, and the client takes the index for the end of the feed.

This module follows a feed on the server, the loop that notifies one client and
the client's record.  The record agrees with the feed whenever the loop is idle
in every run in which no `put` raises the length beyond the block that it
stores.
-/

namespace SessionDownload

open RemoteLength (cached)

/-- A feed on the server, its `notify_loop` and the client's record of it. -/
structure State (Feed : Type) where
  feed : Feed
  task : NotifyTask Unit
  inner : InnerHypercore

/-- What the client does with a notification for the record. -/
def handle (inner : InnerHypercore) : Notification → InnerHypercore
  | .append event => inner.onAppend event.length event.byteLength
  | .download event => inner.onDownload event.seq event.byteLength

/-- What can happen next. -/
inductive Action (Signature : Type) where
  /-- A peer loop stores a downloaded block. -/
  | put (index : Nat) (value : Option Bytes) (proof : Proof Signature)
  | append (block : Bytes)
  | advanceNotify

section

variable
  {Feed Signature : Type}
  (core : Hypercore Feed Signature)
  (byteLen : Feed → Nat)

/--
The client has opened the feed and stored the response, and the loop has
subscribed, with nothing appended or stored in between.
-/
def initial
    (feed : Feed)
    (id : Nat)
    (inner : InnerHypercore)
    (key : Bytes)
    (writable : Bool) : State Feed where
  feed := feed
  task := { id := id, phase := .waiting, queue := [] }
  inner :=
    inner.onOpenResponse
      ⟨key, core.len feed, byteLen feed, writable⟩

/--
One step.  A notification is handled by the client before the loop goes on,
since the loop awaits the client's reply.
-/
def step (state : State Feed) : Action Signature → Option (State Feed)
  | .put index value proof =>
      match core.put state.feed index value proof with
      | none => some state
      | some (feed, queued) =>
          some { state with
            feed := feed
            task :=
              if queued then
                state.task.emit (.download index) ()
              else
                state.task }
  | .append block =>
      match core.append state.feed block with
      | none => some state
      | some feed =>
          some { state with
            feed := feed
            task := state.task.emit .append () }
  | .advanceNotify =>
      match
        state.task.advance (core.len state.feed, byteLen state.feed)
      with
      | none => none
      | some (task, none) => some { state with task := task }
      | some (task, some (notification, _)) =>
          some { state with
            task := task
            inner := handle state.inner notification }

/-- The client's pair is the feed's. -/
def Agrees (state : State Feed) : Prop :=
  cached state.inner = (core.len state.feed, byteLen state.feed)

/--
A `put` that queues an event raises the length to the stored block at most, and
one that queues none changes neither the length nor the byte length.
-/
def GrowsByBlock
    (state : State Feed) : Action Signature → Prop
  | .put index value proof =>
      ∀ next queued,
        core.put state.feed index value proof = some (next, queued) →
        if queued then
          core.len next = max (core.len state.feed) (index + 1)
        else
          core.len next = core.len state.feed ∧
            byteLen next = byteLen state.feed
  | _ => True

/-- A successful append makes the feed longer by one block. -/
def AppendLengthens : Prop :=
  ∀ feed block next,
    core.append feed block = some next →
    core.len next = core.len feed + 1

end

/-- An event that the loop has not read the feed for yet. -/
def Awaits (task : NotifyTask Unit) (event : FeedEvent) : Prop :=
  (event, ()) ∈ task.queue ∨ task.phase = .reading event ()

/-- The client's record once the notification in hand has been handled. -/
def shown (task : NotifyTask Unit) (inner : InnerHypercore) :
    InnerHypercore :=
  match task.phase with
  | .sending notification _ => handle inner notification
  | _ => inner

/-- The invariant of runs in which no `put` outgrows its block. -/
structure Catching
    {Feed Signature : Type}
    (core : Hypercore Feed Signature)
    (byteLen : Feed → Nat)
    (state : State Feed) : Prop where
  subscribed :
    state.task.Subscribed
  lengthBelow :
    (shown state.task state.inner).length ≤ core.len state.feed
  awaitedBelow :
    ∀ seq,
      Awaits state.task (.download seq) →
      seq + 1 ≤ core.len state.feed
  lengthComes :
    Awaits state.task .append ∨
      (∃ seq,
        Awaits state.task (.download seq) ∧
          seq + 1 = core.len state.feed) ∨
      (shown state.task state.inner).length = core.len state.feed
  bytesCome :
    (∃ event, Awaits state.task event) ∨
      (shown state.task state.inner).byteLength = byteLen state.feed

section

variable
  {Feed Signature : Type}
  {core : Hypercore Feed Signature}
  {byteLen : Feed → Nat}
  {state next : State Feed}

/-- The client starts with the feed's pair. -/
theorem catching_initial
    (feed : Feed)
    (id : Nat)
    (inner : InnerHypercore)
    (key : Bytes)
    (writable : Bool) :
    Catching core byteLen
      (initial core byteLen feed id inner key writable) where
  subscribed := by simp [initial, NotifyTask.Subscribed]
  lengthBelow := le_refl _
  awaitedBelow := by simp [initial, Awaits]
  lengthComes := Or.inr (Or.inr rfl)
  bytesCome := Or.inr rfl

/-- A feed event does not change what the client is about to see. -/
@[simp] theorem shown_emit
    (task : NotifyTask Unit)
    (inner : InnerHypercore)
    (event : FeedEvent) :
    shown (task.emit event ()) inner = shown task inner := by
  simp [shown]

/-- An emitted event is awaited, and so are those awaited before. -/
theorem awaits_emit
    {task : NotifyTask Unit}
    (subscribed : task.Subscribed)
    (event other : FeedEvent) :
    Awaits (task.emit event ()) other ↔
      Awaits task other ∨ other = event := by
  rw [subscribed.emit_eq]
  simp only [Awaits, List.mem_append, List.mem_singleton,
    Prod.mk.injEq, and_true]
  tauto

/-- The feed has grown and the loop will be told of it. -/
theorem Catching.emit
    (catching : Catching core byteLen state)
    {feed : Feed}
    {event : FeedEvent}
    (longer : core.len state.feed ≤ core.len feed)
    (eventBelow :
      ∀ seq, event = .download seq → seq + 1 ≤ core.len feed)
    (comes :
      event = .append ∨ core.len feed = core.len state.feed ∨
        ∃ seq, event = .download seq ∧ seq + 1 = core.len feed) :
    Catching core byteLen
      { state with feed := feed, task := state.task.emit event () } where
  subscribed := by
    simpa [NotifyTask.Subscribed] using catching.subscribed
  lengthBelow := by
    simpa using catching.lengthBelow.trans longer
  awaitedBelow := by
    intro seq awaits
    rcases (awaits_emit catching.subscribed event _).mp awaits with
      before | isEvent
    · exact (catching.awaitedBelow seq before).trans longer
    · exact eventBelow seq isEvent.symm
  lengthComes := by
    simp only [awaits_emit catching.subscribed, shown_emit]
    rcases comes with isAppend | sameLength | ⟨seq, isDownload, isEnd⟩
    · exact Or.inl (Or.inr isAppend.symm)
    · rw [sameLength]
      rcases catching.lengthComes with
        append | ⟨seq, download, isEnd⟩ | arrived
      · exact Or.inl (Or.inl append)
      · exact Or.inr (Or.inl ⟨seq, Or.inl download, isEnd⟩)
      · exact Or.inr (Or.inr arrived)
    · exact Or.inr (Or.inl ⟨seq, Or.inr isDownload.symm, isEnd⟩)
  bytesCome := by
    refine Or.inl ⟨event, ?_⟩
    exact (awaits_emit catching.subscribed event event).mpr
      (Or.inr rfl)

/-- A `put` that does not outgrow its block. -/
theorem Catching.put
    (catching : Catching core byteLen state)
    {index : Nat}
    {value : Option Bytes}
    {proof : Proof Signature}
    (grows : GrowsByBlock core byteLen state (.put index value proof))
    (stepped :
      step core byteLen state (.put index value proof) = some next) :
    Catching core byteLen next := by
  simp only [step] at stepped
  split at stepped
  · cases stepped
    exact catching
  · next feed queued put =>
      cases stepped
      have grown := grows feed queued put
      cases queued with
      | false =>
          simp only [Bool.false_eq_true, if_false] at grown ⊢
          obtain ⟨sameLength, sameBytes⟩ := grown
          refine ⟨catching.subscribed, ?_, ?_, ?_, ?_⟩
          · simpa [sameLength] using catching.lengthBelow
          · simpa [sameLength] using catching.awaitedBelow
          · simpa [sameLength] using catching.lengthComes
          · simpa [sameBytes] using catching.bytesCome
      | true =>
          simp only [if_true] at grown ⊢
          refine catching.emit (by omega) ?_ ?_
          · intro seq isIndex
            cases isIndex
            omega
          · rcases Nat.lt_or_ge (core.len state.feed) (index + 1) with
              outgrown | within
            · exact Or.inr (Or.inr ⟨index, rfl, by omega⟩)
            · exact Or.inr (Or.inl (by omega))

/-- The loop takes an event. -/
theorem Catching.take
    (catching : Catching core byteLen state)
    {event : FeedEvent}
    {rest : List (FeedEvent × Unit)}
    (isWaiting : state.task.phase = .waiting)
    (queued : state.task.queue = (event, ()) :: rest) :
    Catching core byteLen
      { state with
        task :=
          { state.task with
            phase := .reading event ()
            queue := rest } } := by
  have sameAwaits :
      ∀ other,
        Awaits
            { state.task with
              phase := .reading event ()
              queue := rest } other ↔
          Awaits state.task other := by
    intro other
    simp only [Awaits, isWaiting, queued, List.mem_cons, Prod.mk.injEq,
      and_true, NotifyPhase.reading.injEq, reduceCtorEq, or_false]
    constructor
    · rintro (later | isEvent)
      · exact Or.inr later
      · exact Or.inl isEvent.symm
    · rintro (isEvent | later)
      · exact Or.inr isEvent.symm
      · exact Or.inl later
  have sameShown :
      shown
          { state.task with
            phase := .reading event ()
            queue := rest } state.inner =
        shown state.task state.inner := by
    simp [shown, isWaiting]
  refine ⟨by simp [NotifyTask.Subscribed], ?_, ?_, ?_, ?_⟩
  · simpa only [sameShown] using catching.lengthBelow
  · simpa only [sameAwaits] using catching.awaitedBelow
  · simpa only [sameAwaits, sameShown] using catching.lengthComes
  · simpa only [sameAwaits, sameShown] using catching.bytesCome

/-- The loop reads the feed for the event it has taken. -/
theorem Catching.read
    (catching : Catching core byteLen state)
    {event : FeedEvent}
    (isReading : state.task.phase = .reading event ()) :
    Catching core byteLen
      { state with
        task :=
          { state.task with
            phase :=
              .sending
                (.ofEvent state.task.id
                  (core.len state.feed, byteLen state.feed) event)
                () } } := by
  have isShown : shown state.task state.inner = state.inner := by
    simp [shown, isReading]
  have awaitsLater :
      ∀ {other},
        Awaits state.task other →
        other = event ∨ (other, ()) ∈ state.task.queue := by
    rintro other (isQueued | isHeld)
    · exact Or.inr isQueued
    · rw [isReading] at isHeld
      cases isHeld
      exact Or.inl rfl
  have below := catching.lengthBelow
  rw [isShown] at below
  cases event with
  | append =>
      refine ⟨by simp [NotifyTask.Subscribed], le_refl _, ?_,
        Or.inr (Or.inr rfl), Or.inr rfl⟩
      rintro seq (isQueued | isHeld)
      · exact catching.awaitedBelow seq (Or.inl isQueued)
      · cases isHeld
  | download index =>
      have indexBelow :=
        catching.awaitedBelow index (Or.inr isReading)
      refine ⟨by simp [NotifyTask.Subscribed], ?_, ?_, ?_, ?_⟩
      · simp only [shown, Notification.ofEvent, handle,
          InnerHypercore.onDownload_length]
        omega
      · rintro seq (isQueued | isHeld)
        · exact catching.awaitedBelow seq (Or.inl isQueued)
        · cases isHeld
      · simp only [shown, Notification.ofEvent, handle,
          InnerHypercore.onDownload_length]
        rcases catching.lengthComes with
          append | ⟨seq, download, isEnd⟩ | arrived
        · rcases awaitsLater append with isEvent | isQueued
          · cases isEvent
          · exact Or.inl (Or.inl isQueued)
        · rcases awaitsLater download with isEvent | isQueued
          · cases isEvent
            exact Or.inr (Or.inr (by omega))
          · exact Or.inr (Or.inl ⟨seq, Or.inl isQueued, isEnd⟩)
        · rw [isShown] at arrived
          exact Or.inr (Or.inr (by omega))
      · exact Or.inr
          (InnerHypercore.onDownload_byteLength _ _ _)

/-- The client handles a notification. -/
theorem Catching.handled
    (catching : Catching core byteLen state)
    {notification : Notification}
    (isSending : state.task.phase = .sending notification ()) :
    Catching core byteLen
      { state with
        task := { state.task with phase := .waiting }
        inner := handle state.inner notification } := by
  have sameShown :
      shown { state.task with phase := .waiting }
          (handle state.inner notification) =
        shown state.task state.inner := by
    simp [shown, isSending]
  have sameAwaits :
      ∀ other,
        Awaits { state.task with phase := .waiting } other ↔
          Awaits state.task other := by
    intro other
    simp [Awaits, isSending]
  refine ⟨by simp [NotifyTask.Subscribed], ?_, ?_, ?_, ?_⟩
  · simpa only [sameShown] using catching.lengthBelow
  · simpa only [sameAwaits] using catching.awaitedBelow
  · simpa only [sameAwaits, sameShown] using catching.lengthComes
  · simpa only [sameAwaits, sameShown] using catching.bytesCome

/-- One step keeps the invariant, if no `put` outgrows its block. -/
theorem Catching.step
    (lengthens : AppendLengthens core)
    (catching : Catching core byteLen state)
    {action : Action Signature}
    (grows : GrowsByBlock core byteLen state action)
    (stepped :
      SessionDownload.step core byteLen state action = some next) :
    Catching core byteLen next := by
  cases action with
  | put index value proof =>
      exact catching.put grows stepped
  | append block =>
      simp only [SessionDownload.step] at stepped
      split at stepped
      · cases stepped
        exact catching
      · next feed appended =>
          cases stepped
          have longer := lengthens state.feed block feed appended
          refine catching.emit (by omega) ?_ (Or.inl rfl)
          intro seq isDownload
          cases isDownload
  | advanceNotify =>
      simp only [SessionDownload.step] at stepped
      split at stepped
      · cases stepped
      · next task advanced =>
          cases stepped
          rcases NotifyTask.advance_cases advanced with
            ⟨isStarting, _⟩ |
              ⟨event, cause, rest, isWaiting, queued, rfl, _⟩ |
              ⟨event, cause, isReading, rfl, _⟩ |
              ⟨notification, cause, _, _, isSent⟩
          · exact absurd isStarting catching.subscribed
          · exact catching.take isWaiting queued
          · exact catching.read isReading
          · cases isSent
      · next task notification _ advanced =>
          cases stepped
          rcases NotifyTask.advance_cases advanced with
            ⟨_, _, isSent⟩ | ⟨_, _, _, _, _, _, isSent⟩ |
              ⟨_, _, _, _, isSent⟩ |
              ⟨other, cause, isSending, rfl, isSent⟩
          · cases isSent
          · cases isSent
          · cases isSent
          · cases isSent
            exact catching.handled isSending

/-- When the loop is idle the client has caught up. -/
theorem Catching.agrees
    (catching : Catching core byteLen state)
    (idle : state.task.Idle) :
    Agrees core byteLen state := by
  obtain ⟨isWaiting, empty⟩ := idle
  have notAwaited : ∀ event, ¬ Awaits state.task event := by
    intro event
    simp [Awaits, isWaiting, empty]
  have isShown : shown state.task state.inner = state.inner := by
    simp [shown, isWaiting]
  have sameLength : state.inner.length = core.len state.feed := by
    rcases catching.lengthComes with
      append | ⟨seq, download, _⟩ | arrived
    · exact absurd append (notAwaited _)
    · exact absurd download (notAwaited _)
    · rw [isShown] at arrived
      exact arrived
  have sameBytes : state.inner.byteLength = byteLen state.feed := by
    rcases catching.bytesCome with ⟨event, awaits⟩ | arrived
    · exact absurd awaits (notAwaited event)
    · rw [isShown] at arrived
      exact arrived
  exact Prod.ext sameLength sameBytes

end

/--
In every run of downloads and appends in which no `put` raises the length of
the feed beyond the block it stores: whenever the loop has no event queued and
the client has handled all its messages, the client's length and byte length
are the feed's.
-/
theorem client_length_agrees
    {Feed Signature : Type}
    {core : Hypercore Feed Signature}
    {byteLen : Feed → Nat}
    (lengthens : AppendLengthens core)
    {feed : Feed}
    {id : Nat}
    {inner : InnerHypercore}
    {key : Bytes}
    {writable : Bool}
    {actions : List (Action Signature)}
    {state : State Feed}
    (grows :
      Machine.Along (step core byteLen) (GrowsByBlock core byteLen)
        (initial core byteLen feed id inner key writable) actions)
    (ran :
      Machine.run (step core byteLen)
          (initial core byteLen feed id inner key writable) actions =
        some state)
    (idle : state.task.Idle) :
    Agrees core byteLen state := by
  have catching : Catching core byteLen state :=
    Machine.invariant_run_along (Catching core byteLen)
      (fun holds condition stepped =>
        holds.step lengthens condition stepped)
      (catching_initial feed id inner key writable) grows ran
  exact catching.agrees idle

/-! ## Examples -/

/-- An append to a sparse feed makes it longer by one block. -/
theorem appendLengthens_sparseCore : AppendLengthens sparseCore := by
  intro feed block next appended
  simp only [sparseCore] at appended ⊢
  split at appended
  · cases appended
    simp [SparseFeed.raise, SparseFeed.write]
  · cases appended

/-- A feed without blocks, opened by a client. -/
def openedEmpty : State SparseFeed :=
  initial sparseCore SparseFeed.byteLength SparseFeed.empty 1
    (.new none (some "foo")) sampleFoo.publicKey.bytes false

/-- A peer stores a block with a proof, and the client is told of it. -/
def stored
    (index : Nat)
    (block : Bytes)
    (signature : Nat × Nat) : List (Action (Nat × Nat)) :=
  [.put index (some block) ⟨index, [], some signature⟩,
    .advanceNotify, .advanceNotify, .advanceNotify]

/-- Two blocks in order, each with the proof made when it was appended. -/
def storedInOrder : List (Action (Nat × Nat)) :=
  stored 0 [104] (1, 1) ++ stored 1 [119, 111] (2, 3)

/-- The client follows a download in order. -/
theorem client_length_agrees_inOrder :
    AppendLengthens sparseCore ∧
      Machine.Along (step sparseCore SparseFeed.byteLength)
        (GrowsByBlock sparseCore SparseFeed.byteLength)
        openedEmpty storedInOrder ∧
      ∃ state,
        Machine.run (step sparseCore SparseFeed.byteLength)
            openedEmpty storedInOrder =
            some state ∧
          state.task.Idle ∧
          sparseCore.len state.feed = 2 ∧
          Agrees sparseCore SparseFeed.byteLength state := by
  have finishes :
      ∃ state,
        Machine.run (step sparseCore SparseFeed.byteLength)
            openedEmpty storedInOrder =
            some state ∧
          state.task.Idle ∧
          sparseCore.len state.feed = 2 :=
    ⟨_, rfl, ⟨rfl, rfl⟩, rfl⟩
  have grows :
      Machine.Along (step sparseCore SparseFeed.byteLength)
        (GrowsByBlock sparseCore SparseFeed.byteLength)
        openedEmpty storedInOrder := by
    refine ⟨?_, trivial, trivial, trivial, ?_, trivial, trivial,
      trivial, trivial⟩
    · intro next queued put
      cases put
      rfl
    · intro next queued put
      cases put
      rfl
  obtain ⟨state, ran, idle, isTwo⟩ := finishes
  exact ⟨appendLengthens_sparseCore, grows, state, ran, idle, isTwo,
    client_length_agrees appendLengthens_sparseCore grows ran idle⟩

/--
The first block of a feed of five, with the proof that its peer has now, leaves
the client at length one.
-/
theorem first_of_five_blocks_disagrees :
    AppendLengthens sparseCore ∧
      ∃ state,
        Machine.run (step sparseCore SparseFeed.byteLength)
            openedEmpty (stored 0 [104] (5, 9)) =
            some state ∧
          state.task.Idle ∧
          (sparseCore.len state.feed, state.feed.byteLength) = (5, 9) ∧
          RemoteLength.cached state.inner = (1, 9) ∧
          ¬ Agrees sparseCore SparseFeed.byteLength state := by
  refine ⟨appendLengthens_sparseCore, _, rfl, ⟨rfl, rfl⟩, rfl, rfl, ?_⟩
  intro agrees
  have sameLength : (1 : Nat) = 5 := congrArg Prod.fst agrees
  cases sameLength

end SessionDownload

end Hyperspace
