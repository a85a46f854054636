import Hyperspace.Peer

namespace Hyperspace.PeerAnnounce

/-!
# Announcing new blocks

The loop of a peer is told of every block that the feed acquires after the loop
has subscribed.  A `Download` event carries the index of the block; an `Append`
event does not, and the loop announces the last block that the feed has when it
handles the event.  If the feed has grown since the append, the appended block
is passed over.
-/

/-- A peer loop, and everything that it has sent. -/
structure State (Feed : Type) where
  peer : Peer Feed
  sent : List Message
  phase : LoopPhase

/-- What can happen. -/
inductive Action (Signature : Type) where
  /-- Another task appends to the feed. -/
  | append (block : Bytes)
  /-- Another task puts a block into the feed. -/
  | download (index : Nat) (value : Option Bytes)
      (proof : Proof Signature)
  | start
  | takeMessage (message : Message)
  | takeFeedEvent

namespace State

variable {Feed Signature : Type}

/-- A loop that has just subscribed to a feed. -/
def subscribed (feed : Feed) (stats : Replicator.Stats) : State Feed where
  peer := Peer.new feed stats
  sent := []
  phase := .starting

/-- The state after a handler. -/
def after (state : State Feed) (turn : Turn Feed) : State Feed where
  peer := turn.peer
  sent := state.sent ++ turn.sent
  phase := turn.phase

end State

section

variable
  {Feed Signature : Type}
  (core : Hypercore Feed Signature)
  (overflowChecks : Bool)

/-- One step of the loop or of another task. -/
def step
    (state : State Feed) : Action Signature → Option (State Feed)
  | .append block =>
      match core.append state.peer.feed block with
      | none => some state
      | some feed =>
          some { state with
            peer :=
              { state.peer with
                feed := feed
                feedEvents := state.peer.feedEvents ++ [.append] } }
  | .download index value proof =>
      match core.put state.peer.feed index value proof with
      | none => some state
      | some (feed, queued) =>
          some { state with
            peer := state.peer.stored index feed queued }
  | .start =>
      match state.phase with
      | .starting => some (state.after state.peer.onOpen)
      | _ => none
  | .takeMessage message =>
      match state.phase with
      | .looping =>
          some (state.after
            (state.peer.onMessage core overflowChecks message))
      | _ => none
  | .takeFeedEvent =>
      match state.phase, state.peer.feedEvents with
      | .looping, event :: rest =>
          some (state.after
            ({ state.peer with feedEvents := rest }.onFeedEvent core
              overflowChecks event))
      | _, _ => none

/-- What a step can be. -/
inductive Moves (state : State Feed) :
    Action Signature → State Feed → Prop where
  | appendFails
      {block : Bytes}
      (failed : core.append state.peer.feed block = none) :
      Moves state (.append block) state
  | appends
      {block : Bytes}
      {feed : Feed}
      (appended : core.append state.peer.feed block = some feed) :
      Moves state (.append block)
        { state with
          peer :=
            { state.peer with
              feed := feed
              feedEvents := state.peer.feedEvents ++ [.append] } }
  | putFails
      {index : Nat}
      {value : Option Bytes}
      {proof : Proof Signature}
      (failed : core.put state.peer.feed index value proof = none) :
      Moves state (.download index value proof) state
  | puts
      {index : Nat}
      {value : Option Bytes}
      {proof : Proof Signature}
      {feed : Feed}
      {queued : Bool}
      (put :
        core.put state.peer.feed index value proof =
          some (feed, queued)) :
      Moves state (.download index value proof)
        { state with peer := state.peer.stored index feed queued }
  | starts (starting : state.phase = .starting) :
      Moves state .start (state.after state.peer.onOpen)
  | handles
      {message : Message}
      (looping : state.phase = .looping) :
      Moves state (.takeMessage message)
        (state.after
          (state.peer.onMessage core overflowChecks message))
  | announces
      {event : FeedEvent}
      {rest : List FeedEvent}
      (looping : state.phase = .looping)
      (taken : state.peer.feedEvents = event :: rest) :
      Moves state .takeFeedEvent
        (state.after
          ({ state.peer with feedEvents := rest }.onFeedEvent core
            overflowChecks event))

/-- Every step is one of these. -/
theorem moves_of_step
    {state next : State Feed}
    {action : Action Signature}
    (stepped : step core overflowChecks state action = some next) :
    Moves core overflowChecks state action next := by
  cases action with
  | append block =>
      simp only [step] at stepped
      split at stepped
      · next failed =>
          cases stepped
          exact .appendFails failed
      · next appended =>
          cases stepped
          exact .appends appended
  | download index value proof =>
      simp only [step] at stepped
      split at stepped
      · next failed =>
          cases stepped
          exact .putFails failed
      · next put =>
          cases stepped
          exact .puts put
  | start =>
      simp only [step] at stepped
      split at stepped
      · next starting =>
          cases stepped
          exact .starts starting
      · cases stepped
  | takeMessage message =>
      simp only [step] at stepped
      split at stepped
      · next looping =>
          cases stepped
          exact .handles looping
      · cases stepped
  | takeFeedEvent =>
      simp only [step] at stepped
      split at stepped
      · next looping taken =>
          cases stepped
          exact .announces looping taken
      · cases stepped

/-- The indices that a message announces. -/
def Announces (message : Message) (index : Nat) : Prop :=
  match message with
  | .announce start length none _ =>
      start ≤ index ∧ index < start + length.getD 1
  | .announce start _ (some bitfield) _ =>
      start ≤ index ∧
        ∃ bits,
          Peer.parseBitfield core bitfield = some bits ∧
            bits.getD (index - start) false = true
  | _ => False

/-- Every block acquired since the feed was as given has been announced. -/
def AllAnnounced (initial : Feed) (state : State Feed) : Prop :=
  ∀ index,
    core.has state.peer.feed index →
    core.has initial index = false →
    ∃ message ∈ state.sent, Announces core message index

/-- Putting a block into a feed does not change the length of the feed. -/
def PutKeepsLength
    (feed : Feed)
    (index : Nat)
    (value : Option Bytes)
    (proof : Proof Signature) : Prop :=
  ∀ next queued,
    core.put feed index value proof = some (next, queued) →
    core.len next = core.len feed

/--
The condition on a step: while an `Append` event waits for the loop, nothing is
appended to the feed, and no block is put into it that changes its length.
-/
def KeepsLength
    (state : State Feed)
    (action : Action Signature) : Prop :=
  .append ∈ state.peer.feedEvents →
  match action with
  | .append block => core.append state.peer.feed block = none
  | .download index value proof =>
      PutKeepsLength core state.peer.feed index value proof
  | .takeMessage (.data index value nodes signature) =>
      ∀ read,
        Peer.readSignature core signature = some read →
        PutKeepsLength core state.peer.feed index value
          ⟨index, nodes, read⟩
  | _ => True

/-- What the loop relies on in a feed. -/
structure Stores : Prop extends core.PutsOnly where
  append :
    ∀ {feed next : Feed} {block : Bytes},
      core.append feed block = some next →
      core.len next = core.len feed + 1 ∧
        ∀ index,
          core.has next index → core.has feed index ∨ index = core.len feed
  /-- A block that is new queues an event. -/
  putQueues :
    ∀ {feed next index value proof queued},
      core.put feed index value proof = some (next, queued) →
      core.has next index →
      core.has feed index ∨ queued = true

/-! ## The invariant -/

/--
Every acquired block has been announced, or its event is queued; with an
`Append` event that can only be the last block.
-/
def Pending (initial : Feed) (state : State Feed) : Prop :=
  ∀ index,
    core.has state.peer.feed index →
    core.has initial index = false →
    (∃ message ∈ state.sent, Announces core message index) ∨
      .download index ∈ state.peer.feedEvents ∨
      .append ∈ state.peer.feedEvents ∧
        index + 1 = core.len state.peer.feed

end

section

variable
  {Feed Signature : Type}
  {core : Hypercore Feed Signature}
  {overflowChecks : Bool}
  {initial : Feed}
  {state next : State Feed}
  {action : Action Signature}

/-- What was announced stays announced. -/
theorem announced_append
    {messages more : List Message}
    {index : Nat}
    (announced : ∃ message ∈ messages, Announces core message index) :
    ∃ message ∈ messages ++ more, Announces core message index := by
  obtain ⟨message, member, announces⟩ := announced
  exact ⟨message, List.mem_append_left _ member, announces⟩

/-- A handler that leaves the feed and its events alone keeps the invariant. -/
theorem Pending.after
    (pending : Pending core initial state)
    {turn : Turn Feed}
    (sameFeed : turn.peer.feed = state.peer.feed)
    (sameEvents : turn.peer.feedEvents = state.peer.feedEvents) :
    Pending core initial (state.after turn) := by
  intro index has isNew
  simp only [State.after, sameFeed, sameEvents] at has ⊢
  exact (pending index has isNew).imp_left announced_append

/-- Storing a block keeps the invariant, if a queued append stays the last. -/
theorem Pending.stored
    (stores : Stores core)
    (pending : Pending core initial state)
    {index : Nat}
    {value : Option Bytes}
    {proof : Proof Signature}
    {feed : Feed}
    {queued : Bool}
    (put :
      core.put state.peer.feed index value proof =
        some (feed, queued))
    (sameLength :
      .append ∈ state.peer.feedEvents →
      core.len feed = core.len state.peer.feed)
    (samePeer : next.peer.feed = feed)
    (sameEvents :
      next.peer.feedEvents =
        (state.peer.stored index feed queued).feedEvents)
    (sent : ∃ more, next.sent = state.sent ++ more) :
    Pending core initial next := by
  obtain ⟨more, sent⟩ := sent
  have keeps :
      ∀ event ∈ state.peer.feedEvents, event ∈ next.peer.feedEvents := by
    intro event member
    rw [sameEvents]
    simp only [Peer.stored]
    split <;> simp [member]
  intro other has isNew
  rw [samePeer] at has
  rw [sent]
  have added :
      core.has state.peer.feed other = true ∨
        other = index ∧ queued = true := by
    rcases stores.putAdds put has with before | rfl
    · exact Or.inl before
    · exact (stores.putQueues put has).imp_right fun isQueued =>
        ⟨rfl, isQueued⟩
  rcases added with before | ⟨isIndex, isQueued⟩
  · rcases pending other before isNew with
      announced | downloaded | ⟨appended, isLast⟩
    · exact Or.inl (announced_append announced)
    · exact Or.inr (Or.inl (keeps _ downloaded))
    · refine Or.inr (Or.inr ⟨keeps _ appended, ?_⟩)
      rw [samePeer, sameLength appended]
      exact isLast
  · subst other
    refine Or.inr (Or.inl ?_)
    rw [sameEvents]
    simp [Peer.stored, isQueued]

/-- An append keeps the invariant if no other append waits for the loop. -/
theorem Pending.append
    (stores : Stores core)
    (pending : Pending core initial state)
    {block : Bytes}
    {feed : Feed}
    (appended : core.append state.peer.feed block = some feed)
    (alone : .append ∉ state.peer.feedEvents) :
    Pending core initial
      { state with
        peer :=
          { state.peer with
            feed := feed
            feedEvents := state.peer.feedEvents ++ [.append] } } := by
  obtain ⟨longer, has⟩ := stores.append appended
  intro index hasIndex isNew
  rcases has index hasIndex with before | isLast
  · rcases pending index before isNew with
      announced | downloaded | ⟨waiting, _⟩
    · exact Or.inl announced
    · exact Or.inr (Or.inl (List.mem_append_left _ downloaded))
    · exact (alone waiting).elim
  · refine Or.inr (Or.inr ⟨by simp, ?_⟩)
    simp only
    rw [isLast, longer]

/-- Handling an event announces its block. -/
theorem Pending.takeFeedEvent
    (pending : Pending core initial state)
    {event : FeedEvent}
    {rest : List FeedEvent}
    (taken : state.peer.feedEvents = event :: rest) :
    Pending core initial
      (state.after
        ({ state.peer with feedEvents := rest }.onFeedEvent core
          overflowChecks event)) := by
  cases event with
  | download index =>
      simp only [Peer.onFeedEvent, Peer.sendHave, Peer.done]
      intro other has isNew
      simp only [State.after] at has ⊢
      rcases pending other has isNew with
        announced | downloaded | ⟨appended, isLast⟩
      · exact Or.inl (announced_append announced)
      · rw [taken] at downloaded
        rcases List.mem_cons.mp downloaded with isHead | later
        · cases isHead
          exact Or.inl
            ⟨.announce index none none none,
              List.mem_append_right _ (by simp),
              Nat.le_refl _, Nat.lt_succ_self _⟩
        · exact Or.inr (Or.inl later)
      · rw [taken] at appended
        rcases List.mem_cons.mp appended with isHead | later
        · cases isHead
        · exact Or.inr (Or.inr ⟨later, isLast⟩)
  | append =>
      intro other has isNew
      have sameFeed :
          (({ state.peer with feedEvents := rest } :
            Peer Feed).onFeedEvent core overflowChecks
              .append).peer =
            { state.peer with feedEvents := rest } := by
        simp only [Peer.onFeedEvent]
        split <;> rfl
      simp only [State.after, sameFeed] at has ⊢
      rcases pending other has isNew with
        announced | downloaded | ⟨_, isLast⟩
      · exact Or.inl (announced_append announced)
      · rw [taken] at downloaded
        rcases List.mem_cons.mp downloaded with isHead | later
        · cases isHead
        · exact Or.inr (Or.inl later)
      · refine Or.inl
          ⟨.announce other none none none, List.mem_append_right _ ?_,
            Nat.le_refl _, Nat.lt_succ_self _⟩
        simp [Peer.onFeedEvent, ← isLast, predU64, Peer.sendHave,
          Peer.done]

/-- Every step that meets the condition keeps the invariant. -/
theorem Pending.step
    (stores : Stores core)
    (pending : Pending core initial state)
    (keepsLength : KeepsLength core state action)
    (stepped :
      PeerAnnounce.step core overflowChecks state action =
        some next) :
    Pending core initial next := by
  cases moves_of_step core overflowChecks stepped with
  | appendFails =>
      exact pending
  | appends appended =>
      apply pending.append stores appended
      intro waits
      have nothing := keepsLength waits
      simp only at nothing
      rw [nothing] at appended
      cases appended
  | putFails =>
      exact pending
  | puts put =>
      refine pending.stored stores put ?_ rfl rfl ⟨[], by simp⟩
      intro waits
      exact keepsLength waits _ _ put
  | starts =>
      exact pending.after rfl rfl
  | @handles message =>
      rcases state.peer.onMessage_cases core overflowChecks
          message with
        ⟨sameFeed, sameEvents⟩ |
          ⟨index, value, nodes, signature, read, feed, queued,
            isData, isRead, put, isFeed, events⟩
      · exact pending.after sameFeed sameEvents
      · refine pending.stored stores put ?_ isFeed events ⟨_, rfl⟩
        intro waits
        subst isData
        exact keepsLength waits read isRead feed queued put
  | announces _ taken =>
      exact pending.takeFeedEvent taken

/--
For every interleaving of appends, downloads and iterations of the loop in
which the feed does not grow while an `Append` event waits: whenever the queue
of events is empty, every block that the feed acquired since the subscription
has been announced.
-/
theorem acquired_blocks_announced
    (stores : Stores core)
    {stats : Replicator.Stats}
    {actions : List (Action Signature)}
    {final : State Feed}
    (along :
      Machine.Along (PeerAnnounce.step core overflowChecks)
        (KeepsLength core)
        (.subscribed initial stats) actions)
    (ran :
      Machine.run (PeerAnnounce.step core overflowChecks)
          (.subscribed initial stats) actions =
        some final)
    (drained : final.peer.feedEvents = []) :
    AllAnnounced core initial final := by
  have starts :
      Pending core initial (.subscribed initial stats) := by
    intro index has isNew
    simp only [State.subscribed, Peer.new] at has
    rw [isNew] at has
    cases has
  have pending : Pending core initial final :=
    Machine.invariant_run_along (Pending core initial)
      (fun holds condition stepped =>
        holds.step stores condition stepped)
      starts along ran
  intro index has isNew
  rcases pending index has isNew with
    announced | downloaded | ⟨appended, _⟩
  · exact announced
  · rw [drained] at downloaded
    cases downloaded
  · rw [drained] at appended
    cases appended

end

/-! ## An example -/

/-- A feed that is written locally, by its blocks. -/
def localCore : Hypercore (List Bytes) Unit where
  len feed := feed.length
  has feed index := decide (index < feed.length)
  append feed block := some (feed ++ [block])
  get feed index := feed[index]?.map some
  proof _ _ := none
  put _ _ _ _ := none
  compress _ _ _ := none
  decode _ := none
  signatureToBytes _ := []
  signatureOfBytes _ := none

/-- Appending to a local feed makes the new block its last. -/
theorem stores_localCore : Stores localCore where
  putAdds := by
    intro feed next index value proof queued other put
    cases put
  append := by
    intro feed next block appended
    cases appended
    refine ⟨by simp [localCore], ?_⟩
    intro index has
    simp only [localCore, List.length_append, List.length_singleton,
      decide_eq_true_eq] at has ⊢
    omega
  putQueues := by
    intro feed next index value proof queued put
    cases put

/-- Two blocks are appended, and each is announced before the next. -/
def appendedApart : List (Action Unit) :=
  [.start, .append [104], .takeFeedEvent, .append [119],
    .takeFeedEvent]

/-- Two blocks are appended before the loop handles the first event. -/
def appendedTogether : List (Action Unit) :=
  [.start, .append [104], .append [119], .takeFeedEvent,
    .takeFeedEvent]

/-- Blocks appended one at a time are announced. -/
theorem acquired_blocks_announced_appendedApart :
    ∃ final,
      Machine.run (step localCore true)
          (.subscribed [] { id := Key.constant 9 }) appendedApart =
          some final ∧
        final.peer.feed = [[104], [119]] ∧
        AllAnnounced localCore [] final := by
  have finishes :
      ∃ final,
        Machine.run (step localCore true)
            (.subscribed [] { id := Key.constant 9 }) appendedApart =
            some final ∧
          final.peer.feed = [[104], [119]] ∧
          final.peer.feedEvents = [] :=
    ⟨_, rfl, rfl, rfl⟩
  obtain ⟨final, ran, blocks, drained⟩ := finishes
  refine ⟨final, ran, blocks, ?_⟩
  refine acquired_blocks_announced stores_localCore ?_ ran drained
  refine ⟨?_, ?_, fun _ => trivial, ?_, fun _ => trivial, trivial⟩
  · intro waits
    cases waits
  · intro waits
    cases waits
  · intro waits
    cases waits

/-- The first of two blocks appended together is never announced. -/
theorem appended_together_not_announced :
    Stores localCore ∧
      ∃ final,
        Machine.run (step localCore true)
            (.subscribed [] { id := Key.constant 9 })
            appendedTogether =
            some final ∧
          final.peer.feedEvents = [] ∧
          final.sent =
            [.want 0 (some windowLength), .announce 1 none none none,
              .announce 1 none none none] ∧
          ¬ AllAnnounced localCore [] final := by
  refine ⟨stores_localCore, _, rfl, rfl, rfl, ?_⟩
  intro announced
  obtain ⟨message, member, announces⟩ := announced 0 rfl rfl
  have listed :
      message ∈
        [Message.want 0 (some windowLength), .announce 1 none none none,
          .announce 1 none none none] :=
    member
  simp only [List.mem_cons, List.not_mem_nil, or_false,
    or_self] at listed
  rcases listed with rfl | rfl
  · exact announces
  · exact absurd announces.1 (by decide)

end Hyperspace.PeerAnnounce
