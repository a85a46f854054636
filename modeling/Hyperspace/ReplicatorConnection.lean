import Hyperspace.Replicator

namespace Hyperspace.Replicator

/-!
# The channels that a connection opens

`run_peer` opens channels on two occasions: when the handshake arrives it goes
through all feeds, and later it handles the `ReplicatorEvent::Feed` of every
feed that is added.  The sweep opens the public keys of the feeds; an event
carries a discovery key, and that is what the loop passes to `open`.

The machine below has one connection and any number of `add_feed` calls.  Such
a call holds the lock on the feeds from its insertion until it has told the
subscribers, and so does the sweep from its first `open` to its last.
-/

/-- Where the task of a connection is. -/
inductive Phase where
  /-- It has not yet subscribed to the replicator. -/
  | spawned
  /-- It waits for the next event. -/
  | waiting
  /-- It goes through the feeds; the public keys still to open are listed. -/
  | sweeping (remaining : List Key)
  | ended
  deriving Repr, DecidableEq

namespace Phase

/-- The phase of a sweep with the given keys left. -/
def ofRemaining : List Key → Phase
  | [] => .waiting
  | key :: rest => .sweeping (key :: rest)

/-- The keys that a sweep has left. -/
def remaining : Phase → List Key
  | .sweeping keys => keys
  | _ => []

/-- Whether events of the replicator are queued for the task. -/
def listens : Phase → Bool
  | .waiting => true
  | .sweeping _ => true
  | .spawned => false
  | .ended => false

@[simp] theorem remaining_ofRemaining (keys : List Key) :
    (ofRemaining keys).remaining = keys := by
  cases keys <;> rfl

end Phase

/-- An `add_feed` call that has inserted its feed and not yet announced it. -/
structure Insertion where
  dkey : Key
  /-- Whether the insertion replaced no earlier entry. -/
  fresh : Bool
  deriving Repr, DecidableEq

/-- The replicator and one connection of it. -/
structure Connection where
  feeds : Feeds
  /-- The `add_feed` call that holds the lock on the feeds. -/
  adding : Option Insertion
  phase : Phase
  remotePublicKey : Option Key
  /-- The events of the replicator that the task has not yet taken. -/
  queue : List ReplicatorEvent
  /-- Every key passed to `proto_command.open`. -/
  opened : List Key
  /-- The number of peer tasks spawned. -/
  tasks : Nat

namespace Connection

/-- A connection of a replicator without feeds. -/
def new : Connection where
  feeds := ∅
  adding := none
  phase := .spawned
  remotePublicKey := none
  queue := []
  opened := []
  tasks := 0

/-- What can happen. -/
inductive Action where
  /-- An `add_feed` call takes the lock on the feeds and inserts. -/
  | addFeed (feed : ArcFeed)
  /-- That call tells the subscribers and releases the lock. -/
  | announce
  /-- Another connection tells the subscribers of a remote discovery key. -/
  | otherDiscoveryKey (dkey : Key)
  | subscribe
  /-- The handshake; the map of feeds is gone through in any order. -/
  | handshake (remotePublicKey : Key) (order : List Key)
  /-- The sweep opens the next channel, or fails to and panics. -/
  | openNext (succeeds : Bool)
  | channel (dkey : Key)
  | discoveryKey (dkey : Key)
  | protocolError
  /-- The task takes an event of the replicator; it may panic on opening. -/
  | takeEvent (succeeds : Bool)

/-- Whether nobody holds the lock on the feeds. -/
def LockFree (state : Connection) : Prop :=
  state.adding = none ∧ state.phase.remaining = []

instance (state : Connection) : Decidable state.LockFree :=
  inferInstanceAs (Decidable (_ ∧ _))

/-- The method `emit`, as far as this connection is concerned. -/
def emit (state : Connection) (event : ReplicatorEvent) : Connection :=
  if state.phase.listens then
    { state with queue := state.queue ++ [event] }
  else
    state

section

variable (state : Connection) (event : ReplicatorEvent)

@[simp] theorem emit_feeds : (state.emit event).feeds = state.feeds := by
  simp only [emit]
  split <;> rfl

@[simp] theorem emit_adding :
    (state.emit event).adding = state.adding := by
  simp only [emit]
  split <;> rfl

@[simp] theorem emit_phase : (state.emit event).phase = state.phase := by
  simp only [emit]
  split <;> rfl

@[simp] theorem emit_remotePublicKey :
    (state.emit event).remotePublicKey = state.remotePublicKey := by
  simp only [emit]
  split <;> rfl

@[simp] theorem emit_opened :
    (state.emit event).opened = state.opened := by
  simp only [emit]
  split <;> rfl

/-- The events queued after `emit`. -/
@[simp] theorem mem_queue_emit {other : ReplicatorEvent} :
    other ∈ (state.emit event).queue ↔
      other ∈ state.queue ∨ state.phase.listens ∧ other = event := by
  simp only [emit]
  split
  · next listens => simp [listens]
  · next listens => simp [listens]

end

section

variable (discoveryKey : Key → Key)

/-- One step of the replicator or of the connection's task. -/
def step (state : Connection) : Action → Option Connection
  | .addFeed feed =>
      if state.LockFree then
        some { state with
          feeds := state.feeds.addFeed discoveryKey feed
          adding := some
            { dkey := discoveryKey feed.publicKey
              fresh := (state.feeds.lookup
                (discoveryKey feed.publicKey)).isNone } }
      else
        none
  | .announce =>
      match state.adding with
      | some insertion =>
          some ({ state with adding := none }.emit (.feed insertion.dkey))
      | none => none
  | .otherDiscoveryKey dkey => some (state.emit (.discoveryKey dkey))
  | .subscribe =>
      if state.phase = .spawned then
        some { state with phase := .waiting }
      else
        none
  | .handshake remotePublicKey order =>
      if state.phase = .waiting ∧ state.LockFree ∧
          order.Perm state.feeds.publicKeys then
        some { state with
          remotePublicKey := some remotePublicKey
          phase := .ofRemaining order }
      else
        none
  | .openNext succeeds =>
      match state.phase with
      | .sweeping (key :: rest) =>
          some { state with
            opened := state.opened ++ [key]
            phase := if succeeds then .ofRemaining rest else .ended }
      | _ => none
  | .channel dkey =>
      if state.phase = .waiting ∧ state.LockFree then
        match state.feeds.lookup dkey, state.remotePublicKey with
        | some _, some remotePublicKey =>
            some { state with
              feeds :=
                state.feeds.addPeer dkey remotePublicKey state.tasks
              tasks := state.tasks + 1 }
        | some _, none => some { state with phase := .ended }
        | none, _ => some state
      else
        none
  | .discoveryKey dkey =>
      if state.phase = .waiting then
        some (state.emit (.discoveryKey dkey))
      else
        none
  | .protocolError =>
      if state.phase = .waiting then
        some { state with phase := .ended }
      else
        none
  | .takeEvent succeeds =>
      if state.phase = .waiting then
        match state.queue, state.remotePublicKey with
        | .feed key :: rest, some _ =>
            some { state with
              queue := rest
              opened := state.opened ++ [key]
              phase := if succeeds then .waiting else .ended }
        | .feed _ :: rest, none => some { state with queue := rest }
        | .discoveryKey _ :: rest, _ =>
            some { state with queue := rest }
        | [], _ => none
      else
        none

end

/-- The handshake has been dealt with, and the queue is empty. -/
def Settled (state : Connection) : Prop :=
  state.remotePublicKey.isSome ∧ state.phase = .waiting ∧
    state.queue = []

/-- Exactly the public keys of the feeds have been opened. -/
def OpenedExactly (state : Connection) : Prop :=
  ∀ key, key ∈ state.opened ↔ key ∈ state.feeds.publicKeys

/--
The condition on a step: an event for a feed is taken after the handshake only
if the key it carries is a public key of a feed.
-/
def NoLateFeed (state : Connection) : Action → Prop
  | .takeEvent _ =>
      state.remotePublicKey.isSome →
      ∀ key rest,
        state.queue = .feed key :: rest →
        key ∈ state.feeds.publicKeys
  | _ => True

/--
An `add_feed` call has inserted a feed that was not in the map, and has not yet
told the subscribers.
-/
def HalfAdded (state : Connection) : Prop :=
  ∃ dkey, state.adding = some ⟨dkey, true⟩

/-- Only feeds whose keys occur are added. -/
def Action.Known (keys : Set Key) : Action → Prop
  | .addFeed feed => feed.publicKey ∈ keys
  | _ => True

/-! ## What a step does -/

/-- The effects that a step can have. -/
inductive Effect
    (discoveryKey : Key → Key)
    (state : Connection) : Action → Connection → Prop
  | inserted
      {feed : ArcFeed}
      (free : state.LockFree) :
      Effect discoveryKey state (.addFeed feed)
        { state with
          feeds := state.feeds.addFeed discoveryKey feed
          adding := some
            ⟨discoveryKey feed.publicKey,
              (state.feeds.lookup
                (discoveryKey feed.publicKey)).isNone⟩ }
  | announced
      {insertion : Insertion}
      (inserted : state.adding = some insertion) :
      Effect discoveryKey state .announce
        ({ state with adding := none }.emit (.feed insertion.dkey))
  | emitted
      {action : Action}
      (dkey : Key) :
      Effect discoveryKey state action (state.emit (.discoveryKey dkey))
  | subscribed
      (spawned : state.phase = .spawned) :
      Effect discoveryKey state .subscribe
        { state with phase := .waiting }
  | shaken
      {remotePublicKey : Key}
      {order : List Key}
      (waiting : state.phase = .waiting)
      (free : state.LockFree)
      (all : order.Perm state.feeds.publicKeys) :
      Effect discoveryKey state (.handshake remotePublicKey order)
        { state with
          remotePublicKey := some remotePublicKey
          phase := .ofRemaining order }
  | swept
      {succeeds : Bool}
      {key : Key}
      {rest : List Key}
      (sweeping : state.phase = .sweeping (key :: rest)) :
      Effect discoveryKey state (.openNext succeeds)
        { state with
          opened := state.opened ++ [key]
          phase := if succeeds then .ofRemaining rest else .ended }
  | attached
      {dkey remotePublicKey : Key}
      (waiting : state.phase = .waiting)
      (free : state.LockFree) :
      Effect discoveryKey state (.channel dkey)
        { state with
          feeds := state.feeds.addPeer dkey remotePublicKey state.tasks
          tasks := state.tasks + 1 }
  | ended
      {action : Action}
      (waiting : state.phase = .waiting) :
      Effect discoveryKey state action { state with phase := .ended }
  | unchanged
      {dkey : Key} :
      Effect discoveryKey state (.channel dkey) state
  | opened
      {succeeds : Bool}
      {key : Key}
      {rest : List ReplicatorEvent}
      (waiting : state.phase = .waiting)
      (shaken : state.remotePublicKey.isSome)
      (taken : state.queue = .feed key :: rest) :
      Effect discoveryKey state (.takeEvent succeeds)
        { state with
          queue := rest
          opened := state.opened ++ [key]
          phase := if succeeds then .waiting else .ended }
  | dropped
      {succeeds : Bool}
      {event : ReplicatorEvent}
      {rest : List ReplicatorEvent}
      (taken : state.queue = event :: rest)
      (ignored :
        ∀ key, event = .feed key → state.remotePublicKey = none) :
      Effect discoveryKey state (.takeEvent succeeds)
        { state with queue := rest }

section

variable
  {discoveryKey : Key → Key}
  {keys : Set Key}
  {state next : Connection}
  {action : Action}

/-- Every step has one of the effects. -/
theorem effect_of_step
    (stepped : step discoveryKey state action = some next) :
    Effect discoveryKey state action next := by
  cases action with
  | addFeed feed =>
      simp only [step, Option.ite_none_right_eq_some,
        Option.some.injEq] at stepped
      obtain ⟨free, rfl⟩ := stepped
      exact .inserted free
  | announce =>
      simp only [step] at stepped
      split at stepped
      · next insertion inserted =>
          cases stepped
          exact .announced inserted
      · cases stepped
  | otherDiscoveryKey dkey =>
      cases stepped
      exact .emitted dkey
  | subscribe =>
      simp only [step, Option.ite_none_right_eq_some,
        Option.some.injEq] at stepped
      obtain ⟨spawned, rfl⟩ := stepped
      exact .subscribed spawned
  | handshake remotePublicKey order =>
      simp only [step, Option.ite_none_right_eq_some,
        Option.some.injEq] at stepped
      obtain ⟨⟨waiting, free, all⟩, rfl⟩ := stepped
      exact .shaken waiting free all
  | openNext succeeds =>
      simp only [step] at stepped
      split at stepped
      · next key rest sweeping =>
          cases stepped
          exact .swept sweeping
      · cases stepped
  | channel dkey =>
      simp only [step, Option.ite_none_right_eq_some] at stepped
      obtain ⟨⟨waiting, free⟩, stepped⟩ := stepped
      split at stepped
      · cases stepped
        exact .attached waiting free
      · cases stepped
        exact .ended waiting
      · cases stepped
        exact .unchanged
  | discoveryKey dkey =>
      simp only [step, Option.ite_none_right_eq_some,
        Option.some.injEq] at stepped
      obtain ⟨_, rfl⟩ := stepped
      exact .emitted dkey
  | protocolError =>
      simp only [step, Option.ite_none_right_eq_some,
        Option.some.injEq] at stepped
      obtain ⟨waiting, rfl⟩ := stepped
      exact .ended waiting
  | takeEvent succeeds =>
      simp only [step, Option.ite_none_right_eq_some] at stepped
      obtain ⟨waiting, stepped⟩ := stepped
      split at stepped
      · next key rest remote taken shaken =>
          cases stepped
          exact .opened waiting (by simp [shaken]) taken
      · next key rest taken unshaken =>
          cases stepped
          exact .dropped taken (fun _ _ => unshaken)
      · next dkey rest taken =>
          cases stepped
          exact .dropped taken (by simp)
      · cases stepped

/-! ## Invariants -/

/-- What holds in every run: events and sweeps are about feeds in the map. -/
structure Wired
    (discoveryKey : Key → Key)
    (keys : Set Key)
    (state : Connection) : Prop where
  keyed : state.feeds.Keyed discoveryKey keys
  queued :
    ∀ dkey,
      (.feed dkey ∈ state.queue ∨
        ∃ fresh, state.adding = some ⟨dkey, fresh⟩) →
      ∃ key ∈ state.feeds.publicKeys, discoveryKey key = dkey
  locked : state.adding.isSome → state.phase.remaining = []
  remaining :
    ∀ key ∈ state.phase.remaining, key ∈ state.feeds.publicKeys
  unshaken : state.phase = .spawned → state.remotePublicKey = none

/-- A new connection is wired. -/
theorem wired_new : Wired discoveryKey keys new where
  keyed := Feeds.keyed_empty
  queued := by simp [new]
  locked := by simp [new]
  remaining := by simp [new, Phase.remaining]
  unshaken := by simp [new]

/-- No step removes a public key. -/
theorem Wired.publicKeys_subset
    (collisionFree : Set.InjOn discoveryKey keys)
    (wired : Wired discoveryKey keys state)
    (known : action.Known keys)
    (effect : Effect discoveryKey state action next)
    {key : Key}
    (member : key ∈ state.feeds.publicKeys) :
    key ∈ next.feeds.publicKeys := by
  cases effect with
  | inserted free =>
      exact (wired.keyed.mem_publicKeys_addFeed collisionFree
        known).mpr (Or.inr member)
  | attached waiting free =>
      exact (wired.keyed.mem_publicKeys_addPeer collisionFree).mpr
        member
  | announced inserted => simpa using member
  | emitted dkey => simpa using member
  | subscribed spawned => exact member
  | shaken waiting free all => exact member
  | swept sweeping => exact member
  | ended waiting => exact member
  | unchanged => exact member
  | opened waiting shaken taken => exact member
  | dropped taken ignored => exact member

/-- An event may be queued if its feed is in the map. -/
theorem Wired.emit
    (wired : Wired discoveryKey keys state)
    {event : ReplicatorEvent}
    (inMap :
      ∀ dkey,
        event = .feed dkey →
        ∃ key ∈ state.feeds.publicKeys, discoveryKey key = dkey) :
    Wired discoveryKey keys (state.emit event) where
  keyed := by simpa using wired.keyed
  queued := by
    rw [emit_feeds, emit_adding]
    rintro dkey (pending | inserting)
    · rcases (mem_queue_emit _ _).mp pending with before | ⟨_, isNew⟩
      · exact wired.queued dkey (Or.inl before)
      · exact inMap dkey isNew.symm
    · exact wired.queued dkey (Or.inr inserting)
  locked := by simpa using wired.locked
  remaining := by simpa using wired.remaining
  unshaken := by simpa using wired.unshaken

/-- An event may be taken from the queue. -/
theorem Wired.take
    (wired : Wired discoveryKey keys state)
    {event : ReplicatorEvent}
    {rest : List ReplicatorEvent}
    (taken : state.queue = event :: rest) :
    Wired discoveryKey keys { state with queue := rest } where
  keyed := wired.keyed
  queued := by
    rintro dkey (pending | inserting)
    · exact wired.queued dkey (Or.inl (by simp [taken, pending]))
    · exact wired.queued dkey (Or.inr inserting)
  locked := wired.locked
  remaining := wired.remaining
  unshaken := wired.unshaken

/-- A started connection may go to a phase in which it sweeps nothing. -/
theorem Wired.rest
    (wired : Wired discoveryKey keys state)
    {phase : Phase}
    (opened : List Key)
    (started : phase ≠ .spawned)
    (idle : phase.remaining = []) :
    Wired discoveryKey keys
      { state with phase := phase, opened := opened } where
  keyed := wired.keyed
  queued := wired.queued
  locked := fun _ => idle
  remaining := by simp [idle]
  unshaken := fun isSpawned => absurd isSpawned started

/-- Every step keeps the connection wired. -/
theorem Wired.step
    (collisionFree : Set.InjOn discoveryKey keys)
    (wired : Wired discoveryKey keys state)
    (known : action.Known keys)
    (stepped :
      Connection.step discoveryKey state action = some next) :
    Wired discoveryKey keys next := by
  have effect := effect_of_step stepped
  have grows :
      ∀ key ∈ state.feeds.publicKeys, key ∈ next.feeds.publicKeys :=
    fun key member =>
      wired.publicKeys_subset collisionFree known effect member
  have queued :
      ∀ dkey,
        (.feed dkey ∈ state.queue ∨
          ∃ fresh, state.adding = some ⟨dkey, fresh⟩) →
        ∃ key ∈ next.feeds.publicKeys, discoveryKey key = dkey := by
    intro dkey pending
    obtain ⟨key, member, hasDkey⟩ := wired.queued dkey pending
    exact ⟨key, grows key member, hasDkey⟩
  have remaining :
      ∀ key ∈ state.phase.remaining, key ∈ next.feeds.publicKeys :=
    fun key member => grows key (wired.remaining key member)
  cases effect with
  | @inserted feed free =>
      have added : feed.publicKey ∈
          (state.feeds.addFeed discoveryKey feed).publicKeys :=
        (wired.keyed.mem_publicKeys_addFeed collisionFree known).mpr
          (Or.inl rfl)
      refine ⟨wired.keyed.insert (PeeredFeed.new feed) rfl known, ?_,
        fun _ => free.2, remaining, wired.unshaken⟩
      rintro dkey (pending | ⟨fresh, inserting⟩)
      · exact queued dkey (Or.inl pending)
      · cases inserting
        exact ⟨feed.publicKey, added, rfl⟩
  | @announced insertion inserted =>
      have released :
          Wired discoveryKey keys { state with adding := none } := by
        refine ⟨wired.keyed, ?_, by simp, wired.remaining,
          wired.unshaken⟩
        rintro dkey (pending | ⟨fresh, inserting⟩)
        · exact wired.queued dkey (Or.inl pending)
        · cases inserting
      apply released.emit
      intro dkey isEvent
      cases isEvent
      exact wired.queued insertion.dkey
        (Or.inr ⟨insertion.fresh, inserted⟩)
  | emitted dkey =>
      apply wired.emit
      intro other isEvent
      cases isEvent
  | subscribed spawned =>
      exact wired.rest state.opened (by simp) rfl
  | @shaken remotePublicKey order waiting free all =>
      refine ⟨wired.keyed, queued, by simp [free.1], ?_, ?_⟩
      · intro key member
        rw [Phase.remaining_ofRemaining] at member
        exact all.subset member
      · cases order <;> simp [Phase.ofRemaining]
  | @swept succeeds key rest sweeping =>
      refine ⟨wired.keyed, queued, ?_, ?_, ?_⟩
      · intro adding
        have swept := wired.locked adding
        simp [sweeping, Phase.remaining] at swept
      · intro other member
        apply remaining other
        rw [sweeping]
        cases succeeds with
        | false =>
            simp [Phase.remaining] at member
        | true =>
            simp only [↓reduceIte,
              Phase.remaining_ofRemaining] at member
            simp [Phase.remaining, member]
      · cases succeeds <;> cases rest <;> simp [Phase.ofRemaining]
  | attached waiting free =>
      exact ⟨wired.keyed.addPeer _ _ _, queued, wired.locked,
        remaining, wired.unshaken⟩
  | ended waiting =>
      exact wired.rest state.opened (by simp) rfl
  | unchanged =>
      exact wired
  | @opened succeeds key rest waiting shaken taken =>
      apply (wired.take taken).rest
      · cases succeeds <;> simp
      · cases succeeds <;> rfl
  | dropped taken ignored =>
      exact wired.take taken

/-- An insertion that replaced an entry added no public key. -/
theorem Wired.mem_publicKeys_of_not_fresh
    (collisionFree : Set.InjOn discoveryKey keys)
    (wired : Wired discoveryKey keys state)
    {key : Key}
    (known : key ∈ keys)
    (replaced :
      (state.feeds.lookup (discoveryKey key)).isNone = false) :
    key ∈ state.feeds.publicKeys := by
  obtain ⟨peered, found⟩ : ∃ peered,
      state.feeds.lookup (discoveryKey key) = some peered := by
    cases found : state.feeds.lookup (discoveryKey key) with
    | none =>
        rw [found] at replaced
        cases replaced
    | some peered =>
        exact ⟨peered, rfl⟩
  obtain ⟨hasDkey, isKnown⟩ := wired.keyed _ _ found
  have same : peered.publicKey = key :=
    collisionFree isKnown known hasDkey
  exact Feeds.mem_publicKeys.mpr ⟨_, peered, found, same⟩

/-- A fresh insertion is of a feed that was not in the map. -/
theorem Wired.not_mem_publicKeys_of_fresh
    (wired : Wired discoveryKey keys state)
    {key : Key}
    (fresh :
      (state.feeds.lookup (discoveryKey key)).isNone = true) :
    key ∉ state.feeds.publicKeys := by
  intro member
  obtain ⟨peered, found, _⟩ := wired.keyed.lookup_discoveryKey member
  simp [found] at fresh

/--
What holds while no late event is handled: only public keys are opened, once
the handshake has been taken every feed has been opened, will be opened by the
sweep, or has its event under way, and a feed that is half added has not been
opened.
-/
structure Covered
    (discoveryKey : Key → Key)
    (state : Connection) : Prop where
  sound : ∀ key ∈ state.opened, key ∈ state.feeds.publicKeys
  complete :
    state.remotePublicKey.isSome →
    state.phase.listens →
    ∀ key ∈ state.feeds.publicKeys,
      key ∈ state.opened ∨ key ∈ state.phase.remaining ∨
        .feed (discoveryKey key) ∈ state.queue ∨
        state.adding = some ⟨discoveryKey key, true⟩
  halfAdded :
    ∀ key ∈ state.feeds.publicKeys,
      state.adding = some ⟨discoveryKey key, true⟩ →
      key ∉ state.opened ∧ .feed (discoveryKey key) ∉ state.queue

/-- A new connection has opened nothing. -/
theorem covered_new : Covered discoveryKey new where
  sound := by simp [new]
  complete := by simp [new]
  halfAdded := by simp [new]

/-- A call that inserts a feed keeps the connection covered. -/
theorem Covered.inserted
    (collisionFree : Set.InjOn discoveryKey keys)
    (wired : Wired discoveryKey keys state)
    (covered : Covered discoveryKey state)
    {feed : ArcFeed}
    (isKnown : feed.publicKey ∈ keys)
    (free : state.LockFree) :
    Covered discoveryKey
      { state with
        feeds := state.feeds.addFeed discoveryKey feed
        adding := some
          ⟨discoveryKey feed.publicKey,
            (state.feeds.lookup
              (discoveryKey feed.publicKey)).isNone⟩ } := by
  have nothingAdding : ∀ insertion, state.adding ≠ some insertion := by
    simp [free.1]
  have memAfter :
      ∀ key,
        key ∈ (state.feeds.addFeed discoveryKey feed).publicKeys ↔
          key = feed.publicKey ∨ key ∈ state.feeds.publicKeys :=
    fun key =>
      wired.keyed.mem_publicKeys_addFeed collisionFree isKnown
  refine ⟨?_, ?_, ?_⟩
  · intro key isOpened
    exact (memAfter key).mpr (Or.inr (covered.sound key isOpened))
  · intro shaken listens key member
    by_cases before : key ∈ state.feeds.publicKeys
    · rcases covered.complete shaken listens key before with
        isOpened | left | queued | adding
      · exact Or.inl isOpened
      · exact Or.inr (Or.inl left)
      · exact Or.inr (Or.inr (Or.inl queued))
      · exact (nothingAdding _ adding).elim
    · have isNew : key = feed.publicKey :=
        ((memAfter key).mp member).resolve_right before
      subst key
      have fresh : (state.feeds.lookup
          (discoveryKey feed.publicKey)).isNone = true := by
        by_contra replaced
        exact before (wired.mem_publicKeys_of_not_fresh collisionFree
          isKnown (Bool.not_eq_true _ ▸ replaced))
      exact Or.inr (Or.inr (Or.inr (by rw [fresh])))
  · intro key member inserting
    simp only [Option.some.injEq, Insertion.mk.injEq] at inserting
    obtain ⟨sameDkey, fresh⟩ := inserting
    have absent := wired.not_mem_publicKeys_of_fresh fresh
    have isNew : feed.publicKey = key := by
      rcases (memAfter key).mp member with same | before
      · exact same.symm
      · exact collisionFree isKnown (wired.keyed.known before)
          sameDkey
    subst key
    refine ⟨fun isOpened => absent (covered.sound _ isOpened), ?_⟩
    intro queued
    obtain ⟨other, before, hasDkey⟩ :=
      wired.queued _ (Or.inl queued)
    have same : other = feed.publicKey :=
      collisionFree (wired.keyed.known before) isKnown hasDkey
    exact absent (same ▸ before)

/-- A step of the sweep keeps the connection covered. -/
theorem Covered.swept
    (wired : Wired discoveryKey keys state)
    (covered : Covered discoveryKey state)
    {succeeds : Bool}
    {key : Key}
    {rest : List Key}
    (sweeping : state.phase = .sweeping (key :: rest)) :
    Covered discoveryKey
      { state with
        opened := state.opened ++ [key]
        phase := if succeeds then .ofRemaining rest else .ended } := by
  refine ⟨?_, ?_, ?_⟩
  · intro other member
    rcases List.mem_append.mp member with before | isNew
    · exact covered.sound other before
    · rw [List.mem_singleton.mp isNew]
      exact wired.remaining key
        (by simp [sweeping, Phase.remaining])
  · intro shaken listens other member
    cases succeeds with
    | false =>
        simp [Phase.listens] at listens
    | true =>
        simp only [↓reduceIte, Phase.remaining_ofRemaining,
          List.mem_append, List.mem_singleton]
        have before :=
          covered.complete shaken
            (by simp [sweeping, Phase.listens]) other member
        simp only [sweeping, Phase.remaining,
          List.mem_cons] at before
        rcases before with isOpened | (isNext | left) | underWay
        · exact Or.inl (Or.inl isOpened)
        · exact Or.inl (Or.inr isNext)
        · exact Or.inr (Or.inl left)
        · exact Or.inr (Or.inr underWay)
  · intro other member inserting
    have nothingLeft :=
      wired.locked (Option.isSome_iff_exists.mpr ⟨_, inserting⟩)
    simp [sweeping, Phase.remaining] at nothingLeft

/--
Opening the key of an event keeps the connection covered, if it is the public
key of a feed: it is then the key of the very feed that was added.
-/
theorem Covered.opened
    (collisionFree : Set.InjOn discoveryKey keys)
    (separate :
      ∀ first ∈ keys, ∀ second ∈ keys,
        discoveryKey first = second → first = second)
    (wired : Wired discoveryKey keys state)
    (covered : Covered discoveryKey state)
    {succeeds : Bool}
    {key : Key}
    {rest : List ReplicatorEvent}
    (waiting : state.phase = .waiting)
    (shaken : state.remotePublicKey.isSome)
    (taken : state.queue = .feed key :: rest)
    (isPublic : key ∈ state.feeds.publicKeys) :
    Covered discoveryKey
      { state with
        queue := rest
        opened := state.opened ++ [key]
        phase := if succeeds then .waiting else .ended } := by
  obtain ⟨feedKey, hasFeed, hasDkey⟩ :=
    wired.queued key (Or.inl (by simp [taken]))
  have same : feedKey = key :=
    separate _ (wired.keyed.known hasFeed) _
      (wired.keyed.known isPublic) hasDkey
  subst feedKey
  refine ⟨?_, ?_, ?_⟩
  · intro other member
    rcases List.mem_append.mp member with before | isNew
    · exact covered.sound other before
    · rw [List.mem_singleton.mp isNew]
      exact isPublic
  · intro _ _ other member
    rcases covered.complete shaken (by simp [waiting, Phase.listens])
        other member with isOpened | left | queued | adding
    · exact Or.inl (by simp [isOpened])
    · simp [waiting, Phase.remaining] at left
    · rw [taken] at queued
      rcases List.mem_cons.mp queued with isHead | later
      · cases isHead
        have sameKey : other = discoveryKey other :=
          collisionFree (wired.keyed.known member)
            (wired.keyed.known isPublic) hasDkey.symm
        exact Or.inl (List.mem_append_right _
          (List.mem_singleton.mpr sameKey))
      · exact Or.inr (Or.inr (Or.inl later))
    · exact Or.inr (Or.inr (Or.inr adding))
  · intro other member inserting
    obtain ⟨unopened, unqueued⟩ :=
      covered.halfAdded other member inserting
    rw [taken] at unqueued
    refine ⟨?_, fun queued => unqueued (by simp [queued])⟩
    intro isOpened
    rcases List.mem_append.mp isOpened with before | isNew
    · exact unopened before
    · rw [List.mem_singleton.mp isNew] at unqueued
      exact unqueued (by simp [hasDkey])

/-- An event that opens nothing can be taken from the queue. -/
theorem Covered.dropped
    (covered : Covered discoveryKey state)
    {event : ReplicatorEvent}
    {rest : List ReplicatorEvent}
    (taken : state.queue = event :: rest)
    (ignored :
      ∀ key, event = .feed key → state.remotePublicKey = none) :
    Covered discoveryKey { state with queue := rest } := by
  refine ⟨covered.sound, ?_, ?_⟩
  · intro shaken listens key member
    rcases covered.complete shaken listens key member with
      isOpened | left | queued | adding
    · exact Or.inl isOpened
    · exact Or.inr (Or.inl left)
    · rw [taken] at queued
      rcases List.mem_cons.mp queued with isHead | later
      · rw [ignored _ isHead.symm] at shaken
        cases shaken
      · exact Or.inr (Or.inr (Or.inl later))
    · exact Or.inr (Or.inr (Or.inr adding))
  · intro key member inserting
    obtain ⟨unopened, unqueued⟩ :=
      covered.halfAdded key member inserting
    rw [taken] at unqueued
    exact ⟨unopened, fun queued => unqueued (by simp [queued])⟩

/-- Every step that handles no late event keeps the connection covered. -/
theorem Covered.step
    (collisionFree : Set.InjOn discoveryKey keys)
    (separate :
      ∀ first ∈ keys, ∀ second ∈ keys,
        discoveryKey first = second → first = second)
    (wired : Wired discoveryKey keys state)
    (covered : Covered discoveryKey state)
    (known : action.Known keys)
    (noLateFeed : state.NoLateFeed action)
    (stepped :
      Connection.step discoveryKey state action = some next) :
    Covered discoveryKey next := by
  cases effect_of_step stepped with
  | inserted free =>
      exact covered.inserted collisionFree wired known free
  | @announced insertion inserted =>
      refine ⟨by simpa using covered.sound, ?_, by simp⟩
      simp only [emit_remotePublicKey, emit_phase, emit_feeds,
        emit_opened, emit_adding, mem_queue_emit]
      intro shaken listens key member
      rcases covered.complete shaken listens key member with
        isOpened | left | queued | adding
      · exact Or.inl isOpened
      · exact Or.inr (Or.inl left)
      · exact Or.inr (Or.inr (Or.inl (Or.inl queued)))
      · rw [inserted] at adding
        cases adding
        exact Or.inr (Or.inr (Or.inl (Or.inr ⟨listens, rfl⟩)))
  | emitted dkey =>
      refine ⟨by simpa using covered.sound, ?_,
        by simpa using covered.halfAdded⟩
      simp only [emit_remotePublicKey, emit_phase, emit_feeds,
        emit_opened, emit_adding, mem_queue_emit]
      intro shaken listens key member
      rcases covered.complete shaken listens key member with
        isOpened | left | queued | adding
      · exact Or.inl isOpened
      · exact Or.inr (Or.inl left)
      · exact Or.inr (Or.inr (Or.inl (Or.inl queued)))
      · exact Or.inr (Or.inr (Or.inr adding))
  | subscribed spawned =>
      refine ⟨covered.sound, ?_, covered.halfAdded⟩
      intro shaken
      rw [wired.unshaken spawned] at shaken
      cases shaken
  | shaken waiting free all =>
      refine ⟨covered.sound, ?_, by simp [free.1]⟩
      intro shaken listens key member
      rw [Phase.remaining_ofRemaining]
      exact Or.inr (Or.inl (all.symm.subset member))
  | swept sweeping =>
      exact covered.swept wired sweeping
  | attached waiting free =>
      refine ⟨?_, ?_, by simp [free.1]⟩
      · intro key isOpened
        exact (wired.keyed.mem_publicKeys_addPeer
          collisionFree).mpr (covered.sound key isOpened)
      · intro shaken listens key member
        exact covered.complete shaken listens key
          ((wired.keyed.mem_publicKeys_addPeer collisionFree).mp
            member)
  | ended waiting =>
      exact ⟨covered.sound, by simp [Phase.listens],
        covered.halfAdded⟩
  | unchanged =>
      exact covered
  | opened waiting shaken taken =>
      exact covered.opened collisionFree separate wired waiting shaken
        taken (noLateFeed shaken _ _ taken)
  | dropped taken ignored =>
      exact covered.dropped taken ignored

/-- A channel has been opened for a discovery key that is no public key. -/
def OpenedDiscoveryKey
    (discoveryKey : Key → Key)
    (state : Connection) : Prop :=
  ∃ key ∈ state.feeds.publicKeys,
    discoveryKey key ∈ state.opened ∧ discoveryKey key ≠ key

/-- Nothing that was opened is forgotten. -/
theorem opened_subset
    (effect : Effect discoveryKey state action next)
    {key : Key}
    (member : key ∈ state.opened) :
    key ∈ next.opened := by
  cases effect <;> simp [member]

/-- A late event opens a discovery key that is no public key. -/
theorem openedDiscoveryKey_of_late
    (wired : Wired discoveryKey keys state)
    (late : ¬ state.NoLateFeed action)
    (stepped :
      Connection.step discoveryKey state action = some next) :
    next.OpenedDiscoveryKey discoveryKey := by
  have effect := effect_of_step stepped
  cases action with
  | takeEvent succeeds =>
      simp only [NoLateFeed, Classical.not_imp, not_forall] at late
      obtain ⟨shaken, dkey, rest, taken, notPublic⟩ := late
      obtain ⟨key, member, hasDkey⟩ :=
        wired.queued dkey (Or.inl (by simp [taken]))
      obtain ⟨remotePublicKey, isRemote⟩ :=
        Option.isSome_iff_exists.mp shaken
      simp only [step, taken, isRemote,
        Option.ite_none_right_eq_some, Option.some.injEq] at stepped
      obtain ⟨_, rfl⟩ := stepped
      refine ⟨key, member, by simp [hasDkey], ?_⟩
      intro same
      exact notPublic (by rw [← hasDkey, same]; exact member)
  | _ =>
      exact (late trivial).elim

/-- A channel for a discovery key stays opened. -/
theorem OpenedDiscoveryKey.step
    (collisionFree : Set.InjOn discoveryKey keys)
    (wired : Wired discoveryKey keys state)
    (known : action.Known keys)
    (wrong : state.OpenedDiscoveryKey discoveryKey)
    (stepped :
      Connection.step discoveryKey state action = some next) :
    next.OpenedDiscoveryKey discoveryKey := by
  have effect := effect_of_step stepped
  obtain ⟨key, member, isOpened, different⟩ := wrong
  exact ⟨key,
    wired.publicKeys_subset collisionFree known effect member,
    opened_subset effect isOpened, different⟩

/--
In every state of every run in which the handshake has been dealt with and the
queue is empty, the connection has opened exactly the public keys of the feeds
if and only if it took no event for a feed after the handshake, other than for
a feed whose discovery key is its public key, and no call is halfway in adding
a new feed.
-/
theorem opened_exactly_iff
    (collisionFree : Set.InjOn discoveryKey keys)
    (separate :
      ∀ first ∈ keys, ∀ second ∈ keys,
        discoveryKey first = second → first = second)
    {actions : List Action}
    {final : Connection}
    (known : ∀ action ∈ actions, action.Known keys)
    (ran : Machine.run (step discoveryKey) new actions = some final)
    (settled : final.Settled) :
    final.OpenedExactly ↔
      Machine.Along (step discoveryKey) NoLateFeed new actions ∧
        ¬ final.HalfAdded := by
  have along :
      Machine.Along (step discoveryKey)
        (fun _ action => action.Known keys) new actions :=
    Machine.along_of_mem known
  have wired : Wired discoveryKey keys final :=
    Machine.invariant_run_along (Wired discoveryKey keys)
      (fun kept isKnown stepped =>
        kept.step collisionFree isKnown stepped)
      wired_new along ran
  have covered :
      Machine.Along (step discoveryKey) NoLateFeed new actions →
      Covered discoveryKey final := by
    intro noLateFeed
    exact
      (Machine.invariant_run_along
        (fun state =>
          Wired discoveryKey keys state ∧ Covered discoveryKey state)
        (fun kept holds stepped =>
          ⟨kept.1.step collisionFree holds.1 stepped,
            kept.2.step collisionFree separate kept.1 holds.1 holds.2
              stepped⟩)
        ⟨wired_new, covered_new⟩
        (Machine.along_and along noLateFeed) ran).2
  constructor
  · intro exactly
    have noLateFeed :
        Machine.Along (step discoveryKey) NoLateFeed new actions := by
      refine Machine.along_of_not_marked (Wired discoveryKey keys)
        (OpenedDiscoveryKey discoveryKey)
        (fun kept isKnown stepped =>
          kept.step collisionFree isKnown stepped)
        (fun kept _ late stepped =>
          openedDiscoveryKey_of_late kept late stepped)
        (fun kept isKnown wrong stepped =>
          wrong.step collisionFree kept isKnown stepped)
        wired_new along ran ?_
      rintro ⟨key, member, isOpened, different⟩
      have isPublic := (exactly _).mp isOpened
      exact different
        (separate _ (wired.keyed.known member) _
          (wired.keyed.known isPublic) rfl).symm
    refine ⟨noLateFeed, ?_⟩
    rintro ⟨dkey, inserting⟩
    obtain ⟨key, member, hasDkey⟩ :=
      wired.queued dkey (Or.inr ⟨true, inserting⟩)
    subst dkey
    exact ((covered noLateFeed).halfAdded key member inserting).1
      ((exactly key).mpr member)
  · rintro ⟨noLateFeed, complete⟩
    obtain ⟨shaken, waiting, drained⟩ := settled
    intro key
    refine ⟨(covered noLateFeed).sound key, ?_⟩
    intro member
    rcases (covered noLateFeed).complete shaken
        (by simp [waiting, Phase.listens]) key member with
      isOpened | left | queued | adding
    · exact isOpened
    · simp [waiting, Phase.remaining] at left
    · simp [drained] at queued
    · exact (complete ⟨_, adding⟩).elim

end

/-! ## An example -/

/-- The feed is added before the handshake. -/
def addedBeforeHandshake : List Action :=
  [.addFeed sampleFooArc, .announce, .subscribe,
    .handshake (Key.constant 9) [sampleFoo.publicKey], .openNext true]

/-- The feed is added after the handshake. -/
def addedAfterHandshake : List Action :=
  [.subscribe, .handshake (Key.constant 9) [], .addFeed sampleFooArc,
    .announce, .takeEvent true]

/-- The feed added before the handshake is opened by its public key. -/
theorem opened_exactly_iff_addedBeforeHandshake :
    ∃ final,
      Machine.run (step sampleDiscoveryKey) new addedBeforeHandshake =
          some final ∧
        final.Settled ∧ final.OpenedExactly := by
  have finishes :
      ∃ final,
        Machine.run (step sampleDiscoveryKey) new
            addedBeforeHandshake =
            some final ∧
          final.Settled ∧ final.adding = none :=
    ⟨_, rfl, ⟨rfl, rfl, rfl⟩, rfl⟩
  obtain ⟨final, ran, settled, announced⟩ := finishes
  have known :
      ∀ action ∈ addedBeforeHandshake,
        action.Known {sampleFoo.publicKey} := by
    intro action member
    simp only [addedBeforeHandshake, List.mem_cons, List.not_mem_nil,
      or_false] at member
    rcases member with rfl | rfl | rfl | rfl | rfl
    · exact rfl
    all_goals trivial
  refine ⟨final, ran, settled, ?_⟩
  refine (opened_exactly_iff ?_ ?_ known ran settled).mpr ?_
  · rintro first rfl second rfl same
    rfl
  · rintro first rfl second rfl same
    rfl
  · refine ⟨⟨trivial, trivial, trivial, trivial, trivial, trivial⟩, ?_⟩
    rintro ⟨dkey, inserting⟩
    rw [announced] at inserting
    cases inserting

/-- The feed added after the handshake is opened by its discovery key. -/
theorem late_feed_opens_discovery_key :
    ∃ final,
      Machine.run (step sampleDiscoveryKey) new addedAfterHandshake =
          some final ∧
        final.Settled ∧
        final.adding = none ∧
        final.opened = [sampleFoo.discoveryKey] ∧
        final.feeds.publicKeys = [sampleFoo.publicKey] ∧
        ¬ final.OpenedExactly := by
  refine ⟨_, rfl, ⟨rfl, rfl, rfl⟩, rfl, rfl, rfl, ?_⟩
  intro exactly
  exact absurd ((exactly sampleFoo.publicKey).mpr (by decide))
    (by decide)

end Connection

end Hyperspace.Replicator
