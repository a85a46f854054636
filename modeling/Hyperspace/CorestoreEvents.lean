import Hyperspace.Corestore

namespace Hyperspace.Corestore

/-!
# What a call registers and announces

Whatever storage operations fail, a call of the store either leaves the open
feeds and the subscriptions alone, or registers one feed and sends one event
for it to the subscribers.  The indexes of the open feeds survive both.
-/

/-- A feed that is registered under a name has the key derived from it. -/
def Identity.Named
    (crypto : Crypto)
    (masterKey : Key)
    (identity : Identity) : Prop :=
  ∀ name ∈ identity.name,
    identity.publicKey = crypto.keyOfName masterKey name

/-- The store after a feed has been registered and announced. -/
def InnerCorestore.registered
    (crypto : Crypto)
    (inner : InnerCorestore)
    (arc : ArcFeed)
    (name : Option Name) : InnerCorestore :=
  { inner with
    feeds := inner.feeds.insert crypto.discoveryKey arc name
    subscribers := (emit arc inner.subscribers).1 }

/-- The two things that a call can do to the store. -/
def Registers
    (crypto : Crypto)
    (inner after : InnerCorestore) : Prop :=
  after = inner ∨
    ∃ arc name,
      after = inner.registered crypto arc name ∧
        ∀ text ∈ name,
          arc.publicKey = crypto.keyOfName inner.masterKey text

section

variable
  {crypto : Crypto}
  {storagePath : Path}
  {faults : Faults}
  {random : Key}
  {memory : Memory}

/-- The key pair derived from a name belongs to the name. -/
theorem named_generateKeyPair (masterKey : Key) (name : Option Name) :
    (generateKeyPair crypto masterKey random name).Named crypto
      masterKey := by
  intro text isName
  simp only [generateKeyPair, Option.mem_def, Option.some.injEq] at isName
  subst text
  rfl

/-- Whatever feed `open_feed` decides on, its name belongs to its key. -/
theorem named_identify
    {key : Option Key}
    {name : Option Name}
    {identity : Identity}
    (identified :
      identify crypto storagePath faults random memory key name =
        .ok identity) :
    identity.Named crypto memory.inner.masterKey := by
  cases name with
  | some name =>
      cases key <;> cases identified <;> exact named_generateKeyPair _ _
  | none =>
      cases key with
      | none =>
          cases identified
          exact named_generateKeyPair _ _
      | some key =>
          simp only [identify, bind, Except.bind] at identified
          split at identified
          · cases identified
          · next found read =>
              cases found with
              | some name =>
                  cases identified
                  exact named_generateKeyPair _ _
              | none =>
                  simp only at identified
                  split at identified
                  · cases identified
                  · cases identified
                    intro text isName
                    cases isName

/-- Opening an identified feed fails, or registers the feed. -/
theorem registers_openIdentified
    {identity : Identity}
    (named : identity.Named crypto memory.inner.masterKey) :
    Registers crypto memory.inner
      (openIdentified crypto storagePath faults memory
        identity).1.inner := by
  simp only [openIdentified]
  split
  · exact Or.inl rfl
  · split
    · exact Or.inl rfl
    · next feed built =>
        refine Or.inr ⟨⟨memory.allocated, feed⟩, identity.name, rfl, ?_⟩
        have sameKey : feed.publicKey = identity.publicKey := by
          simp only [buildFeed] at built
          split at built
          · cases built
          · split at built
            · cases built
            · split at built <;> cases built
              rfl
        intro text isName
        exact sameKey.trans (named text isName)

/-- `open_feed` changes nothing, or registers a feed. -/
theorem registers_openFeed
    (key : Option Key)
    (name : Option Name) :
    Registers crypto memory.inner
      (openFeed crypto storagePath faults random memory
        key name).1.inner := by
  simp only [openFeed]
  split
  · exact Or.inl rfl
  · split
    · exact Or.inl rfl
    · split
      · exact Or.inl rfl
      · next identified =>
          exact registers_openIdentified (named_identify identified)

/-- Every call changes nothing, or registers a feed. -/
theorem registers_answer (query : Query) :
    Registers crypto memory.inner
      (answer crypto storagePath faults random memory
        query).1.inner := by
  cases query with
  | byKey key =>
      exact registers_openFeed (some key) none
  | byName name =>
      exact registers_openFeed none (some name)
  | byDkey dkey =>
      simp only [answer, getByDkey]
      split
      · exact Or.inl rfl
      · split
        · exact Or.inl rfl
        · split
          · exact Or.inl rfl
          · exact registers_openFeed (some _) none

end

/-! ## The indexes of the open feeds -/

/-- The open feeds of a store are indexed. -/
def InnerCorestore.Indexed
    (crypto : Crypto)
    (inner : InnerCorestore) : Prop :=
  inner.feeds.Indexed crypto.discoveryKey
    (crypto.keyOfName inner.masterKey)

section

variable
  {crypto : Crypto}
  {storagePath : Path}
  {inner after : InnerCorestore}

/-- A call keeps the open feeds indexed. -/
theorem Registers.indexed
    (registers : Registers crypto inner after)
    (indexed : inner.Indexed crypto) :
    after.Indexed crypto := by
  rcases registers with same | ⟨arc, name, registered, named⟩
  · subst after
    exact indexed
  · subst after
    exact FeedMap.Indexed.insert indexed arc named

/-- Every step keeps the open feeds indexed. -/
theorem indexed_step
    {directory next : Directory}
    {action : Action}
    (indexed : ∀ inner ∈ directory.inner, inner.Indexed crypto)
    (stepped : step crypto storagePath directory action = some next) :
    ∀ inner ∈ next.inner, inner.Indexed crypto := by
  intro inner isOpen
  cases action with
  | reopen random faults =>
      obtain ⟨written, result, opening, rfl⟩ :=
        opening_of_reopen stepped
      rw [InnerCorestore.Indexed, opening.feeds isOpen]
      exact FeedMap.indexed_new
  | query query random faults =>
      simp only [step, Option.map_eq_some_iff] at stepped
      obtain ⟨before, wasOpen, same⟩ := stepped
      subst next
      cases isOpen
      have registers :
          Registers crypto before
            (answer crypto storagePath faults random
              (directory.memory before) query).1.inner :=
        registers_answer query
      exact registers.indexed (indexed before wasOpen)
  | subscribe =>
      simp only [step, Option.map_eq_some_iff] at stepped
      obtain ⟨before, wasOpen, same⟩ := stepped
      subst next
      cases isOpen
      exact indexed before wasOpen
  | dropReceiver index =>
      simp only [step, Option.map_eq_some_iff] at stepped
      obtain ⟨before, wasOpen, same⟩ := stepped
      subst next
      cases isOpen
      exact indexed before wasOpen

/-- The open feeds are indexed after every run. -/
theorem indexed_run
    {actions : List Action}
    {directory : Directory}
    (ran :
      Machine.run (step crypto storagePath) .empty actions =
        some directory)
    (isOpen : directory.inner = some inner) :
    inner.Indexed crypto :=
  Machine.invariant_run
    (fun state => ∀ inner ∈ state.inner, inner.Indexed crypto)
    indexed_step (by simp [Directory.empty]) ran inner isOpen

end

/-! ## Stores all of whose receivers exist -/

/-- The event for a feed, queued for a subscriber. -/
def Subscriber.receive
    (arc : ArcFeed)
    (subscriber : Subscriber) : Subscriber :=
  { subscriber with queue := subscriber.queue ++ [arc] }

/-- No receiver of the store's events has been dropped. -/
def InnerCorestore.AllAlive (inner : InnerCorestore) : Prop :=
  ∀ subscriber ∈ inner.subscribers, subscriber.alive

/-- The open feeds are indexed, and no receiver has been dropped. -/
structure Ready (crypto : Crypto) (inner : InnerCorestore) : Prop where
  indexed : inner.Indexed crypto
  alive : inner.AllAlive

section

variable
  {crypto : Crypto}
  {inner after : InnerCorestore}

/-- When all receivers exist, every one of them gets the event. -/
theorem emit_of_alive
    (arc : ArcFeed)
    {subscribers : List Subscriber}
    (alive : ∀ subscriber ∈ subscribers, subscriber.alive) :
    emit arc subscribers =
      (subscribers.map (Subscriber.receive arc), true) := by
  induction subscribers with
  | nil =>
      rfl
  | cons subscriber rest inductionHypothesis =>
      have here : subscriber.alive := alive subscriber (by simp)
      have later :=
        inductionHypothesis
          (fun other member => alive other (by simp [member]))
      simp [emit, here, later, Subscriber.receive]

/-- What a call does to the open feeds and the queues of a ready store. -/
theorem Ready.registers_cases
    (ready : Ready crypto inner)
    (registers : Registers crypto inner after) :
    after = inner ∨
      ∃ arc,
        after.feeds.iter = arc :: inner.feeds.iter ∧
          after.subscribers =
            inner.subscribers.map (Subscriber.receive arc) := by
  rcases registers with same | ⟨arc, name, registered, named⟩
  · exact Or.inl same
  · subst after
    refine Or.inr
      ⟨arc, FeedMap.Indexed.iter_insert ready.indexed arc name, ?_⟩
    simp [InnerCorestore.registered, emit_of_alive arc ready.alive]

/-- A call keeps the store ready. -/
theorem Ready.registers
    (ready : Ready crypto inner)
    (registers : Registers crypto inner after) :
    Ready crypto after := by
  refine ⟨registers.indexed ready.indexed, ?_⟩
  rcases ready.registers_cases registers with same | ⟨arc, _, sent⟩
  · subst after
    exact ready.alive
  · intro subscriber member
    rw [sent] at member
    obtain ⟨before, known, same⟩ := List.mem_map.mp member
    subst subscriber
    exact ready.alive before known

end

end Hyperspace.Corestore
