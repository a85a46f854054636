import Hyperspace.CorestoreEvents
import Hyperspace.CorestoreInstances
import Hyperspace.ReplicateLock

namespace Hyperspace

/-!
# What the subscribers of a store receive

`subscribe` adds a channel to the list of the store's subscribers, and nothing
takes it off again.  `emit` sends the event for a new feed to one subscriber
after the other, after the feed has been entered into the map, and panics at the
first whose receiver has been dropped; the subscribers behind it miss the event.
A channel that holds as many events as it was made for lets the call wait until
its receiver takes one.

This module follows a store through any sequence of subscriptions, drops of
receivers, receives and calls, one after the other, and determines for which of
them every receiver gets every feed once and in order.
-/

namespace CorestoreDelivery

open Corestore
open ReplicateLock (capacity)

/-- What a receiver knows: how many feeds were open before it, and its events. -/
structure Reader where
  since : Nat
  taken : List ArcFeed
  deriving Repr, DecidableEq

/-- A store, all feeds entered into its map so far, and its receivers. -/
structure State where
  memory : Memory
  inserted : List ArcFeed
  readers : Nat → Reader

/-- A store that has just been opened. -/
def initial (disk : Disk) (allocated : Nat) (masterKey : Key) : State where
  memory := ⟨disk, allocated, ⟨masterKey, .new, []⟩⟩
  inserted := []
  readers := fun _ => ⟨0, []⟩

/-- What can happen next; `random` is the key that a call may generate. -/
inductive Action where
  | subscribe
  | dropReceiver (index : Nat)
  | receive (index : Nat)
  | call (query : Query) (random : Key)

/-- Whether `emit` waits for a receiver, before it finds one that was dropped. -/
def waits : List Subscriber → Bool
  | [] => false
  | subscriber :: rest =>
      subscriber.alive &&
        (capacity ≤ subscriber.queue.length || waits rest)

/-- The feeds that a call has entered into the map. -/
def entered (before after : FeedMap) : List ArcFeed :=
  after.iter.filter fun arc => arc ∉ before.iter

section

variable
  (crypto : Crypto)
  (storagePath : Path)

/--
The outcome of a call whose storage operations succeed; none if the call does
not return before a receiver takes an event.
-/
def call
    (memory : Memory)
    (query : Query)
    (random : Key) :
    Option (Memory × Except Failure (Option ArcFeed)) :=
  let outcome :=
    answer crypto storagePath noFaults random memory query
  if entered memory.inner.feeds outcome.1.inner.feeds ≠ [] ∧
      waits memory.inner.subscribers then
    none
  else
    some outcome

/-- One step. -/
def step (state : State) : Action → Option State
  | .subscribe =>
      some
        { memory :=
            { state.memory with inner := state.memory.inner.subscribe }
          inserted := state.inserted
          readers :=
            Function.update state.readers
              state.memory.inner.subscribers.length
              ⟨state.inserted.length, []⟩ }
  | .dropReceiver index =>
      some
        { state with
          memory :=
            { state.memory with
              inner := state.memory.inner.dropReceiver index } }
  | .receive index =>
      match state.memory.inner.subscribers[index]? with
      | some ⟨true, arc :: rest⟩ =>
          some
            { state with
              memory :=
                { state.memory with
                  inner :=
                    { state.memory.inner with
                      subscribers :=
                        state.memory.inner.subscribers.set index
                          ⟨true, rest⟩ } }
              readers :=
                Function.update state.readers index
                  { state.readers index with
                    taken := (state.readers index).taken ++ [arc] } }
      | _ => none
  | .call query random =>
      (call crypto storagePath state.memory query random).map
        fun outcome =>
          { memory := outcome.1
            inserted :=
              state.inserted ++
                entered state.memory.inner.feeds outcome.1.inner.feeds
            readers := state.readers }

/--
Every receiver that exists has taken, or has in its channel, the feeds that were
entered into the map after its subscription, each once and in order.
-/
def Exact (state : State) : Prop :=
  ∀ index subscriber,
    state.memory.inner.subscribers[index]? = some subscriber →
    subscriber.alive →
    (state.readers index).taken ++ subscriber.queue =
      state.inserted.drop (state.readers index).since

/-- A call returns a result that is not an error; every step keeps `Exact`. -/
def Delivers (state : State) (action : Action) : Prop :=
  (∀ next, step crypto storagePath state action = some next → Exact next) ∧
    match action with
    | .call query random =>
        ∃ after found,
          call crypto storagePath state.memory query random =
            some (after, .ok found)
    | _ => True

/-- The key of a query, or the one that is on disk for it, is a public key. -/
def Valid (state : State) : Action → Prop
  | .call (.byKey key) _ => crypto.validPublicKey key = true
  | .call (.byDkey dkey) _ =>
      ∀ key,
        state.memory.disk.readKey? (keyPath crypto storagePath dkey) =
            some key →
        crypto.validPublicKey key = true
  | _ => True

/-- A query that the map does not answer. -/
def NeedsFeed (memory : Memory) : Query → Prop
  | .byKey key => memory.inner.feeds.getKey key = none
  | .byName name => memory.inner.feeds.getName name = none
  | .byDkey dkey =>
      memory.inner.feeds.getDkey dkey = none ∧
        ∃ key,
          memory.disk.readKey? (keyPath crypto storagePath dkey) = some key ∧
            memory.inner.feeds.getKey key = none

/--
When a call has to open a feed, no receiver has been dropped, and every channel
has room.
-/
def AllReceive (state : State) : Action → Prop
  | .call query _ =>
      NeedsFeed crypto storagePath state.memory query →
      ∀ subscriber ∈ state.memory.inner.subscribers,
        subscriber.alive ∧ subscriber.queue.length < capacity
  | _ => True

end

/-! ## What a call does -/

section

variable
  {crypto : Crypto}
  {storagePath : Path}
  {memory : Memory}
  {random : Key}

/-- `open_feed` registers a feed, if it finds none in the map. -/
theorem openFeed_registers
    (crypto : Crypto)
    (storagePath : Path)
    (random : Key)
    (memory : Memory)
    (key : Option Key)
    (name : Option Name)
    (noKey : key.bind memory.inner.feeds.getKey = none)
    (noName : name.bind memory.inner.feeds.getName = none)
    (valid :
      ∀ given ∈ key, name = none → crypto.validPublicKey given = true) :
    ∃ disk feed registeredName,
      openFeed crypto storagePath noFaults random memory key name =
        register crypto { memory with disk := disk } feed
          registeredName := by
  obtain ⟨identity, identified⟩ :=
    exists_identify crypto storagePath random memory valid
  obtain ⟨disk, registered⟩ :=
    openIdentified_noFaults crypto storagePath memory identity
  refine ⟨disk, ⟨identity.publicKey, identity.secretKey⟩,
    identity.name, ?_⟩
  rw [openFeed, noKey, noName]
  simp only [identified]
  exact registered

/-- A query that needs a feed registers one. -/
theorem answer_of_needsFeed
    {state : State}
    {query : Query}
    (valid : Valid crypto storagePath state (.call query random))
    (needs : NeedsFeed crypto storagePath state.memory query) :
    ∃ disk feed name,
      answer crypto storagePath noFaults random state.memory query =
        ((register crypto { state.memory with disk := disk } feed
            name).1,
          (register crypto { state.memory with disk := disk } feed
            name).2.map some) := by
  cases query with
  | byKey key =>
      obtain ⟨disk, feed, name, registered⟩ :=
        openFeed_registers crypto storagePath random state.memory
          (some key) none needs rfl
          (fun _ isKey _ => Option.some.inj isKey ▸ valid)
      refine ⟨disk, feed, name, ?_⟩
      simp only [answer, getByKey, registered]
  | byName name =>
      obtain ⟨disk, feed, registeredName, registered⟩ :=
        openFeed_registers crypto storagePath random state.memory none
          (some name) rfl needs (by simp)
      refine ⟨disk, feed, registeredName, ?_⟩
      simp only [answer, getByName, registered]
  | byDkey dkey =>
      obtain ⟨notOpen, key, onDisk, noKey⟩ := needs
      obtain ⟨disk, feed, name, registered⟩ :=
        openFeed_registers crypto storagePath random state.memory
          (some key) none noKey rfl
          (fun _ isKey _ => Option.some.inj isKey ▸ valid key onDisk)
      refine ⟨disk, feed, name, ?_⟩
      simp only [answer, getByDkey, notOpen, onDisk, getByKey,
        registered, noFaults, Bool.false_eq_true, if_false]

/-- A query that needs no feed changes nothing. -/
theorem answer_of_not_needsFeed
    (crypto : Crypto)
    (random : Key)
    {query : Query}
    (answered : ¬ NeedsFeed crypto storagePath memory query) :
    ∃ found,
      answer crypto storagePath noFaults random memory query =
        (memory, .ok found) := by
  cases cached : query.cached memory.inner.feeds with
  | some arc =>
      exact ⟨some arc, answer_of_cached cached⟩
  | none =>
      cases query with
      | byKey key =>
          exact absurd cached answered
      | byName name =>
          exact absurd cached answered
      | byDkey dkey =>
          simp only [Query.cached] at cached
          cases onDisk :
              memory.disk.readKey? (keyPath crypto storagePath dkey) with
          | none =>
              refine ⟨none, ?_⟩
              simp [answer, getByDkey, cached, onDisk, noFaults]
          | some key =>
              cases isOpen : memory.inner.feeds.getKey key with
              | none =>
                  exact absurd ⟨cached, key, onDisk, isOpen⟩ answered
              | some arc =>
                  refine ⟨some arc, ?_⟩
                  simp [answer, getByDkey, cached, onDisk, noFaults,
                    getByKey, openFeed, isOpen, Except.map]

/-- A call that changes nothing enters no feed. -/
theorem entered_self (feeds : FeedMap) : entered feeds feeds = [] := by
  simp [entered]

/-- Registering a feed enters it into the map. -/
theorem entered_register
    (indexed : memory.inner.Indexed crypto)
    (fresh :
      ∀ arc ∈ memory.inner.feeds.iter, arc.pointer < memory.allocated)
    (disk : Disk)
    (feed : Feed)
    (name : Option Name) :
    entered memory.inner.feeds
        (register crypto { memory with disk := disk } feed
          name).1.inner.feeds =
      [⟨memory.allocated, feed⟩] := by
  have isNew :
      (⟨memory.allocated, feed⟩ : ArcFeed) ∉
        memory.inner.feeds.iter := by
    intro member
    exact Nat.lt_irrefl _ (fresh _ member)
  have added :=
    FeedMap.Indexed.iter_insert indexed ⟨memory.allocated, feed⟩ name
  simp only [entered, register, added]
  simp [isNew]

/-- The event reaches all subscribers exactly when no receiver was dropped. -/
theorem emit_snd_iff
    (arc : ArcFeed)
    (subscribers : List Subscriber) :
    (emit arc subscribers).2 = true ↔
      ∀ subscriber ∈ subscribers, subscriber.alive := by
  induction subscribers with
  | nil =>
      simp [emit]
  | cons subscriber rest inductionHypothesis =>
      by_cases alive : subscriber.alive
      · simp [emit, alive, inductionHypothesis]
      · simp [emit, alive]

/-- Sending an event leaves the subscribers in their places. -/
theorem length_emit
    (arc : ArcFeed)
    (subscribers : List Subscriber) :
    (emit arc subscribers).1.length = subscribers.length := by
  induction subscribers with
  | nil =>
      rfl
  | cons subscriber rest inductionHypothesis =>
      by_cases alive : subscriber.alive
      · simp [emit, alive, inductionHypothesis]
      · simp [emit, alive]

/-- When no receiver was dropped, a call waits for a channel without room. -/
theorem waits_eq_false_iff
    {subscribers : List Subscriber}
    (alive : ∀ subscriber ∈ subscribers, subscriber.alive) :
    waits subscribers = false ↔
      ∀ subscriber ∈ subscribers,
        subscriber.queue.length < capacity := by
  induction subscribers with
  | nil =>
      simp [waits]
  | cons subscriber rest inductionHypothesis =>
      have here : subscriber.alive := alive subscriber (by simp)
      have later :=
        inductionHypothesis
          (fun other member => alive other (by simp [member]))
      simp [waits, here, later]

end

/-! ## Runs -/

/-- What holds as long as every receiver gets every feed. -/
structure Sound (crypto : Crypto) (state : State) : Prop where
  exact : Exact state
  indexed : state.memory.inner.Indexed crypto
  /-- Pointers of open feeds are older than the next one. -/
  fresh :
    ∀ arc ∈ state.memory.inner.feeds.iter,
      arc.pointer < state.memory.allocated
  since :
    ∀ index,
      index < state.memory.inner.subscribers.length →
      (state.readers index).since ≤ state.inserted.length

/-- A store that has just been opened has neither feeds nor receivers. -/
theorem sound_initial
    (crypto : Crypto)
    (disk : Disk)
    (allocated : Nat)
    (masterKey : Key) :
    Sound crypto (initial disk allocated masterKey) where
  exact := by simp [Exact, initial]
  indexed := FeedMap.indexed_new
  fresh := by simp [initial, FeedMap.iter, FeedMap.new]
  since := by simp [initial]

section

variable
  {crypto : Crypto}
  {storagePath : Path}
  {state next : State}

/-! ### Receivers -/

/-- A new receiver has missed what was entered before, and nothing else. -/
theorem Sound.subscribe
    (sound : Sound crypto state)
    (stepped : step crypto storagePath state .subscribe = some next) :
    Sound crypto next := by
  simp only [step, Option.some.injEq] at stepped
  subst next
  refine ⟨?_, sound.indexed, sound.fresh, ?_⟩
  · intro index subscriber found alive
    simp only [InnerCorestore.subscribe] at found ⊢
    by_cases isNew :
        index = state.memory.inner.subscribers.length
    · subst isNew
      simp only [List.getElem?_concat_length,
        Option.some.injEq] at found
      subst subscriber
      simp
    · rw [Function.update_of_ne isNew]
      have isOld :
          state.memory.inner.subscribers[index]? = some subscriber := by
        have inside := (List.getElem?_eq_some_iff.mp found).1
        simp only [List.length_append, List.length_singleton] at inside
        rwa [List.getElem?_append_left (by omega)] at found
      exact sound.exact index subscriber isOld alive
  · intro index inside
    simp only [InnerCorestore.subscribe, List.length_append,
      List.length_singleton] at inside ⊢
    by_cases isNew :
        index = state.memory.inner.subscribers.length
    · subst isNew
      simp
    · rw [Function.update_of_ne isNew]
      exact sound.since index (by omega)

/-- Dropping a receiver leaves the others as they are. -/
theorem Sound.dropReceiver
    (sound : Sound crypto state)
    {dropped : Nat}
    (stepped :
      step crypto storagePath state (.dropReceiver dropped) =
        some next) :
    Sound crypto next := by
  simp only [step, Option.some.injEq] at stepped
  subst next
  refine ⟨?_, sound.indexed, sound.fresh, ?_⟩
  · intro index subscriber found alive
    simp only [InnerCorestore.dropReceiver] at found ⊢
    by_cases isDropped : dropped = index
    · subst isDropped
      rw [List.getElem?_modify_eq, Option.map_eq_map,
        Option.map_eq_some_iff] at found
      obtain ⟨before, -, rfl⟩ := found
      cases alive
    · rw [List.getElem?_modify_ne _ _ isDropped] at found
      exact sound.exact index subscriber found alive
  · intro index inside
    simp only [InnerCorestore.dropReceiver,
      List.length_modify] at inside
    exact sound.since index inside

/-- A receiver takes its next event. -/
theorem Sound.receive
    (sound : Sound crypto state)
    {receiver : Nat}
    (stepped :
      step crypto storagePath state (.receive receiver) = some next) :
    Sound crypto next := by
  simp only [step] at stepped
  split at stepped
  · next arc rest queued =>
      simp only [Option.some.injEq] at stepped
      subst next
      refine ⟨?_, sound.indexed, sound.fresh, ?_⟩
      · intro index subscriber found alive
        by_cases isReceiver : receiver = index
        · subst isReceiver
          have inside := (List.getElem?_eq_some_iff.mp queued).1
          rw [List.getElem?_set_self inside] at found
          cases found
          have before := sound.exact receiver _ queued rfl
          simpa using before
        · rw [List.getElem?_set_ne isReceiver] at found
          have others : index ≠ receiver :=
            fun same => isReceiver same.symm
          simp only [Function.update_of_ne others]
          exact sound.exact index subscriber found alive
      · intro index inside
        simp only [List.length_set] at inside
        have before := sound.since index inside
        by_cases isReceiver : index = receiver
        · subst isReceiver
          simpa using before
        · simp only [Function.update_of_ne isReceiver]
          exact before
  · cases stepped

/-! ### Calls -/

/-- A call that is answered from the map, or not at all, changes nothing. -/
theorem call_of_not_needsFeed
    (crypto : Crypto)
    (random : Key)
    {query : Query}
    (answered : ¬ NeedsFeed crypto storagePath state.memory query) :
    ∃ found,
      call crypto storagePath state.memory query random =
        some (state.memory, .ok found) := by
  obtain ⟨found, unchanged⟩ :=
    answer_of_not_needsFeed crypto random answered
  refine ⟨found, ?_⟩
  simp [call, unchanged, entered_self]

/-- A call that has to open a feed waits, or registers it and announces it. -/
theorem Sound.call_of_needsFeed
    (sound : Sound crypto state)
    {query : Query}
    {random : Key}
    (valid : Valid crypto storagePath state (.call query random))
    (needs : NeedsFeed crypto storagePath state.memory query) :
    ∃ disk feed name,
      call crypto storagePath state.memory query random =
        if waits state.memory.inner.subscribers then
          none
        else
          some
            ((register crypto { state.memory with disk := disk } feed
                name).1,
              (register crypto { state.memory with disk := disk } feed
                name).2.map some) := by
  obtain ⟨disk, feed, name, registered⟩ :=
    answer_of_needsFeed valid needs
  refine ⟨disk, feed, name, ?_⟩
  simp only [call, registered,
    entered_register sound.indexed sound.fresh]
  simp

/-- A call keeps the indexes, the pointers and the subscriptions in order. -/
theorem Sound.call
    (sound : Sound crypto state)
    {query : Query}
    {random : Key}
    (valid : Valid crypto storagePath state (.call query random))
    (exact : Exact next)
    (stepped :
      step crypto storagePath state (.call query random) = some next) :
    Sound crypto next := by
  simp only [step, Option.map_eq_some_iff] at stepped
  obtain ⟨outcome, called, rfl⟩ := stepped
  by_cases needs : NeedsFeed crypto storagePath state.memory query
  · obtain ⟨disk, feed, name, isCall⟩ :=
      sound.call_of_needsFeed valid needs
    have registers :
        Registers crypto state.memory.inner outcome.1.inner := by
      have isAnswer :
          outcome =
            answer crypto storagePath noFaults random state.memory
              query := by
        simp only [CorestoreDelivery.call] at called
        split at called
        · cases called
        · exact (Option.some.inj called).symm
      rw [isAnswer]
      exact registers_answer query
    rw [isCall] at called
    split at called
    · cases called
    · simp only [Option.some.injEq] at called
      subst outcome
      refine ⟨exact, registers.indexed sound.indexed, ?_, ?_⟩
      · intro arc member
        simp only [register,
          FeedMap.Indexed.iter_insert sound.indexed,
          List.mem_cons] at member
        rcases member with rfl | member
        · exact Nat.lt_succ_self _
        · exact Nat.lt_succ_of_lt (sound.fresh arc member)
      · intro index inside
        have sameLength :
            (emit ⟨state.memory.allocated, feed⟩
                state.memory.inner.subscribers).1.length =
              state.memory.inner.subscribers.length :=
          length_emit _ _
        simp only [register, sameLength] at inside
        simp only [List.length_append]
        exact Nat.le_add_right_of_le (sound.since index inside)
  · obtain ⟨found, unchanged⟩ :=
      call_of_not_needsFeed crypto random needs
    rw [unchanged] at called
    cases called
    simp only [entered_self, List.append_nil] at exact ⊢
    exact ⟨exact, sound.indexed, sound.fresh, sound.since⟩

/-- A feed that all receivers hear of keeps what they have received exact. -/
theorem Sound.exact_register
    (sound : Sound crypto state)
    (alive :
      ∀ subscriber ∈ state.memory.inner.subscribers, subscriber.alive)
    (disk : Disk)
    (feed : Feed)
    (name : Option Name) :
    Exact
      { memory :=
          (register crypto { state.memory with disk := disk } feed
            name).1
        inserted :=
          state.inserted ++ [⟨state.memory.allocated, feed⟩]
        readers := state.readers } := by
  intro index subscriber found _
  simp only [register, emit_of_alive _ alive, List.getElem?_map,
    Option.map_eq_some_iff] at found
  obtain ⟨before, isBefore, rfl⟩ := found
  have wasExact :=
    sound.exact index before isBefore
      (alive before (List.mem_of_getElem? isBefore))
  have subscribed :=
    sound.since index (List.getElem?_eq_some_iff.mp isBefore).1
  simp only [Subscriber.receive]
  rw [← List.append_assoc, wasExact,
    List.drop_append_of_le_length subscribed]

/-- A call delivers exactly when all receivers can receive. -/
theorem Sound.delivers_call_iff
    (sound : Sound crypto state)
    {query : Query}
    {random : Key}
    (valid : Valid crypto storagePath state (.call query random)) :
    Delivers crypto storagePath state (.call query random) ↔
      AllReceive crypto storagePath state (.call query random) := by
  by_cases needs : NeedsFeed crypto storagePath state.memory query
  · obtain ⟨disk, feed, name, isCall⟩ :=
      sound.call_of_needsFeed valid needs
    simp only [Delivers, AllReceive, needs, true_implies, step, isCall,
      Option.map_eq_some_iff]
    constructor
    · rintro ⟨-, after, found, returns⟩
      split at returns
      · cases returns
      · next notWaiting =>
          simp only [Option.some.injEq, Prod.mk.injEq] at returns
          obtain ⟨-, isOk⟩ := returns
          have alive :
              ∀ subscriber ∈ state.memory.inner.subscribers,
                subscriber.alive := by
            rw [← emit_snd_iff ⟨state.memory.allocated, feed⟩]
            by_contra dropped
            simp [register, dropped, Except.map] at isOk
          have room :=
            (waits_eq_false_iff alive).mp
              (Bool.eq_false_iff.mpr notWaiting)
          intro subscriber member
          exact ⟨alive subscriber member, room subscriber member⟩
    · intro receives
      have alive :
          ∀ subscriber ∈ state.memory.inner.subscribers,
            subscriber.alive :=
        fun subscriber member => (receives subscriber member).1
      have notWaiting : waits state.memory.inner.subscribers = false :=
        (waits_eq_false_iff alive).mpr
          (fun subscriber member => (receives subscriber member).2)
      have returns :
          (register crypto { state.memory with disk := disk } feed
              name).2 = .ok ⟨state.memory.allocated, feed⟩ := by
        simp [register, emit_of_alive _ alive]
      simp only [notWaiting, Bool.false_eq_true, if_false,
        Option.some.injEq, returns]
      refine ⟨?_, _, _, rfl⟩
      rintro next ⟨outcome, rfl, rfl⟩
      rw [entered_register sound.indexed sound.fresh]
      exact sound.exact_register alive disk feed name
  · obtain ⟨found, unchanged⟩ :=
      call_of_not_needsFeed crypto random needs
    refine iff_of_true ⟨?_, state.memory, found, unchanged⟩
      (fun isNeeded => absurd isNeeded needs)
    intro next stepped
    simp only [step, unchanged, Option.map_some, entered_self,
      List.append_nil, Option.some.injEq] at stepped
    subst next
    exact sound.exact

/-- A step delivers exactly when all receivers can receive. -/
theorem Sound.delivers_iff
    (sound : Sound crypto state)
    {action : Action}
    (valid : Valid crypto storagePath state action) :
    Delivers crypto storagePath state action ↔
      AllReceive crypto storagePath state action := by
  cases action with
  | subscribe =>
      exact iff_of_true
        ⟨fun _ stepped => (sound.subscribe stepped).exact, trivial⟩
        trivial
  | dropReceiver index =>
      exact iff_of_true
        ⟨fun _ stepped => (sound.dropReceiver stepped).exact, trivial⟩
        trivial
  | receive index =>
      exact iff_of_true
        ⟨fun _ stepped => (sound.receive stepped).exact, trivial⟩
        trivial
  | call query random =>
      exact sound.delivers_call_iff valid

/-- A step that delivers keeps the invariant. -/
theorem Sound.step
    (sound : Sound crypto state)
    {action : Action}
    (valid : Valid crypto storagePath state action)
    (delivers : Delivers crypto storagePath state action)
    (stepped :
      CorestoreDelivery.step crypto storagePath state action =
        some next) :
    Sound crypto next := by
  cases action with
  | subscribe =>
      exact sound.subscribe stepped
  | dropReceiver index =>
      exact sound.dropReceiver stepped
  | receive index =>
      exact sound.receive stepped
  | call query random =>
      exact sound.call valid (delivers.1 next stepped) stepped

end

/--
For every sequence of subscriptions, drops of receivers, receives and calls with
valid keys, and storage that succeeds: every call returns a result, and every
receiver that exists gets each feed entered into the map after its subscription
once and in order, and nothing else, if and only if at every call that has to
open a feed no receiver has been dropped and every channel has room.
-/
theorem delivers_exactly_once_iff
    (crypto : Crypto)
    (storagePath : Path)
    (disk : Disk)
    (allocated : Nat)
    (masterKey : Key)
    {actions : List Action}
    (valid :
      Machine.Along (step crypto storagePath) (Valid crypto storagePath)
        (initial disk allocated masterKey) actions) :
    Machine.Along (step crypto storagePath)
        (Delivers crypto storagePath)
        (initial disk allocated masterKey) actions ↔
      Machine.Along (step crypto storagePath) (AllReceive crypto storagePath)
        (initial disk allocated masterKey) actions := by
  have starts := sound_initial crypto disk allocated masterKey
  constructor
  · intro delivers
    refine Machine.along_imp (Sound crypto) ?_ ?_ starts
      (Machine.along_and valid delivers)
    · rintro state action next sound ⟨isValid, delivered⟩ stepped
      exact sound.step isValid delivered stepped
    · rintro state action sound ⟨isValid, delivered⟩
      exact (sound.delivers_iff isValid).mp delivered
  · intro receives
    refine Machine.along_imp (Sound crypto) ?_ ?_ starts
      (Machine.along_and valid receives)
    · rintro state action next sound ⟨isValid, received⟩ stepped
      exact sound.step isValid
        ((sound.delivers_iff isValid).mpr received) stepped
    · rintro state action sound ⟨isValid, received⟩
      exact (sound.delivers_iff isValid).mpr received

/-- Ask for the feed `foo` by its name. -/
def callFoo : Action :=
  .call (.byName sampleFoo.name) sampleMaster

/-- A receiver that is dropped after the last feed has been opened. -/
theorem delivers_exactly_once_iff_lateDrop :
    Machine.Along (step sampleCrypto []) (Delivers sampleCrypto [])
      (initial (fun _ => []) 0 sampleMaster)
      [.subscribe, callFoo, .receive 0, .dropReceiver 0, callFoo] := by
  refine
    (delivers_exactly_once_iff sampleCrypto [] _ 0 sampleMaster
      ?_).mpr ?_
  · exact ⟨trivial, trivial, trivial, trivial, trivial, trivial⟩
  · refine ⟨trivial, ?_, trivial, trivial, ?_, trivial⟩
    · intro _ subscriber member
      cases List.mem_singleton.mp member
      exact ⟨rfl, by decide⟩
    · intro needs
      cases needs

/--
Two receivers, the first of which is dropped: the call that opens `foo` panics,
and the second receiver gets no event for it.
-/
theorem dropped_receiver_loses_events :
    ∃ before after,
      Machine.run (step sampleCrypto [])
          (initial (fun _ => []) 0 sampleMaster)
          [.subscribe, .subscribe, .dropReceiver 0] = some before ∧
        step sampleCrypto [] before callFoo = some after ∧
        (answer sampleCrypto [] noFaults sampleMaster before.memory
          (.byName sampleFoo.name)).2 = .error .receiverDropped ∧
        after.inserted.length = 1 ∧
        after.memory.inner.subscribers[1]? = some ⟨true, []⟩ ∧
        (after.readers 1).taken = [] ∧
        ¬ Machine.Along (step sampleCrypto [])
            (Delivers sampleCrypto [])
            (initial (fun _ => []) 0 sampleMaster)
            [.subscribe, .subscribe, .dropReceiver 0, callFoo] := by
  refine ⟨_, _, rfl, rfl, rfl, rfl, rfl, rfl, ?_⟩
  rintro ⟨-, -, -, ⟨-, after, found, returns⟩, -⟩
  cases returns

end CorestoreDelivery

end Hyperspace
