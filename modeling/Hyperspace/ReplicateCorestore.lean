import Hyperspace.CorestoreEvents
import Hyperspace.CorestoreLookup
import Hyperspace.Replicator

namespace Hyperspace.ReplicateCorestore

/-!
# Handing the store's feeds to the replicator

`replicate_corestore` of `corestore/src/replicate.rs` first adds all open feeds
to the replicator, while it holds the store's read lock, then subscribes to the
store and to the replicator, and then handles their events: a feed that the
store has opened is added, and a discovery key that a remote has asked for is
looked up in the store.

Calls on the store by other tasks hold its write lock, so they are steps of
their own, and none of them happens during the iteration.  The lock is free
between the iteration and the subscription: a feed opened there is neither
among those that were iterated nor announced to the task.
-/

open Replicator (ReplicatorEvent Feeds PeeredFeed)

/-- Where the task is. -/
inductive Phase where
  | starting
  /-- It holds the read lock, with these feeds still to add. -/
  | iterating (remaining : List ArcFeed)
  /-- It has released the read lock. -/
  | released
  /-- It has subscribed to the store, and not yet to the replicator. -/
  | subscribed
  /-- It is in its loop, waiting for the next event. -/
  | waiting
  /-- It is in its loop, adding the feed of an event. -/
  | adding (arc : ArcFeed)
  /-- It is in its loop, looking up a discovery key. -/
  | lookingUp (dkey : Key)
  | ended
  deriving Repr, DecidableEq

/-- Whether the task has subscribed to the replicator. -/
def Phase.inLoop : Phase → Bool
  | .waiting => true
  | .adding _ => true
  | .lookingUp _ => true
  | _ => false

/-- The store, the replicator and the task. -/
structure State where
  memory : Corestore.Memory
  feeds : Feeds
  phase : Phase
  /-- The position of the task among the store's subscribers. -/
  receiver : Option Nat
  /-- The events of the replicator that the task has not yet taken. -/
  replicatorQueue : List ReplicatorEvent

namespace State

/-- The task is about to start, with the feeds the replicator has already. -/
def start (memory : Corestore.Memory) (feeds : Feeds) : State where
  memory := memory
  feeds := feeds
  phase := .starting
  receiver := none
  replicatorQueue := []

/-- The open feeds of the store. -/
def openFeeds (state : State) : List ArcFeed :=
  state.memory.inner.feeds.iter

/-- The subscription of the task. -/
def subscriber (state : State) : Option Corestore.Subscriber :=
  state.receiver.bind (state.memory.inner.subscribers[·]?)

/-- The events of the store that the task has not yet taken. -/
def queue (state : State) : List ArcFeed :=
  (state.subscriber.map Corestore.Subscriber.queue).getD []

/-- The state with another store in memory. -/
def withInner
    (state : State)
    (inner : Corestore.InnerCorestore) : State :=
  { state with memory := { state.memory with inner := inner } }

/-- Change the subscription of the task. -/
def modifySubscriber
    (state : State)
    (change : Corestore.Subscriber → Corestore.Subscriber) : State :=
  match state.receiver with
  | some index =>
      state.withInner
        { state.memory.inner with
          subscribers :=
            state.memory.inner.subscribers.modify index change }
  | none => state

/-- The task ends, and its receiver is dropped. -/
def terminate (state : State) : State :=
  { state.modifySubscriber fun subscriber =>
      { subscriber with alive := false } with
    phase := .ended }

/-- The method `add_feed` of the replicator. -/
def addFeed
    (discoveryKey : Key → Key)
    (state : State)
    (arc : ArcFeed) : State :=
  { state with
    feeds := state.feeds.addFeed discoveryKey arc
    replicatorQueue :=
      if state.phase.inLoop then
        state.replicatorQueue ++ [.feed (discoveryKey arc.publicKey)]
      else
        state.replicatorQueue }

end State

/-- What can happen. -/
inductive Action where
  /-- Another task calls the store. -/
  | call (query : Corestore.Query) (random : Key)
      (faults : Corestore.Faults)
  /-- A connection tells the replicator of a remote discovery key. -/
  | discoveryKey (dkey : Key)
  /-- The task takes the read lock; feeds are iterated in any order. -/
  | iterate (order : List ArcFeed)
  | addNext
  | subscribeStore
  | subscribeReplicator
  | takeFeed
  | addTaken
  | takeReplicatorEvent
  | lookUp (random : Key) (faults : Corestore.Faults)

section

variable
  (crypto : Corestore.Crypto)
  (storagePath : Corestore.Path)

/-- One step of the task or of another one. -/
def step (state : State) : Action → Option State
  | .call query random faults =>
      match state.phase with
      | .iterating _ => none
      | _ =>
          some { state with
            memory :=
              (Corestore.answer crypto storagePath faults random
                state.memory query).1 }
  | .discoveryKey dkey =>
      if state.phase.inLoop then
        some { state with
          replicatorQueue :=
            state.replicatorQueue ++ [.discoveryKey dkey] }
      else
        some state
  | .iterate order =>
      if state.phase = .starting ∧ order.Perm state.openFeeds then
        some { state with phase := .iterating order }
      else
        none
  | .addNext =>
      match state.phase with
      | .iterating (arc :: rest) =>
          some { state.addFeed crypto.discoveryKey arc with
            phase := .iterating rest }
      | .iterating [] => some { state with phase := .released }
      | _ => none
  | .subscribeStore =>
      if state.phase = .released then
        some { state.withInner state.memory.inner.subscribe with
          phase := .subscribed
          receiver := some state.memory.inner.subscribers.length }
      else
        none
  | .subscribeReplicator =>
      if state.phase = .subscribed then
        some { state with phase := .waiting }
      else
        none
  | .takeFeed =>
      match state.phase, state.queue with
      | .waiting, arc :: rest =>
          some { state.modifySubscriber fun subscriber =>
              { subscriber with queue := rest } with
            phase := .adding arc }
      | _, _ => none
  | .addTaken =>
      match state.phase with
      | .adding arc =>
          some { state.addFeed crypto.discoveryKey arc with
            phase := .waiting }
      | _ => none
  | .takeReplicatorEvent =>
      match state.phase, state.replicatorQueue with
      | .waiting, .discoveryKey dkey :: rest =>
          some { state with
            replicatorQueue := rest
            phase := .lookingUp dkey }
      | .waiting, .feed _ :: rest =>
          some { state with replicatorQueue := rest }
      | _, _ => none
  | .lookUp random faults =>
      match state.phase with
      | .lookingUp dkey =>
          let outcome :=
            Corestore.answer crypto storagePath faults random
              state.memory (.byDkey dkey)
          let after := { state with memory := outcome.1 }
          match outcome.2 with
          | .error (.panicked _) => some after.terminate
          | .error .receiverDropped => some after.terminate
          | _ => some { after with phase := .waiting }
      | _ => none

end

/--
The task is in its loop with no event of the store left: none is queued, and
none has been taken whose feed is still to be added.
-/
def State.Settled (state : State) : Prop :=
  (state.phase = .waiting ∨ ∃ dkey, state.phase = .lookingUp dkey) ∧
    state.queue = []

/--
A feed is in the replicator: under its discovery key there is that feed, or
another open feed with the same discovery key.
-/
def State.Replicates
    (discoveryKey : Key → Key)
    (state : State)
    (arc : ArcFeed) : Prop :=
  ∃ peered,
    state.feeds.lookup (discoveryKey arc.publicKey) = some peered ∧
      peered.feed ∈ state.openFeeds ∧
      discoveryKey peered.publicKey = discoveryKey arc.publicKey

/-- Every open feed is in the replicator. -/
def State.Replicated
    (discoveryKey : Key → Key)
    (state : State) : Prop :=
  ∀ arc ∈ state.openFeeds, state.Replicates discoveryKey arc

/-- The condition on a step: no feed is opened between lock and subscription. -/
def OpensNothingReleased
    (crypto : Corestore.Crypto)
    (storagePath : Corestore.Path)
    (state : State) : Action → Prop
  | .call query random faults =>
      state.phase = .released →
      (Corestore.answer crypto storagePath faults random state.memory
        query).1.inner.feeds.iter = state.openFeeds
  | _ => True

/-! ## The invariant -/

/-- Whether the task has subscribed to the store. -/
def Phase.receives : Phase → Bool
  | .subscribed => true
  | .waiting => true
  | .adding _ => true
  | .lookingUp _ => true
  | _ => false

/-- The feeds that the task will still add, given its queue. -/
def Phase.pending (queue : List ArcFeed) : Phase → List ArcFeed
  | .iterating remaining => remaining
  | .adding arc => arc :: queue
  | _ => queue

/--
The invariant of a task that has not ended: what it will still add are open
feeds, and from the iteration on every open feed is in the replicator or will
still be added.
-/
structure Tracked (crypto : Corestore.Crypto) (state : State) : Prop where
  ready : Corestore.Ready crypto state.memory.inner
  receives : state.phase.receives → state.subscriber.isSome
  unsubscribed : state.phase.receives = false → state.receiver = none
  pendingOpen :
    ∀ arc ∈ state.phase.pending state.queue, arc ∈ state.openFeeds
  covered :
    state.phase ≠ .starting →
    ∀ arc ∈ state.openFeeds,
      state.Replicates crypto.discoveryKey arc ∨
        arc ∈ state.phase.pending state.queue

/-- The invariant: the task has ended, or its feeds are tracked. -/
def Invariant (crypto : Corestore.Crypto) (state : State) : Prop :=
  state.phase = .ended ∨ Tracked crypto state

section

variable
  {crypto : Corestore.Crypto}
  {storagePath : Corestore.Path}
  {state next : State}

/-- A feed stays in the replicator while open feeds stay open. -/
theorem State.Replicates.grow
    {discoveryKey : Key → Key}
    {arc : ArcFeed}
    (replicates : state.Replicates discoveryKey arc)
    (sameFeeds : next.feeds = state.feeds)
    (grows : ∀ other ∈ state.openFeeds, other ∈ next.openFeeds) :
    next.Replicates discoveryKey arc := by
  obtain ⟨peered, found, isOpen, hasDkey⟩ := replicates
  exact ⟨peered, by rw [sameFeeds, found], grows _ isOpen, hasDkey⟩

/-- Adding an open feed puts it in the replicator, and removes none. -/
theorem State.replicates_addFeed
    {discoveryKey : Key → Key}
    {arc other : ArcFeed}
    (isOpen : arc ∈ state.openFeeds)
    (before : other = arc ∨ state.Replicates discoveryKey other) :
    (state.addFeed discoveryKey arc).Replicates discoveryKey other := by
  by_cases same :
      discoveryKey other.publicKey = discoveryKey arc.publicKey
  · refine ⟨PeeredFeed.new arc, ?_, isOpen, same.symm⟩
    simp only [State.addFeed, Feeds.addFeed]
    rw [same, AList.lookup_insert]
  · rcases before with isAdded | ⟨peered, found, peeredOpen, hasDkey⟩
    · rw [isAdded] at same
      exact (same rfl).elim
    · refine ⟨peered, ?_, peeredOpen, hasDkey⟩
      simp only [State.addFeed, Feeds.addFeed]
      rw [AList.lookup_insert_ne same, found]

/-- The subscription of the task after an event was sent. -/
theorem subscriber_receive
    (state : State)
    {inner : Corestore.InnerCorestore}
    {arc : ArcFeed}
    (sent :
      inner.subscribers =
        state.memory.inner.subscribers.map
          (Corestore.Subscriber.receive arc)) :
    (state.withInner inner).subscriber =
      state.subscriber.map (Corestore.Subscriber.receive arc) := by
  simp only [State.subscriber, State.withInner, sent]
  cases state.receiver with
  | none =>
      rfl
  | some index =>
      simp

/-- A task that has subscribed finds the event at the end of its queue. -/
theorem queue_receive
    (state : State)
    {inner : Corestore.InnerCorestore}
    {arc : ArcFeed}
    (sent :
      inner.subscribers =
        state.memory.inner.subscribers.map
          (Corestore.Subscriber.receive arc))
    (isSubscribed : state.subscriber.isSome) :
    (state.withInner inner).queue = state.queue ++ [arc] := by
  obtain ⟨subscriber, found⟩ := Option.isSome_iff_exists.mp isSubscribed
  simp [State.queue, subscriber_receive state sent, found,
    Corestore.Subscriber.receive]

/-- A task that has not subscribed has no events. -/
theorem queue_unsubscribed
    (unsubscribed : state.receiver = none) :
    state.queue = [] := by
  simp [State.queue, State.subscriber, unsubscribed]

/-- Pending feeds stay pending when the queue grows. -/
theorem Phase.mem_pending_append
    {phase : Phase}
    {queue : List ArcFeed}
    {arc : ArcFeed}
    (member : arc ∈ phase.pending queue)
    (added : ArcFeed) :
    arc ∈ phase.pending (queue ++ [added]) := by
  cases phase with
  | iterating remaining =>
      exact member
  | adding taken =>
      simp only [Phase.pending, List.mem_cons] at member
      simp only [Phase.pending, List.mem_cons, List.mem_append]
      exact member.imp_right Or.inl
  | _ =>
      exact List.mem_append_left _ member

/-- A feed that is pending with the longer queue is the new one or was pending. -/
theorem Phase.of_mem_pending_append
    {phase : Phase}
    {queue : List ArcFeed}
    {arc added : ArcFeed}
    (member : arc ∈ phase.pending (queue ++ [added])) :
    arc = added ∨ arc ∈ phase.pending queue := by
  cases phase with
  | iterating remaining =>
      exact Or.inr member
  | adding taken =>
      simp only [Phase.pending, List.mem_cons, List.mem_append,
        List.not_mem_nil, or_false] at member
      simp only [Phase.pending, List.mem_cons]
      rcases member with isTaken | queued | isNew
      · exact Or.inr (Or.inl isTaken)
      · exact Or.inr (Or.inr queued)
      · exact Or.inl isNew
  | _ =>
      simp only [Phase.pending, List.mem_append,
        List.mem_singleton] at member
      exact member.symm

/-- A task that has subscribed will add what is at the end of its queue. -/
theorem Phase.mem_pending_last
    {phase : Phase}
    (receives : phase.receives)
    (queue : List ArcFeed)
    (added : ArcFeed) :
    added ∈ phase.pending (queue ++ [added]) := by
  cases phase <;> simp_all [Phase.pending, Phase.receives]

/-- A feed is opened while the task receives the store's events. -/
theorem Tracked.heard
    (tracked : Tracked crypto state)
    {after : Corestore.Memory}
    {arc : ArcFeed}
    (ready : Corestore.Ready crypto after.inner)
    (added : after.inner.feeds.iter = arc :: state.openFeeds)
    (sent :
      after.inner.subscribers =
        state.memory.inner.subscribers.map
          (Corestore.Subscriber.receive arc))
    (receives : state.phase.receives = true) :
    Tracked crypto { state with memory := after } := by
  have openAfter :
      ({ state with memory := after } : State).openFeeds =
        arc :: state.openFeeds :=
    added
  have grows :
      ∀ other ∈ state.openFeeds,
        other ∈ ({ state with memory := after } : State).openFeeds :=
    fun other member => by simp [openAfter, member]
  have subscriberAfter :
      ({ state with memory := after } : State).subscriber =
        state.subscriber.map (Corestore.Subscriber.receive arc) :=
    subscriber_receive state sent
  have queueAfter :
      ({ state with memory := after } : State).queue =
        state.queue ++ [arc] :=
    queue_receive state sent (tracked.receives receives)
  refine ⟨ready, ?_, tracked.unsubscribed, ?_, ?_⟩
  · simpa [subscriberAfter] using tracked.receives
  · intro other member
    rw [queueAfter] at member
    rcases Phase.of_mem_pending_append member with isNew | before
    · simp [openAfter, isNew]
    · exact grows other (tracked.pendingOpen other before)
  · intro started other member
    rw [openAfter] at member
    rw [queueAfter]
    rcases List.mem_cons.mp member with isNew | before
    · subst other
      exact Or.inr (Phase.mem_pending_last receives _ _)
    · rcases tracked.covered started other before with
        replicates | isPending
      · exact Or.inl (replicates.grow rfl grows)
      · exact Or.inr (Phase.mem_pending_append isPending arc)

/-- A feed is opened before the task has looked at the store. -/
theorem Tracked.unheard
    (tracked : Tracked crypto state)
    {after : Corestore.Memory}
    {arc : ArcFeed}
    (ready : Corestore.Ready crypto after.inner)
    (added : after.inner.feeds.iter = arc :: state.openFeeds)
    (starting : state.phase = .starting) :
    Tracked crypto { state with memory := after } := by
  have deaf : state.phase.receives = false := by
    rw [starting]
    rfl
  have noReceiver := tracked.unsubscribed deaf
  have queueAfter :
      ({ state with memory := after } : State).queue = state.queue := by
    rw [queue_unsubscribed noReceiver]
    exact queue_unsubscribed noReceiver
  refine ⟨ready, by simp [deaf], fun _ => noReceiver, ?_, ?_⟩
  · intro other member
    rw [queueAfter] at member
    have isOpen := tracked.pendingOpen other member
    change other ∈ after.inner.feeds.iter
    rw [added]
    exact List.mem_cons_of_mem arc isOpen
  · intro started
    exact absurd starting started

/--
A call on the store keeps the feeds tracked, unless it opens a feed between
the iteration and the subscription.
-/
theorem Tracked.registers
    (tracked : Tracked crypto state)
    {after : Corestore.Memory}
    (registers :
      Corestore.Registers crypto state.memory.inner after.inner)
    (unlocked :
      state.phase.receives = false →
      state.phase ≠ .starting →
      after.inner.feeds.iter = state.openFeeds) :
    Tracked crypto { state with memory := after } := by
  have readyAfter := tracked.ready.registers registers
  rcases tracked.ready.registers_cases registers with
    same | ⟨arc, added, sent⟩
  · exact
      { ready := readyAfter
        receives := by
          simpa [State.subscriber, same] using tracked.receives
        unsubscribed := tracked.unsubscribed
        pendingOpen := by
          simpa [State.openFeeds, State.queue, State.subscriber, same]
            using tracked.pendingOpen
        covered := by
          simpa [State.Replicates, State.openFeeds, State.queue,
            State.subscriber, same] using tracked.covered }
  · cases receives : state.phase.receives with
    | true =>
        exact tracked.heard readyAfter added sent receives
    | false =>
        have starting : state.phase = .starting := by
          by_contra started
          have sameFeeds := unlocked receives started
          rw [added] at sameFeeds
          have lengths := congrArg List.length sameFeeds
          simp [State.openFeeds] at lengths
        exact tracked.unheard readyAfter added starting

/-- A step of the task that changes neither the store nor the replicator. -/
theorem Tracked.move
    (tracked : Tracked crypto state)
    (sameMemory : next.memory = state.memory)
    (sameFeeds : next.feeds = state.feeds)
    (sameReceiver : next.receiver = state.receiver)
    (sameReceives : next.phase.receives = state.phase.receives)
    (samePending :
      next.phase.pending state.queue = state.phase.pending state.queue)
    (started : state.phase ≠ .starting) :
    Tracked crypto next := by
  have sameOpen : next.openFeeds = state.openFeeds := by
    simp [State.openFeeds, sameMemory]
  have sameSubscriber : next.subscriber = state.subscriber := by
    simp [State.subscriber, sameMemory, sameReceiver]
  have sameQueue : next.queue = state.queue := by
    simp [State.queue, sameSubscriber]
  exact
    { ready := by simpa [sameMemory] using tracked.ready
      receives := by
        simpa [sameReceives, sameSubscriber] using tracked.receives
      unsubscribed := by
        simpa [sameReceives, sameReceiver] using tracked.unsubscribed
      pendingOpen := by
        simpa [sameQueue, samePending, sameOpen] using
          tracked.pendingOpen
      covered := by
        intro _ arc member
        rw [sameOpen] at member
        rw [sameQueue, samePending]
        rcases tracked.covered started arc member with
          replicates | isPending
        · exact Or.inl (replicates.grow sameFeeds (by simp [sameOpen]))
        · exact Or.inr isPending }

/-- Adding a feed that was the next pending one. -/
theorem Tracked.addFeed
    (tracked : Tracked crypto state)
    {arc : ArcFeed}
    {phase : Phase}
    (started : state.phase ≠ .starting)
    (sameReceives : phase.receives = state.phase.receives)
    (pending :
      state.phase.pending state.queue =
        arc :: phase.pending state.queue) :
    Tracked crypto
      { state.addFeed crypto.discoveryKey arc with phase := phase } := by
  have isOpen : arc ∈ state.openFeeds :=
    tracked.pendingOpen arc (by simp [pending])
  exact
    { ready := tracked.ready
      receives := by
        intro receives
        exact tracked.receives (sameReceives ▸ receives)
      unsubscribed := by
        intro receives
        exact tracked.unsubscribed (sameReceives ▸ receives)
      pendingOpen := by
        intro other member
        apply tracked.pendingOpen other
        rw [pending]
        exact List.mem_cons_of_mem arc member
      covered := by
        intro _ other member
        rcases tracked.covered started other member with
          replicates | isPending
        · exact Or.inl
            (State.replicates_addFeed isOpen (Or.inr replicates))
        · rw [pending] at isPending
          rcases List.mem_cons.mp isPending with isAdded | later
          · exact Or.inl
              (State.replicates_addFeed isOpen (Or.inl isAdded))
          · exact Or.inr later }

/-- The iteration starts with all open feeds. -/
theorem Tracked.iterate
    (tracked : Tracked crypto state)
    {order : List ArcFeed}
    (starting : state.phase = .starting)
    (all : order.Perm state.openFeeds) :
    Tracked crypto { state with phase := .iterating order } where
  ready := tracked.ready
  receives := by simp [Phase.receives]
  unsubscribed := by
    intro _
    exact tracked.unsubscribed (by simp [starting, Phase.receives])
  pendingOpen := fun arc member => all.subset member
  covered := fun _ arc member => Or.inr (all.symm.subset member)

/-- The subscription starts with an empty queue. -/
theorem Tracked.subscribeStore
    (tracked : Tracked crypto state)
    (isReleased : state.phase = .released) :
    Tracked crypto
      { state.withInner state.memory.inner.subscribe with
        phase := .subscribed
        receiver := some state.memory.inner.subscribers.length } := by
  have noQueue : state.queue = [] :=
    queue_unsubscribed
      (tracked.unsubscribed (by simp [isReleased, Phase.receives]))
  exact
    { ready :=
        { indexed := tracked.ready.indexed
          alive := by
            intro subscriber member
            simp only [State.withInner,
              Corestore.InnerCorestore.subscribe, List.mem_append,
              List.mem_singleton] at member
            rcases member with before | isNew
            · exact tracked.ready.alive subscriber before
            · rw [isNew] }
      receives := by
        intro _
        simp [State.subscriber, State.withInner,
          Corestore.InnerCorestore.subscribe]
      unsubscribed := by simp [Phase.receives]
      pendingOpen := by
        simp [Phase.pending, State.queue, State.subscriber,
          State.withInner, Corestore.InnerCorestore.subscribe]
      covered := by
        intro _ arc member
        rcases tracked.covered (by simp [isReleased]) arc member with
          replicates | isPending
        · exact Or.inl replicates
        · rw [isReleased, noQueue] at isPending
          cases isPending }

/-- Taking the next event moves it from the queue to the task. -/
theorem Tracked.takeFeed
    (tracked : Tracked crypto state)
    {arc : ArcFeed}
    {rest : List ArcFeed}
    (waiting : state.phase = .waiting)
    (taken : state.queue = arc :: rest) :
    Tracked crypto
      { state.modifySubscriber fun subscriber =>
          { subscriber with queue := rest } with
        phase := .adding arc } := by
  obtain ⟨subscriber, found⟩ :=
    Option.isSome_iff_exists.mp
      (tracked.receives (by simp [waiting, Phase.receives]))
  obtain ⟨index, isReceiver, atIndex⟩ := Option.bind_eq_some_iff.mp found
  have modified :
      (state.memory.inner.subscribers.modify index
          fun subscriber => { subscriber with queue := rest })[index]? =
        some { subscriber with queue := rest } := by
    simp [atIndex]
  exact
    { ready :=
        { indexed := by
            simpa [State.modifySubscriber, isReceiver, State.withInner,
              Corestore.InnerCorestore.Indexed] using
                tracked.ready.indexed
          alive := by
            simp only [State.modifySubscriber, isReceiver,
              State.withInner]
            intro other member
            obtain ⟨position, atPosition⟩ :=
              List.mem_iff_getElem?.mp member
            rw [List.getElem?_modify] at atPosition
            obtain ⟨before, wasAt, same⟩ :=
              Option.map_eq_some_iff.mp atPosition
            have wasAlive :=
              tracked.ready.alive before
                (List.mem_iff_getElem?.mpr ⟨position, wasAt⟩)
            split at same <;> (subst other; exact wasAlive) }
      receives := by
        intro _
        simp [State.subscriber, State.modifySubscriber, isReceiver,
          State.withInner, modified]
      unsubscribed := by simp [Phase.receives]
      pendingOpen := by
        have before := tracked.pendingOpen
        simp only [waiting, Phase.pending, taken] at before
        simpa [Phase.pending, State.queue, State.subscriber,
          State.modifySubscriber, isReceiver, State.withInner,
          modified, State.openFeeds] using before
      covered := by
        have before := tracked.covered (by simp [waiting])
        simp only [waiting, Phase.pending, taken] at before
        simpa [State.Replicates, Phase.pending, State.queue, State.subscriber,
          State.modifySubscriber, isReceiver, State.withInner,
          modified, State.openFeeds] using before }

/-- A task that starts on a ready store is tracked. -/
theorem tracked_start
    {memory : Corestore.Memory}
    {feeds : Feeds}
    (ready : Corestore.Ready crypto memory.inner) :
    Tracked crypto (.start memory feeds) where
  ready := ready
  receives := by simp [State.start, Phase.receives]
  unsubscribed := fun _ => rfl
  pendingOpen := by
    simp [State.start, Phase.pending, State.queue, State.subscriber]
  covered := fun started => (started rfl).elim

/-- A call by another task keeps the invariant under the condition. -/
theorem invariant_call
    (holds : Invariant crypto state)
    {query : Corestore.Query}
    {random : Key}
    {faults : Corestore.Faults}
    (condition :
      OpensNothingReleased crypto storagePath state
        (.call query random faults))
    (stepped :
      step crypto storagePath state (.call query random faults) =
        some next) :
    Invariant crypto next := by
  simp only [step] at stepped
  split at stepped
  · cases stepped
  · next unlocked =>
      cases stepped
      rcases holds with isEnded | tracked
      · exact Or.inl isEnded
      · by_cases isEnded : state.phase = .ended
        · exact Or.inl isEnded
        · refine Or.inr (tracked.registers
            (Corestore.registers_answer query) ?_)
          intro receives started
          apply condition
          cases phase : state.phase with
          | iterating remaining => exact (unlocked _ phase).elim
          | released => rfl
          | starting => exact (started phase).elim
          | ended => exact (isEnded phase).elim
          | _ => simp [phase, Phase.receives] at receives

/-- Looking up a discovery key keeps the invariant. -/
theorem invariant_lookUp
    (tracked : Tracked crypto state)
    {random : Key}
    {faults : Corestore.Faults}
    (stepped :
      step crypto storagePath state (.lookUp random faults) =
        some next) :
    Invariant crypto next := by
  simp only [step] at stepped
  split at stepped
  · next dkey lookingUp =>
      have registers :
          Corestore.Registers crypto state.memory.inner
            (Corestore.answer crypto storagePath faults random
              state.memory (.byDkey dkey)).1.inner :=
        Corestore.registers_answer (.byDkey dkey)
      have after :=
        tracked.registers registers
          (by simp [lookingUp, Phase.receives])
      split at stepped
      · cases stepped
        exact Or.inl rfl
      · cases stepped
        exact Or.inl rfl
      · cases stepped
        exact Or.inr (after.move rfl rfl rfl
          (by simp [lookingUp, Phase.receives])
          (by simp [lookingUp, Phase.pending])
          (by simp [lookingUp]))
  · cases stepped

/-- Every step that meets the condition keeps the invariant. -/
theorem invariant_step
    {action : Action}
    (holds : Invariant crypto state)
    (condition : OpensNothingReleased crypto storagePath state action)
    (stepped : step crypto storagePath state action = some next) :
    Invariant crypto next := by
  have tracked : state.phase ≠ .ended → Tracked crypto state :=
    fun running => holds.resolve_left running
  cases action with
  | call query random faults =>
      exact invariant_call holds condition stepped
  | discoveryKey dkey =>
      simp only [step] at stepped
      split at stepped
      · next inLoop =>
          cases stepped
          have started : state.phase ≠ .starting := by
            intro starting
            simp [starting, Phase.inLoop] at inLoop
          have running : state.phase ≠ .ended := by
            intro isEnded
            simp [isEnded, Phase.inLoop] at inLoop
          exact Or.inr ((tracked running).move rfl rfl rfl rfl rfl
            started)
      · cases stepped
        exact holds
  | iterate order =>
      simp only [step, Option.ite_none_right_eq_some,
        Option.some.injEq] at stepped
      obtain ⟨⟨starting, all⟩, rfl⟩ := stepped
      exact Or.inr ((tracked (by simp [starting])).iterate starting all)
  | addNext =>
      simp only [step] at stepped
      split at stepped
      · next arc rest iterating =>
          cases stepped
          exact Or.inr ((tracked (by simp [iterating])).addFeed
            (by simp [iterating])
            (by simp [iterating, Phase.receives])
            (by simp [iterating, Phase.pending]))
      · next iterating =>
          cases stepped
          have before := tracked (by simp [iterating])
          have noQueue :=
            queue_unsubscribed
              (before.unsubscribed
                (by simp [iterating, Phase.receives]))
          exact Or.inr (before.move rfl rfl rfl
            (by simp [iterating, Phase.receives])
            (by simp [iterating, Phase.pending, noQueue])
            (by simp [iterating]))
      · cases stepped
  | subscribeStore =>
      simp only [step, Option.ite_none_right_eq_some,
        Option.some.injEq] at stepped
      obtain ⟨isReleased, rfl⟩ := stepped
      exact Or.inr
        ((tracked (by simp [isReleased])).subscribeStore isReleased)
  | subscribeReplicator =>
      simp only [step, Option.ite_none_right_eq_some,
        Option.some.injEq] at stepped
      obtain ⟨isSubscribed, rfl⟩ := stepped
      exact Or.inr ((tracked (by simp [isSubscribed])).move rfl rfl rfl
        (by simp [isSubscribed, Phase.receives])
        (by simp [isSubscribed, Phase.pending])
        (by simp [isSubscribed]))
  | takeFeed =>
      simp only [step] at stepped
      split at stepped
      · next arc rest waiting taken =>
          cases stepped
          exact Or.inr
            ((tracked (by simp [waiting])).takeFeed waiting taken)
      · cases stepped
  | addTaken =>
      simp only [step] at stepped
      split at stepped
      · next arc adding =>
          cases stepped
          exact Or.inr ((tracked (by simp [adding])).addFeed
            (by simp [adding])
            (by simp [adding, Phase.receives])
            (by simp [adding, Phase.pending]))
      · cases stepped
  | takeReplicatorEvent =>
      simp only [step] at stepped
      split at stepped
      · next dkey rest waiting taken =>
          cases stepped
          exact Or.inr ((tracked (by simp [waiting])).move rfl rfl rfl
            (by simp [waiting, Phase.receives])
            (by simp [waiting, Phase.pending])
            (by simp [waiting]))
      · next dkey rest waiting taken =>
          cases stepped
          exact Or.inr ((tracked (by simp [waiting])).move rfl rfl rfl
            rfl rfl (by simp [waiting]))
      · cases stepped
  | lookUp random faults =>
      rcases holds with isEnded | before
      · simp [step, isEnded] at stepped
      · exact invariant_lookUp before stepped

/-- In a tracked state with nothing left to add, everything is replicated. -/
theorem Tracked.replicated
    (tracked : Tracked crypto state)
    (settled : state.Settled) :
    state.Replicated crypto.discoveryKey := by
  obtain ⟨inLoop, drained⟩ := settled
  have started : state.phase ≠ .starting := by
    rcases inLoop with waiting | ⟨dkey, lookingUp⟩
    · simp [waiting]
    · simp [lookingUp]
  have nothingPending : state.phase.pending state.queue = [] := by
    rcases inLoop with waiting | ⟨dkey, lookingUp⟩
    · rw [waiting, drained]
      rfl
    · rw [lookingUp, drained]
      rfl
  intro arc isOpen
  rcases tracked.covered started arc isOpen with replicates | isPending
  · exact replicates
  · rw [nothingPending] at isPending
    cases isPending

/--
The store and the replicator may have any feeds when the task starts, and no
receiver of the store's events has been dropped.  In every run in which no call
opens a feed between the release of the read lock and the subscription, whenever
the task is in its loop and its queue is empty, every open feed is in the
replicator under its discovery key.
-/
theorem open_feeds_replicated
    {earlier : List Corestore.Action}
    {directory : Corestore.Directory}
    {inner : Corestore.InnerCorestore}
    (prepared :
      Machine.run (Corestore.step crypto storagePath) .empty earlier =
        some directory)
    (isOpen : directory.inner = some inner)
    (alive : inner.AllAlive)
    (feeds : Feeds)
    {actions : List Action}
    {final : State}
    (along :
      Machine.Along (step crypto storagePath)
        (OpensNothingReleased crypto storagePath)
        (.start (directory.memory inner) feeds) actions)
    (ran :
      Machine.run (step crypto storagePath)
          (.start (directory.memory inner) feeds) actions =
        some final)
    (settled : final.Settled) :
    final.Replicated crypto.discoveryKey := by
  have starts :
      Invariant crypto (.start (directory.memory inner) feeds) :=
    Or.inr (tracked_start
      ⟨Corestore.indexed_run prepared isOpen, alive⟩)
  rcases Machine.invariant_run_along (Invariant crypto)
      (fun holds condition stepped =>
        invariant_step holds condition stepped)
      starts along ran with isEnded | tracked
  · rcases settled.1 with waiting | ⟨dkey, lookingUp⟩
    · rw [waiting] at isEnded
      cases isEnded
    · rw [lookingUp] at isEnded
      cases isEnded
  · exact tracked.replicated settled

end

/-! ## An example -/

/-- An empty directory is opened. -/
def sampleEarlier : List Corestore.Action :=
  [.reopen sampleMaster Corestore.noFaults]

/-- Another task opens the feed of a name. -/
def callByName (name : Name) : Action :=
  .call (.byName name) sampleMaster Corestore.noFaults

/-- One feed is opened before the iteration, another one in the loop. -/
def openedAround : List Action :=
  [callByName sampleFoo.name, .iterate [sampleFooArc], .addNext, .addNext,
    .subscribeStore, .subscribeReplicator, callByName sampleEmpty.name,
    .takeFeed, .addTaken]

/-- One feed is opened between the iteration and the subscription. -/
def openedBetween : List Action :=
  [.iterate [], .addNext, callByName sampleFoo.name, .subscribeStore,
    .subscribeReplicator]

/-- Feeds opened around the gap reach the replicator. -/
theorem open_feeds_replicated_openedAround :
    ∃ directory inner final,
      Machine.run (Corestore.step Corestore.sampleCrypto []) .empty
          sampleEarlier =
          some directory ∧
        directory.inner = some inner ∧
        Machine.run (step Corestore.sampleCrypto [])
            (.start (directory.memory inner) ∅) openedAround =
          some final ∧
        final.openFeeds.length = 2 ∧
        final.Replicated sampleDiscoveryKey := by
  have finishes :
      ∃ directory inner final,
        Machine.run (Corestore.step Corestore.sampleCrypto []) .empty
            sampleEarlier =
            some directory ∧
          directory.inner = some inner ∧
          Machine.run (step Corestore.sampleCrypto [])
              (.start (directory.memory inner) ∅) openedAround =
            some final ∧
          inner.AllAlive ∧
          final.openFeeds.length = 2 ∧
          final.Settled ∧
          Machine.Along (step Corestore.sampleCrypto [])
            (OpensNothingReleased Corestore.sampleCrypto [])
            (.start (directory.memory inner) ∅) openedAround := by
    refine ⟨_, _, _, rfl, rfl, rfl, ?_, rfl, ⟨Or.inl rfl, rfl⟩, ?_,
      trivial, trivial, trivial, trivial, trivial, ?_, trivial,
      trivial, trivial⟩
    · intro subscriber member
      cases member
    · intro isReleased
      cases isReleased
    · intro isReleased
      cases isReleased
  obtain ⟨directory, inner, final, prepared, isOpen, ran, alive,
    twoOpen, settled, along⟩ := finishes
  exact ⟨directory, inner, final, prepared, isOpen, ran, twoOpen,
    open_feeds_replicated prepared isOpen alive ∅ along ran settled⟩

/-- A feed opened in the gap is open, and the replicator never gets it. -/
theorem feed_opened_before_subscription_lost :
    ∃ directory inner final,
      Machine.run (Corestore.step Corestore.sampleCrypto []) .empty
          sampleEarlier =
          some directory ∧
        directory.inner = some inner ∧
        Machine.run (step Corestore.sampleCrypto [])
            (.start (directory.memory inner) ∅) openedBetween =
          some final ∧
        final.Settled ∧
        final.openFeeds = [sampleFooArc] ∧
        final.feeds.lookup sampleFoo.discoveryKey = none ∧
        ¬ final.Replicated sampleDiscoveryKey := by
  refine ⟨_, _, _, rfl, rfl, rfl, ⟨Or.inl rfl, rfl⟩, rfl, rfl, ?_⟩
  intro replicated
  obtain ⟨peered, found, _⟩ := replicated sampleFooArc (by decide)
  cases found

end Hyperspace.ReplicateCorestore
