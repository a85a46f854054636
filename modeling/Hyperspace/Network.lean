import Hyperspace.ReplicateCorestore

namespace Hyperspace.Network

/-!
# Announcing feeds on the swarm

`listen` of `server/src/lib.rs` starts three tasks.  One hands the feeds of the
store to the replicator, one serves RPC sessions, which open feeds in the store,
and `network::run` of `server/src/network.rs` announces the feeds of the
replicator on the swarm.  The last one first binds the swarm, then subscribes to
the replicator, and then configures the swarm for every feed that the replicator
tells it of.  It never asks for the feeds that the replicator has already.

`add_feed` holds the lock of the map from the insertion to the end of the
emission, so that it is one step.
-/

open Replicator (ReplicatorEvent Feeds)

/-- Where `network::run` is. -/
inductive Phase where
  | binding
  /-- The swarm is bound, the replicator not yet subscribed to. -/
  | bound
  | looping
  | ended
  deriving Repr, DecidableEq

/-- The tasks that `listen` starts. -/
structure Server where
  /-- The store, the replicator, and `replicate_corestore`. -/
  replication : ReplicateCorestore.State
  phase : Phase
  /-- The events of the replicator that `network::run` has not yet taken. -/
  queue : List ReplicatorEvent
  /-- The discovery keys that `configure` was called with. -/
  configured : List Key

/-- What can happen. -/
inductive Action where
  /-- A step of `replicate_corestore`, a session or a connection. -/
  | replication (action : ReplicateCorestore.Action)
  /-- A connection opens a channel for a feed. -/
  | addPeer (dkey id : Key) (task : Nat)
  | bind (succeeds : Bool)
  | subscribe
  | takeEvent
  /-- A stream of the swarm is added to the replicator, or is an error. -/
  | takeStream (succeeds : Bool)

namespace Server

/-- The tasks have been started, with a new replicator. -/
def listening (memory : Corestore.Memory) : Server where
  replication := .start memory ∅
  phase := .binding
  queue := []
  configured := []

/-- The replicator emits events; they reach `network::run` in its loop. -/
def receive
    (server : Server)
    (events : List ReplicatorEvent) : Server :=
  match server.phase with
  | .looping => { server with queue := server.queue ++ events }
  | _ => server

/-- What `network::run` does with an event of the replicator. -/
def handle (server : Server) : ReplicatorEvent → Server
  | .feed dkey =>
      { server with configured := server.configured ++ [dkey] }
  | .discoveryKey _ => server

end Server

/-- The feed that a step adds to the replicator. -/
def addedFeed
    (state : ReplicateCorestore.State) :
    ReplicateCorestore.Action → Option ArcFeed
  | .addNext =>
      match state.phase with
      | .iterating (arc :: _) => some arc
      | _ => none
  | .addTaken =>
      match state.phase with
      | .adding arc => some arc
      | _ => none
  | _ => none

/-- The events that the replicator emits in a step. -/
def emitted
    (discoveryKey : Key → Key)
    (state : ReplicateCorestore.State)
    (action : ReplicateCorestore.Action) : List ReplicatorEvent :=
  match action with
  | .discoveryKey dkey => [.discoveryKey dkey]
  | _ =>
      match addedFeed state action with
      | some arc => [.feed (discoveryKey arc.publicKey)]
      | none => []

section

variable
  (crypto : Corestore.Crypto)
  (storagePath : Corestore.Path)

/-- One step of the server. -/
def step (server : Server) : Action → Option Server
  | .replication action =>
      match
        ReplicateCorestore.step crypto storagePath server.replication
          action
      with
      | none => none
      | some replication =>
          some
            ({ server with replication := replication }.receive
              (emitted crypto.discoveryKey server.replication action))
  | .addPeer dkey id task =>
      some { server with
        replication :=
          { server.replication with
            feeds := server.replication.feeds.addPeer dkey id task } }
  | .bind succeeds =>
      match server.phase with
      | .binding =>
          some { server with
            phase := if succeeds then .bound else .ended }
      | _ => none
  | .subscribe =>
      match server.phase with
      | .bound => some { server with phase := .looping, queue := [] }
      | _ => none
  | .takeEvent =>
      match server.phase, server.queue with
      | .looping, event :: rest =>
          some ({ server with queue := rest }.handle event)
      | _, _ => none
  | .takeStream succeeds =>
      match server.phase with
      | .looping =>
          some { server with
            phase := if succeeds then .looping else .ended }
      | _ => none

/-- The swarm is configured for every feed of the replicator. -/
def Server.Announced (server : Server) : Prop :=
  ∀ dkey,
    (server.replication.feeds.lookup dkey).isSome →
    dkey ∈ server.configured

/--
The condition on a step: no feed is added to the replicator before
`network::run` has subscribed to it.
-/
def AddsSubscribed (server : Server) : Action → Prop
  | .replication action =>
      (addedFeed server.replication action).isSome →
      server.phase ≠ .binding ∧ server.phase ≠ .bound
  | _ => True

end

/-! ## The invariant -/

/--
Until `network::run` ends: feeds are in the replicator only once it has
subscribed, and then each one has been configured or its event is queued.
-/
def Following (server : Server) : Prop :=
  server.phase ≠ .ended →
  ∀ dkey,
    (server.replication.feeds.lookup dkey).isSome →
    server.phase = .looping ∧
      (dkey ∈ server.configured ∨ .feed dkey ∈ server.queue)

section

variable
  {crypto : Corestore.Crypto}
  {storagePath : Corestore.Path}
  {server next : Server}

/-- The subscription of the task does not concern the replicator's feeds. -/
theorem feeds_modifySubscriber
    (state : ReplicateCorestore.State)
    (change : Corestore.Subscriber → Corestore.Subscriber) :
    (state.modifySubscriber change).feeds = state.feeds := by
  simp only [ReplicateCorestore.State.modifySubscriber]
  split <;> rfl

/-- The feeds of the replicator after a step. -/
theorem feeds_step
    {state next : ReplicateCorestore.State}
    {action : ReplicateCorestore.Action}
    (stepped :
      ReplicateCorestore.step crypto storagePath state action =
        some next) :
    next.feeds =
      match addedFeed state action with
      | some arc => state.feeds.addFeed crypto.discoveryKey arc
      | none => state.feeds := by
  cases action with
  | call query random faults =>
      simp only [ReplicateCorestore.step] at stepped
      split at stepped <;> cases stepped
      rfl
  | discoveryKey dkey =>
      simp only [ReplicateCorestore.step] at stepped
      split at stepped <;> cases stepped <;> rfl
  | iterate order =>
      simp only [ReplicateCorestore.step] at stepped
      split at stepped <;> cases stepped
      rfl
  | addNext =>
      simp only [ReplicateCorestore.step] at stepped
      split at stepped
      · next arc rest isIterating =>
          cases stepped
          simp [addedFeed, isIterating, ReplicateCorestore.State.addFeed]
      · next isIterating =>
          cases stepped
          simp [addedFeed, isIterating]
      · cases stepped
  | subscribeStore =>
      simp only [ReplicateCorestore.step] at stepped
      split at stepped <;> cases stepped
      rfl
  | subscribeReplicator =>
      simp only [ReplicateCorestore.step] at stepped
      split at stepped <;> cases stepped
      rfl
  | takeFeed =>
      simp only [ReplicateCorestore.step] at stepped
      split at stepped <;> cases stepped
      exact feeds_modifySubscriber state _
  | addTaken =>
      simp only [ReplicateCorestore.step] at stepped
      split at stepped
      · next arc isAdding =>
          cases stepped
          simp [addedFeed, isAdding, ReplicateCorestore.State.addFeed]
      · cases stepped
  | takeReplicatorEvent =>
      simp only [ReplicateCorestore.step] at stepped
      split at stepped <;> cases stepped <;> rfl
  | lookUp random faults =>
      simp only [ReplicateCorestore.step] at stepped
      split at stepped
      · split at stepped
        · cases stepped
          exact feeds_modifySubscriber _ _
        · cases stepped
          exact feeds_modifySubscriber _ _
        · cases stepped
          rfl
      · cases stepped

/-- Attaching a peer to a feed adds no feed. -/
theorem isSome_lookup_addPeer
    (feeds : Feeds)
    (dkey id : Key)
    (task : Nat)
    (other : Key) :
    ((feeds.addPeer dkey id task).lookup other).isSome =
      (feeds.lookup other).isSome := by
  simp only [Feeds.addPeer]
  split
  · next peered found =>
      by_cases same : other = dkey
      · subst other
        rw [AList.lookup_insert, found]
        rfl
      · rw [AList.lookup_insert_ne same]
  · rfl

/-- Events reach `network::run` behind those that it has not yet taken. -/
theorem mem_queue_receive
    {event : ReplicatorEvent}
    {events : List ReplicatorEvent} :
    server.phase = .looping →
    event ∈ server.queue ∨ event ∈ events →
    event ∈ (server.receive events).queue := by
  intro looping member
  simp only [Server.receive, looping]
  exact List.mem_append.mpr member

/-- Receiving events changes the queue only. -/
theorem receive_fields
    (server : Server)
    (events : List ReplicatorEvent) :
    (server.receive events).replication = server.replication ∧
      (server.receive events).phase = server.phase ∧
      (server.receive events).configured = server.configured := by
  simp only [Server.receive]
  split <;> exact ⟨rfl, rfl, rfl⟩

/-- A step of the other tasks. -/
theorem Following.replication
    (following : Following server)
    {action : ReplicateCorestore.Action}
    {replication : ReplicateCorestore.State}
    (subscribed : AddsSubscribed server (.replication action))
    (stepped :
      ReplicateCorestore.step crypto storagePath server.replication
          action =
        some replication) :
    Following
      ({ server with replication := replication }.receive
        (emitted crypto.discoveryKey server.replication action)) := by
  obtain ⟨sameReplication, samePhase, sameConfigured⟩ :=
    receive_fields { server with replication := replication }
      (emitted crypto.discoveryKey server.replication action)
  intro running dkey found
  rw [samePhase] at running
  rw [sameReplication, feeds_step stepped] at found
  rw [samePhase, sameConfigured]
  have before :
      (server.replication.feeds.lookup dkey).isSome →
        server.phase = .looping ∧
          (dkey ∈ server.configured ∨
            .feed dkey ∈
              ({ server with replication := replication }.receive
                (emitted crypto.discoveryKey server.replication
                  action)).queue) := by
    intro foundBefore
    obtain ⟨looping, covered⟩ := following running dkey foundBefore
    refine ⟨looping, covered.imp_right ?_⟩
    intro queued
    exact mem_queue_receive looping (Or.inl queued)
  cases added : addedFeed server.replication action with
  | none =>
      simp only [added] at found
      exact before found
  | some arc =>
      simp only [added, Feeds.addFeed] at found
      by_cases isAdded : dkey = crypto.discoveryKey arc.publicKey
      · have looping : server.phase = .looping := by
          have notEarly := subscribed (by simp [added])
          cases phase : server.phase with
          | looping => rfl
          | binding => exact absurd phase notEarly.1
          | bound => exact absurd phase notEarly.2
          | ended => exact absurd phase running
        have isEmitted :
            .feed dkey ∈
              emitted crypto.discoveryKey server.replication
                action := by
          subst dkey
          cases action with
          | addNext => simp [emitted, added]
          | addTaken => simp [emitted, added]
          | _ => cases added
        exact ⟨looping,
          Or.inr (mem_queue_receive looping (Or.inr isEmitted))⟩
      · rw [AList.lookup_insert_ne isAdded] at found
        exact before found

/-- `network::run` takes an event of the replicator. -/
theorem Following.takeEvent
    (following : Following server)
    {event : ReplicatorEvent}
    {rest : List ReplicatorEvent}
    (isLooping : server.phase = .looping)
    (queued : server.queue = event :: rest) :
    Following ({ server with queue := rest }.handle event) := by
  have before := following (by simp [isLooping])
  simp only [queued, List.mem_cons] at before
  cases event with
  | feed taken =>
      intro _ dkey found
      refine ⟨isLooping, ?_⟩
      simp only [Server.handle, List.mem_append, List.mem_singleton]
      rcases (before dkey found).2 with configured | isTaken | later
      · exact Or.inl (Or.inl configured)
      · cases isTaken
        exact Or.inl (Or.inr rfl)
      · exact Or.inr later
  | discoveryKey taken =>
      intro _ dkey found
      refine ⟨isLooping, ?_⟩
      rcases (before dkey found).2 with configured | isTaken | later
      · exact Or.inl configured
      · cases isTaken
      · exact Or.inr later

/-- Every step that meets the condition keeps the invariant. -/
theorem Following.step
    (following : Following server)
    {action : Action}
    (subscribed : AddsSubscribed server action)
    (stepped :
      Network.step crypto storagePath server action = some next) :
    Following next := by
  cases action with
  | replication action =>
      simp only [Network.step] at stepped
      split at stepped
      · cases stepped
      · next replication taken =>
          cases stepped
          exact following.replication subscribed taken
  | addPeer dkey id task =>
      cases stepped
      intro running other found
      simp only [isSome_lookup_addPeer] at found
      exact following running other found
  | bind succeeds =>
      simp only [Network.step] at stepped
      split at stepped
      · next isBinding =>
          cases stepped
          intro _ dkey found
          obtain ⟨looping, _⟩ :=
            following (by simp [isBinding]) dkey found
          rw [isBinding] at looping
          cases looping
      · cases stepped
  | subscribe =>
      simp only [Network.step] at stepped
      split at stepped
      · next isBound =>
          cases stepped
          intro _ dkey found
          obtain ⟨looping, _⟩ :=
            following (by simp [isBound]) dkey found
          rw [isBound] at looping
          cases looping
      · cases stepped
  | takeEvent =>
      simp only [Network.step] at stepped
      split at stepped
      · next event rest isLooping queued =>
          cases stepped
          exact following.takeEvent isLooping queued
      · cases stepped
  | takeStream succeeds =>
      simp only [Network.step] at stepped
      split at stepped
      · next isLooping =>
          cases stepped
          intro running dkey found
          obtain ⟨_, covered⟩ :=
            following (by simp [isLooping]) dkey found
          cases succeeds with
          | true => exact ⟨rfl, covered⟩
          | false => exact absurd rfl running
      · cases stepped

/--
For every interleaving of the tasks in which no feed is added to the replicator
before `network::run` has subscribed: in every state in which that task is in
its loop and has no event of the replicator left, the swarm is configured for
every feed of the replicator.
-/
theorem replicated_feeds_announced
    {memory : Corestore.Memory}
    {actions : List Action}
    (along :
      Machine.Along (Network.step crypto storagePath) AddsSubscribed
        (.listening memory) actions)
    (ran :
      Machine.run (Network.step crypto storagePath) (.listening memory)
          actions =
        some server)
    (looping : server.phase = .looping)
    (drained : server.queue = []) :
    server.Announced := by
  have starts : Following (.listening memory) := by
    intro _ dkey found
    simp [Server.listening, ReplicateCorestore.State.start] at found
  have following : Following server :=
    Machine.invariant_run_along Following
      (fun holds condition stepped => holds.step condition stepped)
      starts along ran
  intro dkey found
  obtain ⟨_, configured | queued⟩ :=
    following (by simp [looping]) dkey found
  · exact configured
  · rw [drained] at queued
    cases queued

end

/-! ## Examples -/

/-- The steps by which `replicate_corestore` comes to its loop. -/
def replicationStarts : List Action :=
  [.replication (.iterate []), .replication .addNext,
    .replication .subscribeStore, .replication .subscribeReplicator]

/-- A session opens a feed, and the replicator gets it. -/
def feedOpened : List Action :=
  [.replication (ReplicateCorestore.callByName sampleFoo.name),
    .replication .takeFeed, .replication .addTaken]

/-- The feed is opened when `network::run` has subscribed. -/
def openedLate : List Action :=
  [.bind true, .subscribe] ++ replicationStarts ++ feedOpened ++
    [.takeEvent]

/-- The feed is opened while the swarm is being bound. -/
def openedEarly : List Action :=
  replicationStarts ++ feedOpened ++ [.bind true, .subscribe]

/-- A feed opened after the subscription is announced. -/
theorem replicated_feeds_announced_openedLate :
    ∃ directory inner server,
      Machine.run (Corestore.step Corestore.sampleCrypto []) .empty
          ReplicateCorestore.sampleEarlier =
          some directory ∧
        directory.inner = some inner ∧
        Machine.run (step Corestore.sampleCrypto [])
            (.listening (directory.memory inner)) openedLate =
          some server ∧
        server.configured = [sampleFoo.discoveryKey] ∧
        server.Announced := by
  have finishes :
      ∃ directory inner server,
        Machine.run (Corestore.step Corestore.sampleCrypto []) .empty
            ReplicateCorestore.sampleEarlier =
            some directory ∧
          directory.inner = some inner ∧
          Machine.run (step Corestore.sampleCrypto [])
              (.listening (directory.memory inner)) openedLate =
            some server ∧
          server.configured = [sampleFoo.discoveryKey] ∧
          server.phase = .looping ∧
          server.queue = [] ∧
          Machine.Along (step Corestore.sampleCrypto []) AddsSubscribed
            (.listening (directory.memory inner)) openedLate := by
    refine ⟨_, _, _, rfl, rfl, rfl, rfl, rfl, rfl, trivial, trivial,
      ?_, ?_, ?_, ?_, ?_, ?_, ?_, trivial, trivial⟩
    all_goals
      intro _
      exact ⟨Phase.noConfusion, Phase.noConfusion⟩
  obtain ⟨directory, inner, server, prepared, isOpen, ran, configured,
    looping, drained, along⟩ := finishes
  exact ⟨directory, inner, server, prepared, isOpen, ran, configured,
    replicated_feeds_announced along ran looping drained⟩

/-- A feed opened while the swarm is being bound is never announced. -/
theorem feed_added_while_binding_not_announced :
    ∃ directory inner server,
      Machine.run (Corestore.step Corestore.sampleCrypto []) .empty
          ReplicateCorestore.sampleEarlier =
          some directory ∧
        directory.inner = some inner ∧
        Machine.run (step Corestore.sampleCrypto [])
            (.listening (directory.memory inner)) openedEarly =
          some server ∧
        server.phase = .looping ∧
        server.queue = [] ∧
        server.configured = [] ∧
        (server.replication.feeds.lookup
          sampleFoo.discoveryKey).isSome ∧
        ¬ server.Announced := by
  refine ⟨_, _, _, rfl, rfl, rfl, rfl, rfl, rfl, rfl, ?_⟩
  intro announced
  have configured := announced sampleFoo.discoveryKey rfl
  cases configured

end Hyperspace.Network
