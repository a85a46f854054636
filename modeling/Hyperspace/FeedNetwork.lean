import Hyperspace.Machine
import Hyperspace.PeerSync

namespace Hyperspace.FeedNetwork

/-!
# One feed in a network of stores

Any number of stores hold instances of one feed and are joined by any number of
connections.  `PeeredFeed::add_peer` gives a feed one peer loop for each of its
channels; all loops of a store share the instance, and every loop is told of
the blocks that any other loop stores in it.  So a block travels through stores
that lie between two others.

A connection has two ends, and each end has a loop.  Connections are set up and
closed at any time, the store that owns the feed may append to it, and the
messages of the loops arrive in any order that keeps each channel first in,
first out.  The handlers are those of `Peer`, applied to the shared instance.

This module holds the machine, what is assumed of the dependencies, what holds
in careful runs, and what the handlers then do: none fails, only blocks that
the sender holds are announced, and only blocks that the receiver holds are
requested.
-/

/-- The ends of the connections, and the stores that they belong to. -/
structure Topology (Store End : Type) where
  store : End → Store
  opposite : End → End
  opposite_opposite : ∀ side, opposite (opposite side) = side
  opposite_ne : ∀ side, opposite side ≠ side

/-- A peer loop, without the feed that it shares with others. -/
structure Loop where
  feedEvents : List FeedEvent
  remoteWant : Bool
  remoteAck : Bool
  wantBitfield : List Nat
  stats : Replicator.Stats
  phase : LoopPhase

namespace Loop

variable {Feed : Type}

/-- The loop as the handlers of `Peer` see it. -/
def peer (loop : Loop) (feed : Feed) : Peer Feed where
  feed := feed
  feedEvents := loop.feedEvents
  remoteWant := loop.remoteWant
  remoteAck := loop.remoteAck
  wantBitfield := loop.wantBitfield
  stats := loop.stats

/-- What is left of a peer without its feed. -/
def ofPeer (peer : Peer Feed) (phase : LoopPhase) : Loop where
  feedEvents := peer.feedEvents
  remoteWant := peer.remoteWant
  remoteAck := peer.remoteAck
  wantBitfield := peer.wantBitfield
  stats := peer.stats
  phase := phase

/-- A loop that `add_peer` has spawned and that has subscribed. -/
def subscribed (feed : Feed) (remote : Key) : Loop :=
  ofPeer (Peer.new feed { id := remote }) .starting

/-- Events of the feed are queued for a loop. -/
def hear (events : List FeedEvent) (loop : Loop) : Loop :=
  { loop with feedEvents := loop.feedEvents ++ events }

end Loop

/--
The instance of the feed in each store, the loops that have subscribed, the
messages in flight to each end, and the ends that are closed.
-/
structure State (Store End Feed : Type) where
  feeds : Store → Feed
  loops : End → Option Loop
  inboxes : End → List Message
  closed : End → Bool

/-- What can happen. -/
inductive Action (Store End : Type) where
  /-- A loop is spawned for a remote and subscribes to the feed. -/
  | subscribe (side : End) (remote : Key)
  /-- A loop executes `on_open`. -/
  | start (side : End)
  | deliver (side : End)
  | feedEvent (side : End)
  /-- An `Open` message is sent to a loop. -/
  | reopen (side : End)
  | close (side : End)
  | append (store : Store)

/-- Nothing is connected yet. -/
def initial
    {Store Feed : Type}
    (End : Type)
    (feeds : Store → Feed) : State Store End Feed where
  feeds := feeds
  loops := fun _ => none
  inboxes := fun _ => []
  closed := fun _ => false

section

variable
  {Store End Feed Signature : Type}
  [DecidableEq Store]
  [DecidableEq End]
  (topology : Topology Store End)

/--
A loop has run a handler.  The other loops of the store hear the events that
the handler caused, and the other end receives what it sent.
-/
def State.act
    (state : State Store End Feed)
    (side : End)
    (heard : List FeedEvent)
    (rest : List Message)
    (turn : Turn Feed) : State Store End Feed where
  feeds := Function.update state.feeds (topology.store side) turn.peer.feed
  loops := fun other =>
    if other = side then
      some (.ofPeer turn.peer turn.phase)
    else if topology.store other = topology.store side then
      (state.loops other).map (Loop.hear heard)
    else
      state.loops other
  inboxes := fun other =>
    if other = side then
      rest
    else if other = topology.opposite side then
      state.inboxes other ++ turn.sent
    else
      state.inboxes other
  closed := state.closed

/-- Something other than a loop has changed the feed of a store. -/
def State.grow
    (state : State Store End Feed)
    (store : Store)
    (heard : List FeedEvent)
    (feed : Feed) : State Store End Feed :=
  { state with
    feeds := Function.update state.feeds store feed
    loops := fun other =>
      if topology.store other = store then
        (state.loops other).map (Loop.hear heard)
      else
        state.loops other }

variable
  (core : Hypercore Feed Signature)
  (overflowChecks : Bool)
  (log : Nat → Bytes)

/-- One step; `log` holds the blocks that the owner appends, in order. -/
def step (state : State Store End Feed) :
    Action Store End → Option (State Store End Feed)
  | .subscribe side remote =>
      match state.loops side, state.closed side with
      | none, false =>
          some
            { state with
              loops := Function.update state.loops side
                (some (.subscribed (state.feeds (topology.store side))
                  remote)) }
      | _, _ => none
  | .start side =>
      match state.loops side, state.closed side with
      | some loop, false =>
          match loop.phase with
          | .starting =>
              some (state.act topology side [] (state.inboxes side)
                (loop.peer
                  (state.feeds (topology.store side))).onOpen)
          | _ => none
      | _, _ => none
  | .deliver side =>
      match state.loops side, state.closed side with
      | some loop, false =>
          match loop.phase, state.inboxes side with
          | .looping, message :: rest =>
              let turn :=
                (loop.peer
                  (state.feeds (topology.store side))).onMessage core
                  overflowChecks message
              let heard :=
                turn.peer.feedEvents.drop loop.feedEvents.length
              some (state.act topology side heard rest turn)
          | _, _ => none
      | _, _ => none
  | .feedEvent side =>
      match state.loops side, state.closed side with
      | some loop, false =>
          match loop.phase, loop.feedEvents with
          | .looping, event :: rest =>
              some (state.act topology side [] (state.inboxes side)
                (({ loop with feedEvents := rest }.peer
                  (state.feeds (topology.store side))).onFeedEvent core
                  overflowChecks event))
          | _, _ => none
      | _, _ => none
  | .reopen side =>
      some
        { state with
          inboxes := Function.update state.inboxes side
            (state.inboxes side ++ [.openChannel]) }
  | .close side =>
      some
        { state with closed := Function.update state.closed side true }
  | .append store =>
      (core.append (state.feeds store)
          (log (core.len (state.feeds store)))).map fun feed =>
        state.grow topology store [.append] feed

/--
What is assumed of the dependencies.  The feeds with the property `replica` are
the instances of one log, each with some of its blocks: what one of them gives
away, every other accepts.
-/
structure Relays (replica : Feed → Prop) : Prop where
  /-- The bitfield of the first window survives encoding and decoding. -/
  roundTrip :
    ∀ feed,
      replica feed →
      ∃ rle bits,
        core.compress feed 0 windowLength = some rle ∧
          Peer.parseBitfield core rle = some bits ∧
          ∀ index,
            bits.getD index false =
              (decide (index < windowLength) && core.has feed index)
  get :
    ∀ feed index,
      replica feed →
      core.has feed index →
      core.get feed index = some (some (log index))
  proof :
    ∀ feed index,
      replica feed →
      core.has feed index →
      ∃ proof, core.proof feed index = some proof
  signature :
    ∀ feed index proof signature,
      replica feed →
      core.proof feed index = some proof →
      proof.signature = some signature →
      core.signatureOfBytes (core.signatureToBytes signature) =
        some signature
  /-- A block that is new queues an event. -/
  put :
    ∀ feed giver index proof,
      replica feed →
      replica giver →
      core.has giver index →
      core.proof giver index = some proof →
      ∃ next,
        core.put feed index (some (log index))
            ⟨index, proof.nodes, proof.signature⟩ =
            some (next, !core.has feed index) ∧
          replica next ∧
          ∀ other,
            core.has next other =
              (core.has feed other || decide (other = index))
  append :
    ∀ feed next,
      replica feed →
      core.append feed (log (core.len feed)) = some next →
      replica next ∧
        core.len next = core.len feed + 1 ∧
        ∀ other,
          core.has next other =
            (core.has feed other || decide (other = core.len feed))

/--
A message in flight: announcements are about blocks that the sender holds, and
requests about blocks that the receiver holds.  The owner requests nothing.
-/
def Travels
    (replica : Feed → Prop)
    (owner : Option Store)
    (feeds : Store → Feed)
    (sender receiver : Store) : Message → Prop
  | .openChannel => True
  | .want start length => start = 0 ∧ length = some windowLength
  | .announce start length bitfield _ =>
      ∃ indices,
        Peer.announcedIndices core overflowChecks start length bitfield =
            some indices ∧
          ∀ index ∈ indices, core.has (feeds sender) index
  | .request index =>
      core.has (feeds receiver) index ∧ owner ≠ some sender
  | .data index value nodes signature =>
      core.has (feeds sender) index ∧
        owner ≠ some receiver ∧
        value = some (log index) ∧
        ∃ giver proof,
          replica giver ∧
            core.has giver index ∧
            core.proof giver index = some proof ∧
            nodes = proof.nodes ∧
            signature = proof.signature.map core.signatureToBytes
  | .ignored => True

/-- An event in the queue of a loop. -/
def Heard
    (owner : Option Store)
    (feeds : Store → Feed)
    (store : Store) : FeedEvent → Prop
  | .download index => core.has (feeds store) index
  | .append => owner = some store ∧ 0 < core.len (feeds store)

/--
What holds in every careful run: the stores hold instances of the log, the
owner holds all of it, no loop has failed, and messages are as they should.
-/
structure Sound
    (replica : Feed → Prop)
    (owner : Option Store)
    (state : State Store End Feed) : Prop where
  replicas : ∀ store, replica (state.feeds store)
  bounded :
    ∀ store index,
      core.has (state.feeds store) index → index < windowLength
  full :
    ∀ store,
      owner = some store →
      ∀ index,
        core.has (state.feeds store) index ↔
          index < core.len (state.feeds store)
  owned :
    ∀ store,
      owner = some store →
      ∀ other index,
        core.has (state.feeds other) index →
        core.has (state.feeds store) index
  running :
    ∀ side loop,
      state.loops side = some loop →
      loop.phase ≠ .ended ∧ loop.remoteAck = false
  heard :
    ∀ side loop,
      state.loops side = some loop →
      ∀ event ∈ loop.feedEvents,
        Heard core owner state.feeds (topology.store side) event
  travels :
    ∀ side,
      ∀ message ∈ state.inboxes side,
        Travels core overflowChecks log replica owner state.feeds
          (topology.store (topology.opposite side))
          (topology.store side) message

/--
The runs that are followed.  The first `Want` that a loop handles finds the
last block of the feed, if it has one; only the owner appends, to at most one
window of blocks; and it does so only when all its loops have handled the
event of the append before.
-/
def Careful
    (owner : Option Store)
    (state : State Store End Feed) : Action Store End → Prop
  | .deliver side =>
      ∀ loop start length rest,
        state.loops side = some loop →
        state.inboxes side = .want start length :: rest →
        loop.remoteWant = false →
        0 < core.len (state.feeds (topology.store side)) →
        core.has (state.feeds (topology.store side))
          (core.len (state.feeds (topology.store side)) - 1)
  | .append store =>
      owner = some store ∧
        core.len (state.feeds store) < windowLength ∧
        ∀ side loop,
          topology.store side = store →
          state.closed side = false →
          state.loops side = some loop →
          .append ∉ loop.feedEvents
  | _ => True

/-- An announcement of blocks that a feed holds, each once. -/
def AnnouncesHeld (feed : Feed) : Message → Prop
  | .announce start length bitfield ack =>
      ack = none ∧
        ∃ indices,
          Peer.announcedIndices core overflowChecks start length
              bitfield = some indices ∧
            indices.Nodup ∧
            ∀ index ∈ indices, core.has feed index
  | _ => False

/-- What a loop does with a message that travels as it should. -/
inductive Reacts
    (replica : Feed → Prop)
    (peer : Peer Feed) :
    Message → Peer Feed → List Message → Prop where
  | opened :
      Reacts replica peer .openChannel
        { peer with wantBitfield := peer.wantBitfield ++ [0] }
        [.want 0 (some windowLength)]
  | wanted
      {sent : List Message}
      (few : sent.length ≤ 2)
      (announces :
        ∀ reply ∈ sent,
          AnnouncesHeld core overflowChecks peer.feed reply)
      (covers :
        ∀ index,
          core.has peer.feed index →
          ∃ reply ∈ sent,
            PeerSync.Brings core overflowChecks index reply) :
      Reacts replica peer (.want 0 (some windowLength))
        { peer with remoteWant := true } sent
  | announced
      {start : Nat}
      {length : Option Nat}
      {bitfield : Option Bytes}
      {ack : Option Bool}
      {indices : List Nat}
      (announces :
        Peer.announcedIndices core overflowChecks start length bitfield =
          some indices) :
      Reacts replica peer (.announce start length bitfield ack) peer
        ((indices.filter fun index =>
          !core.has peer.feed index).map .request)
  | requested
      {index : Nat}
      {proof : Proof Signature}
      (stats : Replicator.Stats)
      (held : core.has peer.feed index)
      (proved : core.proof peer.feed index = some proof) :
      Reacts replica peer (.request index)
        { peer with stats := stats }
        [.data index (some (log index)) proof.nodes
          (proof.signature.map core.signatureToBytes)]
  | stored
      {index : Nat}
      {value : Option Bytes}
      {nodes : List Node}
      {signature : Option Bytes}
      {feed : Feed}
      (stats : Replicator.Stats)
      (isReplica : replica feed)
      (holds :
        ∀ other,
          core.has feed other =
            (core.has peer.feed other || decide (other = index))) :
      Reacts replica peer (.data index value nodes signature)
        { peer.stored index feed (!core.has peer.feed index) with
          stats := stats }
        []
  | ignored : Reacts replica peer .ignored peer []

end

section

variable
  {Store End Feed Signature : Type}
  {topology : Topology Store End}
  {core : Hypercore Feed Signature}
  {overflowChecks : Bool}
  {log : Nat → Bytes}
  {replica : Feed → Prop}
  {owner : Option Store}

/-! ## What the handlers do -/

/-- The announcement of one block is about that block. -/
theorem announcedIndices_one
    (core : Hypercore Feed Signature)
    (overflowChecks : Bool)
    {index : Nat}
    (small : index < windowLength) :
    Peer.announcedIndices core overflowChecks index none none =
      some [index] := by
  have noOverflow : index + 1 < 2 ^ 64 := by
    simp only [windowLength] at small
    omega
  have added : addU64 overflowChecks index 1 = some (index + 1) := by
    rw [addU64, if_pos noOverflow]
  simp only [Peer.announcedIndices, Option.getD_none, added,
    Option.map_some, Nat.add_sub_cancel_left, List.range'_one]

/-- A block that is held may be announced alone. -/
theorem announcesHeld_one
    {feed : Feed}
    {index : Nat}
    (small : index < windowLength)
    (holds : core.has feed index) :
    AnnouncesHeld core overflowChecks feed
      (.announce index none none none) := by
  refine ⟨rfl, [index], announcedIndices_one core overflowChecks small,
    List.nodup_singleton index, ?_⟩
  intro other isIndex
  rw [List.mem_singleton.mp isIndex]
  exact holds

/-- The bitfield of a window announces the blocks held in it. -/
theorem announcesHeld_bitfield
    (overflowChecks : Bool)
    (relays : Relays core log replica)
    {feed : Feed}
    (isReplica : replica feed) :
    ∃ rle,
      core.compress feed 0 windowLength = some rle ∧
        AnnouncesHeld core overflowChecks feed
          (.announce 0 (some windowLength) (some rle) none) ∧
        ∀ index,
          index < windowLength →
          core.has feed index →
          PeerSync.Brings core overflowChecks index
            (.announce 0 (some windowLength) (some rle) none) := by
  obtain ⟨rle, bits, compressed, parsed, isBit⟩ :=
    relays.roundTrip feed isReplica
  have announces :
      Peer.announcedIndices core overflowChecks 0 (some windowLength)
          (some rle) =
        some ((List.range bits.length).filter fun index =>
          bits.getD index false) := by
    rw [Peer.announcedIndices, parsed]
    rfl
  have isAnnounced :
      ∀ index,
        (index ∈ (List.range bits.length).filter fun index =>
            bits.getD index false) ↔
          index < windowLength ∧ core.has feed index := by
    intro index
    rw [Peer.mem_setBits, isBit]
    simp only [Bool.and_eq_true, decide_eq_true_eq]
  refine ⟨rle, compressed, ⟨rfl, _, announces,
    List.nodup_range.filter _, ?_⟩, ?_⟩
  · intro index member
    exact ((isAnnounced index).mp member).2
  · intro index small holds
    exact ⟨_, announces, (isAnnounced index).mpr ⟨small, holds⟩⟩

/-- Handling a `Want`: the last block at first, and the bitfield. -/
theorem reacts_onWant
    (relays : Relays core log replica)
    {peer : Peer Feed}
    (isReplica : replica peer.feed)
    (bounded : ∀ index, core.has peer.feed index → index < windowLength)
    (holdsLast :
      peer.remoteWant = false →
      0 < core.len peer.feed →
      core.has peer.feed (core.len peer.feed - 1)) :
    ∃ after sent,
      peer.onWant core 0 (some windowLength) = after.done sent ∧
        Reacts core overflowChecks log replica peer
          (.want 0 (some windowLength)) after sent := by
  obtain ⟨rle, compressed, announces, brings⟩ :=
    announcesHeld_bitfield overflowChecks relays isReplica
  refine ⟨_, _, by
    simp only [Peer.onWant, Option.getD_some, compressed]
    rfl, .wanted ?_ ?_ ?_⟩
  · split <;> simp
  · intro reply member
    rcases List.mem_append.mp member with isFirst | isBitfield
    · split at isFirst
      · next first =>
          simp only [Bool.and_eq_true, Bool.not_eq_true',
            decide_eq_true_eq] at first
          have holds := holdsLast first.1 first.2
          rw [List.mem_singleton.mp isFirst]
          exact announcesHeld_one (bounded _ holds) holds
      · cases isFirst
    · rw [List.mem_singleton.mp isBitfield]
      exact announces
  · intro index holds
    exact ⟨_, List.mem_append_right _ (List.mem_singleton.mpr rfl),
      brings index (bounded index holds) holds⟩

/-- Handling a request for a block that is held. -/
theorem reacts_onRequest
    (relays : Relays core log replica)
    {peer : Peer Feed}
    (isReplica : replica peer.feed)
    {index : Nat}
    (held : core.has peer.feed index) :
    ∃ after sent,
      peer.onRequest core index = after.done sent ∧
        Reacts core overflowChecks log replica peer (.request index)
          after sent := by
  obtain ⟨proof, proved⟩ := relays.proof peer.feed index isReplica held
  have got := relays.get peer.feed index isReplica held
  refine ⟨_, _, ?_,
    .requested (peer.stats.addUploaded 1 (log index).length) held
      proved⟩
  simp only [Peer.onRequest, got, proved]
  rfl

/-- Handling data that was taken from an instance of the log. -/
theorem reacts_onData
    (relays : Relays core log replica)
    {peer : Peer Feed}
    (isReplica : replica peer.feed)
    (noAck : peer.remoteAck = false)
    {giver : Feed}
    {index : Nat}
    {proof : Proof Signature}
    (isGiver : replica giver)
    (held : core.has giver index)
    (proved : core.proof giver index = some proof) :
    ∃ after sent,
      peer.onData core index (some (log index)) proof.nodes
          (proof.signature.map core.signatureToBytes) =
          after.done sent ∧
        Reacts core overflowChecks log replica peer
          (.data index (some (log index)) proof.nodes
            (proof.signature.map core.signatureToBytes))
          after sent := by
  obtain ⟨next, put, replicaNext, holds⟩ :=
    relays.put peer.feed giver index proof isReplica isGiver held proved
  have readable :
      Peer.readSignature core
          (proof.signature.map core.signatureToBytes) =
        some proof.signature := by
    cases signed : proof.signature with
    | none =>
        rfl
    | some signature =>
        have decodes :=
          relays.signature giver index proof signature isGiver proved
            signed
        simp [Peer.readSignature, decodes]
  refine ⟨_, [], ?_,
    .stored (peer.stats.addDownloaded 1 (log index).length) replicaNext
      holds⟩
  simp [Peer.onData, readable, put, Peer.stored, noAck]

/-- Every message that travels as it should is handled without an error. -/
theorem reacts_onMessage
    (relays : Relays core log replica)
    {feeds : Store → Feed}
    {sender receiver : Store}
    {peer : Peer Feed}
    {message : Message}
    (travels :
      Travels core overflowChecks log replica owner feeds sender
        receiver message)
    (isFeed : peer.feed = feeds receiver)
    (isReplica : replica peer.feed)
    (bounded : ∀ index, core.has peer.feed index → index < windowLength)
    (noAck : peer.remoteAck = false)
    (holdsLast :
      ∀ start length,
        message = .want start length →
        peer.remoteWant = false →
        0 < core.len peer.feed →
        core.has peer.feed (core.len peer.feed - 1)) :
    ∃ after sent,
      peer.onMessage core overflowChecks message = after.done sent ∧
        Reacts core overflowChecks log replica peer message after
          sent := by
  cases message with
  | openChannel =>
      exact ⟨_, _, rfl, .opened⟩
  | want start length =>
      obtain ⟨rfl, rfl⟩ := travels
      exact reacts_onWant relays isReplica bounded (holdsLast _ _ rfl)
  | announce start length bitfield ack =>
      obtain ⟨indices, announces, _⟩ := travels
      exact ⟨peer, _, PeerSync.onHave_sent announces peer,
        .announced announces⟩
  | request index =>
      obtain ⟨held, _⟩ := travels
      rw [← isFeed] at held
      exact reacts_onRequest relays isReplica held
  | data index value nodes signature =>
      obtain ⟨_, _, rfl, giver, proof, isGiver, held, proved, rfl, rfl⟩ :=
        travels
      exact reacts_onData relays isReplica noAck isGiver held proved
  | ignored =>
      exact ⟨peer, [], rfl, .ignored⟩

/-! ## What a handler changes -/

/-- The events that a handler queues for the loops of its store. -/
theorem Reacts.feedEvents
    {peer after : Peer Feed}
    {message : Message}
    {sent : List Message}
    (reacts :
      Reacts core overflowChecks log replica peer message after sent) :
    ∃ news,
      after.feedEvents = peer.feedEvents ++ news ∧
        ∀ event,
          event ∈ news ↔
            ∃ index,
              event = .download index ∧
                core.has after.feed index ∧
                core.has peer.feed index = false := by
  cases reacts with
  | @stored index value nodes signature feed stats isReplica holds =>
      refine ⟨if !core.has peer.feed index then [.download index] else [],
        ?_, ?_⟩
      · simp only [Peer.stored]
        split <;> simp
      · intro event
        simp only [Peer.stored, holds]
        constructor
        · intro member
          split at member
          · next isNew =>
              rw [List.mem_singleton.mp member]
              exact ⟨index, rfl, by simp, by simpa using isNew⟩
          · cases member
        · rintro ⟨other, rfl, has, lacked⟩
          rw [lacked, Bool.false_or, decide_eq_true_eq] at has
          subst other
          simp [lacked]
  | _ =>
      refine ⟨[], by simp, ?_⟩
      intro event
      constructor
      · intro member
        cases member
      · rintro ⟨index, rfl, has, lacked⟩
        simp only [lacked] at has
        cases has

/-! ## Stores only get more blocks -/

/-- The stores hold at least what they held. -/
def Grows
    (core : Hypercore Feed Signature)
    (before after : Store → Feed) : Prop :=
  ∀ store index,
    core.has (before store) index → core.has (after store) index

/-- A message stays right while the stores get more blocks. -/
theorem Travels.mono
    {before after : Store → Feed}
    (grows : Grows core before after)
    {sender receiver : Store}
    {message : Message}
    (travels :
      Travels core overflowChecks log replica owner before sender
        receiver message) :
    Travels core overflowChecks log replica owner after sender receiver
      message := by
  cases message with
  | openChannel =>
      trivial
  | want start length =>
      exact travels
  | announce start length bitfield ack =>
      obtain ⟨indices, announces, held⟩ := travels
      exact ⟨indices, announces, fun index member =>
        grows _ _ (held index member)⟩
  | request index =>
      exact ⟨grows _ _ travels.1, travels.2⟩
  | data index value nodes signature =>
      exact ⟨grows _ _ travels.1, travels.2⟩
  | ignored =>
      trivial

/-- An event stays right while the stores get more blocks. -/
theorem Heard.mono
    {before after : Store → Feed}
    (grows : Grows core before after)
    (longer :
      ∀ store,
        owner = some store →
        core.len (before store) ≤ core.len (after store))
    {store : Store}
    {event : FeedEvent}
    (heard : Heard core owner before store event) :
    Heard core owner after store event := by
  cases event with
  | download index =>
      exact grows _ _ heard
  | append =>
      obtain ⟨isOwner, positive⟩ := heard
      exact ⟨isOwner, positive.trans_le (longer store isOwner)⟩

/-- A network in which nothing is connected yet. -/
theorem sound_initial
    {feeds : Store → Feed}
    (replicas : ∀ store, replica (feeds store))
    (bounded :
      ∀ store index, core.has (feeds store) index → index < windowLength)
    (full :
      ∀ store,
        owner = some store →
        ∀ index,
          core.has (feeds store) index ↔ index < core.len (feeds store))
    (owned :
      ∀ store,
        owner = some store →
        ∀ other index,
          core.has (feeds other) index → core.has (feeds store) index) :
    Sound topology core overflowChecks log replica owner
      (initial End feeds) := by
  refine ⟨replicas, bounded, full, owned, ?_, ?_, ?_⟩
  · intro side loop isLoop
    cases isLoop
  · intro side loop isLoop
    cases isLoop
  · intro side message member
    cases member


variable
  [DecidableEq Store]
  {state : State Store End Feed}

/-- Replacing the feed of one store by one with more blocks. -/
theorem grows_update
    {feeds : Store → Feed}
    {store : Store}
    {feed : Feed}
    (keeps :
      ∀ index, core.has (feeds store) index → core.has feed index) :
    Grows core feeds (Function.update feeds store feed) := by
  intro other index holds
  by_cases same : other = store
  · subst other
    rw [Function.update_self]
    exact keeps index holds
  · rw [Function.update_of_ne same]
    exact holds

/-- What stays true of the feeds when a store gets blocks of another. -/
theorem Sound.feeds_update
    (sound :
      Sound topology core overflowChecks log replica owner state)
    {store : Store}
    {feed : Feed}
    (isReplica : replica feed)
    (ofOwner : owner = some store → feed = state.feeds store)
    (fromOthers :
      ∀ index,
        core.has feed index →
        ∃ other, core.has (state.feeds other) index) :
    (∀ other, replica (Function.update state.feeds store feed other)) ∧
      (∀ other index,
        core.has (Function.update state.feeds store feed other) index →
        index < windowLength) ∧
      ∀ holder,
        owner = some holder →
        Function.update state.feeds store feed holder =
            state.feeds holder ∧
          ∀ other index,
            core.has (Function.update state.feeds store feed other)
              index →
            core.has (state.feeds holder) index := by
  have source :
      ∀ other index,
        core.has (Function.update state.feeds store feed other) index →
        ∃ origin, core.has (state.feeds origin) index := by
    intro other index holds
    by_cases same : other = store
    · subst other
      rw [Function.update_self] at holds
      exact fromOthers index holds
    · rw [Function.update_of_ne same] at holds
      exact ⟨other, holds⟩
  refine ⟨?_, ?_, ?_⟩
  · intro other
    by_cases same : other = store
    · subst other
      rw [Function.update_self]
      exact isReplica
    · rw [Function.update_of_ne same]
      exact sound.replicas other
  · intro other index holds
    obtain ⟨origin, before⟩ := source other index holds
    exact sound.bounded origin index before
  · intro holder isOwner
    constructor
    · by_cases same : holder = store
      · subst holder
        rw [Function.update_self]
        exact ofOwner isOwner
      · rw [Function.update_of_ne same]
    · intro other index holds
      obtain ⟨origin, before⟩ := source other index holds
      exact sound.owned holder isOwner origin index before

/-- What a store gets from outside of its loops. -/
theorem Sound.grow
    (sound :
      Sound topology core overflowChecks log replica owner state)
    {store : Store}
    {feed : Feed}
    {events : List FeedEvent}
    (isReplica : replica feed)
    (bounded : ∀ index, core.has feed index → index < windowLength)
    (keeps :
      ∀ index,
        core.has (state.feeds store) index → core.has feed index)
    (ofOwner :
      owner = some store →
      core.len (state.feeds store) ≤ core.len feed ∧
        ∀ index, core.has feed index ↔ index < core.len feed)
    (owned :
      ∀ holder,
        owner = some holder →
        holder ≠ store →
        ∀ index,
          core.has feed index → core.has (state.feeds holder) index)
    (heard :
      ∀ event ∈ events,
        Heard core owner (Function.update state.feeds store feed) store
          event) :
    Sound topology core overflowChecks log replica owner
      (state.grow topology store events feed) := by
  have grows :
      Grows core state.feeds (Function.update state.feeds store feed) :=
    grows_update keeps
  have notShorter :
      ∀ other,
        owner = some other →
        core.len (state.feeds other) ≤
          core.len (Function.update state.feeds store feed other) := by
    intro other isOther
    by_cases same : other = store
    · subst other
      rw [Function.update_self]
      exact (ofOwner isOther).1
    · rw [Function.update_of_ne same]
  refine ⟨?_, ?_, ?_, ?_, ?_, ?_, ?_⟩
  · intro other
    by_cases same : other = store
    · subst other
      simp only [State.grow, Function.update_self]
      exact isReplica
    · simp only [State.grow, Function.update_of_ne same]
      exact sound.replicas other
  · intro other index has
    by_cases same : other = store
    · subst other
      simp only [State.grow, Function.update_self] at has
      exact bounded index has
    · simp only [State.grow, Function.update_of_ne same] at has
      exact sound.bounded other index has
  · intro other isOther
    by_cases same : other = store
    · subst other
      simp only [State.grow, Function.update_self]
      exact (ofOwner isOther).2
    · simp only [State.grow, Function.update_of_ne same]
      exact sound.full other isOther
  · intro other isOther holder index has
    by_cases isStore : holder = store
    · subst holder
      by_cases same : other = store
      · subst other
        exact has
      · simp only [State.grow, Function.update_self,
          Function.update_of_ne same] at has ⊢
        exact owned other isOther same index has
    · simp only [State.grow, Function.update_of_ne isStore] at has
      exact grows other index (sound.owned other isOther holder index has)
  · intro side loop isLoop
    simp only [State.grow] at isLoop
    split at isLoop
    · obtain ⟨before, found, rfl⟩ := Option.map_eq_some_iff.mp isLoop
      exact sound.running side before found
    · exact sound.running side loop isLoop
  · intro side loop isLoop event member
    simp only [State.grow] at isLoop ⊢
    split at isLoop
    · next sameStore =>
        obtain ⟨before, found, rfl⟩ := Option.map_eq_some_iff.mp isLoop
        rcases List.mem_append.mp member with old | isNew
        · exact (sound.heard side before found event old).mono grows
            notShorter
        · rw [sameStore]
          exact heard event isNew
    · exact (sound.heard side loop isLoop event member).mono grows
        notShorter
  · intro side message member
    exact (sound.travels side message member).mono grows

/-- The owner appends a block. -/
theorem Sound.appended
    (sound :
      Sound topology core overflowChecks log replica owner state)
    {store : Store}
    {feed : Feed}
    (isOwner : owner = some store)
    (isReplica : replica feed)
    (small : core.len (state.feeds store) < windowLength)
    (longer : core.len feed = core.len (state.feeds store) + 1)
    (holds :
      ∀ other,
        core.has feed other =
          (core.has (state.feeds store) other ||
            decide (other = core.len (state.feeds store)))) :
    Sound topology core overflowChecks log replica owner
      (state.grow topology store [.append] feed) := by
  have isFull :
      ∀ index, core.has feed index ↔ index < core.len feed := by
    intro index
    have before := sound.full store isOwner index
    rw [holds, longer, Bool.or_eq_true, decide_eq_true_eq, before]
    omega
  refine sound.grow isReplica ?_ ?_ ?_ ?_ ?_
  · intro index has
    have below := (isFull index).mp has
    omega
  · intro index has
    rw [holds, has, Bool.true_or]
  · intro _
    exact ⟨by omega, isFull⟩
  · intro other isOther different
    rw [isOwner] at isOther
    exact absurd (Option.some.inj isOther).symm different
  · intro event isNew
    rw [List.mem_singleton.mp isNew]
    refine ⟨isOwner, ?_⟩
    rw [Function.update_self]
    omega

end

end Hyperspace.FeedNetwork
