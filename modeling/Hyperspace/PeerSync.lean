import Hyperspace.Peer

namespace Hyperspace.PeerSync

/-!
# Initial sync of two peers

Two peer loops for one feed are joined by two FIFO channels.  One side, the
holder, has every block below a limit; the other, the learner, has some of
them.  Nobody appends.

The invariant says, for every block that the learner lacks, where the blame is:
the learner has not yet started, or a message is in flight that leads to the
block.  A `Want` of the learner leads to an announcement of everything the
holder has, an announcement to requests, a request to the data.
-/

/-- The two sides. -/
inductive Party where
  | holder
  | learner
  deriving Repr, DecidableEq

/-- One loop, the messages in flight to it, and the messages it has sent. -/
structure Side (Feed : Type) where
  peer : Peer Feed
  inbox : List Message
  sent : List Message
  phase : LoopPhase

/-- Both loops. -/
structure Session (Feed : Type) where
  holder : Side Feed
  learner : Side Feed

/-- What can happen. -/
inductive Action where
  /-- A loop executes `on_open` and starts. -/
  | start (party : Party)
  | deliver (party : Party)
  | feedEvent (party : Party)
  /-- An `Open` message is sent to a loop. -/
  | reopen (party : Party)
  deriving Repr, DecidableEq

section

variable {Feed : Type}

/-- A loop that has subscribed to its feed. -/
def Side.subscribed (feed : Feed) (stats : Replicator.Stats) : Side Feed where
  peer := Peer.new feed stats
  inbox := []
  sent := []
  phase := .starting

/-- Messages are put into the channel to a loop. -/
def Side.receive (side : Side Feed) (messages : List Message) : Side Feed :=
  { side with inbox := side.inbox ++ messages }

/-- A loop after a handler, with what is then left in its channel. -/
def Side.after
    (side : Side Feed)
    (rest : List Message)
    (turn : Turn Feed) : Side Feed where
  peer := turn.peer
  inbox := rest
  sent := side.sent ++ turn.sent
  phase := turn.phase

namespace Session

/-- The loop of a party. -/
def side (session : Session Feed) : Party → Side Feed
  | .holder => session.holder
  | .learner => session.learner

/-- A party has run a handler; the other one receives what it sent. -/
def after
    (session : Session Feed)
    (party : Party)
    (rest : List Message)
    (turn : Turn Feed) : Session Feed :=
  match party with
  | .holder =>
      { holder := session.holder.after rest turn
        learner := session.learner.receive turn.sent }
  | .learner =>
      { holder := session.holder.receive turn.sent
        learner := session.learner.after rest turn }

/-- A message is put into the channel to a party. -/
def post
    (session : Session Feed)
    (party : Party)
    (message : Message) : Session Feed :=
  match party with
  | .holder => { session with holder := session.holder.receive [message] }
  | .learner =>
      { session with learner := session.learner.receive [message] }

end Session

end

section

variable
  {Feed Signature : Type}
  (core : Hypercore Feed Signature)
  (overflowChecks : Bool)

/-- One step of a session. -/
def step (session : Session Feed) : Action → Option (Session Feed)
  | .start party =>
      let side := session.side party
      match side.phase with
      | .starting =>
          some (session.after party side.inbox side.peer.onOpen)
      | _ => none
  | .deliver party =>
      let side := session.side party
      match side.phase, side.inbox with
      | .looping, message :: rest =>
          some (session.after party rest
            (side.peer.onMessage core overflowChecks message))
      | _, _ => none
  | .feedEvent party =>
      let side := session.side party
      match side.phase, side.peer.feedEvents with
      | .looping, event :: rest =>
          some (session.after party side.inbox
            ({ side.peer with feedEvents := rest }.onFeedEvent core
              overflowChecks event))
      | _, _ => none
  | .reopen party => some (session.post party .openChannel)

/-- Both loops run, and nothing is in flight or pending. -/
def Session.Quiescent (session : Session Feed) : Prop :=
  session.holder.phase = .looping ∧ session.learner.phase = .looping ∧
    session.holder.inbox = [] ∧ session.learner.inbox = [] ∧
    session.holder.peer.feedEvents = [] ∧
    session.learner.peer.feedEvents = []

/--
What is assumed of the dependencies, for the holder's feed and the feeds that
are replicas of it.
-/
structure Serves (source : Feed) (replica : Feed → Prop) : Prop where
  isReplica : replica source
  /-- The bitfield of the first window survives encoding and decoding. -/
  roundTrip :
    ∀ feed,
      replica feed →
      ∃ rle bits,
        core.compress feed 0 windowLength = some rle ∧
          Peer.parseBitfield core rle = some bits ∧
          ∀ index,
            bits.getD index false =
              (decide (index < windowLength) && core.has feed index)
  get :
    ∀ index,
      core.has source index →
      ∃ value, core.get source index = some (some value)
  proof :
    ∀ index,
      core.has source index →
      ∃ proof, core.proof source index = some proof
  signature :
    ∀ signature,
      core.signatureOfBytes (core.signatureToBytes signature) =
        some signature
  /-- A block of the source can be put into every replica. -/
  put :
    ∀ feed index value proof,
      replica feed →
      core.has source index →
      core.get source index = some (some value) →
      core.proof source index = some proof →
      ∃ next queued,
        core.put feed index (some value)
            ⟨index, proof.nodes, proof.signature⟩ =
            some (next, queued) ∧
          replica next ∧
          (∀ other,
            core.has next other =
              (core.has feed other || decide (other = index))) ∧
          core.len next ≤ max (core.len feed) (core.len source)

/-! ## Messages in flight -/

variable (source : Feed) (limit : Nat)

/-- Messages that both sides send: they announce only blocks below the limit. -/
def Common : Message → Prop
  | .openChannel => True
  | .want start length => start = 0 ∧ length = some windowLength
  | .announce start length bitfield _ =>
      ∃ indices,
        Peer.announcedIndices core overflowChecks start length bitfield =
            some indices ∧
          ∀ index ∈ indices, index < limit
  | .request _ => False
  | .data _ _ _ _ => False
  | .ignored => False

/-- Messages that the holder sends: data is taken from its feed. -/
def FromHolder : Message → Prop
  | .data index value nodes signature =>
      core.has source index ∧
        ∃ block proof,
          value = some block ∧
            core.get source index = some (some block) ∧
            core.proof source index = some proof ∧
            nodes = proof.nodes ∧
            signature = proof.signature.map core.signatureToBytes
  | message => Common core overflowChecks limit message

/-- Messages that the learner sends: it requests blocks below the limit. -/
def FromLearner : Message → Prop
  | .request index => index < limit
  | message => Common core overflowChecks limit message

/-- A message to the holder that leads to a block. -/
def Asks (index : Nat) : Message → Prop
  | .want start length => start = 0 ∧ length = some windowLength
  | .request wanted => wanted = index
  | _ => False

/-- A message to the learner that leads to a block. -/
def Brings (index : Nat) : Message → Prop
  | .announce start length bitfield _ =>
      ∃ indices,
        Peer.announcedIndices core overflowChecks start length bitfield =
            some indices ∧
          index ∈ indices
  | .data brought _ _ _ => brought = index
  | _ => False

/-- The holder's loop: its feed does not change. -/
structure HolderPeer (peer : Peer Feed) : Prop where
  feed : peer.feed = source
  feedEvents : peer.feedEvents = []

/-- The learner's loop: its feed is a replica with blocks below the limit. -/
structure LearnerPeer
    (replica : Feed → Prop)
    (limit : Nat)
    (peer : Peer Feed) : Prop where
  isReplica : replica peer.feed
  bounded : ∀ index, core.has peer.feed index → index < limit
  length : core.len peer.feed ≤ limit
  remoteAck : peer.remoteAck = false
  feedEvents :
    ∀ event ∈ peer.feedEvents, ∃ index < limit, event = .download index

end

section

variable
  {Feed Signature : Type}
  {core : Hypercore Feed Signature}
  {overflowChecks : Bool}
  {source : Feed}
  {replica : Feed → Prop}
  {limit : Nat}

/-! ## What the handlers send -/

/-- A bitfield announces the indices of its set bits. -/
theorem announcedIndices_bitfield
    (overflowChecks : Bool)
    {rle : Bytes}
    {bits : List Bool}
    (parsed : Peer.parseBitfield core rle = some bits)
    (start : Nat)
    (length : Option Nat) :
    ∃ indices,
      Peer.announcedIndices core overflowChecks start length
          (some rle) = some indices ∧
        ∀ index, index ∈ indices ↔ bits.getD index false = true := by
  refine ⟨_, by rw [Peer.announcedIndices, parsed]; rfl, ?_⟩
  exact fun index => Peer.mem_setBits

/-- An announcement of one block below the limit. -/
theorem common_announce_one
    (fits : limit < 2 ^ 64)
    {index : Nat}
    (below : index < limit) :
    Common core overflowChecks limit (.announce index none none none) := by
  have noOverflow : index + 1 < 2 ^ 64 := by omega
  have added : addU64 overflowChecks index 1 = some (index + 1) := by
    rw [addU64, if_pos noOverflow]
  refine ⟨[index], ?_, by simpa using below⟩
  simp only [Peer.announcedIndices, Option.getD_none, added,
    Option.map_some, Nat.add_sub_cancel_left, List.range'_one]

/--
Handling a `Want` for the first window announces every block that the feed has
there, and nothing at or above the limit.
-/
theorem onWant_window
    (overflowChecks : Bool)
    (serves : Serves core source replica)
    (fits : limit < 2 ^ 64)
    (peer : Peer Feed)
    (isReplica : replica peer.feed)
    (bounded : ∀ index, core.has peer.feed index → index < limit)
    (length : core.len peer.feed ≤ limit) :
    ∃ sent,
      peer.onWant core 0 (some windowLength) =
          { peer with remoteWant := true }.done sent ∧
        (∀ message ∈ sent, Common core overflowChecks limit message) ∧
        ∀ index,
          index < windowLength →
          core.has peer.feed index →
          ∃ message ∈ sent,
            Brings core overflowChecks index message := by
  obtain ⟨rle, bits, compressed, parsed, isBit⟩ :=
    serves.roundTrip peer.feed isReplica
  obtain ⟨indices, announces, isIndex⟩ :=
    announcedIndices_bitfield overflowChecks parsed 0
      (some windowLength)
  have isAnnounced :
      ∀ index,
        index ∈ indices ↔
          index < windowLength ∧ core.has peer.feed index := by
    intro index
    rw [isIndex, isBit]
    simp only [Bool.and_eq_true, decide_eq_true_eq]
  refine ⟨_, by
    simp only [Peer.onWant, Option.getD_some, compressed]
    rfl, ?_, ?_⟩
  · intro message member
    rcases List.mem_append.mp member with isFirst | isBitfield
    · split at isFirst
      · next first =>
          have positive : 0 < core.len peer.feed := by
            simp only [Bool.and_eq_true, decide_eq_true_eq] at first
            exact first.2
          rw [List.mem_singleton.mp isFirst]
          exact common_announce_one fits (by omega)
      · cases isFirst
    · rw [List.mem_singleton.mp isBitfield]
      exact ⟨indices, announces, fun index announced =>
        bounded index ((isAnnounced index).mp announced).2⟩
  · intro index inWindow has
    exact ⟨_, List.mem_append_right _ (List.mem_singleton.mpr rfl),
      indices, announces, (isAnnounced index).mpr ⟨inWindow, has⟩⟩

/-- Handling an announcement requests what is announced and missing. -/
theorem onHave_sent
    {start : Nat}
    {length : Option Nat}
    {bitfield : Option Bytes}
    {indices : List Nat}
    (announces :
      Peer.announcedIndices core overflowChecks start length bitfield =
        some indices)
    (peer : Peer Feed) :
    peer.onHave core overflowChecks start length bitfield =
      peer.done
        ((indices.filter fun index =>
          !core.has peer.feed index).map .request) := by
  simp [Peer.onHave, announces]

/-- A common message may come from the learner. -/
theorem fromLearner_of_common
    {message : Message}
    (common : Common core overflowChecks limit message) :
    FromLearner core overflowChecks limit message := by
  cases message <;> first | exact common | exact common.elim

/-- A common message may come from the holder. -/
theorem fromHolder_of_common
    {message : Message}
    (common : Common core overflowChecks limit message) :
    FromHolder core overflowChecks source limit message := by
  cases message <;> first | exact common | exact common.elim

/-! ## The holder -/

/-- Every message of the learner is handled by the holder without an error. -/
theorem holder_onMessage
    (serves : Serves core source replica)
    (fits : limit < 2 ^ 64)
    (full : ∀ index, core.has source index = decide (index < limit))
    (length : core.len source = limit)
    {peer : Peer Feed}
    (isHolder : HolderPeer source peer)
    {message : Message}
    (fromLearner :
      FromLearner core overflowChecks limit message) :
    ∃ after sent,
      peer.onMessage core overflowChecks message = after.done sent ∧
        HolderPeer source after ∧
        (∀ reply ∈ sent,
          FromHolder core overflowChecks source limit reply) ∧
        ∀ index,
          index < limit →
          index < windowLength →
          Asks index message →
          ∃ reply ∈ sent, Brings core overflowChecks index reply := by
  have has :
      ∀ index, core.has peer.feed index ↔ index < limit := by
    intro index
    rw [isHolder.feed, full]
    simp
  cases message with
  | openChannel =>
      refine ⟨_, _, rfl, ⟨isHolder.feed, isHolder.feedEvents⟩, ?_, ?_⟩
      · simp [FromHolder, Common]
      · intro index _ _ asks
        exact asks.elim
  | want start length =>
      obtain ⟨rfl, rfl⟩ := fromLearner
      obtain ⟨sent, handled, common, brings⟩ :=
        onWant_window overflowChecks serves fits peer
          (by rw [isHolder.feed]; exact serves.isReplica)
          (fun index holds => (has index).mp holds)
          (by rw [isHolder.feed, length])
      refine ⟨_, sent, handled, ⟨isHolder.feed, isHolder.feedEvents⟩,
        ?_, ?_⟩
      · intro reply member
        exact fromHolder_of_common (common reply member)
      · intro index below inWindow _
        exact brings index inWindow ((has index).mpr below)
  | announce start length bitfield ack =>
      obtain ⟨indices, announces, below⟩ := fromLearner
      have nothing :
          (indices.filter fun index =>
            !core.has peer.feed index) = [] := by
        rw [List.filter_eq_nil_iff]
        intro index member
        simp [(has index).mpr (below index member)]
      refine ⟨peer, [], ?_, isHolder, by simp, ?_⟩
      · rw [Peer.onMessage, onHave_sent announces, nothing]
        rfl
      · intro index _ _ asks
        exact asks.elim
  | request index =>
      have below : index < limit := fromLearner
      have held : core.has source index := by
        rw [full]
        simpa using below
      obtain ⟨value, got⟩ := serves.get index held
      obtain ⟨proof, proved⟩ := serves.proof index held
      refine ⟨
        { peer with stats := peer.stats.addUploaded 1 value.length },
        [.data index (some value) proof.nodes
          (proof.signature.map core.signatureToBytes)],
        by simp [Peer.onMessage, Peer.onRequest, isHolder.feed, got,
          proved],
        ⟨isHolder.feed, isHolder.feedEvents⟩, ?_, ?_⟩
      · intro reply member
        rw [List.mem_singleton.mp member]
        exact ⟨held, value, proof, rfl, got, proved, rfl, rfl⟩
      · intro other _ _ asks
        exact ⟨_, List.mem_singleton.mpr rfl, asks⟩
  | data index value nodes signature =>
      exact fromLearner.elim
  | ignored =>
      exact fromLearner.elim

/-! ## The learner -/

/-- The learner stores a block of the holder. -/
theorem learner_onData
    (serves : Serves core source replica)
    (full : ∀ index, core.has source index = decide (index < limit))
    (length : core.len source = limit)
    {peer : Peer Feed}
    (isLearner : LearnerPeer core replica limit peer)
    {index : Nat}
    {value : Option Bytes}
    {nodes : List Node}
    {signature : Option Bytes}
    (fromHolder :
      FromHolder core overflowChecks source limit
        (.data index value nodes signature)) :
    ∃ after,
      peer.onData core index value nodes signature = after.done [] ∧
        LearnerPeer core replica limit after ∧
        core.has after.feed index ∧
        ∀ other, core.has peer.feed other → core.has after.feed other := by
  obtain ⟨held, block, proof, rfl, got, proved, rfl, rfl⟩ := fromHolder
  obtain ⟨next, queued, put, isReplica, has, shorter⟩ :=
    serves.put peer.feed index block proof isLearner.isReplica held got
      proved
  have below : index < limit := by
    rw [full] at held
    simpa using held
  have readable :
      Peer.readSignature core
          (proof.signature.map core.signatureToBytes) =
        some proof.signature := by
    cases proof.signature with
    | none =>
        rfl
    | some signature =>
        simp [Peer.readSignature, serves.signature]
  refine ⟨
    { peer.stored index next queued with
      stats := peer.stats.addDownloaded 1 block.length },
    ?_, ?_, ?_, ?_⟩
  · simp [Peer.onData, readable, put, Peer.stored,
      isLearner.remoteAck]
  · refine ⟨isReplica, ?_, ?_, isLearner.remoteAck, ?_⟩
    · intro other hasOther
      simp only [Peer.stored, has, Bool.or_eq_true,
        decide_eq_true_eq] at hasOther
      rcases hasOther with before | isIndex
      · exact isLearner.bounded other before
      · rw [isIndex]
        exact below
    · have before := isLearner.length
      simp only [Peer.stored]
      omega
    · intro event member
      simp only [Peer.stored] at member
      split at member
      · rcases List.mem_append.mp member with before | isNew
        · exact isLearner.feedEvents event before
        · exact ⟨index, below, List.mem_singleton.mp isNew⟩
      · exact isLearner.feedEvents event member
  · simp [Peer.stored, has]
  · intro other hasOther
    simp [Peer.stored, has, hasOther]

/-- Every message of the holder is handled by the learner without an error. -/
theorem learner_onMessage
    (serves : Serves core source replica)
    (fits : limit < 2 ^ 64)
    (full : ∀ index, core.has source index = decide (index < limit))
    (length : core.len source = limit)
    {peer : Peer Feed}
    (isLearner : LearnerPeer core replica limit peer)
    {message : Message}
    (fromHolder :
      FromHolder core overflowChecks source limit message) :
    ∃ after sent,
      peer.onMessage core overflowChecks message = after.done sent ∧
        LearnerPeer core replica limit after ∧
        (∀ reply ∈ sent, FromLearner core overflowChecks limit reply) ∧
        ∀ index,
          core.has peer.feed index ∨
            Brings core overflowChecks index message →
          core.has after.feed index ∨ ∃ reply ∈ sent, Asks index reply := by
  cases message with
  | openChannel =>
      refine ⟨_, _, rfl, ⟨isLearner.isReplica, isLearner.bounded,
        isLearner.length, isLearner.remoteAck, isLearner.feedEvents⟩,
        ?_, ?_⟩
      · simp [FromLearner, Common]
      · rintro index (has | brings)
        · exact Or.inl has
        · exact brings.elim
  | want start wanted =>
      obtain ⟨rfl, rfl⟩ := fromHolder
      obtain ⟨sent, handled, common, _⟩ :=
        onWant_window overflowChecks serves fits peer
          isLearner.isReplica isLearner.bounded isLearner.length
      refine ⟨_, sent, handled, ⟨isLearner.isReplica,
        isLearner.bounded, isLearner.length, isLearner.remoteAck,
        isLearner.feedEvents⟩, ?_, ?_⟩
      · intro reply member
        exact fromLearner_of_common (common reply member)
      · rintro index (has | brings)
        · exact Or.inl has
        · exact brings.elim
  | announce start announced bitfield ack =>
      obtain ⟨indices, announces, below⟩ := fromHolder
      refine ⟨peer, _, onHave_sent announces peer, isLearner, ?_, ?_⟩
      · intro reply member
        obtain ⟨index, missing, rfl⟩ := List.mem_map.mp member
        exact below index (List.mem_filter.mp missing).1
      · rintro index (has | ⟨others, announcesToo, member⟩)
        · exact Or.inl has
        · rw [announces] at announcesToo
          cases announcesToo
          by_cases has : core.has peer.feed index
          · exact Or.inl has
          · refine Or.inr ⟨.request index, ?_, rfl⟩
            refine List.mem_map.mpr ⟨index, ?_, rfl⟩
            exact List.mem_filter.mpr ⟨member, by simp [has]⟩
  | data index value nodes signature =>
      obtain ⟨after, handled, isLearnerAfter, stored, keeps⟩ :=
        learner_onData serves full length isLearner fromHolder
      refine ⟨after, [], handled, isLearnerAfter, by simp, ?_⟩
      rintro other (has | brings)
      · exact Or.inl (keeps other has)
      · have isIndex : index = other := brings
        subst other
        exact Or.inl stored
  | request index =>
      exact fromHolder.elim
  | ignored =>
      exact fromHolder.elim

/-- The learner announces a block that it has downloaded. -/
theorem learner_onFeedEvent
    (overflowChecks : Bool)
    (fits : limit < 2 ^ 64)
    {peer : Peer Feed}
    (isLearner : LearnerPeer core replica limit peer)
    {event : FeedEvent}
    {rest : List FeedEvent}
    (taken : peer.feedEvents = event :: rest) :
    ∃ sent,
      ({ peer with feedEvents := rest } : Peer Feed).onFeedEvent core
          overflowChecks event =
          ({ peer with feedEvents := rest } : Peer Feed).done sent ∧
        LearnerPeer core replica limit
          { peer with feedEvents := rest } ∧
        ∀ reply ∈ sent, FromLearner core overflowChecks limit reply := by
  obtain ⟨index, below, rfl⟩ :=
    isLearner.feedEvents event (by simp [taken])
  refine ⟨_, rfl, ?_, ?_⟩
  · refine ⟨isLearner.isReplica, isLearner.bounded, isLearner.length,
      isLearner.remoteAck, ?_⟩
    intro other member
    exact isLearner.feedEvents other (by simp [taken, member])
  · intro reply member
    rw [List.mem_singleton.mp member]
    exact common_announce_one fits below

end

/-! ## The session -/

/-- What the two loops and the messages between them are like. -/
structure Exchanging
    {Feed Signature : Type}
    (core : Hypercore Feed Signature)
    (overflowChecks : Bool)
    (source : Feed)
    (replica : Feed → Prop)
    (limit : Nat)
    (session : Session Feed) : Prop where
  holder : HolderPeer source session.holder.peer
  learner : LearnerPeer core replica limit session.learner.peer
  holderRuns : session.holder.phase ≠ .ended
  learnerRuns : session.learner.phase ≠ .ended
  toHolder :
    ∀ message ∈ session.holder.inbox,
      FromLearner core overflowChecks limit message
  toLearner :
    ∀ message ∈ session.learner.inbox,
      FromHolder core overflowChecks source limit message
  holderSent :
    ∀ message ∈ session.holder.sent,
      FromHolder core overflowChecks source limit message

/--
What a step of such a session is.  The holder has no feed events, and no
handler fails.
-/
inductive Moves
    {Feed Signature : Type}
    (core : Hypercore Feed Signature)
    (overflowChecks : Bool)
    (source : Feed)
    (replica : Feed → Prop)
    (limit : Nat)
    (session : Session Feed) : Session Feed → Prop where
  | post (party : Party) :
      Moves core overflowChecks source replica limit session
        (session.post party .openChannel)
  | holderStarts :
      session.holder.phase = .starting →
      Moves core overflowChecks source replica limit session
        (session.after .holder session.holder.inbox
          session.holder.peer.onOpen)
  | holderHandles
      {message : Message}
      {rest sent : List Message}
      {after : Peer Feed}
      (looping : session.holder.phase = .looping)
      (taken : session.holder.inbox = message :: rest)
      (handled :
        session.holder.peer.onMessage core overflowChecks message =
          after.done sent)
      (isHolder : HolderPeer source after)
      (fromHolder :
        ∀ reply ∈ sent,
          FromHolder core overflowChecks source limit reply)
      (answers :
        ∀ index,
          index < limit →
          index < windowLength →
          Asks index message →
          ∃ reply ∈ sent, Brings core overflowChecks index reply) :
      Moves core overflowChecks source replica limit session
        (session.after .holder rest (after.done sent))
  | learnerStarts :
      session.learner.phase = .starting →
      Moves core overflowChecks source replica limit session
        (session.after .learner session.learner.inbox
          session.learner.peer.onOpen)
  | learnerHandles
      {message : Message}
      {rest sent : List Message}
      {after : Peer Feed}
      (looping : session.learner.phase = .looping)
      (taken : session.learner.inbox = message :: rest)
      (handled :
        session.learner.peer.onMessage core overflowChecks message =
          after.done sent)
      (isLearner : LearnerPeer core replica limit after)
      (fromLearner :
        ∀ reply ∈ sent, FromLearner core overflowChecks limit reply)
      (answers :
        ∀ index,
          core.has session.learner.peer.feed index ∨
            Brings core overflowChecks index message →
          core.has after.feed index ∨ ∃ reply ∈ sent, Asks index reply) :
      Moves core overflowChecks source replica limit session
        (session.after .learner rest (after.done sent))
  | learnerAnnounces
      {event : FeedEvent}
      {rest : List FeedEvent}
      {sent : List Message}
      (looping : session.learner.phase = .looping)
      (taken : session.learner.peer.feedEvents = event :: rest)
      (handled :
        ({ session.learner.peer with
            feedEvents := rest } : Peer Feed).onFeedEvent core
            overflowChecks event =
          Peer.done { session.learner.peer with feedEvents := rest }
            sent)
      (isLearner :
        LearnerPeer core replica limit
          { session.learner.peer with feedEvents := rest })
      (fromLearner :
        ∀ reply ∈ sent, FromLearner core overflowChecks limit reply) :
      Moves core overflowChecks source replica limit session
        (session.after .learner session.learner.inbox
          (Peer.done { session.learner.peer with feedEvents := rest }
            sent))

/-- Every block of the source is held, or is asked for or under way. -/
structure Converging
    {Feed Signature : Type}
    (core : Hypercore Feed Signature)
    (overflowChecks : Bool)
    (source : Feed)
    (replica : Feed → Prop)
    (limit : Nat)
    (session : Session Feed) : Prop
    extends Exchanging core overflowChecks source replica limit
      session where
  covered :
    ∀ index < limit,
      core.has session.learner.peer.feed index ∨
        session.learner.phase = .starting ∨
        (∃ message ∈ session.holder.inbox, Asks index message) ∨
        ∃ message ∈ session.learner.inbox,
          Brings core overflowChecks index message

section

variable
  {Feed Signature : Type}
  {core : Hypercore Feed Signature}
  {overflowChecks : Bool}
  {source : Feed}
  {replica : Feed → Prop}
  {limit : Nat}
  {session next : Session Feed}

/-- Every step of such a session is one of these. -/
theorem Exchanging.moves
    (serves : Serves core source replica)
    (fits : limit < 2 ^ 64)
    (full : ∀ index, core.has source index = decide (index < limit))
    (length : core.len source = limit)
    (exchanging :
      Exchanging core overflowChecks source replica limit session)
    {action : Action}
    (stepped :
      step core overflowChecks session action = some next) :
    Moves core overflowChecks source replica limit session next := by
  cases action with
  | reopen party =>
      cases stepped
      exact .post party
  | start party =>
      simp only [step] at stepped
      split at stepped
      · next starting =>
          cases stepped
          cases party with
          | holder => exact .holderStarts starting
          | learner => exact .learnerStarts starting
      · cases stepped
  | deliver party =>
      simp only [step] at stepped
      split at stepped
      · next message rest looping taken =>
          cases stepped
          cases party with
          | holder =>
              obtain ⟨after, sent, handled, isHolder, fromHolder,
                  answers⟩ :=
                holder_onMessage serves fits full length
                  exchanging.holder
                  (exchanging.toHolder message (by
                    simp only [Session.side] at taken
                    simp [taken]))
              simp only [Session.side, handled]
              exact .holderHandles looping taken handled isHolder
                fromHolder answers
          | learner =>
              obtain ⟨after, sent, handled, isLearner, fromLearner,
                  answers⟩ :=
                learner_onMessage serves fits full length
                  exchanging.learner
                  (exchanging.toLearner message (by
                    simp only [Session.side] at taken
                    simp [taken]))
              simp only [Session.side, handled]
              exact .learnerHandles looping taken handled isLearner
                fromLearner answers
      · cases stepped
  | feedEvent party =>
      simp only [step] at stepped
      split at stepped
      · next event rest looping taken =>
          cases stepped
          cases party with
          | holder =>
              simp only [Session.side] at taken
              rw [exchanging.holder.feedEvents] at taken
              cases taken
          | learner =>
              obtain ⟨sent, handled, isLearner, fromLearner⟩ :=
                learner_onFeedEvent overflowChecks fits
                  exchanging.learner taken
              simp only [Session.side, handled]
              exact .learnerAnnounces looping taken handled isLearner
                fromLearner
      · cases stepped

/-- The holder has run a handler. -/
theorem Exchanging.afterHolder
    (exchanging :
      Exchanging core overflowChecks source replica limit session)
    {rest : List Message}
    {after : Peer Feed}
    {sent : List Message}
    (isHolder : HolderPeer source after)
    (kept : ∀ message ∈ rest, message ∈ session.holder.inbox)
    (fromHolder :
      ∀ reply ∈ sent,
        FromHolder core overflowChecks source limit reply) :
    Exchanging core overflowChecks source replica limit
      (session.after .holder rest (after.done sent)) where
  holder := isHolder
  learner := exchanging.learner
  holderRuns := by
    simp [Session.after, Side.after, Turn.phase, Peer.done]
  learnerRuns := exchanging.learnerRuns
  toHolder := fun message member =>
    exchanging.toHolder message (kept message member)
  toLearner := by
    intro message member
    rcases List.mem_append.mp member with before | isNew
    · exact exchanging.toLearner message before
    · exact fromHolder message isNew
  holderSent := by
    intro message member
    rcases List.mem_append.mp member with before | isNew
    · exact exchanging.holderSent message before
    · exact fromHolder message isNew

/-- The learner has run a handler. -/
theorem Exchanging.afterLearner
    (exchanging :
      Exchanging core overflowChecks source replica limit session)
    {rest : List Message}
    {after : Peer Feed}
    {sent : List Message}
    (isLearner : LearnerPeer core replica limit after)
    (kept : ∀ message ∈ rest, message ∈ session.learner.inbox)
    (fromLearner :
      ∀ reply ∈ sent, FromLearner core overflowChecks limit reply) :
    Exchanging core overflowChecks source replica limit
      (session.after .learner rest (after.done sent)) where
  holder := exchanging.holder
  learner := isLearner
  holderRuns := exchanging.holderRuns
  learnerRuns := by
    simp [Session.after, Side.after, Turn.phase, Peer.done]
  toHolder := by
    intro message member
    rcases List.mem_append.mp member with before | isNew
    · exact exchanging.toHolder message before
    · exact fromLearner message isNew
  toLearner := fun message member =>
    exchanging.toLearner message (kept message member)
  holderSent := exchanging.holderSent

/-- An `Open` message to either side. -/
theorem Exchanging.post
    (exchanging :
      Exchanging core overflowChecks source replica limit session)
    (party : Party) :
    Exchanging core overflowChecks source replica limit
      (session.post party .openChannel) := by
  cases party with
  | holder =>
      exact
        { exchanging with
          toHolder := by
            intro message member
            rcases List.mem_append.mp member with before | isNew
            · exact exchanging.toHolder message before
            · rw [List.mem_singleton.mp isNew]
              trivial }
  | learner =>
      exact
        { exchanging with
          toLearner := by
            intro message member
            rcases List.mem_append.mp member with before | isNew
            · exact exchanging.toLearner message before
            · rw [List.mem_singleton.mp isNew]
              trivial }

/-- Every step keeps what the loops and the messages are like. -/
theorem Exchanging.of_moves
    (exchanging :
      Exchanging core overflowChecks source replica limit session)
    (moves :
      Moves core overflowChecks source replica limit session next) :
    Exchanging core overflowChecks source replica limit next := by
  have learner := exchanging.learner
  cases moves with
  | post party =>
      exact exchanging.post party
  | holderStarts =>
      refine exchanging.afterHolder
        ⟨exchanging.holder.feed, exchanging.holder.feedEvents⟩
        (fun message member => member) ?_
      simp [FromHolder, Common]
  | holderHandles looping taken handled isHolder fromHolder answers =>
      exact exchanging.afterHolder isHolder
        (fun other member => by simp [taken, member]) fromHolder
  | learnerStarts =>
      refine exchanging.afterLearner
        ⟨learner.isReplica, learner.bounded, learner.length,
          learner.remoteAck, learner.feedEvents⟩
        (fun message member => member) ?_
      simp [FromLearner, Common]
  | learnerHandles looping taken handled isLearner fromLearner answers =>
      exact exchanging.afterLearner isLearner
        (fun other member => by simp [taken, member]) fromLearner
  | learnerAnnounces looping taken handled isLearner fromLearner =>
      exact exchanging.afterLearner isLearner
        (fun message member => member) fromLearner

/-- What was under way stays under way when more messages are sent. -/
theorem exists_mem_append
    {messages more : List Message}
    {property : Message → Prop}
    (found : ∃ message ∈ messages, property message) :
    ∃ message ∈ messages ++ more, property message := by
  obtain ⟨message, member, holds⟩ := found
  exact ⟨message, List.mem_append_left _ member, holds⟩

/-- Of the messages in a channel, one is the next or is left after it. -/
theorem exists_mem_cons
    {messages rest : List Message}
    {message : Message}
    {property : Message → Prop}
    (taken : messages = message :: rest)
    (found : ∃ other ∈ messages, property other) :
    property message ∨ ∃ other ∈ rest, property other := by
  obtain ⟨other, member, holds⟩ := found
  rw [taken] at member
  rcases List.mem_cons.mp member with isNext | later
  · rw [← isNext]
    exact Or.inl holds
  · exact Or.inr ⟨other, later, holds⟩

/-- Every step of a feed within one window keeps the invariant. -/
theorem Converging.of_moves
    (small : limit ≤ windowLength)
    (converging :
      Converging core overflowChecks source replica limit session)
    (moves :
      Moves core overflowChecks source replica limit session next) :
    Converging core overflowChecks source replica limit next := by
  refine ⟨converging.toExchanging.of_moves moves, ?_⟩
  intro index below
  have covered := converging.covered index below
  cases moves with
  | post party =>
      cases party with
      | holder =>
          rcases covered with has | starting | asked | brought
          · exact Or.inl has
          · exact Or.inr (Or.inl starting)
          · exact Or.inr (Or.inr (Or.inl (exists_mem_append asked)))
          · exact Or.inr (Or.inr (Or.inr brought))
      | learner =>
          rcases covered with has | starting | asked | brought
          · exact Or.inl has
          · exact Or.inr (Or.inl starting)
          · exact Or.inr (Or.inr (Or.inl asked))
          · exact Or.inr (Or.inr (Or.inr (exists_mem_append brought)))
  | holderStarts =>
      rcases covered with has | starting | asked | brought
      · exact Or.inl has
      · exact Or.inr (Or.inl starting)
      · exact Or.inr (Or.inr (Or.inl asked))
      · exact Or.inr (Or.inr (Or.inr (exists_mem_append brought)))
  | holderHandles looping taken handled isHolder fromHolder answers =>
      rcases covered with has | starting | asked | brought
      · exact Or.inl has
      · exact Or.inr (Or.inl starting)
      · rcases exists_mem_cons taken asked with isNext | later
        · obtain ⟨reply, member, brings⟩ :=
            answers index below (Nat.lt_of_lt_of_le below small) isNext
          exact Or.inr (Or.inr (Or.inr
            ⟨reply, List.mem_append_right _ member, brings⟩))
        · exact Or.inr (Or.inr (Or.inl later))
      · exact Or.inr (Or.inr (Or.inr (exists_mem_append brought)))
  | learnerStarts =>
      exact Or.inr (Or.inr (Or.inl
        ⟨.want 0 (some windowLength),
          List.mem_append_right _ (by simp [Peer.onOpen,
            Peer.sendWants, Peer.done]), rfl, rfl⟩))
  | learnerHandles looping taken handled isLearner fromLearner answers =>
      rcases covered with has | starting | asked | brought
      · rcases answers index (Or.inl has) with kept |
          ⟨reply, member, asks⟩
        · exact Or.inl kept
        · exact Or.inr (Or.inr (Or.inl
            ⟨reply, List.mem_append_right _ member, asks⟩))
      · rw [looping] at starting
        cases starting
      · exact Or.inr (Or.inr (Or.inl (exists_mem_append asked)))
      · rcases exists_mem_cons taken brought with isNext | later
        · rcases answers index (Or.inr isNext) with stored |
            ⟨reply, member, asks⟩
          · exact Or.inl stored
          · exact Or.inr (Or.inr (Or.inl
              ⟨reply, List.mem_append_right _ member, asks⟩))
        · exact Or.inr (Or.inr (Or.inr later))
  | learnerAnnounces looping taken handled isLearner fromLearner =>
      rcases covered with has | starting | asked | brought
      · exact Or.inl has
      · rw [looping] at starting
        cases starting
      · exact Or.inr (Or.inr (Or.inl (exists_mem_append asked)))
      · exact Or.inr (Or.inr (Or.inr brought))

/-- Every step keeps the invariant. -/
theorem Converging.step
    (serves : Serves core source replica)
    (small : limit ≤ windowLength)
    (full : ∀ index, core.has source index = decide (index < limit))
    (length : core.len source = limit)
    (converging :
      Converging core overflowChecks source replica limit session)
    {action : Action}
    (stepped :
      PeerSync.step core overflowChecks session action = some next) :
    Converging core overflowChecks source replica limit next := by
  have fits : limit < 2 ^ 64 := by
    have window : windowLength < 2 ^ 64 := by decide
    omega
  exact converging.of_moves small
    (converging.toExchanging.moves serves fits full length stepped)

/-- Two loops that have just subscribed. -/
def Session.subscribed
    (source target : Feed)
    (holderStats learnerStats : Replicator.Stats) : Session Feed where
  holder := .subscribed source holderStats
  learner := .subscribed target learnerStats

/-- Loops that have just subscribed have sent nothing. -/
theorem exchanging_subscribed
    {target : Feed}
    {holderStats learnerStats : Replicator.Stats}
    (isReplica : replica target)
    (bounded : ∀ index, core.has target index → index < limit)
    (shorter : core.len target ≤ limit) :
    Exchanging core overflowChecks source replica limit
      (.subscribed source target holderStats learnerStats) where
  holder := ⟨rfl, rfl⟩
  learner := ⟨isReplica, bounded, shorter, rfl, by
    simp [Session.subscribed, Side.subscribed, Peer.new]⟩
  holderRuns := by simp [Session.subscribed, Side.subscribed]
  learnerRuns := by simp [Session.subscribed, Side.subscribed]
  toHolder := by simp [Session.subscribed, Side.subscribed]
  toLearner := by simp [Session.subscribed, Side.subscribed]
  holderSent := by simp [Session.subscribed, Side.subscribed]

/--
Initial sync converges: whatever the interleaving of deliveries, feed events
and repeated `Open` messages, neither loop ends with an error, the holder sends
no request, and whenever both loops run with nothing in flight and nothing
pending, the learner has every block.
-/
theorem initial_sync_converges
    (serves : Serves core source replica)
    (small : limit ≤ windowLength)
    (full : ∀ index, core.has source index = decide (index < limit))
    (length : core.len source = limit)
    {target : Feed}
    (isReplica : replica target)
    (bounded : ∀ index, core.has target index → index < limit)
    (shorter : core.len target ≤ limit)
    {holderStats learnerStats : Replicator.Stats}
    {actions : List Action}
    {final : Session Feed}
    (ran :
      Machine.run (PeerSync.step core overflowChecks)
          (.subscribed source target holderStats learnerStats)
          actions =
        some final) :
    final.holder.phase ≠ .ended ∧ final.learner.phase ≠ .ended ∧
      (∀ index, .request index ∉ final.holder.sent) ∧
      (final.Quiescent →
        ∀ index < limit, core.has final.learner.peer.feed index) := by
  have converging :
      Converging core overflowChecks source replica limit final :=
    Machine.invariant_run
      (Converging core overflowChecks source replica limit)
      (fun holds stepped =>
        holds.step serves small full length stepped)
      ⟨exchanging_subscribed isReplica bounded shorter,
        fun _ _ => Or.inr (Or.inl rfl)⟩
      ran
  refine ⟨converging.holderRuns, converging.learnerRuns, ?_, ?_⟩
  · intro index sent
    exact converging.holderSent _ sent
  · rintro ⟨_, looping, noneToHolder, noneToLearner, _, _⟩ index below
    rcases converging.covered index below with
      has | starting | ⟨_, asked, _⟩ | ⟨_, brought, _⟩
    · exact has
    · rw [looping] at starting
      cases starting
    · rw [noneToHolder] at asked
      cases asked
    · rw [noneToLearner] at brought
      cases brought

end

/-! ## An example -/

/-- A feed of at most two blocks. -/
structure TwoBlocks where
  len : Nat
  first : Option Bytes
  second : Option Bytes
  deriving Repr, DecidableEq

/-- The byte of a bitfield with the two first bits given. -/
def byteOfBits (first second : Bool) : UInt8 :=
  (if first then 128 else 0) + (if second then 64 else 0)

/--
Feeds of two blocks signed together.  The bitfield of such a feed is one byte,
encoded as a run of one literal byte.
-/
def twoBlocksCore : Hypercore TwoBlocks Unit where
  len feed := feed.len
  has feed
    | 0 => feed.first.isSome
    | 1 => feed.second.isSome
    | _ => false
  append _ _ := none
  get feed
    | 0 => some feed.first
    | 1 => some feed.second
    | _ => none
  proof _ index := some ⟨index, [], some ()⟩
  put feed index value _ :=
    match index with
    | 0 => some ({ feed with first := value, len := 2 }, true)
    | 1 => some ({ feed with second := value, len := 2 }, true)
    | _ => none
  compress feed _ _ :=
    some [2, byteOfBits feed.first.isSome feed.second.isSome]
  decode
    | [2, byte] => some [byte]
    | _ => none
  signatureToBytes _ := List.replicate 64 0
  signatureOfBytes bytes := if bytes.length = 64 then some () else none

/-- The feed with both blocks. -/
def bothBlocks : TwoBlocks := ⟨2, some [104], some [119]⟩

/-- The feed without blocks. -/
def noBlocks : TwoBlocks := ⟨0, none, none⟩

/-- The feed with both blocks has the blocks below two. -/
theorem has_bothBlocks (index : Nat) :
    twoBlocksCore.has bothBlocks index = decide (index < 2) := by
  match index with
  | 0 => rfl
  | 1 => rfl
  | index + 2 =>
      have beyond : ¬ index + 2 < 2 := by omega
      simp [twoBlocksCore, beyond]

/-- The feed without blocks has none. -/
theorem has_noBlocks (index : Nat) :
    twoBlocksCore.has noBlocks index = false := by
  match index with
  | 0 => rfl
  | 1 => rfl
  | _ + 2 => rfl

/-- The bits of the one byte of a bitfield. -/
theorem bitsOfByte_byteOfBits (first second : Bool) :
    bitsOfByte (byteOfBits first second) =
      first :: second :: List.replicate 6 false := by
  cases first <;> cases second <;> decide

/-- The dependencies do what is assumed of them in the example. -/
theorem serves_twoBlocksCore :
    Serves twoBlocksCore bothBlocks (fun feed => feed.len ≤ 2) where
  isReplica := Nat.le_refl 2
  roundTrip := by
    intro feed _
    refine ⟨_, _, rfl, rfl, ?_⟩
    intro index
    have below : 1 < windowLength := by decide
    simp only [List.flatMap_cons, List.flatMap_nil, List.append_nil,
      bitsOfByte_byteOfBits]
    match index with
    | 0 =>
        simp [twoBlocksCore, Nat.lt_of_succ_lt below]
    | 1 =>
        simp [twoBlocksCore, below]
    | index + 2 =>
        have beyond : twoBlocksCore.has feed (index + 2) = false := rfl
        rw [beyond, Bool.and_false, List.getD_cons_succ,
          List.getD_cons_succ, List.getD_eq_getElem?_getD,
          List.getElem?_replicate]
        split <;> rfl
  get := by
    intro index has
    match index with
    | 0 => exact ⟨_, rfl⟩
    | 1 => exact ⟨_, rfl⟩
    | index + 2 => cases has
  proof := fun index _ => ⟨_, rfl⟩
  signature := fun _ => rfl
  put := by
    intro feed index value proof _ has got _
    match index with
    | 0 =>
        refine ⟨_, _, rfl, Nat.le_refl 2, ?_, Nat.le_max_right _ 2⟩
        intro other
        match other with
        | 0 => simp [twoBlocksCore]
        | 1 => simp [twoBlocksCore]
        | other + 2 => simp [twoBlocksCore]
    | 1 =>
        refine ⟨_, _, rfl, Nat.le_refl 2, ?_, Nat.le_max_right _ 2⟩
        intro other
        match other with
        | 0 => simp [twoBlocksCore]
        | 1 => simp [twoBlocksCore]
        | other + 2 => simp [twoBlocksCore]
    | index + 2 => cases has

/-- A learner without blocks fetches both, the second one twice. -/
def sampleSync : List Action :=
  [.start .learner, .start .holder, .deliver .holder,
    .deliver .learner, .deliver .learner, .deliver .learner,
    .deliver .holder, .deliver .holder, .deliver .holder,
    .deliver .holder, .deliver .learner, .deliver .learner,
    .deliver .learner, .feedEvent .learner, .feedEvent .learner,
    .feedEvent .learner, .deliver .holder, .deliver .holder,
    .deliver .holder]

/-- At the end the learner has both blocks. -/
theorem initial_sync_converges_sample :
    ∃ final,
      Machine.run (PeerSync.step twoBlocksCore true)
          (.subscribed bothBlocks ⟨0, none, none⟩
            { id := Key.constant 1 } { id := Key.constant 2 })
          sampleSync =
          some final ∧
        final.Quiescent ∧
        ∀ index < 2,
          twoBlocksCore.has final.learner.peer.feed index := by
  have quiescent :
      ∃ final,
        Machine.run (PeerSync.step twoBlocksCore true)
            (.subscribed bothBlocks ⟨0, none, none⟩
              { id := Key.constant 1 } { id := Key.constant 2 })
            sampleSync =
            some final ∧
          final.Quiescent :=
    ⟨_, rfl, rfl, rfl, rfl, rfl, rfl, rfl⟩
  obtain ⟨final, ran, isQuiescent⟩ := quiescent
  have small : 2 ≤ windowLength := by decide
  have bounded :
      ∀ index, twoBlocksCore.has noBlocks index → index < 2 := by
    intro index has
    rw [has_noBlocks] at has
    cases has
  refine ⟨final, ran, isQuiescent, ?_⟩
  exact (initial_sync_converges serves_twoBlocksCore small
    has_bothBlocks rfl (Nat.zero_le 2) bounded (Nat.zero_le 2)
    ran).2.2.2 isQuiescent

end Hyperspace.PeerSync
