import Hyperspace.PeerAnnounce

namespace Hyperspace.PeerHolds

open PeerAnnounce

/-!
# Announcing only what is held

A `Have` message tells the remote which blocks it may request.  The loop sends
such messages from four places.  The bitfield that answers a `Want` and the
announcement of a downloaded block come from what the feed holds; the answer to
the first `Want` and the announcement of an append take the index from the
length of the feed.  A feed that is downloaded in part may have been raised to
a length whose last block it does not hold.

For every run, the loop announces held blocks only if and only if the feed holds
its last block at each of these two places.
-/

section

variable
  {Feed Signature : Type}
  (core : Hypercore Feed Signature)
  (overflowChecks : Bool)

/-- What a step sends announces only blocks that the feed then holds. -/
def SendsHeld
    (state : State Feed)
    (action : Action Signature) : Prop :=
  ∀ next,
    step core overflowChecks state action = some next →
    ∀ message ∈ next.sent.drop state.sent.length,
      ∀ index,
        Announces core message index →
        core.has next.peer.feed index

/--
The condition on a step: when the loop answers the first `Want` of the remote,
and when it takes an `Append` event, the feed holds its last block.
-/
def HoldsLast (state : State Feed) : Action Signature → Prop
  | .takeMessage (.want _ _) =>
      state.phase = .looping →
      state.peer.remoteWant = false →
      0 < core.len state.peer.feed →
      core.has state.peer.feed (core.len state.peer.feed - 1)
  | .takeFeedEvent =>
      ∀ rest last,
        state.phase = .looping →
        state.peer.feedEvents = .append :: rest →
        predU64 overflowChecks (core.len state.peer.feed) = some last →
        core.has state.peer.feed last
  | _ => True

/-- What the loop relies on in a feed and in the encoding of its bitfield. -/
structure Encodes : Prop where
  compress :
    ∀ {feed : Feed} {start length : Nat} {rle : Bytes},
      core.compress feed start length = some rle →
      ∃ bits,
        Peer.parseBitfield core rle = some bits ∧
          ∀ offset,
            bits.getD offset false =
              (decide (offset < length) &&
                core.has feed (start + offset))
  append :
    ∀ {feed next : Feed} {block : Bytes},
      core.append feed block = some next →
      ∀ index, core.has feed index → core.has next index
  put :
    ∀ {feed next : Feed} {index : Nat} {value : Option Bytes}
      {proof : Proof Signature} {queued : Bool},
      core.put feed index value proof = some (next, queued) →
      (∀ other, core.has feed other → core.has next other) ∧
        (queued = true → core.has next index)

/-! ## The invariant -/

/-- Acknowledgements stay off, and queued downloads are held. -/
structure Tracks (state : State Feed) : Prop where
  noAck : state.peer.remoteAck = false
  held :
    ∀ index,
      .download index ∈ state.peer.feedEvents →
      core.has state.peer.feed index

end

section

variable
  {Feed Signature : Type}
  {core : Hypercore Feed Signature}
  {overflowChecks : Bool}
  {state next : State Feed}
  {action : Action Signature}

/-- A loop starts without events. -/
theorem tracks_subscribed
    (feed : Feed)
    (stats : Replicator.Stats) :
    Tracks core (.subscribed feed stats) where
  noAck := rfl
  held := by
    intro index member
    cases member

/-- Storing a block keeps the invariant. -/
theorem Tracks.stored
    (encodes : Encodes core)
    (tracks : Tracks core state)
    {index : Nat}
    {value : Option Bytes}
    {proof : Proof Signature}
    {feed : Feed}
    {queued : Bool}
    (put :
      core.put state.peer.feed index value proof =
        some (feed, queued))
    (sameAck : next.peer.remoteAck = state.peer.remoteAck)
    (samePeer : next.peer.feed = feed)
    (sameEvents :
      next.peer.feedEvents =
        (state.peer.stored index feed queued).feedEvents) :
    Tracks core next := by
  obtain ⟨keeps, stores⟩ := encodes.put put
  refine ⟨sameAck.trans tracks.noAck, ?_⟩
  intro other member
  rw [samePeer]
  rw [sameEvents] at member
  simp only [Peer.stored] at member
  cases queued with
  | false =>
      exact keeps other (tracks.held other member)
  | true =>
      simp only [if_true, List.mem_append, List.mem_singleton,
        FeedEvent.download.injEq] at member
      rcases member with before | isIndex
      · exact keeps other (tracks.held other before)
      · subst other
        exact stores rfl

/-- No message of the remote turns acknowledgements on. -/
@[simp] theorem onMessage_remoteAck
    (core : Hypercore Feed Signature)
    (overflowChecks : Bool)
    (peer : Peer Feed)
    (message : Message) :
    (peer.onMessage core overflowChecks message).peer.remoteAck =
      peer.remoteAck := by
  cases message with
  | openChannel =>
      rfl
  | want start length =>
      rw [Peer.onMessage, Peer.onWant_peer]
  | announce start length bitfield ack =>
      rw [Peer.onMessage, Peer.onHave_peer]
  | request index =>
      obtain ⟨stats, counted⟩ := peer.onRequest_peer core index
      rw [Peer.onMessage, counted]
  | data index value nodes signature =>
      simp only [Peer.onMessage, Peer.onData]
      split
      · rfl
      · split <;> rfl
  | ignored =>
      rfl

/-- Every step keeps the invariant. -/
theorem Tracks.step
    (encodes : Encodes core)
    (tracks : Tracks core state)
    (stepped :
      PeerAnnounce.step core overflowChecks state action =
        some next) :
    Tracks core next := by
  cases moves_of_step core overflowChecks stepped with
  | appendFails =>
      exact tracks
  | appends appended =>
      refine ⟨tracks.noAck, ?_⟩
      intro index member
      simp only [List.mem_append, List.mem_singleton, reduceCtorEq,
        or_false] at member
      exact encodes.append appended index (tracks.held index member)
  | putFails =>
      exact tracks
  | puts put =>
      exact tracks.stored encodes put rfl rfl rfl
  | starts =>
      exact ⟨tracks.noAck, tracks.held⟩
  | @handles message =>
      have sameAck :=
        onMessage_remoteAck core overflowChecks state.peer message
      rcases state.peer.onMessage_cases core overflowChecks
          message with
        ⟨sameFeed, sameEvents⟩ |
          ⟨index, value, nodes, signature, read, feed, queued,
            isData, isRead, put, isFeed, events⟩
      · refine ⟨sameAck.trans tracks.noAck, ?_⟩
        simp only [State.after, sameFeed, sameEvents]
        exact tracks.held
      · exact tracks.stored encodes put sameAck isFeed events
  | announces _ taken =>
      refine ⟨?_, ?_⟩
      · simpa [State.after, Peer.onFeedEvent_peer] using tracks.noAck
      · intro index member
        simp only [State.after, Peer.onFeedEvent_peer] at member ⊢
        apply tracks.held index
        rw [taken]
        exact List.mem_cons_of_mem _ member

/-! ## What a step announces -/

/-- What a handler sends announces only blocks that the feed then holds. -/
def TurnHeld
    (core : Hypercore Feed Signature)
    (turn : Turn Feed) : Prop :=
  ∀ message ∈ turn.sent,
    ∀ index,
      Announces core message index →
      core.has turn.peer.feed index

/-- A step that runs a handler sends what the handler sends. -/
theorem sendsHeld_after
    {turn : Turn Feed}
    (held : TurnHeld core turn)
    (stepped : state.after turn = next) :
    ∀ message ∈ next.sent.drop state.sent.length,
      ∀ index,
        Announces core message index →
        core.has next.peer.feed index := by
  subst next
  intro message member
  simp only [State.after, List.drop_left] at member
  exact held message member

/-- The announcement of a single block. -/
theorem announces_single
    {block index : Nat}
    {ack : Option Bool} :
    Announces core (.announce block none none ack) index ↔
      index = block := by
  simp only [Announces, Option.getD_none]
  omega

/-- Answering a `Want` announces held blocks, if the last one is held. -/
theorem turnHeld_onWant
    (encodes : Encodes core)
    {peer : Peer Feed}
    {start : Nat}
    {length : Option Nat}
    (holdsLast :
      peer.remoteWant = false →
      0 < core.len peer.feed →
      core.has peer.feed (core.len peer.feed - 1)) :
    TurnHeld core (peer.onWant core start length) := by
  intro message member index announces
  rw [Peer.onWant_peer]
  rcases Peer.mem_onWant_sent core member with
    ⟨rfl, isFirst, nonempty⟩ | ⟨rle, compressed, rfl⟩
  · rw [announces_single.mp announces]
    exact holdsLast isFirst nonempty
  · obtain ⟨atLeast, bits, parsed, isSet⟩ := announces
    obtain ⟨encoded, sameParsed, eachBit⟩ :=
      encodes.compress compressed
    rw [sameParsed] at parsed
    cases parsed
    rw [eachBit, Bool.and_eq_true] at isSet
    have sameIndex : start + (index - start) = index := by omega
    rw [sameIndex] at isSet
    exact isSet.2

/-- Handling a message announces held blocks only. -/
theorem turnHeld_onMessage
    (encodes : Encodes core)
    {peer : Peer Feed}
    (noAck : peer.remoteAck = false)
    {message : Message}
    (holdsLast :
      ∀ start length,
        message = .want start length →
        peer.remoteWant = false →
        0 < core.len peer.feed →
        core.has peer.feed (core.len peer.feed - 1)) :
    TurnHeld core (peer.onMessage core overflowChecks message) := by
  cases message with
  | openChannel =>
      intro message member
      simp only [Peer.onMessage, Peer.onOpen, Peer.sendWants,
        Peer.done, List.mem_singleton] at member
      subst message
      exact fun _ announces => announces.elim
  | want start length =>
      exact turnHeld_onWant encodes (holdsLast start length rfl)
  | announce start length bitfield ack =>
      intro message member
      obtain ⟨index, rfl⟩ := Peer.mem_onHave_sent core _ member
      exact fun _ announces => announces.elim
  | request index =>
      intro message member
      obtain ⟨_, _, _, rfl⟩ := Peer.mem_onRequest_sent core member
      exact fun _ announces => announces.elim
  | data index value nodes signature =>
      intro message member
      simp only [Peer.onMessage, Peer.onData, Peer.stored,
        noAck] at member
      split at member
      · cases member
      · split at member
        · cases member
        · cases member
  | ignored =>
      intro message member
      cases member

/-- Handling an event announces held blocks, if the last one is held. -/
theorem turnHeld_onFeedEvent
    {peer : Peer Feed}
    {event : FeedEvent}
    (downloaded :
      ∀ index, event = .download index → core.has peer.feed index)
    (holdsLast :
      ∀ last,
        event = .append →
        predU64 overflowChecks (core.len peer.feed) = some last →
        core.has peer.feed last) :
    TurnHeld core (peer.onFeedEvent core overflowChecks event) := by
  intro message member index announces
  rw [Peer.onFeedEvent_peer]
  cases event with
  | download block =>
      simp only [Peer.onFeedEvent, Peer.sendHave, Peer.done,
        List.mem_singleton] at member
      subst message
      rw [announces_single.mp announces]
      exact downloaded block rfl
  | append =>
      simp only [Peer.onFeedEvent] at member
      split at member
      · cases member
      · next last isLast =>
          simp only [Peer.sendHave, Peer.done,
            List.mem_singleton] at member
          subst message
          rw [announces_single.mp announces]
          exact holdsLast last rfl isLast

/-- Where the feed holds its last block, the loop announces held blocks. -/
theorem Tracks.sendsHeld
    (encodes : Encodes core)
    (tracks : Tracks core state)
    (holdsLast : HoldsLast core overflowChecks state action) :
    SendsHeld core overflowChecks state action := by
  intro next stepped
  cases moves_of_step core overflowChecks stepped with
  | appendFails => simp
  | appends => simp
  | putFails => simp
  | puts => simp
  | starts =>
      have opened :
          TurnHeld core
            (state.peer.onMessage core overflowChecks .openChannel) :=
        turnHeld_onMessage encodes tracks.noAck
          (fun _ _ isWant => by cases isWant)
      exact sendsHeld_after opened rfl
  | @handles message looping =>
      apply sendsHeld_after _ rfl
      apply turnHeld_onMessage encodes tracks.noAck
      intro start length isWant
      subst message
      exact holdsLast looping
  | @announces event rest looping taken =>
      apply sendsHeld_after _ rfl
      apply turnHeld_onFeedEvent
      · intro index isDownload
        apply tracks.held index
        rw [taken, isDownload]
        exact List.mem_cons_self
      · intro last isAppend isLast
        subst event
        exact holdsLast rest last looping taken isLast

/-- A loop that announces held blocks only does so at these two places. -/
theorem SendsHeld.holdsLast
    (sendsHeld : SendsHeld core overflowChecks state action) :
    HoldsLast core overflowChecks state action := by
  have sentHeld :
      ∀ (turn : Turn Feed) {block : Nat},
        PeerAnnounce.step core overflowChecks state action =
          some (state.after turn) →
        turn.peer.feed = state.peer.feed →
        .announce block none none none ∈ turn.sent →
        core.has state.peer.feed block := by
    intro turn block stepped sameFeed member
    rw [← sameFeed]
    refine sendsHeld _ stepped (.announce block none none none) ?_
      block (announces_single.mpr rfl)
    simpa [State.after] using member
  cases action with
  | takeMessage message =>
      cases message with
      | want start length =>
          intro isLooping isFirst nonempty
          apply sentHeld (state.peer.onWant core start length)
          · simp [PeerAnnounce.step, isLooping, Peer.onMessage]
          · rw [Peer.onWant_peer]
          · simp only [Peer.onWant, isFirst, nonempty]
            split <;> simp [Peer.failed, Peer.done]
      | _ => trivial
  | takeFeedEvent =>
      intro rest last isLooping taken isLast
      apply sentHeld
        ({ state.peer with feedEvents := rest }.onFeedEvent core
          overflowChecks .append)
      · simp [PeerAnnounce.step, isLooping, taken]
      · rw [Peer.onFeedEvent_peer]
      · simp [Peer.onFeedEvent, isLast, Peer.sendHave, Peer.done]
  | _ => trivial

/--
For every feed and every sequence of messages of the remote, of events of the
feed and of blocks appended or stored by other tasks: the loop announces only
blocks that the feed holds if and only if the feed holds its last block whenever
the loop answers a first `Want` or takes an `Append` event.
-/
theorem announces_only_held_iff
    (encodes : Encodes core)
    {feed : Feed}
    {stats : Replicator.Stats}
    {actions : List (Action Signature)} :
    Machine.Along (step core overflowChecks)
        (SendsHeld core overflowChecks)
        (.subscribed feed stats) actions ↔
      Machine.Along (step core overflowChecks)
        (HoldsLast core overflowChecks)
        (.subscribed feed stats) actions := by
  constructor
  · intro sendsHeld
    exact Machine.along_imp (fun _ => True) (fun _ _ _ => trivial)
      (fun _ sends => sends.holdsLast) trivial sendsHeld
  · intro holdsLast
    exact Machine.along_imp (Tracks core)
      (fun tracks _ stepped => tracks.step encodes stepped)
      (fun tracks holds => tracks.sendsHeld encodes holds)
      (tracks_subscribed feed stats) holdsLast

end

/-! ## Examples -/

/-- The bitfield of a sparse feed is one byte. -/
theorem parseBitfield_sparseCore (bits : Nat → Bool) :
    Peer.parseBitfield sparseCore [2, packByte bits] =
      some ((List.range 8).map bits) := by
  simp [Peer.parseBitfield, sparseCore, bitsOfByte_packByte]

/-- Sparse feeds keep their blocks and encode what they hold. -/
theorem encodes_sparseCore : Encodes sparseCore where
  compress := by
    intro feed start length rle compressed
    cases compressed
    refine ⟨_, parseBitfield_sparseCore _, ?_⟩
    intro offset
    rw [List.getD_eq_getElem?_getD, List.getElem?_map]
    by_cases inByte : offset < 8
    · simp [List.getElem?_range inByte, sparseCore]
    · have outside : ¬ start + offset < 8 := by omega
      simp [inByte, sparseCore, SparseFeed.has, outside]
  append := by
    intro feed next block appended index has
    rw [sparseCore_append appended, has, Bool.or_true]
  put := by
    intro feed next index value proof queued put
    obtain ⟨isHeld, isQueued⟩ := sparseCore_put put
    constructor
    · intro other has
      rw [isHeld, has, Bool.or_true]
    · intro isNew
      rw [isQueued, Bool.and_eq_true] at isNew
      simp [isHeld, isNew.1]

/-- A feed of three blocks that holds the first and the last. -/
def lastHeld : SparseFeed := ⟨3, 5, [(0, [104]), (2, [119, 111])]⟩

/-- The remote wants a window, and another task appends a block. -/
def wantedAndAppended : List (Action (Nat × Nat)) :=
  [.start, .takeMessage (.want 0 (some windowLength)), .append [33],
    .takeFeedEvent]

/-- A sparse feed that holds its last block. -/
theorem announces_only_held_iff_lastHeld :
    Encodes sparseCore ∧
      Machine.Along (step sparseCore true) (HoldsLast sparseCore true)
        (.subscribed lastHeld { id := Key.constant 9 })
        wantedAndAppended ∧
      Machine.Along (step sparseCore true) (SendsHeld sparseCore true)
        (.subscribed lastHeld { id := Key.constant 9 })
        wantedAndAppended := by
  have holdsLast :
      Machine.Along (step sparseCore true) (HoldsLast sparseCore true)
        (.subscribed lastHeld { id := Key.constant 9 })
        wantedAndAppended := by
    refine ⟨trivial, fun _ _ _ => rfl, trivial, ?_, trivial⟩
    intro rest last _ _ isLast
    cases isLast
    rfl
  exact ⟨encodes_sparseCore, holdsLast,
    (announces_only_held_iff encodes_sparseCore).mpr holdsLast⟩

/-- The first block of five arrives, and the remote wants a window. -/
def firstOfFive : List (Action (Nat × Nat)) :=
  [.download 0 (some [104]) ⟨0, [], some (5, 9)⟩, .start,
    .takeMessage (.want 0 (some windowLength))]

/-- A feed that holds the first of five blocks announces the fifth. -/
theorem last_of_five_announced_not_held :
    Encodes sparseCore ∧
      (∃ final,
        Machine.run (step sparseCore true)
            (.subscribed .empty { id := Key.constant 9 }) firstOfFive =
            some final ∧
          final.sent =
            [.want 0 (some windowLength), .announce 4 none none none,
              .announce 0 (some windowLength) (some [2, 128]) none] ∧
          sparseCore.has final.peer.feed 4 = false) ∧
      ¬ Machine.Along (step sparseCore true) (SendsHeld sparseCore true)
        (.subscribed .empty { id := Key.constant 9 }) firstOfFive := by
  refine ⟨encodes_sparseCore, ⟨_, rfl, rfl, rfl⟩, ?_⟩
  rintro ⟨_, _, sendsHeld, _⟩
  have held : sparseCore.has _ 4 = true :=
    sendsHeld _ rfl (.announce 4 none none none)
      (List.mem_cons_self ..) 4 (announces_single.mpr rfl)
  cases held

end Hyperspace.PeerHolds
