import Hyperspace.FeedNetworkMoves
import Hyperspace.PeerHolds
import Mathlib.Logic.Relation

namespace Hyperspace.FeedNetwork

/-!
# Stores agree when the network is at rest

For every block that one end of a connection holds, the invariant says why the
other end holds it or is going to: it has not started and will ask, a message
is in flight that leads to the block, or the loop at the holding end has an
event in its queue that makes it announce the block.  When nothing is in flight
and no event is queued, only one case is left, and the two stores hold the same
blocks.  Through any number of stores in between, so do all stores that are
joined by open connections.
-/

section

variable
  {Store End Feed Signature : Type}
  (topology : Topology Store End)
  (core : Hypercore Feed Signature)
  (overflowChecks : Bool)

/-- The loop at an end has not yet sent its first `Want`. -/
def Unstarted (state : State Store End Feed) (side : End) : Prop :=
  ∀ loop, state.loops side = some loop → loop.phase = .starting

/-- A loop is going to announce a block. -/
def Pending (feed : Feed) (loop : Loop) (index : Nat) : Prop :=
  .download index ∈ loop.feedEvents ∨
    .append ∈ loop.feedEvents ∧ index + 1 = core.len feed

/-- Why a block of one end is at the other end, or will be. -/
inductive Covered
    (state : State Store End Feed)
    (side : End)
    (index : Nat) : Prop where
  | closedHere (isClosed : state.closed side = true)
  | closedThere
      (isClosed : state.closed (topology.opposite side) = true)
  | held
      (holds :
        core.has
          (state.feeds (topology.store (topology.opposite side))) index)
  | unstarted (waits : Unstarted state (topology.opposite side))
  | asked
      (message : Message)
      (inFlight : message ∈ state.inboxes side)
      (asks : PeerSync.Asks index message)
  | brought
      (message : Message)
      (inFlight :
        message ∈ state.inboxes (topology.opposite side))
      (brings : PeerSync.Brings core overflowChecks index message)
  | pending
      (loop : Loop)
      (found : state.loops side = some loop)
      (queued :
        Pending core (state.feeds (topology.store side)) loop index)

/-- The invariant of a network. -/
structure Synced (state : State Store End Feed) : Prop where
  covered :
    ∀ side index,
      core.has (state.feeds (topology.store side)) index →
      Covered topology core overflowChecks state side index
  wanted :
    ∀ side,
      state.loops side = none →
      Unstarted state (topology.opposite side) ∨
        .want 0 (some windowLength) ∈ state.inboxes side

/-- Both ends of a connection are open and have subscribed. -/
def Live (state : State Store End Feed) (side : End) : Prop :=
  state.closed side = false ∧
    state.closed (topology.opposite side) = false ∧
    state.loops side ≠ none ∧
    state.loops (topology.opposite side) ≠ none

/-- On every open connection nothing is left to be done. -/
def Quiescent (state : State Store End Feed) : Prop :=
  ∀ side,
    Live topology state side →
    state.inboxes side = [] ∧
      ∃ loop,
        state.loops side = some loop ∧
          loop.phase = .looping ∧ loop.feedEvents = []

/-- Two stores have an open connection. -/
def Linked
    (state : State Store End Feed)
    (first second : Store) : Prop :=
  ∃ side,
    Live topology state side ∧
      topology.store side = first ∧
      topology.store (topology.opposite side) = second

/-- Two stores are joined by open connections. -/
def Joined
    (state : State Store End Feed) : Store → Store → Prop :=
  Relation.ReflTransGen (Linked topology state)

/-- What a handler has to do so that no block is forgotten. -/
structure Responsive
    (owner : Option Store)
    (state : State Store End Feed)
    (side : End)
    (loop : Loop)
    (news : List FeedEvent)
    (rest : List Message)
    (turn : Turn Feed) : Prop where
  keeps :
    ∀ index,
      core.has (state.feeds (topology.store side)) index →
      core.has turn.peer.feed index
  ofOwner :
    owner = some (topology.store side) →
    turn.peer.feed = state.feeds (topology.store side)
  fresh :
    ∀ index,
      core.has turn.peer.feed index →
      core.has (state.feeds (topology.store side)) index = false →
      .download index ∈ news ∧
        core.has
          (state.feeds (topology.store (topology.opposite side))) index
  starts :
    loop.phase = .starting → .want 0 (some windowLength) ∈ turn.sent
  announces :
    ∀ index,
      Pending core (state.feeds (topology.store side)) loop index →
      Pending core turn.peer.feed (.ofPeer turn.peer turn.phase) index ∨
        ∃ reply ∈ turn.sent,
          PeerSync.Brings core overflowChecks index reply
  answers :
    ∀ message ∈ state.inboxes side,
      message ∈ rest ∨
        ∀ index,
          (core.has (state.feeds (topology.store side)) index →
            PeerSync.Asks index message →
            ∃ reply ∈ turn.sent,
              PeerSync.Brings core overflowChecks index reply) ∧
          (PeerSync.Brings core overflowChecks index message →
            core.has turn.peer.feed index ∨
              ∃ reply ∈ turn.sent, PeerSync.Asks index reply)

end

section

variable
  {Store End Feed Signature : Type}
  {topology : Topology Store End}
  {core : Hypercore Feed Signature}
  {overflowChecks : Bool}
  {log : Nat → Bytes}
  {replica : Feed → Prop}
  {owner : Option Store}
  {state : State Store End Feed}
  {side : End}
  {loop : Loop}
  {news : List FeedEvent}
  {rest : List Message}

/-! ## The handlers respond -/

/-- Only data changes the feed, by the block that it brings. -/
theorem Reacts.feed
    {peer after : Peer Feed}
    {message : Message}
    {sent : List Message}
    (reacts :
      Reacts core overflowChecks log replica peer message after sent) :
    after.feed = peer.feed ∨
      ∃ index value nodes signature,
        message = .data index value nodes signature ∧
          ∀ other,
            core.has after.feed other =
              (core.has peer.feed other || decide (other = index)) := by
  cases reacts with
  | stored stats isReplica holds =>
      exact Or.inr ⟨_, _, _, _, rfl, holds⟩
  | _ => exact Or.inl rfl

/-- What asks for a block is answered, and what brings one is used. -/
theorem Reacts.answers
    {peer after : Peer Feed}
    {message : Message}
    {sent : List Message}
    (reacts :
      Reacts core overflowChecks log replica peer message after sent)
    (index : Nat) :
    (core.has peer.feed index →
      PeerSync.Asks index message →
      ∃ reply ∈ sent,
        PeerSync.Brings core overflowChecks index reply) ∧
    (PeerSync.Brings core overflowChecks index message →
      core.has after.feed index ∨
        ∃ reply ∈ sent, PeerSync.Asks index reply) := by
  cases reacts with
  | opened =>
      exact ⟨fun _ => False.elim, False.elim⟩
  | wanted few announces covers =>
      exact ⟨fun holds _ => covers index holds, False.elim⟩
  | @announced start length bitfield ack indices announces =>
      refine ⟨fun _ => False.elim, ?_⟩
      rintro ⟨others, announcesToo, isAnnounced⟩
      rw [announces] at announcesToo
      cases announcesToo
      by_cases holds : core.has peer.feed index
      · exact Or.inl holds
      · refine Or.inr ⟨.request index, ?_, rfl⟩
        refine List.mem_map_of_mem (List.mem_filter.mpr ?_)
        exact ⟨isAnnounced, by simpa using holds⟩
  | requested stats held proved =>
      refine ⟨?_, False.elim⟩
      rintro _ rfl
      exact ⟨_, List.mem_singleton.mpr rfl, rfl⟩
  | stored stats isReplica holds =>
      refine ⟨fun _ => False.elim, ?_⟩
      rintro rfl
      refine Or.inl ?_
      simp [Peer.stored, holds]
  | ignored =>
      exact ⟨fun _ => False.elim, False.elim⟩

/-- The handler of a message responds as it should. -/
theorem responsive_handled
    (sound :
      Sound topology core overflowChecks log replica owner state)
    {message : Message}
    {sent : List Message}
    {after : Peer Feed}
    (found : state.loops side = some loop)
    (looping : loop.phase = .looping)
    (taken : state.inboxes side = message :: rest)
    (reacts :
      Reacts core overflowChecks log replica
        (loop.peer (state.feeds (topology.store side))) message after
        sent)
    (queued : after.feedEvents = loop.feedEvents ++ news)
    (isNews :
      ∀ event,
        event ∈ news ↔
          ∃ index,
            event = .download index ∧
              core.has after.feed index ∧
              core.has (state.feeds (topology.store side)) index =
                false) :
    Responsive topology core overflowChecks owner state side loop news
      rest (after.done sent) := by
  have travels := sound.travels side message (by simp [taken])
  have ofOwner :
      owner = some (topology.store side) →
      after.feed = state.feeds (topology.store side) := by
    intro isOwner
    rcases reacts.feed with same | ⟨_, _, _, _, rfl, _⟩
    · exact same
    · exact absurd isOwner travels.2.1
  refine ⟨?_, ofOwner, ?_, ?_, ?_, ?_⟩
  · intro index holds
    rcases reacts.feed with same | ⟨_, _, _, _, rfl, stored⟩
    · rw [Peer.done, same]
      exact holds
    · rw [Peer.done, stored]
      exact Bool.or_eq_true_iff.mpr (Or.inl holds)
  · intro index holds lacked
    refine ⟨(isNews _).mpr ⟨index, rfl, holds, lacked⟩, ?_⟩
    rcases reacts.feed with same | ⟨_, _, _, _, rfl, stored⟩
    · rw [Peer.done, same] at holds
      cases holds.symm.trans lacked
    · have lacks :
          core.has (loop.peer (state.feeds (topology.store side))).feed
            index = false :=
        lacked
      rw [Peer.done, stored, lacks, Bool.false_or, decide_eq_true_eq]
        at holds
      rw [holds]
      exact travels.1
  · intro starting
    rw [looping] at starting
    cases starting
  · intro index pending
    refine Or.inl ?_
    rcases pending with isDownload | ⟨isAppend, isLast⟩
    · refine Or.inl ?_
      simp only [Loop.ofPeer, Peer.done, queued]
      exact List.mem_append_left _ isDownload
    · refine Or.inr ⟨?_, ?_⟩
      · simp only [Loop.ofPeer, Peer.done, queued]
        exact List.mem_append_left _ isAppend
      · have heard := sound.heard side loop found _ isAppend
        rw [Peer.done, ofOwner heard.1]
        exact isLast
  · intro other member
    rw [taken] at member
    rcases List.mem_cons.mp member with isFirst | isLater
    · subst other
      exact Or.inr reacts.answers
    · exact Or.inl isLater

/-- Announcing a block on an event responds as it should. -/
theorem responsive_announced
    (sound :
      Sound topology core overflowChecks log replica owner state)
    {event : FeedEvent}
    {events : List FeedEvent}
    {index : Nat}
    (looping : loop.phase = .looping)
    (taken : loop.feedEvents = event :: events)
    (about :
      event = .download index ∨
        event = .append ∧
          index + 1 = core.len (state.feeds (topology.store side)))
    (holds : core.has (state.feeds (topology.store side)) index) :
    Responsive topology core overflowChecks owner state side loop []
      (state.inboxes side)
      (({ loop with feedEvents := events }.peer
        (state.feeds (topology.store side))).sendHave index none) := by
  have announces :
      PeerSync.Brings core overflowChecks index
        (.announce index none none none) :=
    ⟨[index],
      announcedIndices_one core overflowChecks
        (sound.bounded _ index holds),
      List.mem_singleton.mpr rfl⟩
  refine ⟨fun _ => id, fun _ => rfl, ?_, ?_, ?_, fun _ => Or.inl⟩
  · intro other has lacked
    cases has.symm.trans lacked
  · intro starting
    rw [looping] at starting
    cases starting
  · intro other pending
    rw [Pending, taken] at pending
    have isFirst :
        (event = .download other ∨
          event = .append ∧
            other + 1 =
              core.len (state.feeds (topology.store side))) →
        other = index := by
      rintro (rfl | ⟨rfl, isLast⟩)
      · rcases about with same | ⟨other, _⟩
        · cases same
          rfl
        · cases other
      · rcases about with other | ⟨_, same⟩
        · cases other
        · omega
    rcases pending with isDownload | ⟨isAppend, isLast⟩
    · rcases List.mem_cons.mp isDownload with first | later
      · rw [isFirst (Or.inl first.symm)]
        exact Or.inr ⟨_, List.mem_singleton.mpr rfl, announces⟩
      · exact Or.inl (Or.inl later)
    · rcases List.mem_cons.mp isAppend with first | later
      · rw [isFirst (Or.inr ⟨first.symm, isLast⟩)]
        exact Or.inr ⟨_, List.mem_singleton.mpr rfl, announces⟩
      · exact Or.inl (Or.inr ⟨later, isLast⟩)

/-- A loop that starts asks for everything. -/
theorem responsive_started :
    Responsive topology core overflowChecks owner state side loop []
      (state.inboxes side)
      (loop.peer (state.feeds (topology.store side))).onOpen := by
  refine ⟨fun _ => id, fun _ => rfl, ?_, ?_, fun _ => Or.inl,
    fun _ => Or.inl⟩
  · intro index has lacked
    cases has.symm.trans lacked
  · intro starting
    simp [Peer.onOpen, Peer.sendWants, Peer.done]

/-- What is covered stays so when nothing is lost. -/
theorem Synced.mono
    {next : State Store End Feed}
    (synced : Synced topology core overflowChecks state)
    (sameFeeds : next.feeds = state.feeds)
    (stillClosed :
      ∀ side, state.closed side = true → next.closed side = true)
    (inFlight :
      ∀ side,
        ∀ message ∈ state.inboxes side, message ∈ next.inboxes side)
    (waits : ∀ side, Unstarted state side → Unstarted next side)
    (sameLoops :
      ∀ side loop,
        state.loops side = some loop → next.loops side = some loop) :
    Synced topology core overflowChecks next := by
  constructor
  · intro side index holds
    rw [sameFeeds] at holds
    cases synced.covered side index holds with
    | closedHere isClosed =>
        exact .closedHere (stillClosed _ isClosed)
    | closedThere isClosed =>
        exact .closedThere (stillClosed _ isClosed)
    | held holdsToo =>
        exact .held (by rw [sameFeeds]; exact holdsToo)
    | unstarted isWaiting =>
        exact .unstarted (waits _ isWaiting)
    | asked message isSent asks =>
        exact .asked message (inFlight _ message isSent) asks
    | brought message isSent brings =>
        exact .brought message (inFlight _ message isSent) brings
    | pending loop found queued =>
        exact .pending loop (sameLoops side loop found)
          (by rw [sameFeeds]; exact queued)
  · intro side absent
    have wasAbsent : state.loops side = none := by
      cases found : state.loops side with
      | none =>
          rfl
      | some loop =>
          rw [sameLoops side loop found] at absent
          cases absent
    exact (synced.wanted side wasAbsent).imp (waits _) (inFlight side _)

/-! ## At rest -/

/-- Nothing is connected yet, so everybody waits. -/
theorem synced_initial (feeds : Store → Feed) :
    Synced topology core overflowChecks (initial End feeds) := by
  have waits : ∀ side, Unstarted (initial End feeds) side := by
    intro side loop isLoop
    cases isLoop
  exact ⟨fun side _ _ => .unstarted (waits _), fun side _ =>
    Or.inl (waits _)⟩

/-- A connection is open at both ends. -/
theorem Live.opposite
    (live : Live topology state side) :
    Live topology state (topology.opposite side) := by
  obtain ⟨isOpen, isOpenThere, subscribed, subscribedThere⟩ := live
  rw [Live, topology.opposite_opposite]
  exact ⟨isOpenThere, isOpen, subscribedThere, subscribed⟩

/-- On an open connection at rest the other end has what this one has. -/
theorem Synced.held_of_live
    (synced : Synced topology core overflowChecks state)
    (quiescent : Quiescent topology state)
    (live : Live topology state side)
    {index : Nat}
    (holds : core.has (state.feeds (topology.store side)) index) :
    core.has
      (state.feeds (topology.store (topology.opposite side))) index := by
  have isOpen := live.1
  have isOpenThere := live.2.1
  obtain ⟨noMessages, loop, isLoop, _, noEvents⟩ := quiescent side live
  obtain ⟨noneThere, other, isOther, looping, _⟩ :=
    quiescent _ live.opposite
  cases synced.covered side index holds with
  | closedHere isClosed =>
      rw [isOpen] at isClosed
      cases isClosed
  | closedThere isClosed =>
      rw [isOpenThere] at isClosed
      cases isClosed
  | held holdsToo =>
      exact holdsToo
  | unstarted waits =>
      have starting := waits other isOther
      rw [looping] at starting
      cases starting
  | asked message inFlight asks =>
      rw [noMessages] at inFlight
      cases inFlight
  | brought message inFlight brings =>
      rw [noneThere] at inFlight
      cases inFlight
  | pending before found queued =>
      rw [isLoop] at found
      cases found
      rw [Pending, noEvents] at queued
      rcases queued with isDownload | ⟨isAppend, _⟩
      · cases isDownload
      · cases isAppend

/-- A connection joins its two stores both ways. -/
theorem Linked.symm
    {first second : Store}
    (linked : Linked topology state first second) :
    Linked topology state second first := by
  obtain ⟨side, live, isFirst, isSecond⟩ := linked
  refine ⟨topology.opposite side, live.opposite, isSecond, ?_⟩
  rw [topology.opposite_opposite]
  exact isFirst

/-- Stores that are joined hold the same blocks at rest. -/
theorem Synced.has_eq_of_joined
    (synced : Synced topology core overflowChecks state)
    (quiescent : Quiescent topology state)
    {first second : Store}
    (joined : Joined topology state first second)
    (index : Nat) :
    core.has (state.feeds first) index =
      core.has (state.feeds second) index := by
  have oneWay :
      ∀ {here there : Store},
        Linked topology state here there →
        core.has (state.feeds here) index →
        core.has (state.feeds there) index := by
    rintro here there ⟨side, live, rfl, rfl⟩ holds
    exact synced.held_of_live quiescent live holds
  induction joined with
  | refl =>
      rfl
  | tail _ linked inductionHypothesis =>
      rw [inductionHypothesis]
      exact Bool.eq_iff_iff.mpr ⟨oneWay linked, oneWay linked.symm⟩

/-- Joined stores agree at rest, and those joined to the owner are full. -/
theorem Synced.agree_of_joined
    (sound :
      Sound topology core overflowChecks log replica owner state)
    (synced : Synced topology core overflowChecks state)
    (quiescent : Quiescent topology state)
    {first second : Store}
    (joined : Joined topology state first second) :
    (∀ index,
      core.has (state.feeds first) index =
        core.has (state.feeds second) index) ∧
      (owner = some first →
        ∀ index,
          core.has (state.feeds second) index ↔
            index < core.len (state.feeds first)) := by
  have same := synced.has_eq_of_joined quiescent joined
  refine ⟨same, ?_⟩
  intro isOwner index
  rw [← same index]
  exact sound.full first isOwner index

end

section

variable
  {Store End Feed Signature : Type}
  [DecidableEq Store]
  [DecidableEq End]
  {topology : Topology Store End}
  {core : Hypercore Feed Signature}
  {overflowChecks : Bool}
  {log : Nat → Bytes}
  {replica : Feed → Prop}
  {owner : Option Store}
  {state next : State Store End Feed}
  {side : End}
  {loop : Loop}
  {news : List FeedEvent}
  {rest : List Message}
  {turn : Turn Feed}

/-! ## What a handler leaves in the network -/

/-- The loop at an end after a handler there. -/
theorem act_loops_self :
    (state.act topology side news rest turn).loops side =
      some (.ofPeer turn.peer turn.phase) := by
  simp [State.act]

/-- The loop at another end after a handler. -/
theorem act_loops_other
    {other : End}
    (different : other ≠ side)
    {loop : Loop}
    (found : state.loops other = some loop) :
    (state.act topology side news rest turn).loops other =
      some (if topology.store other = topology.store side then
        loop.hear news
      else
        loop) := by
  simp only [State.act, if_neg different]
  split <;> simp [found]

/-- No loop vanishes at another end, and none appears. -/
theorem act_loops_eq_none
    {other : End}
    (different : other ≠ side) :
    (state.act topology side news rest turn).loops other = none ↔
      state.loops other = none := by
  simp only [State.act, if_neg different]
  split <;> simp

/-- Messages to other ends stay in flight. -/
theorem mem_act_inboxes
    {other : End}
    (different : other ≠ side)
    {message : Message}
    (inFlight : message ∈ state.inboxes other) :
    message ∈
      (state.act topology side news rest turn).inboxes other := by
  simp only [State.act, if_neg different]
  split
  · exact List.mem_append_left _ inFlight
  · exact inFlight

/-- What a handler sends is in flight to the other end. -/
theorem mem_act_sent
    {message : Message}
    (isSent : message ∈ turn.sent) :
    message ∈
      (state.act topology side news rest turn).inboxes
        (topology.opposite side) := by
  simp only [State.act, if_neg (topology.opposite_ne side), if_true]
  exact List.mem_append_right _ isSent

/-- The phase of a loop changes only through its own handlers. -/
theorem unstarted_act
    {other : End}
    (different : other ≠ side)
    (waits : Unstarted state other) :
    Unstarted (state.act topology side news rest turn) other := by
  intro loop isLoop
  cases found : state.loops other with
  | none =>
      rw [(act_loops_eq_none different).mpr found] at isLoop
      cases isLoop
  | some before =>
      rw [act_loops_other different found] at isLoop
      cases isLoop
      have starting := waits before found
      split
      · exact starting
      · exact starting

/-- A queued announcement at another end stays queued. -/
theorem pending_act
    (sound :
      Sound topology core overflowChecks log replica owner state)
    (ofOwner :
      owner = some (topology.store side) →
      turn.peer.feed = state.feeds (topology.store side))
    {other : End}
    (different : other ≠ side)
    {before : Loop}
    {index : Nat}
    (found : state.loops other = some before)
    (queued :
      Pending core (state.feeds (topology.store other)) before index) :
    Covered topology core overflowChecks
      (state.act topology side news rest turn) other index := by
  refine .pending _ (act_loops_other different found) ?_
  have kept :
      ∀ event ∈ before.feedEvents,
        event ∈
          (if topology.store other = topology.store side then
            before.hear news
          else
            before).feedEvents := by
    intro event member
    split
    · exact List.mem_append_left _ member
    · exact member
  rcases queued with isDownload | ⟨isAppend, isLast⟩
  · exact Or.inl (kept _ isDownload)
  · obtain ⟨isOwner, _⟩ := sound.heard other before found _ isAppend
    refine Or.inr ⟨kept _ isAppend, ?_⟩
    by_cases sameStore : topology.store other = topology.store side
    · rw [sameStore] at isLast isOwner ⊢
      simp only [State.act, Function.update_self]
      rw [ofOwner isOwner]
      exact isLast
    · simp only [State.act, Function.update_of_ne sameStore]
      exact isLast

/-- A block that was held stays covered when a handler runs. -/
theorem Covered.act
    (sound :
      Sound topology core overflowChecks log replica owner state)
    (found : state.loops side = some loop)
    (responds :
      Responsive topology core overflowChecks owner state side loop
        news rest turn)
    {other : End}
    {index : Nat}
    (holds : core.has (state.feeds (topology.store other)) index)
    (covered :
      Covered topology core overflowChecks state other index) :
    Covered topology core overflowChecks
      (state.act topology side news rest turn) other index := by
  have grows :
      Grows core state.feeds
        (Function.update state.feeds (topology.store side)
          turn.peer.feed) :=
    grows_update responds.keeps
  have opposite_of :
      topology.opposite other = side → other = topology.opposite side := by
    rintro rfl
    exact (topology.opposite_opposite other).symm
  cases covered with
  | closedHere isClosed =>
      exact .closedHere isClosed
  | closedThere isClosed =>
      exact .closedThere isClosed
  | held holdsToo =>
      exact .held (grows _ _ holdsToo)
  | unstarted waits =>
      by_cases same : topology.opposite other = side
      · have isWant := responds.starts (waits loop (same ▸ found))
        refine .asked (.want 0 (some windowLength)) ?_ ⟨rfl, rfl⟩
        rw [opposite_of same]
        exact mem_act_sent isWant
      · exact .unstarted (unstarted_act same waits)
  | asked message inFlight asks =>
      by_cases same : other = side
      · subst other
        rcases responds.answers message inFlight with kept | answered
        · refine .asked message ?_ asks
          simpa only [State.act, if_true] using kept
        · obtain ⟨reply, isSent, brings⟩ :=
            (answered index).1 holds asks
          exact .brought reply (mem_act_sent isSent) brings
      · exact .asked message (mem_act_inboxes same inFlight) asks
  | brought message inFlight brings =>
      by_cases same : topology.opposite other = side
      · rw [same] at inFlight
        rcases responds.answers message inFlight with kept | answered
        · refine .brought message ?_ brings
          rw [same]
          simpa only [State.act, if_true] using kept
        · rcases (answered index).2 brings with stored | replied
          · refine .held ?_
            rw [same]
            simpa only [State.act, Function.update_self] using stored
          · obtain ⟨reply, isSent, asks⟩ := replied
            refine .asked reply ?_ asks
            rw [opposite_of same]
            exact mem_act_sent isSent
      · exact .brought message (mem_act_inboxes same inFlight) brings
  | pending before isLoop queued =>
      by_cases same : other = side
      · subst other
        rw [found] at isLoop
        cases isLoop
        rcases responds.announces index queued with still | announced
        · refine .pending _ act_loops_self ?_
          simpa only [State.act, Function.update_self] using still
        · obtain ⟨reply, isSent, brings⟩ := announced
          exact .brought reply (mem_act_sent isSent) brings
      · exact pending_act sound responds.ofOwner same isLoop queued

/-- A handler that responds as it should keeps the invariant. -/
theorem Synced.act
    (sound :
      Sound topology core overflowChecks log replica owner state)
    (synced : Synced topology core overflowChecks state)
    (found : state.loops side = some loop)
    (responds :
      Responsive topology core overflowChecks owner state side loop
        news rest turn) :
    Synced topology core overflowChecks
      (state.act topology side news rest turn) := by
  have wanted :
      ∀ other,
        (state.act topology side news rest turn).loops other = none →
        Unstarted (state.act topology side news rest turn)
            (topology.opposite other) ∨
          .want 0 (some windowLength) ∈
            (state.act topology side news rest turn).inboxes other := by
    intro other absent
    have different : other ≠ side := by
      rintro rfl
      rw [act_loops_self] at absent
      cases absent
    rcases synced.wanted other
        ((act_loops_eq_none different).mp absent) with waits | isWant
    · by_cases same : topology.opposite other = side
      · have isOther : other = topology.opposite side := by
          rw [← same, topology.opposite_opposite]
        rw [isOther]
        exact Or.inr
          (mem_act_sent (responds.starts (waits loop (same ▸ found))))
      · exact Or.inl (unstarted_act same waits)
    · exact Or.inr (mem_act_inboxes different isWant)
  refine ⟨?_, wanted⟩
  intro other index holds
  by_cases before : core.has (state.feeds (topology.store other)) index
  · exact (synced.covered other index before).act sound found responds
      before
  have sameStore : topology.store other = topology.store side := by
    by_contra different
    simp only [State.act, Function.update_of_ne different] at holds
    exact before holds
  simp only [State.act, sameStore, Function.update_self] at holds
  rw [sameStore, Bool.not_eq_true] at before
  obtain ⟨isNews, senderHolds⟩ := responds.fresh index holds before
  by_cases same : other = side
  · subst other
    exact .held (grows_update responds.keeps _ _ senderHolds)
  · cases isLoop : state.loops other with
    | none =>
        rcases wanted other ((act_loops_eq_none same).mpr isLoop) with
          waits | isWant
        · exact .unstarted waits
        · exact .asked _ isWant ⟨rfl, rfl⟩
    | some before =>
        refine .pending _ (act_loops_other same isLoop) (Or.inl ?_)
        rw [if_pos sameStore]
        exact List.mem_append_right _ isNews

end

section

variable
  {Store End Feed Signature : Type}
  [DecidableEq Store]
  {topology : Topology Store End}
  {core : Hypercore Feed Signature}
  {overflowChecks : Bool}
  {state : State Store End Feed}
  {loop : Loop}
  {news : List FeedEvent}

/-! ## The owner appends -/

/-- An append leaves the loops in their phases. -/
theorem unstarted_grow
    {store : Store}
    {feed : Feed}
    {other : End}
    (waits : Unstarted state other) :
    Unstarted (state.grow topology store news feed) other := by
  intro grown isLoop
  simp only [State.grow] at isLoop
  split at isLoop
  · obtain ⟨before, found, rfl⟩ := Option.map_eq_some_iff.mp isLoop
    exact waits before found
  · exact waits grown isLoop

/-- An append removes no loop and adds none. -/
theorem grow_loops_eq_none
    {store : Store}
    {feed : Feed}
    {other : End} :
    (state.grow topology store news feed).loops other = none ↔
      state.loops other = none := by
  simp only [State.grow]
  split <;> simp

/-- The loops of the store that grows hear of it. -/
theorem grow_loops_same
    {store : Store}
    {feed : Feed}
    {other : End}
    (sameStore : topology.store other = store)
    (found : state.loops other = some loop) :
    (state.grow topology store news feed).loops other =
      some (loop.hear news) := by
  simp [State.grow, sameStore, found]

/-- A block that was held stays covered when a store gets another one. -/
theorem Covered.grow
    {store : Store}
    {feed : Feed}
    (keeps :
      ∀ index,
        core.has (state.feeds store) index → core.has feed index)
    (sameLength :
      ∀ side loop,
        topology.store side = store →
        state.closed side = false →
        state.loops side = some loop →
        .append ∈ loop.feedEvents →
        core.len feed = core.len (state.feeds store))
    {other : End}
    {index : Nat}
    (covered :
      Covered topology core overflowChecks state other index) :
    Covered topology core overflowChecks
      (state.grow topology store news feed) other index := by
  cases covered with
  | closedHere isClosed =>
      exact .closedHere isClosed
  | closedThere isClosed =>
      exact .closedThere isClosed
  | held holds =>
      exact .held (grows_update keeps _ _ holds)
  | unstarted waits =>
      exact .unstarted (unstarted_grow waits)
  | asked message inFlight asks =>
      exact .asked message inFlight asks
  | brought message inFlight brings =>
      exact .brought message inFlight brings
  | pending loop found queued =>
      by_cases sameStore : topology.store other = store
      · cases isClosed : state.closed other with
        | true =>
            exact .closedHere isClosed
        | false =>
            refine .pending _ (grow_loops_same sameStore found) ?_
            rcases queued with isDownload | ⟨isAppend, isLast⟩
            · exact Or.inl (List.mem_append_left _ isDownload)
            · refine Or.inr ⟨List.mem_append_left _ isAppend, ?_⟩
              rw [sameStore] at isLast ⊢
              simp only [State.grow, Function.update_self]
              rw [sameLength other loop sameStore isClosed found isAppend]
              exact isLast
      · refine .pending loop ?_ ?_
        · simpa only [State.grow, if_neg sameStore] using found
        · simpa only [State.grow, Function.update_of_ne sameStore]
            using queued

/-- The invariant is kept when a store gets a block that its loops hear of. -/
theorem Synced.grow
    (synced : Synced topology core overflowChecks state)
    {store : Store}
    {feed : Feed}
    (keeps :
      ∀ index,
        core.has (state.feeds store) index → core.has feed index)
    (sameLength :
      ∀ side loop,
        topology.store side = store →
        state.closed side = false →
        state.loops side = some loop →
        .append ∈ loop.feedEvents →
        core.len feed = core.len (state.feeds store))
    (fresh :
      ∀ index,
        core.has feed index →
        core.has (state.feeds store) index = false →
        .download index ∈ news ∨
          .append ∈ news ∧ index + 1 = core.len feed) :
    Synced topology core overflowChecks
      (state.grow topology store news feed) := by
  have wanted :
      ∀ other,
        state.loops other = none →
        Unstarted (state.grow topology store news feed)
            (topology.opposite other) ∨
          .want 0 (some windowLength) ∈ state.inboxes other := by
    intro other absent
    exact (synced.wanted other absent).imp unstarted_grow id
  refine ⟨?_, fun other absent =>
    wanted other (grow_loops_eq_none.mp absent)⟩
  intro other index has
  by_cases before : core.has (state.feeds (topology.store other)) index
  · exact (synced.covered other index before).grow keeps sameLength
  have sameStore : topology.store other = store := by
    by_contra different
    simp only [State.grow, Function.update_of_ne different] at has
    exact before has
  simp only [State.grow, sameStore, Function.update_self] at has
  rw [sameStore, Bool.not_eq_true] at before
  cases found : state.loops other with
  | none =>
      rcases wanted other found with waits | isWant
      · exact .unstarted waits
      · exact .asked _ isWant ⟨rfl, rfl⟩
  | some loop =>
      refine .pending _ (grow_loops_same sameStore found) ?_
      rcases fresh index has before with isDownload | ⟨isAppend, isLast⟩
      · exact Or.inl (List.mem_append_right _ isDownload)
      · refine Or.inr ⟨List.mem_append_right _ isAppend, ?_⟩
        simpa only [State.grow, sameStore, Function.update_self]
          using isLast

/-- An append by the owner keeps the invariant. -/
theorem Synced.appended
    (synced : Synced topology core overflowChecks state)
    {store : Store}
    {feed : Feed}
    (longer : core.len feed = core.len (state.feeds store) + 1)
    (holds :
      ∀ other,
        core.has feed other =
          (core.has (state.feeds store) other ||
            decide (other = core.len (state.feeds store))))
    (handledBefore :
      ∀ side loop,
        topology.store side = store →
        state.closed side = false →
        state.loops side = some loop →
        .append ∉ loop.feedEvents) :
    Synced topology core overflowChecks
      (state.grow topology store [.append] feed) := by
  refine synced.grow ?_ ?_ ?_
  · intro index has
    rw [holds, has, Bool.true_or]
  · intro side loop sameStore isOpen found isAppend
    exact absurd isAppend
      (handledBefore side loop sameStore isOpen found)
  · intro index has before
    rw [holds, before, Bool.false_or, decide_eq_true_eq] at has
    refine Or.inr ⟨List.mem_singleton.mpr rfl, ?_⟩
    rw [has, longer]

end

section

variable
  {Store End Feed Signature : Type}
  [DecidableEq End]
  {topology : Topology Store End}
  {state : State Store End Feed}
  {side : End}

/-! ## Other steps -/

/-- A loop that subscribes has not started. -/
theorem unstarted_subscribed
    {remote : Key}
    {other : End}
    (waits : Unstarted state other) :
    Unstarted
      { state with
        loops := Function.update state.loops side
          (some (.subscribed (state.feeds (topology.store side))
            remote)) } other := by
  intro loop isLoop
  simp only [Function.update_apply] at isLoop
  split at isLoop
  · cases isLoop
    rfl
  · exact waits loop isLoop

/-- Messages in flight are not lost when another one is sent. -/
theorem mem_update_append
    {inboxes : End → List Message}
    {other : End}
    {message extra : Message}
    (inFlight : message ∈ inboxes other) :
    message ∈
      Function.update inboxes side (inboxes side ++ [extra]) other := by
  by_cases same : other = side
  · subst other
    rw [Function.update_self]
    exact List.mem_append_left _ inFlight
  · rw [Function.update_of_ne same]
    exact inFlight

end

section

variable
  {Store End Feed Signature : Type}
  [DecidableEq Store]
  [DecidableEq End]
  {topology : Topology Store End}
  {core : Hypercore Feed Signature}
  {overflowChecks : Bool}
  {log : Nat → Bytes}
  {replica : Feed → Prop}
  {owner : Option Store}
  {state next : State Store End Feed}

/-! ## Careful runs -/

/-- Every handler that runs keeps the invariant. -/
theorem Synced.of_handles
    (sound :
      Sound topology core overflowChecks log replica owner state)
    (synced : Synced topology core overflowChecks state)
    (handles :
      Handles topology core overflowChecks log replica state next) :
    Synced topology core overflowChecks next := by
  cases handles with
  | started found starting =>
      exact synced.act sound found responsive_started
  | handled found looping taken reacts queued isNews =>
      exact synced.act sound found
        (responsive_handled sound found looping taken reacts queued
          isNews)
  | announced found looping taken about holds =>
      exact synced.act sound found
        (responsive_announced sound looping taken about holds)

/-- Every step of a careful run keeps the invariant. -/
theorem Synced.of_moves
    (sound :
      Sound topology core overflowChecks log replica owner state)
    (synced : Synced topology core overflowChecks state)
    (moves :
      Moves topology core overflowChecks log replica owner state next) :
    Synced topology core overflowChecks next := by
  cases moves with
  | handles handled =>
      exact synced.of_handles sound handled
  | @subscribed side remote absent =>
      refine synced.mono rfl (fun _ => id) (fun _ _ => id)
        (fun _ => unstarted_subscribed) ?_
      intro other loop found
      have different : other ≠ side := by
        rintro rfl
        rw [absent] at found
        cases found
      simpa only [Function.update_of_ne different] using found
  | reopened side =>
      exact synced.mono rfl (fun _ => id) (fun _ _ => mem_update_append)
        (fun _ => id) (fun _ _ => id)
  | closed side =>
      refine synced.mono rfl ?_ (fun _ _ => id) (fun _ => id)
        (fun _ _ => id)
      intro other isClosed
      simp only [Function.update_apply]
      split
      · rfl
      · exact isClosed
  | appended isOwner isReplica small longer holds handledBefore =>
      exact synced.appended longer holds handledBefore

/-- Every state of a careful run meets both invariants. -/
theorem sound_and_synced_of_run
    (relays : Relays core log replica)
    {first last : State Store End Feed}
    {actions : List (Action Store End)}
    (sound :
      Sound topology core overflowChecks log replica owner first)
    (synced : Synced topology core overflowChecks first)
    (careful :
      Machine.Along (step topology core overflowChecks log)
        (Careful topology core owner) first actions)
    (ran :
      Machine.run (step topology core overflowChecks log) first actions =
        some last) :
    Sound topology core overflowChecks log replica owner last ∧
      Synced topology core overflowChecks last := by
  refine Machine.invariant_run_along
    (fun state =>
      Sound topology core overflowChecks log replica owner state ∧
        Synced topology core overflowChecks state)
    ?_ ⟨sound, synced⟩ careful ran
  rintro state action next ⟨isSound, isSynced⟩ isCareful stepped
  have moves := isSound.moves relays isCareful stepped
  exact ⟨isSound.of_moves moves, isSynced.of_moves isSound moves⟩

/--
In every careful run of any network no peer loop fails and every block that a
store holds is the block of the log.  When nothing is in flight and no event is
queued, stores that are joined by open connections, over any number of stores in
between, hold the same blocks, and those joined to the owner hold the whole
log.
-/
theorem joined_stores_agree_at_rest
    (relays : Relays core log replica)
    {feeds : Store → Feed}
    (replicas : ∀ store, replica (feeds store))
    (bounded :
      ∀ store index, core.has (feeds store) index → index < windowLength)
    (full :
      ∀ store,
        owner = some store →
        ∀ index,
          core.has (feeds store) index ↔ index < core.len (feeds store))
    (owned :
      ∀ store,
        owner = some store →
        ∀ other index,
          core.has (feeds other) index → core.has (feeds store) index)
    {actions : List (Action Store End)}
    {final : State Store End Feed}
    (careful :
      Machine.Along (step topology core overflowChecks log)
        (Careful topology core owner) (initial End feeds) actions)
    (ran :
      Machine.run (step topology core overflowChecks log)
          (initial End feeds) actions =
        some final) :
    (∀ side loop,
      final.loops side = some loop → loop.phase ≠ .ended) ∧
      (∀ store index,
        core.has (final.feeds store) index →
        core.get (final.feeds store) index = some (some (log index))) ∧
      (Quiescent topology final →
        ∀ first second,
          Joined topology final first second →
          (∀ index,
            core.has (final.feeds first) index =
              core.has (final.feeds second) index) ∧
          (owner = some first →
            ∀ index,
              core.has (final.feeds second) index ↔
                index < core.len (final.feeds first))) := by
  obtain ⟨sound, synced⟩ :=
    sound_and_synced_of_run relays
      (sound_initial replicas bounded full owned)
      (synced_initial feeds) careful ran
  refine ⟨?_, ?_, ?_⟩
  · intro side loop isLoop
    exact (sound.running side loop isLoop).1
  · intro store index holds
    exact relays.get _ _ (sound.replicas store) holds
  · intro quiescent first second joined
    exact synced.agree_of_joined sound quiescent joined

end

/-! ## An example -/

/-- Three stores in a line. -/
inductive Place where
  | first
  | middle
  | last
  deriving DecidableEq

/-- The ends of the two connections between them. -/
inductive LineEnd where
  | first
  | left
  | right
  | last
  deriving DecidableEq

/-- The store in the middle has a connection to each of the others. -/
def line : Topology Place LineEnd where
  store
    | .first => .first
    | .left => .middle
    | .right => .middle
    | .last => .last
  opposite
    | .first => .left
    | .left => .first
    | .right => .last
    | .last => .right
  opposite_opposite := by
    intro side
    cases side <;> rfl
  opposite_ne := by
    intro side
    cases side <;> decide

/-- The blocks of the example. -/
def numberedLog (index : Nat) : Bytes := [UInt8.ofNat index]

/-- A sparse feed whose blocks are those of the log. -/
def Numbered (feed : SparseFeed) : Prop :=
  feed.length ≤ 8 ∧
    feed.byteLength ≤ feed.length ∧
    ∀ index block,
      feed.blocks.lookup index = some block →
      block = numberedLog index

/-- Raising the length to that of a feed of numbered blocks. -/
theorem Numbered.raise
    {feed : SparseFeed}
    (numbered : Numbered feed)
    {length byteLength : Nat}
    (small : length ≤ 8)
    (fewer : byteLength ≤ length) :
    Numbered (feed.raise (some (length, byteLength))) := by
  simp only [SparseFeed.raise]
  split
  · exact ⟨small, fewer, numbered.2.2⟩
  · exact numbered

/-- Storing a block of the log. -/
theorem Numbered.write
    {feed : SparseFeed}
    (numbered : Numbered feed)
    (index : Nat) :
    Numbered (feed.write index (numberedLog index)) := by
  refine ⟨numbered.1, numbered.2.1, ?_⟩
  intro other block isBlock
  simp only [SparseFeed.write, List.lookup_cons] at isBlock
  split at isBlock
  · next same =>
      cases isBlock
      rw [eq_of_beq same]
  · exact numbered.2.2 other block isBlock

/-- Sparse feeds of numbered blocks relay them. -/
theorem relays_sparseCore : Relays sparseCore numberedLog Numbered where
  roundTrip := by
    intro feed _
    have compressed :
        sparseCore.compress feed 0 windowLength = some _ := rfl
    obtain ⟨bits, parsed, isBit⟩ :=
      PeerHolds.encodes_sparseCore.compress compressed
    refine ⟨_, bits, compressed, parsed, ?_⟩
    intro index
    rw [isBit, Nat.zero_add]
  get := by
    intro feed index numbered holds
    simp only [sparseCore, SparseFeed.has, Bool.and_eq_true,
      Option.isSome_iff_exists] at holds ⊢
    obtain ⟨_, block, isBlock⟩ := holds
    rw [isBlock, numbered.2.2 index block isBlock]
  proof := fun feed index _ _ => ⟨_, rfl⟩
  signature := by
    intro feed index proof signature numbered proved signed
    cases proved
    cases signed
    obtain ⟨small, fewer, _⟩ := numbered
    have isLength : feed.length % 256 = feed.length := by omega
    have isByteLength : feed.byteLength % 256 = feed.byteLength := by
      omega
    simp [sparseCore, isLength, isByteLength]
  put := by
    intro feed giver index proof numbered numberedGiver holds proved
    cases proved
    simp only [sparseCore, SparseFeed.has, Bool.and_eq_true,
      decide_eq_true_eq] at holds
    have stored :
        sparseCore.put feed index (some (numberedLog index))
            ⟨index, [], some (giver.length, giver.byteLength)⟩ =
          some ((feed.raise
            (some (giver.length, giver.byteLength))).write index
              (numberedLog index), !sparseCore.has feed index) := by
      simp [sparseCore, holds.1]
    refine ⟨_, stored,
      (numbered.raise numberedGiver.1 numberedGiver.2.1).write index, ?_⟩
    intro other
    rw [(sparseCore_put stored).1]
    simp [Bool.or_comm]
  append := by
    intro feed next numbered appended
    have holds := sparseCore_append appended
    simp only [sparseCore] at appended
    split at appended
    · next small =>
        cases appended
        refine ⟨(numbered.raise (by omega) ?_).write feed.length, ?_, ?_⟩
        · have fewer := numbered.2.1
          simp only [numberedLog, List.length_singleton]
          omega
        · simp [sparseCore, SparseFeed.write, SparseFeed.raise]
        · intro other
          rw [holds, Bool.or_comm]
    · cases appended

/-- A feed without blocks. -/
theorem numbered_empty : Numbered .empty :=
  ⟨Nat.zero_le 8, Nat.le_refl 0, by simp [SparseFeed.empty]⟩

/-- It holds nothing. -/
theorem has_empty (index : Nat) :
    sparseCore.has .empty index = false := by
  simp [sparseCore, SparseFeed.has, SparseFeed.empty]

/--
All loops start and ask for what there is, which is nothing.  Then the first
store appends a block.
-/
def opened : List (Action Place LineEnd) :=
  [.subscribe .first (Key.constant 1),
    .subscribe .left (Key.constant 2),
    .subscribe .right (Key.constant 3),
    .subscribe .last (Key.constant 4),
    .start .first, .start .left, .start .right, .start .last,
    .deliver .first, .deliver .left, .deliver .right, .deliver .last,
    .deliver .first, .deliver .left, .deliver .right, .deliver .last,
    .append .first]

/-- The block reaches the last store through the middle. -/
def passedOn : List (Action Place LineEnd) :=
  [.feedEvent .first, .deliver .left, .deliver .first, .deliver .left,
    .feedEvent .right, .feedEvent .left, .deliver .first,
    .deliver .last, .deliver .right, .deliver .last, .feedEvent .last,
    .deliver .right]

/-- The three stores are empty at first. -/
def emptyLine : State Place LineEnd SparseFeed :=
  initial LineEnd fun _ => .empty

/-- A message that is no `Want` may be delivered at any time. -/
theorem careful_deliver_of_head
    {Store End Feed Signature : Type}
    {topology : Topology Store End}
    {core : Hypercore Feed Signature}
    {owner : Option Store}
    {state : State Store End Feed}
    {side : End}
    {message : Message}
    (head : (state.inboxes side).head? = some message)
    (notWant : ∀ start length, message ≠ .want start length) :
    Careful topology core owner state (.deliver side) := by
  intro loop start length rest _ taken
  rw [taken] at head
  exact absurd (Option.some.inj head).symm (notWant start length)

/-- The run meets the conditions. -/
theorem careful_opened_passedOn :
    Machine.Along (step line sparseCore true numberedLog)
      (Careful line sparseCore (some .first)) emptyLine
      (opened ++ passedOn) := by
  have announce :
      ∀ start length bitfield ack wanted wantedLength,
        Message.announce start length bitfield ack ≠
          .want wanted wantedLength := by
    intro start length bitfield ack wanted wantedLength same
    cases same
  have request :
      ∀ index wanted wantedLength,
        Message.request index ≠ .want wanted wantedLength := by
    intro index wanted wantedLength same
    cases same
  have data :
      ∀ index value nodes signature wanted wantedLength,
        Message.data index value nodes signature ≠
          .want wanted wantedLength := by
    intro index value nodes signature wanted wantedLength same
    cases same
  have empty :
      ∀ {state : State Place LineEnd SparseFeed} {side : LineEnd},
        sparseCore.len (state.feeds (line.store side)) = 0 →
        Careful line sparseCore (some .first) state
          (.deliver side) := by
    intro state side isEmpty loop start length rest _ _ _ positive
    omega
  refine ⟨trivial, trivial, trivial, trivial, trivial, trivial, trivial,
    trivial, empty rfl, empty rfl, empty rfl, empty rfl, empty rfl,
    empty rfl, empty rfl, empty rfl, ⟨rfl, by decide, ?_⟩, trivial,
    careful_deliver_of_head rfl (announce _ _ _ _),
    careful_deliver_of_head rfl (request _),
    careful_deliver_of_head rfl (data _ _ _ _), trivial, trivial,
    careful_deliver_of_head rfl (announce _ _ _ _),
    careful_deliver_of_head rfl (announce _ _ _ _),
    careful_deliver_of_head rfl (request _),
    careful_deliver_of_head rfl (data _ _ _ _), trivial,
    careful_deliver_of_head rfl (announce _ _ _ _), trivial⟩
  intro side loop isFirst _ isLoop
  cases side with
  | first =>
      cases isLoop
      exact List.not_mem_nil
  | _ => cases isFirst

/-- The last store has the block that the first one appended. -/
theorem joined_stores_agree_at_rest_line :
    ∃ final,
      Machine.run (step line sparseCore true numberedLog) emptyLine
          (opened ++ passedOn) =
          some final ∧
        Quiescent line final ∧
        Joined line final .first .last ∧
        ∀ index,
          sparseCore.has (final.feeds .last) index ↔ index < 1 := by
  obtain ⟨final, ran, settled, hasOne⟩ :
      ∃ final,
        Machine.run (step line sparseCore true numberedLog) emptyLine
            (opened ++ passedOn) =
            some final ∧
          (∀ side,
            final.closed side = false ∧
              final.inboxes side = [] ∧
              ∃ loop,
                final.loops side = some loop ∧
                  loop.phase = .looping ∧ loop.feedEvents = []) ∧
          sparseCore.len (final.feeds .first) = 1 := by
    refine ⟨_, rfl, ?_, rfl⟩
    intro side
    cases side <;> exact ⟨rfl, rfl, _, rfl, rfl, rfl⟩
  have subscribed : ∀ side, final.loops side ≠ none := by
    intro side
    obtain ⟨_, _, loop, isLoop, _⟩ := settled side
    rw [isLoop]
    exact Option.some_ne_none loop
  have live : ∀ side, Live line final side := by
    intro side
    exact ⟨(settled side).1, (settled _).1, subscribed side,
      subscribed _⟩
  have quiescent : Quiescent line final :=
    fun side _ => (settled side).2
  have joined : Joined line final .first .last :=
    .tail (.single ⟨.first, live _, rfl, rfl⟩) ⟨.right, live _, rfl, rfl⟩
  have noLength : sparseCore.len .empty = 0 := rfl
  have agree :=
    joined_stores_agree_at_rest relays_sparseCore
      (fun _ => numbered_empty) (by simp [has_empty])
      (by simp [has_empty, noLength]) (by simp [has_empty]) careful_opened_passedOn ran
  refine ⟨final, ran, quiescent, joined, ?_⟩
  rw [← hasOne]
  exact (agree.2.2 quiescent _ _ joined).2 rfl

end Hyperspace.FeedNetwork
