import Hyperspace.FeedNetwork

namespace Hyperspace.FeedNetwork

/-!
# The steps of a network of stores

In a careful run no handler fails: `Moves` lists what a step can be, and says
of each handler what it sends and stores.  Every such step keeps the network
sound.  The later modules use these steps and not the handlers.
-/

/-- What a loop does when it runs in a careful run. -/
inductive Handles
    {Store End Feed Signature : Type}
    [DecidableEq Store]
    [DecidableEq End]
    (topology : Topology Store End)
    (core : Hypercore Feed Signature)
    (overflowChecks : Bool)
    (log : Nat → Bytes)
    (replica : Feed → Prop)
    (state : State Store End Feed) : State Store End Feed → Prop where
  | started
      {side : End}
      {loop : Loop}
      (found : state.loops side = some loop)
      (starting : loop.phase = .starting) :
      Handles topology core overflowChecks log replica state
        (state.act topology side [] (state.inboxes side)
          (loop.peer (state.feeds (topology.store side))).onOpen)
  | handled
      {side : End}
      {loop : Loop}
      {message : Message}
      {rest sent : List Message}
      {after : Peer Feed}
      {news : List FeedEvent}
      (found : state.loops side = some loop)
      (looping : loop.phase = .looping)
      (taken : state.inboxes side = message :: rest)
      (reacts :
        Reacts core overflowChecks log replica
          (loop.peer (state.feeds (topology.store side))) message after
          sent)
      (queued : after.feedEvents = loop.feedEvents ++ news)
      (isNews :
        ∀ event,
          event ∈ news ↔
            ∃ index,
              event = .download index ∧
                core.has after.feed index ∧
                core.has (state.feeds (topology.store side)) index =
                  false) :
      Handles topology core overflowChecks log replica state
        (state.act topology side news rest (after.done sent))
  | announced
      {side : End}
      {loop : Loop}
      {event : FeedEvent}
      {rest : List FeedEvent}
      {index : Nat}
      (found : state.loops side = some loop)
      (looping : loop.phase = .looping)
      (taken : loop.feedEvents = event :: rest)
      (about :
        event = .download index ∨
          event = .append ∧
            index + 1 = core.len (state.feeds (topology.store side)))
      (holds : core.has (state.feeds (topology.store side)) index) :
      Handles topology core overflowChecks log replica state
        (state.act topology side [] (state.inboxes side)
          (({ loop with feedEvents := rest }.peer
            (state.feeds (topology.store side))).sendHave index none))

/-- What a step of a careful run is. -/
inductive Moves
    {Store End Feed Signature : Type}
    [DecidableEq Store]
    [DecidableEq End]
    (topology : Topology Store End)
    (core : Hypercore Feed Signature)
    (overflowChecks : Bool)
    (log : Nat → Bytes)
    (replica : Feed → Prop)
    (owner : Option Store)
    (state : State Store End Feed) : State Store End Feed → Prop where
  | handles
      {next : State Store End Feed}
      (handled :
        Handles topology core overflowChecks log replica state next) :
      Moves topology core overflowChecks log replica owner state next
  | subscribed
      {side : End}
      (remote : Key)
      (absent : state.loops side = none) :
      Moves topology core overflowChecks log replica owner state
        { state with
          loops := Function.update state.loops side
            (some (.subscribed (state.feeds (topology.store side))
              remote)) }
  | reopened (side : End) :
      Moves topology core overflowChecks log replica owner state
        { state with
          inboxes := Function.update state.inboxes side
            (state.inboxes side ++ [.openChannel]) }
  | closed (side : End) :
      Moves topology core overflowChecks log replica owner state
        { state with closed := Function.update state.closed side true }
  | appended
      {store : Store}
      {feed : Feed}
      (isOwner : owner = some store)
      (isReplica : replica feed)
      (small : core.len (state.feeds store) < windowLength)
      (longer : core.len feed = core.len (state.feeds store) + 1)
      (holds :
        ∀ other,
          core.has feed other =
            (core.has (state.feeds store) other ||
              decide (other = core.len (state.feeds store))))
      (handledBefore :
        ∀ side loop,
          topology.store side = store →
          state.closed side = false →
          state.loops side = some loop →
          .append ∉ loop.feedEvents) :
      Moves topology core overflowChecks log replica owner state
        (state.grow topology store [.append] feed)

section

variable
  {Store End Feed Signature : Type}
  [DecidableEq Store]
  [DecidableEq End]
  {topology : Topology Store End}
  {core : Hypercore Feed Signature}
  {overflowChecks : Bool}
  {log : Nat → Bytes}
  {replica : Feed → Prop}
  {owner : Option Store}
  {state next : State Store End Feed}

/-- A loop that takes a message from its channel. -/
theorem Sound.handles_deliver
    (relays : Relays core log replica)
    (sound :
      Sound topology core overflowChecks log replica owner state)
    {side : End}
    (careful : Careful topology core owner state (.deliver side))
    (stepped :
      step topology core overflowChecks log state (.deliver side) =
        some next) :
    Handles topology core overflowChecks log replica state next := by
  simp only [step] at stepped
  split at stepped
  · next loop found isOpen =>
      split at stepped
      · next message rest looping taken =>
          have isReplica :
              replica
                (loop.peer (state.feeds (topology.store side))).feed :=
            sound.replicas _
          have holdsLast :
              ∀ start length,
                message = .want start length →
                loop.remoteWant = false →
                0 < core.len (state.feeds (topology.store side)) →
                core.has (state.feeds (topology.store side))
                  (core.len (state.feeds (topology.store side)) - 1) := by
            rintro start length rfl
            exact careful loop start length rest found taken
          obtain ⟨after, sent, handled, reacts⟩ :=
            reacts_onMessage relays
              (sound.travels side message (by simp [taken])) rfl isReplica
              (sound.bounded _) (sound.running side loop found).2 holdsLast
          obtain ⟨news, queued, isNews⟩ := reacts.feedEvents
          have heard :
              after.feedEvents.drop loop.feedEvents.length = news := by
            rw [queued]
            exact List.drop_left
          rw [handled] at stepped
          cases stepped
          simp only [Peer.done, heard]
          exact .handled found looping taken reacts queued isNews
      · cases stepped
  · cases stepped

/-- A loop that takes an event of the feed. -/
theorem Sound.handles_feedEvent
    (sound :
      Sound topology core overflowChecks log replica owner state)
    {side : End}
    (stepped :
      step topology core overflowChecks log state (.feedEvent side) =
        some next) :
    Handles topology core overflowChecks log replica state next := by
  simp only [step] at stepped
  split at stepped
  · next loop found isOpen =>
      split at stepped
      · next event rest looping taken =>
          have heard := sound.heard side loop found event (by simp [taken])
          cases event with
          | download index =>
              cases stepped
              exact .announced found looping taken (Or.inl rfl) heard
          | append =>
              obtain ⟨isOwner, positive⟩ := heard
              obtain ⟨last, isLast⟩ :=
                Nat.exists_eq_succ_of_ne_zero positive.ne'
              have before :
                  predU64 overflowChecks
                      (core.len (state.feeds (topology.store side))) =
                    some last := by
                rw [isLast]
                rfl
              have holds :
                  core.has (state.feeds (topology.store side)) last := by
                rw [sound.full _ isOwner]
                omega
              simp only [Peer.onFeedEvent, Loop.peer, before] at stepped
              cases stepped
              exact .announced found looping taken
                (Or.inr ⟨rfl, by omega⟩) holds
      · cases stepped
  · cases stepped

/-- Every step of a careful run is one of these. -/
theorem Sound.moves
    (relays : Relays core log replica)
    (sound :
      Sound topology core overflowChecks log replica owner state)
    {action : Action Store End}
    (careful : Careful topology core owner state action)
    (stepped :
      step topology core overflowChecks log state action =
        some next) :
    Moves topology core overflowChecks log replica owner state next := by
  cases action with
  | subscribe side remote =>
      simp only [step] at stepped
      split at stepped
      · next absent isOpen =>
          cases stepped
          exact .subscribed remote absent
      · cases stepped
  | start side =>
      simp only [step] at stepped
      split at stepped
      · next loop found isOpen =>
          split at stepped
          · next starting =>
              cases stepped
              exact .handles (.started found starting)
          · cases stepped
      · cases stepped
  | deliver side =>
      exact .handles (sound.handles_deliver relays careful stepped)
  | feedEvent side =>
      exact .handles (sound.handles_feedEvent stepped)
  | reopen side =>
      cases stepped
      exact .reopened side
  | close side =>
      cases stepped
      exact .closed side
  | append store =>
      obtain ⟨isOwner, small, handledBefore⟩ := careful
      simp only [step, Option.map_eq_some_iff] at stepped
      obtain ⟨feed, appended, rfl⟩ := stepped
      obtain ⟨isReplica, longer, holds⟩ :=
        relays.append _ _ (sound.replicas store) appended
      exact .appended isOwner isReplica small longer holds handledBefore

/-! ## Careful runs stay sound -/

/-- A handler that stores blocks of others, and sends what it should. -/
theorem Sound.act
    (sound :
      Sound topology core overflowChecks log replica owner state)
    {side : End}
    {after : Peer Feed}
    {sent rest : List Message}
    {news : List FeedEvent}
    (isReplica : replica after.feed)
    (keeps :
      ∀ index,
        core.has (state.feeds (topology.store side)) index →
        core.has after.feed index)
    (ofOwner :
      owner = some (topology.store side) →
      after.feed = state.feeds (topology.store side))
    (fromOthers :
      ∀ index,
        core.has after.feed index →
        ∃ other, core.has (state.feeds other) index)
    (noAck : after.remoteAck = false)
    (ownEvents :
      ∀ event ∈ after.feedEvents,
        Heard core owner state.feeds (topology.store side) event ∨
          event ∈ news)
    (isNews :
      ∀ event ∈ news,
        ∃ index, event = .download index ∧ core.has after.feed index)
    (kept : ∀ message ∈ rest, message ∈ state.inboxes side)
    (travels :
      ∀ reply ∈ sent,
        Travels core overflowChecks log replica owner
          (Function.update state.feeds (topology.store side) after.feed)
          (topology.store side)
          (topology.store (topology.opposite side)) reply) :
    Sound topology core overflowChecks log replica owner
      (state.act topology side news rest (after.done sent)) := by
  have grows :
      Grows core state.feeds
        (Function.update state.feeds (topology.store side) after.feed) :=
    grows_update keeps
  obtain ⟨replicas, bounded, owned⟩ :=
    sound.feeds_update isReplica ofOwner fromOthers
  have longer :
      ∀ store,
        owner = some store →
        core.len (state.feeds store) ≤
          core.len
            (Function.update state.feeds (topology.store side)
              after.feed store) := by
    intro store isOwner
    rw [(owned store isOwner).1]
  have heardNews :
      ∀ event ∈ news,
        Heard core owner
          (Function.update state.feeds (topology.store side) after.feed)
          (topology.store side) event := by
    intro event member
    obtain ⟨index, rfl, holds⟩ := isNews event member
    simp only [Heard, Function.update_self]
    exact holds
  refine ⟨replicas, bounded, ?_, ?_, ?_, ?_, ?_⟩
  · intro store isOwner
    simp only [State.act, Peer.done]
    rw [(owned store isOwner).1]
    exact sound.full store isOwner
  · intro store isOwner other index holds
    simp only [State.act, Peer.done] at holds ⊢
    rw [(owned store isOwner).1]
    exact (owned store isOwner).2 other index holds
  · intro other loop isLoop
    simp only [State.act] at isLoop
    split at isLoop
    · cases isLoop
      exact ⟨by simp [Loop.ofPeer, Turn.phase, Peer.done], noAck⟩
    · split at isLoop
      · obtain ⟨before, found, rfl⟩ := Option.map_eq_some_iff.mp isLoop
        exact sound.running other before found
      · exact sound.running other loop isLoop
  · intro other loop isLoop event member
    simp only [State.act] at isLoop ⊢
    split at isLoop
    · next same =>
        cases isLoop
        subst other
        rcases ownEvents event member with before | isNew
        · exact before.mono grows longer
        · exact heardNews event isNew
    · split at isLoop
      · next sameStore =>
          obtain ⟨before, found, rfl⟩ :=
            Option.map_eq_some_iff.mp isLoop
          rcases List.mem_append.mp member with old | isNew
          · exact (sound.heard other before found event old).mono grows
              longer
          · rw [sameStore]
            exact heardNews event isNew
      · exact (sound.heard other loop isLoop event member).mono grows
          longer
  · intro other message member
    simp only [State.act] at member ⊢
    split at member
    · next same =>
        subst other
        exact (sound.travels side message (kept message member)).mono
          grows
    · split at member
      · next isOpposite =>
          subst other
          rcases List.mem_append.mp member with old | isNew
          · exact (sound.travels _ message old).mono grows
          · rw [topology.opposite_opposite]
            exact travels message isNew
      · exact (sound.travels other message member).mono grows

/-- A handler that leaves the feed as it is. -/
theorem Sound.act_unchanged
    (sound :
      Sound topology core overflowChecks log replica owner state)
    {side : End}
    {loop : Loop}
    {after : Peer Feed}
    {sent rest : List Message}
    (found : state.loops side = some loop)
    (sameFeed : after.feed = state.feeds (topology.store side))
    (noAck : after.remoteAck = false)
    (fewer : ∀ event ∈ after.feedEvents, event ∈ loop.feedEvents)
    (kept : ∀ message ∈ rest, message ∈ state.inboxes side)
    (travels :
      ∀ reply ∈ sent,
        Travels core overflowChecks log replica owner state.feeds
          (topology.store side)
          (topology.store (topology.opposite side)) reply) :
    Sound topology core overflowChecks log replica owner
      (state.act topology side [] rest (after.done sent)) := by
  refine sound.act ?_ ?_ ?_ ?_ noAck ?_ ?_ kept ?_
  · rw [sameFeed]
    exact sound.replicas _
  · intro index holds
    rw [sameFeed]
    exact holds
  · exact fun _ => sameFeed
  · intro index holds
    rw [sameFeed] at holds
    exact ⟨_, holds⟩
  · intro event member
    exact Or.inl (sound.heard side loop found event (fewer event member))
  · intro event member
    cases member
  · intro reply member
    rw [sameFeed, Function.update_eq_self]
    exact travels reply member

/-- A handler of a message. -/
theorem Sound.handled
    (sound :
      Sound topology core overflowChecks log replica owner state)
    {side : End}
    {loop : Loop}
    {message : Message}
    {rest sent : List Message}
    {after : Peer Feed}
    {news : List FeedEvent}
    (found : state.loops side = some loop)
    (taken : state.inboxes side = message :: rest)
    (reacts :
      Reacts core overflowChecks log replica
        (loop.peer (state.feeds (topology.store side))) message after
        sent)
    (queued : after.feedEvents = loop.feedEvents ++ news)
    (isNews :
      ∀ event,
        event ∈ news ↔
          ∃ index,
            event = .download index ∧
              core.has after.feed index ∧
              core.has (state.feeds (topology.store side)) index =
                false) :
    Sound topology core overflowChecks log replica owner
      (state.act topology side news rest (after.done sent)) := by
  have noAck := (sound.running side loop found).2
  have travels := sound.travels side message (by simp [taken])
  have kept : ∀ other ∈ rest, other ∈ state.inboxes side := by
    intro other member
    rw [taken]
    exact List.mem_cons_of_mem message member
  have noNews :
      after.feedEvents = loop.feedEvents → news = [] := by
    intro same
    rw [same] at queued
    exact List.self_eq_append_right.mp queued
  cases reacts with
  | opened =>
      rw [noNews rfl]
      refine sound.act_unchanged found rfl noAck (fun _ => id) kept ?_
      intro reply member
      rw [List.mem_singleton.mp member]
      exact ⟨rfl, rfl⟩
  | wanted few announces covers =>
      rw [noNews rfl]
      refine sound.act_unchanged found rfl noAck (fun _ => id) kept ?_
      intro reply member
      have held := announces reply member
      cases reply with
      | announce start length bitfield ack =>
          obtain ⟨_, indices, isAnnounced, _, holds⟩ := held
          exact ⟨indices, isAnnounced, holds⟩
      | _ => exact held.elim
  | @announced start length bitfield ack indices announces =>
      rw [noNews rfl]
      refine sound.act_unchanged found rfl noAck (fun _ => id) kept ?_
      intro reply member
      obtain ⟨index, missing, rfl⟩ := List.mem_map.mp member
      obtain ⟨isAnnounced, lacks⟩ := List.mem_filter.mp missing
      obtain ⟨others, announcesToo, held⟩ := travels
      rw [announces] at announcesToo
      cases announcesToo
      have holds := held index isAnnounced
      refine ⟨holds, ?_⟩
      intro isOwner
      have ownerHolds := sound.owned _ isOwner _ index holds
      simp only [Loop.peer, ownerHolds] at lacks
      cases lacks
  | @requested index proof stats held proved =>
      rw [noNews rfl]
      refine sound.act_unchanged found rfl noAck (fun _ => id) kept ?_
      intro reply member
      rw [List.mem_singleton.mp member]
      exact ⟨held, travels.2, rfl, _, proof, sound.replicas _, held,
        proved, rfl, rfl⟩
  | @stored index value nodes signature feed stats isReplica holds =>
      obtain ⟨sent, notOwner, _⟩ := travels
      refine sound.act isReplica ?_ ?_ ?_ noAck ?_ ?_ kept (by simp)
      · intro other has
        simp only [Peer.stored, holds, Loop.peer, has, Bool.true_or]
      · intro isOwner
        exact absurd isOwner notOwner
      · intro other has
        simp only [Peer.stored, holds, Bool.or_eq_true,
          decide_eq_true_eq] at has
        rcases has with before | isIndex
        · exact ⟨_, before⟩
        · exact ⟨_, by rw [isIndex]; exact sent⟩
      · intro event member
        rw [queued] at member
        rcases List.mem_append.mp member with old | isNew
        · exact Or.inl (sound.heard side loop found event old)
        · exact Or.inr isNew
      · intro event member
        obtain ⟨other, rfl, has, _⟩ := (isNews event).mp member
        exact ⟨other, rfl, has⟩
  | ignored =>
      rw [noNews rfl]
      exact sound.act_unchanged found rfl noAck (fun _ => id) kept
        (by simp)

/-- Every handler that runs keeps the network sound. -/
theorem Sound.of_handles
    (sound :
      Sound topology core overflowChecks log replica owner state)
    (handles :
      Handles topology core overflowChecks log replica state next) :
    Sound topology core overflowChecks log replica owner next := by
  cases handles with
  | @started side loop found starting =>
      refine sound.act_unchanged found rfl
        (sound.running side loop found).2 (fun _ => id) (fun _ => id) ?_
      intro reply member
      rw [List.mem_singleton.mp member]
      exact ⟨by simp, rfl⟩
  | handled found looping taken reacts queued isNews =>
      exact sound.handled found taken reacts queued isNews
  | @announced side loop event rest index found looping taken about
      holds =>
      have small := sound.bounded _ index holds
      refine sound.act_unchanged found rfl
        (sound.running side loop found).2 ?_ (fun _ => id) ?_
      · intro other member
        rw [taken]
        exact List.mem_cons_of_mem event member
      · intro reply member
        rw [List.mem_singleton.mp member]
        obtain ⟨_, indices, announces, _, held⟩ :=
          announcesHeld_one small holds
        exact ⟨indices, announces, held⟩

/-- Every step of a careful run keeps the network sound. -/
theorem Sound.of_moves
    (sound :
      Sound topology core overflowChecks log replica owner state)
    (moves :
      Moves topology core overflowChecks log replica owner state next) :
    Sound topology core overflowChecks log replica owner next := by
  cases moves with
  | handles handled =>
      exact sound.of_handles handled
  | @subscribed side remote absent =>
      refine ⟨sound.replicas, sound.bounded, sound.full, sound.owned,
        ?_, ?_, sound.travels⟩
      · intro other loop isLoop
        simp only [Function.update_apply] at isLoop
        split at isLoop
        · cases isLoop
          exact ⟨by simp [Loop.subscribed, Loop.ofPeer], rfl⟩
        · exact sound.running other loop isLoop
      · intro other loop isLoop event member
        simp only [Function.update_apply] at isLoop
        split at isLoop
        · cases isLoop
          cases member
        · exact sound.heard other loop isLoop event member
  | reopened side =>
      refine ⟨sound.replicas, sound.bounded, sound.full, sound.owned,
        sound.running, sound.heard, ?_⟩
      intro other message member
      simp only [Function.update_apply] at member
      split at member
      · next same =>
          subst other
          rcases List.mem_append.mp member with old | isNew
          · exact sound.travels side message old
          · rw [List.mem_singleton.mp isNew]
            trivial
      · exact sound.travels other message member
  | closed side =>
      exact ⟨sound.replicas, sound.bounded, sound.full, sound.owned,
        sound.running, sound.heard, sound.travels⟩
  | appended isOwner isReplica small longer holds handledBefore =>
      exact sound.appended isOwner isReplica small longer holds

end

end Hyperspace.FeedNetwork
