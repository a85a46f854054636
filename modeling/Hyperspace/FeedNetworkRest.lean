import Hyperspace.FeedNetworkSync
import Mathlib.Algebra.BigOperators.Group.Finset.Piecewise
import Mathlib.Algebra.Order.BigOperators.Group.Finset

namespace Hyperspace.FeedNetwork

/-!
# The network comes to rest

Stores that hear of each other's blocks could go on talking forever.  They do
not: every step of a loop takes something off a weight that is bounded from
below.  A message weighs more than all messages that its handler sends.  A
block that a store gets makes its loops announce it, which is paid for by the
block that the store no longer lacks.

So when no connection is set up or closed and nothing is appended, the loops
run out of work after a bounded number of steps, in every order of steps that is
careful, and the stores that are joined then agree.  Care is needed here as
well: a loop whose first `Want` comes before the last block of its feed
announces that block all the same, and ends when it is asked for it.
-/

section

variable
  {Store End Feed Signature : Type}
  (topology : Topology Store End)
  (core : Hypercore Feed Signature)
  (overflowChecks : Bool)

/-- The blocks of the first window that a feed does not hold. -/
def lacking (feed : Feed) : Finset Nat :=
  (Finset.range windowLength).filter fun index =>
    core.has feed index = false

/-- More than the weight of what the handler of a message sends. -/
def messageWeight : Message → Nat
  | .openChannel => 4 + 4 * windowLength
  | .want _ _ => 3 + 4 * windowLength
  | .announce start length bitfield _ =>
      1 + 2 *
        ((Peer.announcedIndices core overflowChecks start length
          bitfield).getD []).length
  | .request _ => 2
  | .data _ _ _ _ => 1
  | .ignored => 1

/-- The weight of messages in flight. -/
def messagesWeight (messages : List Message) : Nat :=
  (messages.map (messageWeight core overflowChecks)).sum

/-- What a loop has to do apart from the messages to it. -/
def loopWeight : Option Loop → Nat
  | none => 0
  | some loop =>
      (match loop.phase with
        | .starting => 4 + 4 * windowLength
        | _ => 0) +
        4 * loop.feedEvents.length

/-- The weight of one end of a connection. -/
def endWeight (state : State Store End Feed) (side : End) : Nat :=
  messagesWeight core overflowChecks (state.inboxes side) +
    loopWeight (state.loops side) +
    4 * (lacking core (state.feeds (topology.store side))).card

/-- The weight of a network. -/
def weight [Fintype End] (state : State Store End Feed) : Nat :=
  ∑ side, endWeight topology core overflowChecks state side

/-- The steps that the loops take by themselves. -/
def Action.Internal : Action Store End → Prop
  | .start _ => True
  | .deliver _ => True
  | .feedEvent _ => True
  | _ => False

end

section

variable
  {Store End Feed Signature : Type}
  {topology : Topology Store End}
  {core : Hypercore Feed Signature}
  {overflowChecks : Bool}
  {log : Nat → Bytes}
  {replica : Feed → Prop}
  {owner : Option Store}
  {state : State Store End Feed}

/-! ## What a handler takes off the weight -/

/-- Messages weigh what their parts weigh. -/
theorem messagesWeight_append (first second : List Message) :
    messagesWeight core overflowChecks (first ++ second) =
      messagesWeight core overflowChecks first +
        messagesWeight core overflowChecks second := by
  simp [messagesWeight]

/-- A feed that holds more lacks less. -/
theorem lacking_subset
    {before after : Feed}
    (keeps : ∀ index, core.has before index → core.has after index) :
    lacking core after ⊆ lacking core before := by
  intro index member
  simp only [lacking, Finset.mem_filter] at member ⊢
  refine ⟨member.1, ?_⟩
  by_contra holds
  rw [keeps index (by simpa using holds)] at member
  cases member.2

/-- A feed that holds a new block lacks one block less. -/
theorem card_lacking_lt
    {before after : Feed}
    (keeps : ∀ index, core.has before index → core.has after index)
    {index : Nat}
    (small : index < windowLength)
    (lacked : core.has before index = false)
    (holds : core.has after index) :
    (lacking core after).card < (lacking core before).card := by
  refine Finset.card_lt_card ⟨lacking_subset keeps, ?_⟩
  intro included
  have isLacking : index ∈ lacking core before := by
    simp [lacking, small, lacked]
  have still := included isLacking
  simp only [lacking, Finset.mem_filter, holds] at still
  cases still.2

/-- The blocks that a store hears of are blocks that it lacked. -/
theorem Reacts.length_news
    {feeds : Store → Feed}
    {sender receiver : Store}
    {peer after : Peer Feed}
    {message : Message}
    {sent : List Message}
    {news : List FeedEvent}
    (reacts :
      Reacts core overflowChecks log replica peer message after sent)
    (travels :
      Travels core overflowChecks log replica owner feeds sender
        receiver message)
    (bounded :
      ∀ store index, core.has (feeds store) index → index < windowLength)
    (queued : after.feedEvents = peer.feedEvents ++ news) :
    news.length + (lacking core after.feed).card ≤
      (lacking core peer.feed).card := by
  have noNews :
      after.feedEvents = peer.feedEvents → news = [] := by
    intro same
    rw [same] at queued
    exact List.self_eq_append_right.mp queued
  cases reacts with
  | @stored index value nodes signature feed stats isReplica holds =>
      have keeps :
          ∀ other, core.has peer.feed other → core.has feed other := by
        intro other has
        rw [holds, has, Bool.true_or]
      have stored :
          peer.feedEvents ++
              (if !core.has peer.feed index then [.download index]
              else []) =
            peer.feedEvents ++ news := by
        rw [← queued]
        simp only [Peer.stored]
        split <;> simp
      rw [← List.append_cancel_left stored]
      split
      · next isNew =>
          have lacked : core.has peer.feed index = false := by
            simpa using isNew
          have fewer :=
            card_lacking_lt keeps (bounded _ index travels.1) lacked
              (by simp [holds])
          simp only [Peer.stored, List.length_singleton]
          omega
      · simp only [Peer.stored, List.length_nil, Nat.zero_add]
        exact Finset.card_le_card (lacking_subset keeps)
  | _ =>
      rw [noNews rfl]
      simp

/-- An announcement of held blocks is about one window at most. -/
theorem messageWeight_le_of_announcesHeld
    {feed : Feed}
    (bounded : ∀ index, core.has feed index → index < windowLength)
    {message : Message}
    (announces : AnnouncesHeld core overflowChecks feed message) :
    messageWeight core overflowChecks message ≤
      1 + 2 * windowLength := by
  cases message with
  | announce start length bitfield ack =>
      obtain ⟨_, indices, isAnnounced, distinct, held⟩ := announces
      have few : indices.length ≤ windowLength := by
        have included :
            indices.toFinset ⊆ Finset.range windowLength := by
          intro index member
          rw [List.mem_toFinset] at member
          exact Finset.mem_range.mpr (bounded index (held index member))
        have counted := Finset.card_le_card included
        rwa [List.toFinset_card_of_nodup distinct, Finset.card_range]
          at counted
      simp only [messageWeight, isAnnounced, Option.getD_some]
      omega
  | _ => exact announces.elim

/-- What a handler sends weighs less than the message it handles. -/
theorem Reacts.messagesWeight_lt
    {peer after : Peer Feed}
    {message : Message}
    {sent : List Message}
    (reacts :
      Reacts core overflowChecks log replica peer message after sent)
    (bounded :
      ∀ index, core.has peer.feed index → index < windowLength) :
    messagesWeight core overflowChecks sent <
      messageWeight core overflowChecks message := by
  cases reacts with
  | opened =>
      simp only [messagesWeight, messageWeight, List.map_cons,
        List.map_nil, List.sum_cons, List.sum_nil]
      omega
  | wanted few announces covers =>
      have each :
          ∀ amount ∈ sent.map (messageWeight core overflowChecks),
            amount ≤ 1 + 2 * windowLength := by
        intro amount member
        obtain ⟨reply, isSent, rfl⟩ := List.mem_map.mp member
        exact messageWeight_le_of_announcesHeld bounded
          (announces reply isSent)
      have all := List.sum_le_card_nsmul _ _ each
      rw [List.length_map, nsmul_eq_mul, Nat.cast_id] at all
      have twice := Nat.mul_le_mul_right (1 + 2 * windowLength) few
      simp only [messagesWeight, messageWeight]
      omega
  | @announced start length bitfield ack indices announces =>
      have fewer :=
        List.length_filter_le (fun index => !core.has peer.feed index)
          indices
      have requests :
          ∀ wanted : List Nat,
            messagesWeight core overflowChecks (wanted.map .request) =
              2 * wanted.length := by
        intro wanted
        simp [messagesWeight, messageWeight, Function.comp_def,
          Nat.mul_comm]
      rw [requests]
      simp only [messageWeight, announces, Option.getD_some]
      omega
  | requested stats held proved =>
      simp [messagesWeight, messageWeight]
  | stored stats isReplica holds =>
      simp [messagesWeight, messageWeight]
  | ignored =>
      simp [messagesWeight, messageWeight]

/-- An end pays for the news with the blocks that its store no longer lacks. -/
theorem endWeight_grow_le
    [DecidableEq Store]
    {store : Store}
    {feed : Feed}
    {news : List FeedEvent}
    (heard :
      news.length + (lacking core feed).card ≤
        (lacking core (state.feeds store)).card)
    (side : End) :
    endWeight topology core overflowChecks
        (state.grow topology store news feed) side ≤
      endWeight topology core overflowChecks state side := by
  simp only [endWeight, State.grow]
  by_cases sameStore : topology.store side = store
  · rw [if_pos sameStore, sameStore, Function.update_self]
    cases state.loops side with
    | none =>
        simp only [Option.map_none]
        omega
    | some loop =>
        simp only [Option.map_some, loopWeight, Loop.hear,
          List.length_append]
        omega
  · rw [if_neg sameStore, Function.update_of_ne sameStore]

end

section

variable
  {Store End Feed Signature : Type}
  [DecidableEq Store]
  [DecidableEq End]
  {topology : Topology Store End}
  {core : Hypercore Feed Signature}
  {overflowChecks : Bool}
  {log : Nat → Bytes}
  {replica : Feed → Prop}
  {owner : Option Store}
  {state next : State Store End Feed}
  {side : End}
  {news : List FeedEvent}
  {rest : List Message}
  {turn : Turn Feed}

/-- Another end hears the news of a handler, and gets what it sends. -/
theorem endWeight_act_other
    (heard :
      news.length + (lacking core turn.peer.feed).card ≤
        (lacking core (state.feeds (topology.store side))).card)
    {other : End}
    (different : other ≠ side) :
    endWeight topology core overflowChecks
        (state.act topology side news rest turn) other ≤
      endWeight topology core overflowChecks state other +
        if other = topology.opposite side then
          messagesWeight core overflowChecks turn.sent
        else
          0 := by
  have messages :
      messagesWeight core overflowChecks
          ((state.act topology side news rest turn).inboxes other) =
        messagesWeight core overflowChecks (state.inboxes other) +
          if other = topology.opposite side then
            messagesWeight core overflowChecks turn.sent
          else
            0 := by
    simp only [State.act, if_neg different]
    split
    · rw [messagesWeight_append]
    · simp
  have grown :
      endWeight topology core overflowChecks
          (state.grow topology (topology.store side) news
            turn.peer.feed) other ≤
        endWeight topology core overflowChecks state other :=
    endWeight_grow_le heard other
  simp only [endWeight, State.grow] at grown
  simp only [endWeight, messages]
  simp only [State.act, if_neg different]
  omega

/-- A handler that takes off more than it sends makes the network lighter. -/
theorem weight_act_lt
    [Fintype End]
    (heard :
      news.length + (lacking core turn.peer.feed).card ≤
        (lacking core (state.feeds (topology.store side))).card)
    (lighter :
      messagesWeight core overflowChecks turn.sent +
          messagesWeight core overflowChecks rest +
          loopWeight (some (.ofPeer turn.peer turn.phase)) +
          4 * (lacking core turn.peer.feed).card <
        endWeight topology core overflowChecks state side) :
    weight topology core overflowChecks
        (state.act topology side news rest turn) <
      weight topology core overflowChecks state := by
  have own :
      endWeight topology core overflowChecks
          (state.act topology side news rest turn) side =
        messagesWeight core overflowChecks rest +
          loopWeight (some (.ofPeer turn.peer turn.phase)) +
          4 * (lacking core turn.peer.feed).card := by
    simp [endWeight, State.act]
  have each :
      ∀ other ∈ Finset.univ,
        endWeight topology core overflowChecks
            (state.act topology side news rest turn) other +
          (if other = side then
            messagesWeight core overflowChecks turn.sent + 1
          else
            0) ≤
        endWeight topology core overflowChecks state other +
          (if other = topology.opposite side then
            messagesWeight core overflowChecks turn.sent
          else
            0) := by
    intro other _
    by_cases same : other = side
    · subst other
      rw [if_pos rfl, if_neg (topology.opposite_ne side).symm, own]
      omega
    · rw [if_neg same, Nat.add_zero]
      exact endWeight_act_other heard same
  have total := Finset.sum_le_sum each
  simp only [Finset.sum_add_distrib, Finset.sum_ite_eq',
    Finset.mem_univ, if_true] at total
  simp only [weight]
  omega

/-- Every handler that runs makes the network lighter. -/
theorem Sound.weight_lt_of_handles
    [Fintype End]
    (sound :
      Sound topology core overflowChecks log replica owner state)
    (handles :
      Handles topology core overflowChecks log replica state next) :
    weight topology core overflowChecks next <
      weight topology core overflowChecks state := by
  cases handles with
  | @started side loop found starting =>
      refine weight_act_lt (Nat.le_of_eq (Nat.zero_add _)) ?_
      simp only [endWeight, found, loopWeight, starting]
      simp only [Peer.onOpen, Peer.sendWants, Peer.done, Loop.ofPeer,
        Loop.peer, Turn.phase, messagesWeight, messageWeight,
        List.map_cons, List.map_nil, List.sum_cons, List.sum_nil]
      omega
  | @handled side loop message rest sent after news found looping taken
      reacts queued isNews =>
      have travels := sound.travels side message (by simp [taken])
      have heard := reacts.length_news travels sound.bounded queued
      have fewer := reacts.messagesWeight_lt (sound.bounded _)
      refine weight_act_lt heard ?_
      simp only [endWeight, found, loopWeight, looping, taken]
      simp only [Peer.done, Loop.ofPeer, Turn.phase, queued,
        List.length_append, messagesWeight, List.map_cons,
        List.sum_cons] at fewer ⊢
      simp only [Loop.peer] at heard
      omega
  | @announced side loop event rest index found looping taken about
      holds =>
      have one :=
        announcedIndices_one core overflowChecks
          (sound.bounded _ index holds)
      refine weight_act_lt (Nat.le_of_eq (Nat.zero_add _)) ?_
      simp only [endWeight, found, loopWeight, looping, taken]
      simp only [Peer.sendHave, Peer.done, Loop.ofPeer, Loop.peer,
        Turn.phase, messagesWeight, messageWeight, List.map_cons,
        List.map_nil, List.sum_cons, List.sum_nil, one,
        Option.getD_some, List.length_cons, List.length_nil]
      omega

/-! ## Runs of the loops -/

/-- A step that a loop takes by itself is a handler. -/
theorem Sound.handles_internal
    (relays : Relays core log replica)
    (sound :
      Sound topology core overflowChecks log replica owner state)
    {action : Action Store End}
    (internal : action.Internal)
    (careful : Careful topology core owner state action)
    (stepped :
      step topology core overflowChecks log state action =
        some next) :
    Handles topology core overflowChecks log replica state next := by
  cases action with
  | start side =>
      simp only [step] at stepped
      split at stepped
      · next loop found isOpen =>
          split at stepped
          · next starting =>
              cases stepped
              exact .started found starting
          · cases stepped
      · cases stepped
  | deliver side =>
      exact sound.handles_deliver relays careful stepped
  | feedEvent side =>
      exact sound.handles_feedEvent stepped
  | _ => exact internal.elim

/-- Where the loops cannot do anything, nothing is left to be done. -/
theorem Sound.quiescent_of_stuck
    (sound :
      Sound topology core overflowChecks log replica owner state)
    (stuck :
      ∀ action : Action Store End,
        action.Internal →
        step topology core overflowChecks log state action = none) :
    Quiescent topology state := by
  intro side live
  obtain ⟨isOpen, _, subscribed, _⟩ := live
  obtain ⟨loop, isLoop⟩ := Option.ne_none_iff_exists'.mp subscribed
  have noStart := stuck (.start side) trivial
  have noDelivery := stuck (.deliver side) trivial
  have noEvent := stuck (.feedEvent side) trivial
  have runs := (sound.running side loop isLoop).1
  simp only [step, isLoop, isOpen] at noStart noDelivery noEvent
  cases isPhase : loop.phase with
  | starting =>
      simp [isPhase] at noStart
  | ended =>
      exact absurd isPhase runs
  | looping =>
      refine ⟨?_, loop, isLoop, isPhase, ?_⟩
      · cases inFlight : state.inboxes side with
        | nil =>
            rfl
        | cons message rest =>
            simp [isPhase, inFlight] at noDelivery
      · cases queued : loop.feedEvents with
        | nil =>
            rfl
        | cons event rest =>
            simp [isPhase, queued] at noEvent

/--
After any careful run the loops, left to themselves, take a bounded number of
steps, in whatever order that is careful too: a first `Want` is not handled
before the last block of the feed is there.  Where none of them can go on,
stores that are joined by open connections hold the same blocks, and those
joined to the owner hold the whole log.
-/
theorem loops_come_to_rest_in_agreement
    [Fintype End]
    (relays : Relays core log replica)
    {feeds : Store → Feed}
    (replicas : ∀ store, replica (feeds store))
    (bounded :
      ∀ store index, core.has (feeds store) index → index < windowLength)
    (full :
      ∀ store,
        owner = some store →
        ∀ index,
          core.has (feeds store) index ↔ index < core.len (feeds store))
    (owned :
      ∀ store,
        owner = some store →
        ∀ other index,
          core.has (feeds other) index → core.has (feeds store) index)
    {actions later : List (Action Store End)}
    {middle final : State Store End Feed}
    (careful :
      Machine.Along (step topology core overflowChecks log)
        (Careful topology core owner) (initial End feeds) actions)
    (ran :
      Machine.run (step topology core overflowChecks log)
          (initial End feeds) actions =
        some middle)
    (internal :
      Machine.Along (step topology core overflowChecks log)
        (fun state action =>
          action.Internal ∧ Careful topology core owner state action)
        middle later)
    (ranLater :
      Machine.run (step topology core overflowChecks log) middle later =
        some final) :
    later.length ≤ weight topology core overflowChecks middle ∧
      ((∀ action : Action Store End,
          action.Internal →
          step topology core overflowChecks log final action = none) →
        ∀ first second,
          Joined topology final first second →
          (∀ index,
            core.has (final.feeds first) index =
              core.has (final.feeds second) index) ∧
          (owner = some first →
            ∀ index,
              core.has (final.feeds second) index ↔
                index < core.len (final.feeds first))) := by
  obtain ⟨sound, synced⟩ :=
    sound_and_synced_of_run relays
      (sound_initial replicas bounded full owned)
      (synced_initial feeds) careful ran
  have shorter :=
    Machine.length_add_weight_le_along
      (Sound topology core overflowChecks log replica owner)
      (weight topology core overflowChecks)
      (by
        rintro state action next isSound ⟨isInternal, isCareful⟩ stepped
        have handles :=
          isSound.handles_internal relays isInternal isCareful stepped
        exact ⟨isSound.of_handles handles,
          isSound.weight_lt_of_handles handles⟩)
      sound internal ranLater
  obtain ⟨soundFinal, syncedFinal⟩ :=
    sound_and_synced_of_run relays sound synced
      (Machine.along_imp (fun _ => True) (fun _ _ _ => trivial)
        (fun _ both => both.2) trivial internal)
      ranLater
  refine ⟨by omega, ?_⟩
  intro stuck first second joined
  exact syncedFinal.agree_of_joined soundFinal
    (soundFinal.quiescent_of_stuck stuck) joined

end

/-! ## An example -/

instance : Fintype LineEnd where
  elems := {.first, .left, .right, .last}
  complete := by
    intro side
    cases side <;> decide

/-- The last store of a line gets the block of the first in twelve steps. -/
theorem loops_come_to_rest_in_agreement_line :
    ∃ middle final,
      Machine.run (step line sparseCore true numberedLog) emptyLine
          opened =
          some middle ∧
        Machine.run (step line sparseCore true numberedLog) middle
          passedOn =
          some final ∧
        12 ≤ weight line sparseCore true middle ∧
        ∀ index,
          sparseCore.has (final.feeds .last) index ↔ index < 1 := by
  obtain ⟨middle, final, ran, ranLater, isOpen, stuck, hasOne⟩ :
      ∃ middle final,
        Machine.run (step line sparseCore true numberedLog) emptyLine
            opened =
            some middle ∧
          Machine.run (step line sparseCore true numberedLog) middle
            passedOn =
            some final ∧
          (∀ side,
            final.closed side = false ∧
              ∃ loop, final.loops side = some loop) ∧
          (∀ action : Action Place LineEnd,
            action.Internal →
            step line sparseCore true numberedLog final action =
              none) ∧
          sparseCore.len (final.feeds .first) = 1 := by
    refine ⟨_, _, rfl, rfl, ?_, ?_, rfl⟩
    · intro side
      cases side <;> exact ⟨rfl, _, rfl⟩
    · intro action internal
      cases action with
      | start side => cases side <;> rfl
      | deliver side => cases side <;> rfl
      | feedEvent side => cases side <;> rfl
      | _ => exact internal.elim
  have live : ∀ side, Live line final side := by
    have subscribed : ∀ side, final.loops side ≠ none := by
      intro side
      obtain ⟨_, loop, isLoop⟩ := isOpen side
      rw [isLoop]
      exact Option.some_ne_none loop
    intro side
    exact ⟨(isOpen side).1, (isOpen _).1, subscribed side,
      subscribed _⟩
  have joined : Joined line final .first .last :=
    .tail (.single ⟨.first, live _, rfl, rfl⟩) ⟨.right, live _, rfl, rfl⟩
  obtain ⟨careful, carefulLater⟩ :=
    Machine.along_append.mp careful_opened_passedOn
  have internal :
      Machine.Along (step line sparseCore true numberedLog)
        (fun _ action => action.Internal) middle passedOn := by
    refine Machine.along_of_mem ?_
    simp [passedOn, Action.Internal]
  have noLength : sparseCore.len .empty = 0 := rfl
  obtain ⟨bound, agree⟩ :=
    loops_come_to_rest_in_agreement relays_sparseCore
      (fun _ => numbered_empty) (by simp [has_empty])
      (by simp [has_empty, noLength]) (by simp [has_empty]) careful ran
      (Machine.along_and internal (carefulLater middle ran)) ranLater
  refine ⟨middle, final, ran, ranLater, bound, ?_⟩
  rw [← hasOne]
  exact (agree stuck _ _ joined).2 rfl

end Hyperspace.FeedNetwork
