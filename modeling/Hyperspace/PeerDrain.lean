import Hyperspace.PeerSync
import Mathlib.Algebra.BigOperators.Group.List.Basic
import Mathlib.Data.List.Perm.Subperm

namespace Hyperspace.PeerDrain

open PeerSync

/-!
# Sessions come to rest

What a message causes is bounded: a `Want` is answered with two announcements,
an announcement with requests, a request with data, and data with an event of
the feed, whose announcement the holder does not react to.  A weight counts the
steps that the messages in flight can still cause.  Every delivery lowers it, so
that a session can be brought to rest from every state in which both loops run.
-/

section

variable {Feed Signature : Type}

/-- The steps that a message to the holder can cause. -/
def holderWeight : Message → Nat
  | .openChannel => 4
  | .want _ _ => 8 + 4 * windowLength
  | .announce _ _ _ _ => 1
  | .request _ => 4
  | .data _ _ _ _ => 1
  | .ignored => 1

variable
  (core : Hypercore Feed Signature)
  (overflowChecks : Bool)

/-- The steps that a message to the learner can cause. -/
def learnerWeight : Message → Nat
  | .openChannel => 9 + 4 * windowLength
  | .want _ _ => 3
  | .announce start length bitfield _ =>
      1 +
        4 *
          ((Peer.announcedIndices core overflowChecks start length
            bitfield).getD []).length
  | .request _ => 1
  | .data _ _ _ _ => 3
  | .ignored => 1

/-- The steps that a session can take without further `Open` messages. -/
def weight (session : Session Feed) : Nat :=
  (session.holder.inbox.map holderWeight).sum +
    (session.learner.inbox.map
      (learnerWeight core overflowChecks)).sum +
    2 * session.learner.peer.feedEvents.length

end

section

variable
  {Feed Signature : Type}
  {core : Hypercore Feed Signature}
  {overflowChecks : Bool}
  {source : Feed}
  {replica : Feed → Prop}
  {limit : Nat}
  {session next : Session Feed}

/-- The announcement of a single block is about one block at most. -/
theorem learnerWeight_single
    (core : Hypercore Feed Signature)
    (overflowChecks : Bool)
    (index : Nat) :
    learnerWeight core overflowChecks (.announce index none none none) ≤
      5 := by
  simp only [learnerWeight, Peer.announcedIndices, Option.getD_none]
  cases added : addU64 overflowChecks index 1 with
  | none =>
      simp
  | some stop =>
      have small : stop ≤ index + 1 := by
        simp only [addU64] at added
        split at added
        · cases added
          exact Nat.le_refl _
        · split at added
          · cases added
          · cases added
            exact Nat.mod_le _ _
      simp only [Option.map_some, Option.getD_some, List.length_range']
      omega

/-- The bitfield of the first window is about one window at most. -/
theorem learnerWeight_window
    (overflowChecks : Bool)
    (serves : Serves core source replica)
    {feed : Feed}
    (isReplica : replica feed)
    {rle : Bytes}
    (compressed : core.compress feed 0 windowLength = some rle)
    (length : Option Nat)
    (ack : Option Bool) :
    learnerWeight core overflowChecks
        (.announce 0 length (some rle) ack) ≤
      1 + 4 * windowLength := by
  obtain ⟨encoded, bits, compressedToo, parsed, isBit⟩ :=
    serves.roundTrip feed isReplica
  rw [compressed] at compressedToo
  cases compressedToo
  simp only [learnerWeight, Peer.announcedIndices, parsed,
    Option.map_some, Option.getD_some]
  have inWindow :
      (List.range bits.length).filter (fun index =>
          bits.getD index false) ⊆
        List.range windowLength := by
    intro index member
    have isSet := (List.mem_filter.mp member).2
    rw [isBit, Bool.and_eq_true, decide_eq_true_eq] at isSet
    exact List.mem_range.mpr isSet.1
  have nodup :
      ((List.range bits.length).filter (fun index =>
        bits.getD index false)).Nodup :=
    List.nodup_range.filter _
  have counted := (List.subperm_of_subset nodup inWindow).length_le
  rw [List.length_range] at counted
  omega

/-- What the holder sends weighs less than what it handles. -/
theorem holder_lighter
    (serves : Serves core source replica)
    {peer : Peer Feed}
    (isHolder : HolderPeer source peer)
    {message : Message}
    (fromLearner : FromLearner core overflowChecks limit message)
    (fromHolder :
      ∀ reply ∈ (peer.onMessage core overflowChecks message).sent,
        FromHolder core overflowChecks source limit reply) :
    ((peer.onMessage core overflowChecks message).sent.map
        (learnerWeight core overflowChecks)).sum <
      holderWeight message := by
  cases message with
  | openChannel =>
      simp [Peer.onMessage, Peer.onOpen, Peer.sendWants, Peer.done,
        learnerWeight, holderWeight]
  | want start wanted =>
      obtain ⟨rfl, rfl⟩ := fromLearner
      obtain ⟨rle, bits, compressed, _⟩ :=
        serves.roundTrip source serves.isReplica
      have window :=
        learnerWeight_window overflowChecks serves
          serves.isReplica compressed (some windowLength) none
      have single :=
        learnerWeight_single core overflowChecks (core.len source - 1)
      simp only [Peer.onMessage, Peer.onWant, isHolder.feed,
        Option.getD_some, compressed, Peer.done, List.map_append,
        List.sum_append, List.map_cons, List.map_nil, List.sum_cons,
        List.sum_nil, holderWeight]
      split
      · simp only [List.map_cons, List.map_nil, List.sum_cons,
          List.sum_nil]
        omega
      · simp only [List.map_nil, List.sum_nil]
        omega
  | announce start length bitfield ack =>
      have nothing :
          (peer.onMessage core overflowChecks
            (.announce start length bitfield ack)).sent = [] := by
        rw [List.eq_nil_iff_forall_not_mem]
        intro reply member
        have isFromHolder := fromHolder reply member
        obtain ⟨index, rfl⟩ := Peer.mem_onHave_sent core _ member
        exact isFromHolder
      rw [nothing]
      exact Nat.one_pos
  | request index =>
      simp only [Peer.onMessage, Peer.onRequest]
      split
      · simp [Peer.failed, holderWeight]
      · split
        · simp [Peer.failed, holderWeight]
        · simp [Peer.done, holderWeight, learnerWeight]
  | data index value nodes signature =>
      exact fromLearner.elim
  | ignored =>
      exact fromLearner.elim

/-- So does what the learner sends, its event included. -/
theorem learner_lighter
    {peer : Peer Feed}
    (isLearner : LearnerPeer core replica limit peer)
    {message : Message}
    (fromHolder :
      FromHolder core overflowChecks source limit message) :
    ((peer.onMessage core overflowChecks message).sent.map
          holderWeight).sum +
        2 *
          (peer.onMessage core overflowChecks
            message).peer.feedEvents.length <
      learnerWeight core overflowChecks message +
        2 * peer.feedEvents.length := by
  cases message with
  | openChannel =>
      simp [Peer.onMessage, Peer.onOpen, Peer.sendWants, Peer.done,
        learnerWeight, holderWeight]
  | want start wanted =>
      simp only [Peer.onMessage, Peer.onWant, learnerWeight]
      split
      · split <;> simp [Peer.failed, holderWeight]
      · split <;> simp [Peer.done, holderWeight]
  | announce start announced bitfield ack =>
      obtain ⟨indices, announces, _⟩ := fromHolder
      have requests :
          ∀ missing : List Nat,
            ((missing.map Message.request).map holderWeight).sum =
              4 * missing.length := by
        intro missing
        induction missing with
        | nil =>
            rfl
        | cons index rest inductionHypothesis =>
            simp only [List.map_cons, List.sum_cons,
              inductionHypothesis, List.length_cons, holderWeight]
            omega
      have fewer :=
        indices.length_filter_le fun index =>
          !core.has peer.feed index
      rw [Peer.onMessage, onHave_sent announces]
      simp only [Peer.done, requests, learnerWeight, announces,
        Option.getD_some]
      omega
  | data index value nodes signature =>
      simp only [Peer.onMessage, Peer.onData, learnerWeight]
      split
      · simp [Peer.failed]
      · split
        · simp [Peer.failed]
        · next feed queued _ =>
            have oneEvent :
                (peer.stored index feed queued).feedEvents.length ≤
                  peer.feedEvents.length + 1 := by
              simp only [Peer.stored]
              split <;> simp
            have noAck :
                (peer.stored index feed queued).remoteAck = false :=
              isLearner.remoteAck
            simp only [noAck, Peer.done]
            simp only [Bool.false_eq_true, if_false, List.map_nil,
              List.sum_nil]
            omega
  | request index =>
      exact fromHolder.elim
  | ignored =>
      exact fromHolder.elim

/-- The weight after the holder has run a handler. -/
theorem weight_afterHolder
    (session : Session Feed)
    (rest : List Message)
    (turn : Turn Feed) :
    weight core overflowChecks (session.after .holder rest turn) =
      (rest.map holderWeight).sum +
        ((session.learner.inbox.map
            (learnerWeight core overflowChecks)).sum +
          (turn.sent.map (learnerWeight core overflowChecks)).sum) +
        2 * session.learner.peer.feedEvents.length := by
  simp [weight, Session.after, Side.after, Side.receive]

/-- The weight after the learner has run a handler. -/
theorem weight_afterLearner
    (session : Session Feed)
    (rest : List Message)
    (turn : Turn Feed) :
    weight core overflowChecks (session.after .learner rest turn) =
      ((session.holder.inbox.map holderWeight).sum +
          (turn.sent.map holderWeight).sum) +
        (rest.map (learnerWeight core overflowChecks)).sum +
        2 * turn.peer.feedEvents.length := by
  simp [weight, Session.after, Side.after, Side.receive]

/-- Both loops run. -/
def BothLoop (session : Session Feed) : Prop :=
  session.holder.phase = .looping ∧ session.learner.phase = .looping

/-- Some step keeps both loops running and lowers the weight. -/
def Lightens
    (core : Hypercore Feed Signature)
    (overflowChecks : Bool)
    (session : Session Feed) : Prop :=
  ∃ action next,
    step core overflowChecks session action = some next ∧
      BothLoop next ∧
      weight core overflowChecks next <
        weight core overflowChecks session

/-- The holder handles a message. -/
theorem lightens_of_toHolder
    (serves : Serves core source replica)
    (fits : limit < 2 ^ 64)
    (full : ∀ index, core.has source index = decide (index < limit))
    (length : core.len source = limit)
    (exchanging :
      Exchanging core overflowChecks source replica limit session)
    (loops : BothLoop session)
    {message : Message}
    {rest : List Message}
    (toHolder : session.holder.inbox = message :: rest) :
    Lightens core overflowChecks session := by
  obtain ⟨holderLoops, learnerLoops⟩ := loops
  have fromLearner := exchanging.toHolder message (by simp [toHolder])
  obtain ⟨after, sent, handled, _, fromHolder, _⟩ :=
    holder_onMessage serves fits full length exchanging.holder fromLearner
  have lighter :=
    holder_lighter serves exchanging.holder fromLearner
      (by rw [handled]; exact fromHolder)
  have stepped :
      step core overflowChecks session (.deliver .holder) =
        some (session.after .holder rest (after.done sent)) := by
    simp only [step, Session.side, holderLoops, toHolder, handled]
  refine ⟨_, _, stepped, ⟨rfl, learnerLoops⟩, ?_⟩
  rw [handled] at lighter
  rw [weight_afterHolder]
  simp only [weight, toHolder, List.map_cons, List.sum_cons]
  omega

/-- The learner handles a message. -/
theorem lightens_of_toLearner
    (serves : Serves core source replica)
    (fits : limit < 2 ^ 64)
    (full : ∀ index, core.has source index = decide (index < limit))
    (length : core.len source = limit)
    (exchanging :
      Exchanging core overflowChecks source replica limit session)
    (loops : BothLoop session)
    {message : Message}
    {rest : List Message}
    (toLearner : session.learner.inbox = message :: rest) :
    Lightens core overflowChecks session := by
  obtain ⟨holderLoops, learnerLoops⟩ := loops
  have fromHolder := exchanging.toLearner message (by simp [toLearner])
  obtain ⟨after, sent, handled, _⟩ :=
    learner_onMessage serves fits full length exchanging.learner
      fromHolder
  have lighter := learner_lighter exchanging.learner fromHolder
  have stepped :
      step core overflowChecks session (.deliver .learner) =
        some (session.after .learner rest (after.done sent)) := by
    simp only [step, Session.side, learnerLoops, toLearner, handled]
  refine ⟨_, _, stepped, ⟨holderLoops, rfl⟩, ?_⟩
  rw [handled] at lighter
  rw [weight_afterLearner]
  simp only [weight, toLearner, List.map_cons, List.sum_cons]
  omega

/-- The learner announces a block that it has stored. -/
theorem lightens_of_feedEvent
    (exchanging :
      Exchanging core overflowChecks source replica limit session)
    (loops : BothLoop session)
    {event : FeedEvent}
    {rest : List FeedEvent}
    (events : session.learner.peer.feedEvents = event :: rest) :
    Lightens core overflowChecks session := by
  obtain ⟨holderLoops, learnerLoops⟩ := loops
  obtain ⟨index, _, rfl⟩ :=
    exchanging.learner.feedEvents event (by simp [events])
  have stepped :
      step core overflowChecks session (.feedEvent .learner) =
        some
          (session.after .learner session.learner.inbox
            (Peer.sendHave
              { session.learner.peer with feedEvents := rest }
              index none)) := by
    simp only [step, Session.side, learnerLoops, events,
      Peer.onFeedEvent]
  refine ⟨_, _, stepped, ⟨holderLoops, rfl⟩, ?_⟩
  rw [weight_afterLearner]
  simp only [weight, events, Peer.sendHave, Peer.done, holderWeight,
    List.map_cons, List.map_nil, List.sum_cons, List.sum_nil,
    List.length_cons]
  omega

/-- A session that is not at rest can take a step that lowers its weight. -/
theorem progress
    (serves : Serves core source replica)
    (fits : limit < 2 ^ 64)
    (full : ∀ index, core.has source index = decide (index < limit))
    (length : core.len source = limit)
    (exchanging :
      Exchanging core overflowChecks source replica limit session)
    (loops : BothLoop session) :
    session.Quiescent ∨ Lightens core overflowChecks session := by
  cases toHolder : session.holder.inbox with
  | cons message rest =>
      exact Or.inr (lightens_of_toHolder serves fits full length
        exchanging loops toHolder)
  | nil =>
      cases toLearner : session.learner.inbox with
      | cons message rest =>
          exact Or.inr (lightens_of_toLearner serves fits full length
            exchanging loops toLearner)
      | nil =>
          cases events : session.learner.peer.feedEvents with
          | cons event rest =>
              exact Or.inr
                (lightens_of_feedEvent exchanging loops events)
          | nil =>
              exact Or.inl ⟨loops.1, loops.2, toHolder, toLearner,
                exchanging.holder.feedEvents, events⟩

/-- From every state in which both loops run, a session can come to rest. -/
theorem exists_quiescent
    (serves : Serves core source replica)
    (fits : limit < 2 ^ 64)
    (full : ∀ index, core.has source index = decide (index < limit))
    (length : core.len source = limit)
    (exchanging :
      Exchanging core overflowChecks source replica limit session)
    (loops : BothLoop session) :
    ∃ actions final,
      Machine.run (step core overflowChecks) session actions =
          some final ∧
        final.Quiescent := by
  refine Machine.exists_run_of_lighter
    (fun session =>
      Exchanging core overflowChecks source replica limit session ∧
        BothLoop session)
    Session.Quiescent (weight core overflowChecks) ?_
    ⟨exchanging, loops⟩
  rintro state ⟨stateExchanging, stateLoops⟩
  rcases progress serves fits full length stateExchanging
      stateLoops with
    quiescent | ⟨action, next, stepped, nextLoops, lighter⟩
  · exact Or.inl quiescent
  · have moves :=
      stateExchanging.moves serves fits full length stepped
    exact Or.inr ⟨action, next, stepped,
      ⟨stateExchanging.of_moves moves, nextLoops⟩, lighter⟩

end

end Hyperspace.PeerDrain
