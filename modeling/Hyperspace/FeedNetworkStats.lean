import Hyperspace.FeedNetworkSync
import Mathlib.Algebra.Group.Prod

namespace Hyperspace.FeedNetwork

/-!
# The statistics of a connection

Each loop counts the blocks that it uploads and downloads, and their bytes.
Over any network and any run, with whatever the dependencies do, the counters
at the two ends of a connection fit: what one end has uploaded is what the
other has downloaded, with what is still in flight.  Only a loop that has ended
with an error may have taken one block more than it has counted.
-/

/-- Blocks and bytes that a message carries. -/
def carried : Message → Nat × Nat
  | .data _ value _ _ => (1, (value.map List.length).getD 0)
  | _ => 0

/-- Blocks and bytes in a list of messages. -/
def carriedBy (messages : List Message) : Nat × Nat :=
  (messages.map carried).sum

/-- Blocks and bytes that are counted as uploaded. -/
def uploads (stats : Replicator.Stats) : Nat × Nat :=
  (stats.uploadedBlocks, stats.uploadedBytes)

/-- Blocks and bytes that are counted as downloaded. -/
def downloads (stats : Replicator.Stats) : Nat × Nat :=
  (stats.downloadedBlocks, stats.downloadedBytes)

/-- What an end counts as uploaded. -/
def uploaded (loop : Option Loop) : Nat × Nat :=
  (loop.map fun loop => uploads loop.stats).getD 0

/-- What an end counts as downloaded. -/
def downloaded (loop : Option Loop) : Nat × Nat :=
  (loop.map fun loop => downloads loop.stats).getD 0

/-- A loop has ended with an error. -/
def Ended (loop : Option Loop) : Prop :=
  ∃ running, loop = some running ∧ running.phase = .ended

/-- What an end has uploaded is accounted for at the other end. -/
def Accounted
    {Store End Feed : Type}
    (topology : Topology Store End)
    (state : State Store End Feed)
    (side : End) : Prop :=
  ∃ lost : Nat × Nat,
    lost.1 ≤ 1 ∧
      (lost ≠ 0 → Ended (state.loops (topology.opposite side))) ∧
      uploaded (state.loops side) =
        downloaded (state.loops (topology.opposite side)) +
          carriedBy (state.inboxes (topology.opposite side)) + lost

/-- A handler counts what it sends, and what it was sent unless it fails. -/
structure Counts
    {Feed : Type}
    (peer : Peer Feed)
    (taken : Nat × Nat)
    (turn : Turn Feed) : Prop where
  sent :
    uploads turn.peer.stats = uploads peer.stats + carriedBy turn.sent
  received :
    turn.phase ≠ .ended →
    downloads turn.peer.stats = downloads peer.stats + taken
  refused :
    turn.phase = .ended →
    downloads turn.peer.stats = downloads peer.stats

section

variable
  {Feed Signature : Type}
  (core : Hypercore Feed Signature)
  (overflowChecks : Bool)

/-- No messages carry nothing. -/
@[simp] theorem carriedBy_nil : carriedBy [] = 0 :=
  rfl

/-- Messages carry what their parts carry. -/
@[simp] theorem carriedBy_append (first second : List Message) :
    carriedBy (first ++ second) = carriedBy first + carriedBy second := by
  simp [carriedBy]

/-- A message in front carries what it carries. -/
@[simp] theorem carriedBy_cons (message : Message) (rest : List Message) :
    carriedBy (message :: rest) = carried message + carriedBy rest := by
  simp [carriedBy]

/-- Requests carry no block. -/
@[simp] theorem carriedBy_requests (indices : List Nat) :
    carriedBy (indices.map .request) = 0 := by
  induction indices with
  | nil =>
      rfl
  | cons index rest inductionHypothesis =>
      rw [List.map_cons, carriedBy_cons, inductionHypothesis]
      rfl

/-- A handler that sends no block and is sent none. -/
theorem counts_none
    {peer : Peer Feed}
    {turn : Turn Feed}
    (sameStats : turn.peer.stats = peer.stats)
    (nothing : carriedBy turn.sent = 0) :
    Counts peer 0 turn := by
  refine ⟨?_, ?_, ?_⟩
  · rw [sameStats, nothing, add_zero]
  · intro _
    rw [sameStats, add_zero]
  · intro _
    rw [sameStats]

/-- Every handler of a message counts. -/
theorem counts_onMessage (peer : Peer Feed) (message : Message) :
    Counts peer (carried message)
      (peer.onMessage core overflowChecks message) := by
  cases message with
  | openChannel =>
      exact counts_none rfl rfl
  | want start length =>
      simp only [Peer.onMessage, Peer.onWant]
      split
      · refine counts_none rfl ?_
        simp only [Peer.failed]
        split <;> rfl
      · refine counts_none rfl ?_
        simp only [Peer.done]
        split <;> rfl
  | announce start length bitfield ack =>
      simp only [Peer.onMessage, Peer.onHave]
      split
      · exact counts_none rfl rfl
      · exact counts_none rfl (carriedBy_requests _)
  | request index =>
      simp only [Peer.onMessage, Peer.onRequest]
      split
      · exact counts_none rfl rfl
      · split
        · exact counts_none rfl rfl
        · exact ⟨rfl, fun _ => rfl, fun _ => rfl⟩
  | data index value nodes signature =>
      simp only [Peer.onMessage, Peer.onData]
      split
      · exact ⟨rfl, fun runs => absurd rfl runs, fun _ => rfl⟩
      · split
        · exact ⟨rfl, fun runs => absurd rfl runs, fun _ => rfl⟩
        · refine ⟨?_, fun _ => rfl, ?_⟩
          · simp only [Peer.done]
            split <;> rfl
          · intro ended
            cases ended
  | ignored =>
      exact counts_none rfl rfl

/-- Every handler of an event counts. -/
theorem counts_onFeedEvent (peer : Peer Feed) (event : FeedEvent) :
    Counts peer 0 (peer.onFeedEvent core overflowChecks event) := by
  cases event with
  | download index =>
      exact counts_none rfl rfl
  | append =>
      simp only [Peer.onFeedEvent]
      split
      · exact counts_none rfl rfl
      · exact counts_none rfl rfl

end

section

variable
  {Store End Feed : Type}
  {topology : Topology Store End}
  {state next : State Store End Feed}

/-- What is counted stays the same when the loops and channels do. -/
theorem Accounted.congr
    {side : End}
    (accounted : Accounted topology state side)
    (sameUploads :
      uploaded (next.loops side) = uploaded (state.loops side))
    (sameDownloads :
      downloaded (next.loops (topology.opposite side)) =
        downloaded (state.loops (topology.opposite side)))
    (sameEnd :
      Ended (state.loops (topology.opposite side)) →
      Ended (next.loops (topology.opposite side)))
    (sameCarried :
      carriedBy (next.inboxes (topology.opposite side)) =
        carriedBy (state.inboxes (topology.opposite side))) :
    Accounted topology next side := by
  obtain ⟨lost, few, onlyEnded, balance⟩ := accounted
  refine ⟨lost, few, fun isLost => sameEnd (onlyEnded isLost), ?_⟩
  rw [sameUploads, sameDownloads, sameCarried, balance]

end

section

variable
  {Store End Feed Signature : Type}
  [DecidableEq Store]
  [DecidableEq End]
  {topology : Topology Store End}
  {core : Hypercore Feed Signature}
  {overflowChecks : Bool}
  {log : Nat → Bytes}
  {state next : State Store End Feed}

/-- Hearing of events counts nothing. -/
theorem act_counts_other
    {side other : End}
    (different : other ≠ side)
    (topology : Topology Store End)
    (state : State Store End Feed)
    (news : List FeedEvent)
    (rest : List Message)
    (turn : Turn Feed) :
    uploaded ((state.act topology side news rest turn).loops other) =
        uploaded (state.loops other) ∧
      downloaded ((state.act topology side news rest turn).loops other) =
        downloaded (state.loops other) ∧
      (Ended ((state.act topology side news rest turn).loops other) ↔
        Ended (state.loops other)) := by
  cases found : state.loops other with
  | none =>
      rw [(act_loops_eq_none different).mpr found]
      exact ⟨rfl, rfl, Iff.rfl⟩
  | some loop =>
      rw [act_loops_other different found]
      split
      · refine ⟨rfl, rfl, ?_⟩
        simp [Ended, Loop.hear]
      · exact ⟨rfl, rfl, Iff.rfl⟩

/-- The end at which a handler runs has uploaded what the handler sent. -/
theorem accounted_act_sender
    {side : End}
    {loop : Loop}
    {news : List FeedEvent}
    {rest : List Message}
    {turn : Turn Feed}
    {peer : Peer Feed}
    {taken : Nat × Nat}
    (accounted : Accounted topology state side)
    (found : state.loops side = some loop)
    (isPeer : peer.stats = loop.stats)
    (counts : Counts peer taken turn) :
    Accounted topology (state.act topology side news rest turn) side := by
  obtain ⟨lost, few, onlyEnded, balance⟩ := accounted
  have different := topology.opposite_ne side
  obtain ⟨_, sameDownloads, sameEnd⟩ :=
    act_counts_other different topology state news rest turn
  have sent :
      (state.act topology side news rest turn).inboxes
          (topology.opposite side) =
        state.inboxes (topology.opposite side) ++ turn.sent := by
    simp [State.act, different]
  refine ⟨lost, few, fun isLost => sameEnd.mpr (onlyEnded isLost), ?_⟩
  rw [act_loops_self, sameDownloads, sent, carriedBy_append]
  calc
    uploads turn.peer.stats =
        uploads peer.stats + carriedBy turn.sent := counts.sent
    _ = uploaded (state.loops side) + carriedBy turn.sent := by
        rw [found, isPeer]
        rfl
    _ = _ := by
        rw [balance, add_right_comm, add_assoc (downloaded _)]

/-- It has downloaded what it took from its channel, unless it failed. -/
theorem accounted_act_receiver
    {side : End}
    {loop : Loop}
    {news : List FeedEvent}
    {rest : List Message}
    {turn : Turn Feed}
    {peer : Peer Feed}
    {taken : Nat × Nat}
    (accounted : Accounted topology state (topology.opposite side))
    (found : state.loops side = some loop)
    (runs : loop.phase ≠ .ended)
    (isPeer : peer.stats = loop.stats)
    (counts : Counts peer taken turn)
    (single : taken.1 ≤ 1)
    (takes :
      carriedBy (state.inboxes side) = taken + carriedBy rest) :
    Accounted topology (state.act topology side news rest turn)
      (topology.opposite side) := by
  obtain ⟨lost, few, onlyEnded, balance⟩ := accounted
  obtain ⟨sameUploads, _, _⟩ :=
    act_counts_other (topology.opposite_ne side) topology state news
      rest turn
  rw [topology.opposite_opposite] at onlyEnded balance
  have noneLost : lost = 0 := by
    by_contra isLost
    obtain ⟨running, isLoop, ended⟩ := onlyEnded isLost
    rw [found] at isLoop
    cases isLoop
    exact runs ended
  have left :
      (state.act topology side news rest turn).inboxes side = rest := by
    simp [State.act]
  have before :
      uploaded (state.loops (topology.opposite side)) =
        downloads peer.stats + (taken + carriedBy rest) := by
    rw [balance, noneLost, add_zero, found, takes, isPeer]
    rfl
  rw [Accounted, topology.opposite_opposite, act_loops_self, sameUploads,
    left, before]
  by_cases ended : turn.phase = .ended
  · refine ⟨taken, single, fun _ => ⟨_, rfl, ended⟩, ?_⟩
    calc
      downloads peer.stats + (taken + carriedBy rest) =
          downloads turn.peer.stats + (taken + carriedBy rest) := by
          rw [counts.refused ended]
      _ = downloads turn.peer.stats + carriedBy rest + taken := by
          rw [add_comm taken, add_assoc]
  · refine ⟨0, Nat.zero_le 1, fun isLost => absurd rfl isLost, ?_⟩
    calc
      downloads peer.stats + (taken + carriedBy rest) =
          downloads peer.stats + taken + carriedBy rest :=
        (add_assoc _ _ _).symm
      _ = downloads turn.peer.stats + carriedBy rest + 0 := by
          rw [counts.received ended, add_zero]

/-- A handler that counts keeps the accounts of all connections. -/
theorem accounted_act
    (accounted : ∀ side, Accounted topology state side)
    {side : End}
    {loop : Loop}
    {news : List FeedEvent}
    {rest : List Message}
    {turn : Turn Feed}
    {peer : Peer Feed}
    {taken : Nat × Nat}
    (found : state.loops side = some loop)
    (runs : loop.phase ≠ .ended)
    (isPeer : peer.stats = loop.stats)
    (counts : Counts peer taken turn)
    (single : taken.1 ≤ 1)
    (takes :
      carriedBy (state.inboxes side) = taken + carriedBy rest)
    (other : End) :
    Accounted topology (state.act topology side news rest turn)
      other := by
  by_cases sends : other = side
  · subst other
    exact accounted_act_sender (accounted side) found isPeer counts
  by_cases receives : other = topology.opposite side
  · subst other
    exact accounted_act_receiver (accounted _) found runs isPeer counts
      single takes
  · have notThere : topology.opposite other ≠ side := by
      intro same
      refine receives ?_
      rw [← same, topology.opposite_opposite]
    have notOpposite :
        topology.opposite other ≠ topology.opposite side := by
      intro same
      refine sends ?_
      rw [← topology.opposite_opposite other, same,
        topology.opposite_opposite]
    obtain ⟨sameUploads, _, _⟩ :=
      act_counts_other sends topology state news rest turn
    obtain ⟨_, sameDownloads, sameEnd⟩ :=
      act_counts_other notThere topology state news rest turn
    refine (accounted other).congr sameUploads sameDownloads
      sameEnd.mpr ?_
    simp [State.act, notThere, notOpposite]

/-- A message carries one block at most. -/
theorem carried_le_one (message : Message) :
    (carried message).1 ≤ 1 := by
  cases message <;> simp [carried]

/-- Every step keeps the accounts of all connections. -/
theorem accounted_step
    (accounted : ∀ side, Accounted topology state side)
    {action : Action Store End}
    (stepped :
      step topology core overflowChecks log state action =
        some next)
    (other : End) :
    Accounted topology next other := by
  cases action with
  | subscribe side remote =>
      simp only [step] at stepped
      split at stepped
      · next absent isOpen =>
          cases stepped
          refine (accounted other).congr ?_ ?_ ?_ rfl
          · simp only [Function.update_apply]
            split
            · next same =>
                rw [same, absent]
                rfl
            · rfl
          · simp only [Function.update_apply]
            split
            · next same =>
                rw [same, absent]
                rfl
            · rfl
          · rintro ⟨running, isLoop, ended⟩
            refine ⟨running, ?_, ended⟩
            simp only [Function.update_apply]
            split
            · next same =>
                rw [same, absent] at isLoop
                cases isLoop
            · exact isLoop
      · cases stepped
  | start side =>
      simp only [step] at stepped
      split at stepped
      · next loop found isOpen =>
          split at stepped
          · next starting =>
              cases stepped
              exact accounted_act accounted found (by simp [starting])
                rfl (counts_none rfl rfl) (Nat.zero_le 1)
                (zero_add _).symm other
          · cases stepped
      · cases stepped
  | deliver side =>
      simp only [step] at stepped
      split at stepped
      · next loop found isOpen =>
          split at stepped
          · next message rest looping taken =>
              cases stepped
              exact accounted_act accounted found (by simp [looping])
                rfl (counts_onMessage core overflowChecks _ message)
                (carried_le_one message) (by simp [taken]) other
          · cases stepped
      · cases stepped
  | feedEvent side =>
      simp only [step] at stepped
      split at stepped
      · next loop found isOpen =>
          split at stepped
          · next event rest looping taken =>
              cases stepped
              exact accounted_act accounted found (by simp [looping])
                rfl (counts_onFeedEvent core overflowChecks _ event)
                (Nat.zero_le 1) (zero_add _).symm other
          · cases stepped
      · cases stepped
  | reopen side =>
      cases stepped
      refine (accounted other).congr rfl rfl (fun ended => ended) ?_
      simp only [Function.update_apply]
      split
      · next same =>
          rw [same, carriedBy_append]
          exact add_zero _
      · rfl
  | close side =>
      cases stepped
      exact (accounted other).congr rfl rfl (fun ended => ended) rfl
  | append store =>
      simp only [step, Option.map_eq_some_iff] at stepped
      obtain ⟨feed, _, rfl⟩ := stepped
      have sameCounts :
          ∀ side,
            uploaded
                ((state.grow topology store [.append] feed).loops
                  side) =
                uploaded (state.loops side) ∧
              downloaded
                ((state.grow topology store [.append] feed).loops
                  side) =
                downloaded (state.loops side) ∧
              (Ended (state.loops side) →
                Ended
                  ((state.grow topology store [.append] feed).loops
                    side)) := by
        intro side
        simp only [State.grow]
        split
        · cases state.loops side with
          | none =>
              exact ⟨rfl, rfl, fun ended => ended⟩
          | some loop =>
              refine ⟨rfl, rfl, ?_⟩
              simp [Ended, Loop.hear]
        · exact ⟨rfl, rfl, fun ended => ended⟩
      exact (accounted other).congr (sameCounts _).1 (sameCounts _).2.1
        (sameCounts _).2.2 rfl

/--
The statistics at the two ends of a connection fit, in every run of any
network.  While the receiving loop has not ended with an error, what the other
end has uploaded is exactly what the receiver has downloaded and what is in
flight to it, in blocks and in bytes; an ended one misses one block at most.
-/
theorem uploads_accounted_for
    {feeds : Store → Feed}
    {actions : List (Action Store End)}
    {final : State Store End Feed}
    (ran :
      Machine.run (step topology core overflowChecks log)
          (initial End feeds) actions =
        some final)
    (side : End) :
    ∃ lost : Nat × Nat,
      lost.1 ≤ 1 ∧
        (lost ≠ 0 → Ended (final.loops (topology.opposite side))) ∧
        uploaded (final.loops side) =
          downloaded (final.loops (topology.opposite side)) +
            carriedBy (final.inboxes (topology.opposite side)) +
            lost :=
  Machine.invariant_run
    (fun state => ∀ side, Accounted topology state side)
    (fun accounted stepped => accounted_step accounted stepped)
    (fun _ => ⟨0, Nat.zero_le 1, fun isLost => absurd rfl isLost, rfl⟩)
    ran side

end

/-- In the line of stores one block is passed on twice. -/
theorem uploads_accounted_for_line :
    ∃ final,
      Machine.run (step line sparseCore true numberedLog) emptyLine
          (opened ++ passedOn) =
          some final ∧
        downloaded (final.loops .left) = (1, 1) ∧
        uploaded (final.loops .first) = (1, 1) ∧
        downloaded (final.loops .last) = (1, 1) ∧
        uploaded (final.loops .right) = (1, 1) := by
  obtain ⟨final, ran, left, last, running⟩ :
      ∃ final,
        Machine.run (step line sparseCore true numberedLog) emptyLine
            (opened ++ passedOn) =
            some final ∧
          downloaded (final.loops .left) = (1, 1) ∧
          downloaded (final.loops .last) = (1, 1) ∧
          ∀ side,
            final.inboxes side = [] ∧
              ∃ loop,
                final.loops side = some loop ∧
                  loop.phase = .looping := by
    refine ⟨_, rfl, rfl, rfl, ?_⟩
    intro side
    cases side <;> exact ⟨rfl, _, rfl, rfl⟩
  have noneEnded : ∀ side, ¬ Ended (final.loops side) := by
    rintro side ⟨other, isOther, ended⟩
    obtain ⟨_, loop, isLoop, looping⟩ := running side
    rw [isLoop] at isOther
    cases isOther
    rw [looping] at ended
    cases ended
  have fits :
      ∀ side,
        uploaded (final.loops side) =
          downloaded (final.loops (line.opposite side)) := by
    intro side
    obtain ⟨lost, _, onlyEnded, balance⟩ :=
      uploads_accounted_for ran side
    have noneLost : lost = 0 := by
      by_contra isLost
      exact noneEnded _ (onlyEnded isLost)
    rw [balance, (running _).1, noneLost]
    exact add_zero _
  exact ⟨final, ran, left, (fits .first).trans left, last,
    (fits .right).trans last⟩

end Hyperspace.FeedNetwork
