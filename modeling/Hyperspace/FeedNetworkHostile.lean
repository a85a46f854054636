import Hyperspace.FeedNetworkRest

namespace Hyperspace.FeedNetwork

/-!
# Remotes that do not keep to the protocol

A store takes every connection that comes in.  On a hostile connection the
remote decides which messages are in flight: it invents, repeats, reorders and
withholds them as it likes.  The loop of the store handles them with the
instance of the feed that it shares with all other loops of the store.

What such a remote can reach is little.  When the hostile connections are
erased from a network, each of its steps is a step of the network that is left,
or leaves that as it is, or gives one of its stores a block that `put` has
accepted.  So the other connections do what they would do without the hostile
ones: as long as they are careful, their loops do not fail, stores that they
join agree at rest, and hostile remotes cannot keep them busy.

That the other connections are careful remains an assumption, and a hostile
remote can have a part in breaking it.  It may send a block that is not the last
one of the log as it knows it; a store that is asked for its blocks for the
first time after that announces the last one, which it does not hold.
-/

/-- The end at which a step takes place. -/
def Action.end?
    {Store End : Type} : Action Store End → Option End
  | .subscribe side _ => some side
  | .start side => some side
  | .deliver side => some side
  | .feedEvent side => some side
  | .reopen side => some side
  | .close side => some side
  | .append _ => none

section

variable
  {Store End Feed Signature : Type}
  (topology : Topology Store End)

/-- The ends of the connections that are hostile. -/
structure HostileEnds where
  isHostile : End → Bool
  bothEnds :
    ∀ side, isHostile (topology.opposite side) = isHostile side

/-- What can happen when some connections are hostile. -/
inductive HostileAction (Store End : Type) where
  | regular (action : Action Store End)
  /-- The remote decides what is in flight to an end. -/
  | tamper (side : End) (messages : List Message)

variable {topology}

/--
The connections that are not hostile neither come nor go, and the owner appends
nothing.  On hostile connections anything happens.
-/
def HostileAction.Internal
    (hostile : HostileEnds topology) : HostileAction Store End → Prop
  | .tamper _ _ => True
  | .regular action =>
      action.Internal ∨
        ∃ side,
          action.end? = some side ∧ hostile.isHostile side = true

/-- Whether a step is one of a loop whose connection is not hostile. -/
def HostileAction.isHonest
    (hostile : HostileEnds topology) : HostileAction Store End → Bool
  | .tamper _ _ => false
  | .regular action => action.end?.any fun side => !hostile.isHostile side

/-- The network without its hostile connections. -/
def State.honest
    (hostile : HostileEnds topology)
    (state : State Store End Feed) : State Store End Feed where
  feeds := state.feeds
  loops := fun side =>
    if hostile.isHostile side then none else state.loops side
  inboxes := fun side =>
    if hostile.isHostile side then [] else state.inboxes side
  closed := fun side =>
    if hostile.isHostile side then false else state.closed side

variable
  (topology)
  [DecidableEq Store]
  [DecidableEq End]
  (core : Hypercore Feed Signature)
  (overflowChecks : Bool)
  (log : Nat → Bytes)

/-- One step in a network with hostile connections. -/
def hostileStep (state : State Store End Feed) :
    HostileAction Store End → Option (State Store End Feed)
  | .regular action => step topology core overflowChecks log state action
  | .tamper side messages =>
      some
        { state with
          inboxes := Function.update state.inboxes side messages }

/--
What is assumed of `put` for data of any origin.  It is accepted only if it is
the block of the log, and an event is queued only for a block that is new.
-/
structure Verifies (replica : Feed → Prop) : Prop where
  isReplica :
    ∀ {feed index value proof next queued},
      replica feed →
      core.put feed index value proof = some (next, queued) →
      replica next
  keeps :
    ∀ {feed index value proof next queued},
      core.put feed index value proof = some (next, queued) →
      ∀ other, core.has feed other → core.has next other
  only :
    ∀ {feed index value proof next queued},
      core.put feed index value proof = some (next, queued) →
      ∀ other, core.has next other → core.has feed other ∨ other = index
  told :
    ∀ {feed index value proof next queued},
      core.put feed index value proof = some (next, queued) →
      (queued = true ↔
        core.has next index ∧ core.has feed index = false)

/--
Signatures cannot be forged: data that is accepted is about a block of the first
window that the owner has, and makes the feed of the owner no longer.
-/
def Unforged
    (owner : Option Store)
    (state : State Store End Feed)
    (side : End) : Prop :=
  ∀ index value nodes signature rest read feed queued,
    state.inboxes side = .data index value nodes signature :: rest →
    Peer.readSignature core signature = some read →
    core.put (state.feeds (topology.store side)) index value
        ⟨index, nodes, read⟩ =
      some (feed, queued) →
    index < windowLength ∧
      (∀ holder,
        owner = some holder → core.has (state.feeds holder) index) ∧
      (owner = some (topology.store side) →
        core.len feed = core.len (state.feeds (topology.store side)))

/-- What a hostile connection does to the rest of a network. -/
inductive Outside
    (replica : Feed → Prop)
    (owner : Option Store)
    (state : State Store End Feed) : State Store End Feed → Prop where
  | unchanged : Outside replica owner state state
  | received
      {store : Store}
      {index : Nat}
      {feed : Feed}
      {queued : Bool}
      (isReplica : replica feed)
      (keeps :
        ∀ other,
          core.has (state.feeds store) other → core.has feed other)
      (only :
        ∀ other,
          core.has feed other →
          core.has (state.feeds store) other ∨ other = index)
      (told :
        queued = true ↔
          core.has feed index ∧
            core.has (state.feeds store) index = false)
      (small : index < windowLength)
      (owned :
        ∀ holder,
          owner = some holder → core.has (state.feeds holder) index)
      (ofOwner :
        owner = some store →
        core.len feed = core.len (state.feeds store)) :
      Outside replica owner state
        (state.grow topology store
          (if queued then [.download index] else []) feed)

variable {topology}

/--
The runs that are followed.  Hostile remotes do anything but forge, and the
other connections are careful: the first `Want` that a loop there handles finds
the last block of the feed as the store has it then, also if hostile remotes
have sent blocks of it, and only the owner appends.
-/
def Guarded
    (hostile : HostileEnds topology)
    (owner : Option Store)
    (state : State Store End Feed) : HostileAction Store End → Prop
  | .tamper side _ => hostile.isHostile side = true
  | .regular (.deliver side) =>
      if hostile.isHostile side = true then
        Unforged topology core owner state side
      else
        Careful topology core owner (state.honest hostile)
          (.deliver side)
  | .regular action =>
      Careful topology core owner (state.honest hostile) action

end

section

variable
  {Store End Feed Signature : Type}
  {topology : Topology Store End}
  {hostile : HostileEnds topology}
  {state next : State Store End Feed}
  {side : End}

/-! ## Erasing the hostile connections -/

/-- Other connections keep their loops. -/
theorem honest_loops
    (isHonest : hostile.isHostile side = false) :
    (state.honest hostile).loops side = state.loops side := by
  simp [State.honest, isHonest]

/-- Other connections keep their messages. -/
theorem honest_inboxes
    (isHonest : hostile.isHostile side = false) :
    (state.honest hostile).inboxes side = state.inboxes side := by
  simp [State.honest, isHonest]

/-- A hostile end is none of the others. -/
theorem HostileEnds.ne_of_honest
    (isHostile : hostile.isHostile side = true)
    {other : End}
    (isHonest : hostile.isHostile other = false) :
    other ≠ side := by
  rintro rfl
  rw [isHostile] at isHonest
  cases isHonest

/-- Other connections are closed as before. -/
theorem honest_closed
    (isHonest : hostile.isHostile side = false) :
    (state.honest hostile).closed side = state.closed side := by
  simp [State.honest, isHonest]

/-- Values that agree at the other ends agree when the rest is erased. -/
theorem erase_eq_of_agree
    {Value : Type}
    {erased : Value}
    {first second : End → Value}
    (agree :
      ∀ side,
        hostile.isHostile side = false → first side = second side) :
    (fun side => if hostile.isHostile side then erased else first side) =
      fun side =>
        if hostile.isHostile side then erased else second side := by
  funext side
  cases isHostile : hostile.isHostile side with
  | true =>
      rfl
  | false =>
      simpa using agree side isHostile

/-- Nothing is seen of what changes only at hostile ends. -/
theorem honest_eq_of_agree
    (sameFeeds : next.feeds = state.feeds)
    (sameLoops :
      ∀ side,
        hostile.isHostile side = false →
        next.loops side = state.loops side)
    (sameInboxes :
      ∀ side,
        hostile.isHostile side = false →
        next.inboxes side = state.inboxes side)
    (sameClosed :
      ∀ side,
        hostile.isHostile side = false →
        next.closed side = state.closed side) :
    next.honest hostile = state.honest hostile := by
  simp only [State.honest]
  rw [sameFeeds, erase_eq_of_agree sameLoops,
    erase_eq_of_agree sameInboxes, erase_eq_of_agree sameClosed]

/-- A network in which nothing is connected has nothing to erase. -/
theorem honest_initial (feeds : Store → Feed) :
    (initial End feeds).honest hostile = initial End feeds := by
  simp [State.honest, initial]

/-- At ends that are not hostile, the run is a careful one. -/
theorem Guarded.careful
    {core : Hypercore Feed Signature}
    {owner : Option Store}
    {action : Action Store End}
    (guarded : Guarded core hostile owner state (.regular action))
    (isHonest :
      ∀ side,
        action.end? = some side → hostile.isHostile side = false) :
    Careful topology core owner (state.honest hostile) action := by
  cases action with
  | deliver side =>
      have notHostile := isHonest side rfl
      simpa [Guarded, notHostile] using guarded
  | _ => exact guarded

/-- Replacing what is at one end can be done before or after erasing. -/
theorem ite_update
    [DecidableEq End]
    {Value : Type}
    {erased value : Value}
    {values : End → Value}
    (isHonest : hostile.isHostile side = false) :
    (fun other =>
        if hostile.isHostile other then erased
        else Function.update values side value other) =
      Function.update
        (fun other =>
          if hostile.isHostile other then erased else values other)
        side value := by
  funext other
  by_cases same : other = side
  · subst other
    simp [isHonest]
  · simp [Function.update_of_ne same]

variable
  [DecidableEq Store]
  {news : List FeedEvent}
  {turn : Turn Feed}

/-- What a store gets from outside is seen at its other connections. -/
theorem honest_grow
    {store : Store}
    {feed : Feed} :
    (state.grow topology store news feed).honest hostile =
      (state.honest hostile).grow topology store news feed := by
  have sameLoops :
      ((state.grow topology store news feed).honest hostile).loops =
        ((state.honest hostile).grow topology store news
          feed).loops := by
    funext side
    simp only [State.honest, State.grow]
    cases hostile.isHostile side <;> simp
  simp only [State.honest, State.grow] at sameLoops ⊢
  rw [sameLoops]

/-- A store that hears of nothing new is as it was. -/
theorem grow_unchanged (store : Store) :
    state.grow topology store [] (state.feeds store) = state := by
  have sameLoops :
      (state.grow topology store [] (state.feeds store)).loops =
        state.loops := by
    funext side
    simp only [State.grow]
    split
    · cases state.loops side <;> simp [Loop.hear]
    · rfl
  simp only [State.grow] at sameLoops ⊢
  rw [sameLoops, Function.update_eq_self]

/-- What is not seen. -/
theorem Outside.of_eq
    {core : Hypercore Feed Signature}
    {replica : Feed → Prop}
    {owner : Option Store}
    (same : next = state) :
    Outside topology core replica owner state next := by
  rw [same]
  exact .unchanged

variable
  [DecidableEq End]
  {rest : List Message}

/-- A handler on a connection that is not hostile. -/
theorem honest_act
    (isHonest : hostile.isHostile side = false) :
    (state.act topology side news rest turn).honest hostile =
      (state.honest hostile).act topology side news rest turn := by
  have sameLoops :
      ((state.act topology side news rest turn).honest hostile).loops =
        ((state.honest hostile).act topology side news rest
          turn).loops := by
    funext other
    simp only [State.honest, State.act]
    by_cases same : other = side
    · simp [same, isHonest]
    · cases hostile.isHostile other <;> simp [same]
  have sameInboxes :
      ((state.act topology side news rest turn).honest
          hostile).inboxes =
        ((state.honest hostile).act topology side news rest
          turn).inboxes := by
    funext other
    simp only [State.honest, State.act]
    by_cases same : other = side
    · simp [same, isHonest]
    · by_cases isOpposite : other = topology.opposite side
      · simp [isOpposite, hostile.bothEnds, isHonest]
      · cases hostile.isHostile other <;> simp [same, isOpposite]
  simp only [State.honest, State.act] at sameLoops sameInboxes ⊢
  rw [sameLoops, sameInboxes]

/-- Of a handler on a hostile connection only the feed is seen. -/
theorem honest_act_hostile
    (isHostile : hostile.isHostile side = true) :
    (state.act topology side news rest turn).honest hostile =
      (state.honest hostile).grow topology (topology.store side) news
        turn.peer.feed := by
  have hostileThere :
      hostile.isHostile (topology.opposite side) = true := by
    rw [hostile.bothEnds]
    exact isHostile
  rw [← honest_grow]
  refine honest_eq_of_agree rfl ?_ ?_ (fun _ _ => rfl)
  · intro other isHonest
    have notHere := hostile.ne_of_honest isHostile isHonest
    simp only [State.act, State.grow, if_neg notHere]
  · intro other isHonest
    have notHere := hostile.ne_of_honest isHostile isHonest
    have notThere := hostile.ne_of_honest hostileThere isHonest
    simp only [State.act, State.grow, if_neg notHere, if_neg notThere]

/-- A handler on a hostile connection that leaves the feed is not seen. -/
theorem honest_act_unchanged
    (isHostile : hostile.isHostile side = true)
    (sameFeed :
      turn.peer.feed = state.feeds (topology.store side)) :
    (state.act topology side [] rest turn).honest hostile =
      state.honest hostile := by
  rw [honest_act_hostile isHostile, sameFeed]
  exact grow_unchanged (topology.store side)

end

/-! ## What a step looks like -/

section

variable
  {Store End Feed Signature : Type}
  [DecidableEq Store]
  [DecidableEq End]
  {topology : Topology Store End}
  {core : Hypercore Feed Signature}
  {overflowChecks : Bool}
  {log : Nat → Bytes}
  {replica : Feed → Prop}
  {owner : Option Store}
  {hostile : HostileEnds topology}
  {state next : State Store End Feed}
  {side : End}

/-- A step at an end that is not hostile is one without hostile ends. -/
theorem step_honest
    {action : Action Store End}
    (isHonest :
      ∀ side,
        action.end? = some side → hostile.isHostile side = false)
    (stepped :
      step topology core overflowChecks log state action =
        some next) :
    step topology core overflowChecks log (state.honest hostile)
        action =
      some (next.honest hostile) := by
  cases action with
  | subscribe side remote =>
      have notHostile := isHonest side rfl
      simp only [step, honest_loops notHostile,
        honest_closed notHostile] at stepped ⊢
      split at stepped
      · next absent isOpen =>
          cases stepped
          simp only [State.honest]
          rw [ite_update notHostile]
      · cases stepped
  | start side =>
      have notHostile := isHonest side rfl
      simp only [step, honest_loops notHostile,
        honest_inboxes notHostile, honest_closed notHostile]
        at stepped ⊢
      split at stepped
      · next loop found isOpen =>
          split at stepped
          · next starting =>
              cases stepped
              rw [honest_act notHostile]
              rfl
          · cases stepped
      · cases stepped
  | deliver side =>
      have notHostile := isHonest side rfl
      simp only [step, honest_loops notHostile,
        honest_inboxes notHostile, honest_closed notHostile]
        at stepped ⊢
      split at stepped
      · next loop found isOpen =>
          split at stepped
          · next message rest looping taken =>
              cases stepped
              rw [honest_act notHostile]
              rfl
          · cases stepped
      · cases stepped
  | feedEvent side =>
      have notHostile := isHonest side rfl
      simp only [step, honest_loops notHostile,
        honest_inboxes notHostile, honest_closed notHostile]
        at stepped ⊢
      split at stepped
      · next loop found isOpen =>
          split at stepped
          · next event rest looping taken =>
              cases stepped
              rw [honest_act notHostile]
              rfl
          · cases stepped
      · cases stepped
  | reopen side =>
      have notHostile := isHonest side rfl
      cases stepped
      simp only [step, honest_inboxes notHostile]
      simp only [State.honest]
      rw [ite_update notHostile]
  | close side =>
      cases stepped
      simp only [step, State.honest]
      rw [ite_update (isHonest side rfl)]
  | append store =>
      simp only [step, Option.map_eq_some_iff] at stepped ⊢
      obtain ⟨feed, appended, rfl⟩ := stepped
      exact ⟨feed, appended, honest_grow.symm⟩

/-- The handler of any message on a hostile connection. -/
theorem Sound.outside_deliver
    (verifies : Verifies core replica)
    (sound :
      Sound topology core overflowChecks log replica owner
        (state.honest hostile))
    (isHostile : hostile.isHostile side = true)
    (unforged : Unforged topology core owner state side)
    (stepped :
      step topology core overflowChecks log state (.deliver side) =
        some next) :
    Outside topology core replica owner (state.honest hostile)
      (next.honest hostile) := by
  simp only [step] at stepped
  split at stepped
  · next loop found isOpen =>
      split at stepped
      · next message rest looping taken =>
          cases stepped
          rcases Peer.onMessage_cases core overflowChecks
              (loop.peer (state.feeds (topology.store side))) message
            with ⟨sameFeed, sameEvents⟩ |
              ⟨index, value, nodes, signature, read, feed, queued, rfl,
                isRead, put, isFeed, events⟩
          · have nothing :
                (Peer.onMessage core overflowChecks
                    (loop.peer (state.feeds (topology.store side)))
                    message).peer.feedEvents.drop
                  loop.feedEvents.length = [] := by
              rw [sameEvents]
              exact List.drop_length
            rw [nothing]
            exact .of_eq (honest_act_unchanged isHostile sameFeed)
          · have heard :
                (Peer.stored
                    (loop.peer (state.feeds (topology.store side)))
                    index feed queued).feedEvents.drop
                  loop.feedEvents.length =
                if queued then [.download index] else [] := by
              simp only [Peer.stored, Loop.peer]
              split <;> simp
            obtain ⟨small, owned, ofOwner⟩ :=
              unforged index value nodes signature rest read feed queued
                taken isRead put
            rw [honest_act_hostile isHostile, isFeed, events, heard]
            exact .received
              (verifies.isReplica (sound.replicas _) put)
              (verifies.keeps put) (verifies.only put)
              (verifies.told put) small owned ofOwner
      · cases stepped
  · cases stepped

/-- A step at a hostile end. -/
theorem Sound.outside_of_hostile
    (verifies : Verifies core replica)
    (sound :
      Sound topology core overflowChecks log replica owner
        (state.honest hostile))
    {action : Action Store End}
    (atEnd : action.end? = some side)
    (isHostile : hostile.isHostile side = true)
    (guarded : Guarded core hostile owner state (.regular action))
    (stepped :
      step topology core overflowChecks log state action =
        some next) :
    Outside topology core replica owner (state.honest hostile)
      (next.honest hostile) := by
  cases action with
  | subscribe place remote =>
      cases atEnd
      simp only [step] at stepped
      split at stepped
      · cases stepped
        refine .of_eq (honest_eq_of_agree rfl ?_ (fun _ _ => rfl)
          (fun _ _ => rfl))
        intro other isHonest
        exact Function.update_of_ne
          (hostile.ne_of_honest isHostile isHonest) _ _
      · cases stepped
  | start place =>
      cases atEnd
      simp only [step] at stepped
      split at stepped
      · split at stepped
        · cases stepped
          exact .of_eq (honest_act_unchanged isHostile rfl)
        · cases stepped
      · cases stepped
  | deliver place =>
      cases atEnd
      simp only [Guarded, if_pos isHostile] at guarded
      exact sound.outside_deliver verifies isHostile guarded stepped
  | feedEvent place =>
      cases atEnd
      simp only [step] at stepped
      split at stepped
      · split at stepped
        · next event rest looping taken =>
            cases stepped
            refine .of_eq (honest_act_unchanged isHostile ?_)
            cases event with
            | download index =>
                rfl
            | append =>
                simp only [Peer.onFeedEvent]
                split <;> rfl
        · cases stepped
      · cases stepped
  | reopen place =>
      cases atEnd
      cases stepped
      refine .of_eq (honest_eq_of_agree rfl (fun _ _ => rfl) ?_
        (fun _ _ => rfl))
      intro other isHonest
      exact Function.update_of_ne
        (hostile.ne_of_honest isHostile isHonest) _ _
  | close place =>
      cases atEnd
      cases stepped
      refine .of_eq (honest_eq_of_agree rfl (fun _ _ => rfl)
        (fun _ _ => rfl) ?_)
      intro other isHonest
      exact Function.update_of_ne
        (hostile.ne_of_honest isHostile isHonest) _ _
  | append store =>
      cases atEnd

/--
Every step is a careful one of the network without the hostile connections, or
comes to that from outside.
-/
theorem Sound.regular_or_outside
    (verifies : Verifies core replica)
    (sound :
      Sound topology core overflowChecks log replica owner
        (state.honest hostile))
    {action : HostileAction Store End}
    (guarded : Guarded core hostile owner state action)
    (stepped :
      hostileStep topology core overflowChecks log state action =
        some next) :
    (∃ regular,
      action = .regular regular ∧
        (∀ side,
          regular.end? = some side → hostile.isHostile side = false) ∧
        Careful topology core owner (state.honest hostile) regular ∧
        step topology core overflowChecks log (state.honest hostile)
            regular =
          some (next.honest hostile)) ∨
      action.isHonest hostile = false ∧
        Outside topology core replica owner (state.honest hostile)
          (next.honest hostile) := by
  cases action with
  | tamper place messages =>
      cases stepped
      refine Or.inr ⟨rfl, .of_eq (honest_eq_of_agree rfl
        (fun _ _ => rfl) ?_ (fun _ _ => rfl))⟩
      intro other isHonest
      exact Function.update_of_ne
        (hostile.ne_of_honest guarded isHonest) _ _
  | regular action =>
      by_cases hostileEnd :
          ∃ side,
            action.end? = some side ∧ hostile.isHostile side = true
      · obtain ⟨side, atEnd, isHostile⟩ := hostileEnd
        refine Or.inr ⟨?_,
          sound.outside_of_hostile verifies atEnd isHostile guarded
            stepped⟩
        simp [HostileAction.isHonest, atEnd, isHostile]
      · have isHonest :
            ∀ side,
              action.end? = some side →
              hostile.isHostile side = false := by
          intro side atEnd
          by_contra isHostile
          exact hostileEnd ⟨side, atEnd, by simpa using isHostile⟩
        exact Or.inl ⟨action, rfl, isHonest, guarded.careful isHonest,
          step_honest isHonest stepped⟩

end

section

variable
  {Store End Feed Signature : Type}
  [DecidableEq Store]
  {topology : Topology Store End}
  {core : Hypercore Feed Signature}
  {overflowChecks : Bool}
  {log : Nat → Bytes}
  {replica : Feed → Prop}
  {owner : Option Store}
  {hostile : HostileEnds topology}
  {state next : State Store End Feed}

/-! ## Both invariants are kept -/

/-- What comes from outside keeps the network sound. -/
theorem Sound.of_outside
    (sound :
      Sound topology core overflowChecks log replica owner state)
    (outside : Outside topology core replica owner state next) :
    Sound topology core overflowChecks log replica owner next := by
  cases outside with
  | unchanged =>
      exact sound
  | @received store index feed queued isReplica keeps only told small
      owned ofOwner =>
      refine sound.grow isReplica ?_ keeps ?_ ?_ ?_
      · intro other holds
        rcases only other holds with before | rfl
        · exact sound.bounded store other before
        · exact small
      · intro isOwner
        have sameLength := ofOwner isOwner
        refine ⟨by omega, ?_⟩
        intro other
        rw [sameLength, ← sound.full store isOwner other]
        constructor
        · intro holds
          rcases only other holds with before | rfl
          · exact before
          · exact owned store isOwner
        · exact keeps other
      · intro holder isOwner _ other holds
        rcases only other holds with before | rfl
        · exact sound.owned holder isOwner store other before
        · exact owned holder isOwner
      · intro event isNews
        split at isNews
        · next isQueued =>
            rw [List.mem_singleton.mp isNews]
            simp only [Heard, Function.update_self]
            exact (told.mp isQueued).1
        · cases isNews

/-- What comes from outside is announced like any other block. -/
theorem Synced.of_outside
    (sound :
      Sound topology core overflowChecks log replica owner state)
    (synced : Synced topology core overflowChecks state)
    (outside : Outside topology core replica owner state next) :
    Synced topology core overflowChecks next := by
  cases outside with
  | unchanged =>
      exact synced
  | @received store index feed queued isReplica keeps only told small
      owned ofOwner =>
      refine synced.grow keeps ?_ ?_
      · intro side loop sameStore _ found isAppend
        have heard := sound.heard side loop found _ isAppend
        rw [sameStore] at heard
        exact ofOwner heard.1
      · intro other holds lacked
        rcases only other holds with before | rfl
        · cases before.symm.trans lacked
        · rw [if_pos (told.mpr ⟨holds, lacked⟩)]
          exact Or.inl (List.mem_singleton.mpr rfl)

/-- What comes from outside makes the network no heavier. -/
theorem Outside.weight_le
    [Fintype End]
    (outside : Outside topology core replica owner state next) :
    weight topology core overflowChecks next ≤
      weight topology core overflowChecks state := by
  cases outside with
  | unchanged =>
      exact Nat.le_refl _
  | @received store index feed queued isReplica keeps only told small
      owned ofOwner =>
      refine Finset.sum_le_sum fun side _ => endWeight_grow_le ?_ side
      split
      · next isQueued =>
          obtain ⟨holds, lacked⟩ := told.mp isQueued
          have fewer := card_lacking_lt keeps small lacked holds
          simp only [List.length_singleton]
          omega
      · have fewer := Finset.card_le_card (lacking_subset keeps)
        simp only [List.length_nil]
        omega

variable [DecidableEq End]

/-- The network without the hostile connections, after every run. -/
theorem honest_sound_and_synced_of_run
    (relays : Relays core log replica)
    (verifies : Verifies core replica)
    {first last : State Store End Feed}
    {actions : List (HostileAction Store End)}
    (sound :
      Sound topology core overflowChecks log replica owner
        (first.honest hostile))
    (synced : Synced topology core overflowChecks (first.honest hostile))
    (guarded :
      Machine.Along (hostileStep topology core overflowChecks log)
        (Guarded core hostile owner) first actions)
    (ran :
      Machine.run (hostileStep topology core overflowChecks log) first
          actions =
        some last) :
    Sound topology core overflowChecks log replica owner
        (last.honest hostile) ∧
      Synced topology core overflowChecks (last.honest hostile) := by
  refine Machine.invariant_run_along
    (fun state =>
      Sound topology core overflowChecks log replica owner
          (state.honest hostile) ∧
        Synced topology core overflowChecks (state.honest hostile))
    ?_ ⟨sound, synced⟩ guarded ran
  rintro state action next ⟨isSound, isSynced⟩ isGuarded stepped
  rcases isSound.regular_or_outside verifies isGuarded stepped with
    ⟨regular, _, _, careful, taken⟩ | ⟨_, outside⟩
  · have moves := isSound.moves relays careful taken
    exact ⟨isSound.of_moves moves, isSynced.of_moves isSound moves⟩
  · exact ⟨isSound.of_outside outside,
      isSynced.of_outside isSound outside⟩

/-- The same for a run that starts with no connection. -/
theorem honest_sound_and_synced
    (relays : Relays core log replica)
    (verifies : Verifies core replica)
    {feeds : Store → Feed}
    (replicas : ∀ store, replica (feeds store))
    (bounded :
      ∀ store index, core.has (feeds store) index → index < windowLength)
    (full :
      ∀ store,
        owner = some store →
        ∀ index,
          core.has (feeds store) index ↔ index < core.len (feeds store))
    (owned :
      ∀ store,
        owner = some store →
        ∀ other index,
          core.has (feeds other) index → core.has (feeds store) index)
    {actions : List (HostileAction Store End)}
    {last : State Store End Feed}
    (guarded :
      Machine.Along (hostileStep topology core overflowChecks log)
        (Guarded core hostile owner) (initial End feeds) actions)
    (ran :
      Machine.run (hostileStep topology core overflowChecks log)
          (initial End feeds) actions =
        some last) :
    Sound topology core overflowChecks log replica owner
        (last.honest hostile) ∧
      Synced topology core overflowChecks (last.honest hostile) := by
  refine honest_sound_and_synced_of_run relays verifies ?_ ?_ guarded ran
  · rw [honest_initial]
    exact sound_initial replicas bounded full owned
  · rw [honest_initial]
    exact synced_initial feeds

/--
Whatever the remotes of hostile connections send, short of forging a signature:
if the other connections are careful throughout, then no loop on them fails and
every block that a store holds is the block of the log.  When nothing is left to
be done on them, stores that they join hold the same blocks, and those joined to
the owner hold the whole log.
-/
theorem honest_stores_agree_despite_hostile_remotes
    (relays : Relays core log replica)
    (verifies : Verifies core replica)
    {feeds : Store → Feed}
    (replicas : ∀ store, replica (feeds store))
    (bounded :
      ∀ store index, core.has (feeds store) index → index < windowLength)
    (full :
      ∀ store,
        owner = some store →
        ∀ index,
          core.has (feeds store) index ↔ index < core.len (feeds store))
    (owned :
      ∀ store,
        owner = some store →
        ∀ other index,
          core.has (feeds other) index → core.has (feeds store) index)
    {actions : List (HostileAction Store End)}
    {final : State Store End Feed}
    (guarded :
      Machine.Along (hostileStep topology core overflowChecks log)
        (Guarded core hostile owner) (initial End feeds) actions)
    (ran :
      Machine.run (hostileStep topology core overflowChecks log)
          (initial End feeds) actions =
        some final) :
    (∀ side loop,
      hostile.isHostile side = false →
      final.loops side = some loop →
      loop.phase ≠ .ended) ∧
      (∀ store index,
        core.has (final.feeds store) index →
        core.get (final.feeds store) index = some (some (log index))) ∧
      (Quiescent topology (final.honest hostile) →
        ∀ first second,
          Joined topology (final.honest hostile) first second →
          (∀ index,
            core.has (final.feeds first) index =
              core.has (final.feeds second) index) ∧
          (owner = some first →
            ∀ index,
              core.has (final.feeds second) index ↔
                index < core.len (final.feeds first))) := by
  obtain ⟨sound, synced⟩ :=
    honest_sound_and_synced relays verifies replicas bounded full owned
      guarded ran
  refine ⟨?_, ?_, ?_⟩
  · intro side loop isHonest isLoop
    rw [← honest_loops isHonest] at isLoop
    exact (sound.running side loop isLoop).1
  · intro store index holds
    exact relays.get _ _ (sound.replicas store) holds
  · intro quiescent first second joined
    exact synced.agree_of_joined sound quiescent joined

/-! ## Hostile remotes keep nobody busy -/

/-- Steps of other loops take weight off, and no step adds any. -/
theorem Sound.lighter_of_internal
    [Fintype End]
    (relays : Relays core log replica)
    (verifies : Verifies core replica)
    (sound :
      Sound topology core overflowChecks log replica owner
        (state.honest hostile))
    {action : HostileAction Store End}
    (internal : action.Internal hostile)
    (guarded : Guarded core hostile owner state action)
    (stepped :
      hostileStep topology core overflowChecks log state action =
        some next) :
    Sound topology core overflowChecks log replica owner
        (next.honest hostile) ∧
      (if action.isHonest hostile then 1 else 0) +
          weight topology core overflowChecks (next.honest hostile) ≤
        weight topology core overflowChecks (state.honest hostile) := by
  rcases sound.regular_or_outside verifies guarded stepped with
    ⟨regular, rfl, isHonest, careful, taken⟩ | ⟨notHonest, outside⟩
  · have isInternal : regular.Internal := by
      rcases internal with isInternal | ⟨side, atEnd, isHostile⟩
      · exact isInternal
      · rw [isHonest side atEnd] at isHostile
        cases isHostile
    have handles := sound.handles_internal relays isInternal careful taken
    have lighter := sound.weight_lt_of_handles handles
    refine ⟨sound.of_handles handles, ?_⟩
    split <;> omega
  · refine ⟨sound.of_outside outside, ?_⟩
    rw [notHonest]
    simpa using outside.weight_le

/--
However many messages hostile remotes send, and however many of them come and
go, the loops on other connections, left to themselves, take a bounded number
of steps in every run in which these connections are careful.  Where none of the
loops can go on, stores that they join hold the same blocks, and those joined to
the owner hold the whole log.
-/
theorem hostile_remotes_keep_nobody_busy
    [Fintype End]
    (relays : Relays core log replica)
    (verifies : Verifies core replica)
    {feeds : Store → Feed}
    (replicas : ∀ store, replica (feeds store))
    (bounded :
      ∀ store index, core.has (feeds store) index → index < windowLength)
    (full :
      ∀ store,
        owner = some store →
        ∀ index,
          core.has (feeds store) index ↔ index < core.len (feeds store))
    (owned :
      ∀ store,
        owner = some store →
        ∀ other index,
          core.has (feeds other) index → core.has (feeds store) index)
    {actions later : List (HostileAction Store End)}
    {middle final : State Store End Feed}
    (guarded :
      Machine.Along (hostileStep topology core overflowChecks log)
        (Guarded core hostile owner) (initial End feeds) actions)
    (ran :
      Machine.run (hostileStep topology core overflowChecks log)
          (initial End feeds) actions =
        some middle)
    (internal :
      Machine.Along (hostileStep topology core overflowChecks log)
        (fun state action =>
          action.Internal hostile ∧
            Guarded core hostile owner state action)
        middle later)
    (ranLater :
      Machine.run (hostileStep topology core overflowChecks log) middle
          later =
        some final) :
    later.countP (HostileAction.isHonest hostile) ≤
        weight topology core overflowChecks (middle.honest hostile) ∧
      ((∀ action : Action Store End,
          action.Internal →
          step topology core overflowChecks log (final.honest hostile)
              action =
            none) →
        ∀ first second,
          Joined topology (final.honest hostile) first second →
          (∀ index,
            core.has (final.feeds first) index =
              core.has (final.feeds second) index) ∧
          (owner = some first →
            ∀ index,
              core.has (final.feeds second) index ↔
                index < core.len (final.feeds first))) := by
  obtain ⟨sound, synced⟩ :=
    honest_sound_and_synced relays verifies replicas bounded full owned
      guarded ran
  have counted :=
    Machine.countP_add_weight_le_along
      (fun state =>
        Sound topology core overflowChecks log replica owner
          (state.honest hostile))
      (HostileAction.isHonest hostile)
      (fun state =>
        weight topology core overflowChecks (state.honest hostile))
      (fun isSound both stepped =>
        isSound.lighter_of_internal relays verifies both.1 both.2 stepped)
      sound internal ranLater
  obtain ⟨soundFinal, syncedFinal⟩ :=
    honest_sound_and_synced_of_run relays verifies sound synced
      (Machine.along_imp (fun _ => True) (fun _ _ _ => trivial)
        (fun _ both => both.2) trivial internal)
      ranLater
  refine ⟨by omega, ?_⟩
  intro stuck first second joined
  exact syncedFinal.agree_of_joined soundFinal
    (soundFinal.quiescent_of_stuck stuck) joined

end

/-! ## An example -/

/-- Data that is accepted: the block of the log, with a signed length. -/
def accepts
    (index : Nat)
    (value : Option Bytes)
    (signature : Option (Nat × Nat)) : Bool :=
  decide (value = some (numberedLog index)) &&
    signature.all fun signed =>
      decide (signed.1 ≤ 8 ∧ signed.2 ≤ signed.1)

/-- Sparse feeds that accept no other data. -/
def checkedCore : Hypercore SparseFeed (Nat × Nat) :=
  { sparseCore with
    put := fun feed index value proof =>
      if accepts index value proof.signature then
        sparseCore.put feed index value proof
      else
        none }

/-- What is accepted is stored. -/
theorem checkedCore_put
    {feed next : SparseFeed}
    {index : Nat}
    {value : Option Bytes}
    {proof : Proof (Nat × Nat)}
    {queued : Bool}
    (put :
      checkedCore.put feed index value proof = some (next, queued)) :
    accepts index value proof.signature = true ∧
      sparseCore.put feed index value proof = some (next, queued) := by
  simp only [checkedCore] at put
  split at put
  · next isAccepted => exact ⟨isAccepted, put⟩
  · cases put

/-- Feeds that check what they accept relay the blocks of the log. -/
theorem relays_checkedCore :
    Relays checkedCore numberedLog Numbered where
  roundTrip := relays_sparseCore.roundTrip
  get := relays_sparseCore.get
  proof := relays_sparseCore.proof
  signature := relays_sparseCore.signature
  append := relays_sparseCore.append
  put := by
    intro feed giver index proof numbered numberedGiver holds proved
    obtain ⟨next, put, isNumbered, has⟩ :=
      relays_sparseCore.put feed giver index proof numbered
        numberedGiver holds proved
    cases proved
    have isAccepted :
        accepts index (some (numberedLog index))
          (some (giver.length, giver.byteLength)) = true := by
      simp [accepts, numberedGiver.1, numberedGiver.2.1]
    refine ⟨next, ?_, isNumbered, has⟩
    simp only [checkedCore, isAccepted, if_true]
    exact put

/-- Such feeds verify what they accept. -/
theorem verifies_checkedCore : Verifies checkedCore Numbered where
  isReplica := by
    intro feed index value proof next queued numbered put
    obtain ⟨isAccepted, stored⟩ := checkedCore_put put
    simp only [accepts, Bool.and_eq_true, decide_eq_true_eq]
      at isAccepted
    obtain ⟨rfl, signed⟩ := isAccepted
    simp only [sparseCore] at stored
    split at stored
    · cases stored
      refine Numbered.write ?_ index
      cases isSigned : proof.signature with
      | none =>
          exact numbered
      | some lengths =>
          rw [isSigned] at signed
          simp only [Option.all_some, decide_eq_true_eq] at signed
          exact numbered.raise signed.1 signed.2
    · cases stored
  keeps := by
    intro feed index value proof next queued put other holds
    have stored := (sparseCore_put (checkedCore_put put).2).1 other
    have before : sparseCore.has feed other = true := holds
    rw [before, Bool.or_true] at stored
    exact stored
  only := by
    intro feed index value proof next queued put other holds
    have stored := (sparseCore_put (checkedCore_put put).2).1 other
    have after : sparseCore.has next other = true := holds
    rw [after] at stored
    rcases Bool.or_eq_true_iff.mp stored.symm with isIndex | before
    · simp only [Bool.and_eq_true, decide_eq_true_eq] at isIndex
      exact Or.inr isIndex.1
    · exact Or.inl before
  told := by
    intro feed index value proof next queued put
    have stored := sparseCore_put (checkedCore_put put).2
    have isNext := stored.1 index
    rw [stored.2]
    show _ ↔
      sparseCore.has next index = true ∧
        sparseCore.has feed index = false
    rw [isNext]
    cases value <;> cases sparseCore.has feed index <;> simp

/-- The connection between the last two stores of the line is hostile. -/
def hostileLine : HostileEnds line where
  isHostile
    | .right => true
    | .last => true
    | _ => false
  bothEnds := by
    intro side
    cases side <;> rfl

/--
The first store appends a block.  At once the hostile remote gives it to the
store in the middle, followed by a bitfield that cannot be decoded.
-/
def attacked : List (HostileAction Place LineEnd) :=
  [.regular (.subscribe .first (Key.constant 1)),
    .regular (.subscribe .left (Key.constant 2)),
    .regular (.subscribe .right (Key.constant 3)),
    .regular (.start .first), .regular (.start .left),
    .regular (.start .right),
    .regular (.deliver .first), .regular (.deliver .left),
    .regular (.deliver .first), .regular (.deliver .left),
    .regular (.append .first),
    .tamper .right
      [.data 0 (some (numberedLog 0)) [] (some [1, 1]),
        .announce 0 none (some []) none]]

/-- The loop at the hostile connection fails, the others settle. -/
def settled : List (HostileAction Place LineEnd) :=
  [.regular (.deliver .right), .regular (.deliver .right),
    .regular (.feedEvent .first), .regular (.feedEvent .left),
    .regular (.deliver .first), .regular (.deliver .left)]

/-- A message that is no data brings no forged block. -/
theorem unforged_of_head
    {Store End Feed Signature : Type}
    {topology : Topology Store End}
    {core : Hypercore Feed Signature}
    {owner : Option Store}
    {state : State Store End Feed}
    {side : End}
    {message : Message}
    (head : (state.inboxes side).head? = some message)
    (notData :
      ∀ index value nodes signature,
        message ≠ .data index value nodes signature) :
    Unforged topology core owner state side := by
  intro index value nodes signature rest read feed queued taken
  rw [taken] at head
  exact absurd (Option.some.inj head).symm
    (notData index value nodes signature)

/-- The run meets the conditions. -/
theorem guarded_attacked_settled :
    Machine.Along (hostileStep line checkedCore true numberedLog)
      (Guarded checkedCore hostileLine (some .first)) emptyLine
      (attacked ++ settled) := by
  have empty :
      ∀ {state : State Place LineEnd SparseFeed} {side : LineEnd},
        checkedCore.len (state.feeds (line.store side)) = 0 →
        Careful line checkedCore (some .first) state
          (.deliver side) := by
    intro state side isEmpty loop start length rest _ _ _ positive
    omega
  have announce :
      ∀ {state : State Place LineEnd SparseFeed} {side : LineEnd}
        {start length bitfield ack},
        (state.inboxes side).head? =
          some (.announce start length bitfield ack) →
        Careful line checkedCore (some .first) state
          (.deliver side) := by
    intro state side start length bitfield ack head
    refine careful_deliver_of_head head ?_
    intro wanted wantedLength same
    cases same
  refine ⟨trivial, trivial, trivial, trivial, trivial, trivial,
    empty rfl, empty rfl, empty rfl, empty rfl, ⟨rfl, by decide, ?_⟩,
    rfl, ?_, unforged_of_head rfl ?_, trivial, trivial, announce rfl,
    announce rfl, trivial⟩
  · intro side loop isFirst _ isLoop
    cases side with
    | first =>
        cases isLoop
        exact List.not_mem_nil
    | _ => cases isFirst
  · intro index value nodes signature rest read feed queued taken _ _
    cases taken
    refine ⟨by decide, ?_, ?_⟩
    · intro holder isOwner
      cases isOwner
      rfl
    · intro isOwner
      cases isOwner
  · intro index value nodes signature same
    cases same

/-- Where the run ends, nothing is left to be done but by hostile loops. -/
theorem run_attacked_settled :
    ∃ middle final,
      Machine.run (hostileStep line checkedCore true numberedLog)
          emptyLine attacked =
          some middle ∧
        Machine.run (hostileStep line checkedCore true numberedLog)
          middle settled =
          some final ∧
        (∃ loop,
          final.loops .right = some loop ∧ loop.phase = .ended) ∧
        Joined line (final.honest hostileLine) .first .middle ∧
        (∀ action : Action Place LineEnd,
          action.Internal →
          step line checkedCore true numberedLog
              (final.honest hostileLine) action =
            none) ∧
        Quiescent line (final.honest hostileLine) ∧
        checkedCore.len (final.feeds .first) = 1 := by
  refine ⟨_, _, rfl, rfl, ⟨_, rfl, rfl⟩, ?_, ?_, ?_, rfl⟩
  · exact .single ⟨.first, ⟨rfl, rfl, Option.some_ne_none _,
      Option.some_ne_none _⟩, rfl, rfl⟩
  · intro action internal
    cases action with
    | start side => cases side <;> rfl
    | deliver side => cases side <;> rfl
    | feedEvent side => cases side <;> rfl
    | _ => exact internal.elim
  · intro side live
    cases side with
    | first => exact ⟨rfl, _, rfl, rfl, rfl⟩
    | left => exact ⟨rfl, _, rfl, rfl, rfl⟩
    | right => exact absurd rfl live.2.2.1
    | last => exact absurd rfl live.2.2.1

/-- The hostile loop has failed, the first two stores have the block. -/
theorem honest_stores_agree_despite_hostile_remotes_line :
    ∃ final,
      Machine.run (hostileStep line checkedCore true numberedLog)
          emptyLine (attacked ++ settled) =
          some final ∧
        (∃ loop,
          final.loops .right = some loop ∧ loop.phase = .ended) ∧
        ∀ index,
          checkedCore.has (final.feeds .middle) index ↔ index < 1 := by
  obtain ⟨middle, final, ran, ranLater, failed, joined, _, quiescent,
    hasOne⟩ := run_attacked_settled
  have nothing : ∀ index, checkedCore.has .empty index = false :=
    has_empty
  have noLength : checkedCore.len .empty = 0 := rfl
  have whole := Machine.run_append ran ranLater
  have agree :=
    honest_stores_agree_despite_hostile_remotes relays_checkedCore
      verifies_checkedCore (fun _ => numbered_empty)
      (by simp [nothing]) (by simp [nothing, noLength])
      (by simp [nothing]) guarded_attacked_settled whole
  refine ⟨final, whole, failed, ?_⟩
  rw [← hasOne]
  exact (agree.2.2 quiescent _ _ joined).2 rfl

/-- Of the six steps that are left, four are by the other loops. -/
theorem hostile_remotes_keep_nobody_busy_line :
    ∃ middle final,
      Machine.run (hostileStep line checkedCore true numberedLog)
          emptyLine attacked =
          some middle ∧
        Machine.run (hostileStep line checkedCore true numberedLog)
          middle settled =
          some final ∧
        4 ≤ weight line checkedCore true (middle.honest hostileLine) ∧
        ∀ index,
          checkedCore.has (final.feeds .middle) index ↔ index < 1 := by
  obtain ⟨middle, final, ran, ranLater, _, joined, stuck, _, hasOne⟩ :=
    run_attacked_settled
  have nothing : ∀ index, checkedCore.has .empty index = false :=
    has_empty
  have noLength : checkedCore.len .empty = 0 := rfl
  obtain ⟨guarded, guardedLater⟩ :=
    Machine.along_append.mp guarded_attacked_settled
  have internal :
      Machine.Along (hostileStep line checkedCore true numberedLog)
        (fun _ action => action.Internal hostileLine) middle settled := by
    refine Machine.along_of_mem ?_
    simp [settled, HostileAction.Internal, Action.Internal]
  obtain ⟨bound, agree⟩ :=
    hostile_remotes_keep_nobody_busy relays_checkedCore
      verifies_checkedCore (fun _ => numbered_empty)
      (by simp [nothing]) (by simp [nothing, noLength])
      (by simp [nothing]) guarded ran
      (Machine.along_and internal (guardedLater middle ran)) ranLater
  refine ⟨middle, final, ran, ranLater, bound, ?_⟩
  rw [← hasOne]
  exact (agree stuck _ _ joined).2 rfl

end Hyperspace.FeedNetwork
