import Hyperspace.ReplicatorConnection

namespace Hyperspace.Replicator

/-!
# Both ends of a connection

A connection joins two replicators, and each end runs `run_peer`.  The protocol
reports a channel at an end when both ends have opened it; the end then attaches
a peer to the feed, if it has the feed.

This module runs the two ends together, with feeds added to both at any time and
with the reports of the protocol arriving at any time.  A peer is attached only
for a feed that both ends have, at most once at each end.  When everything has
been handled, both ends have attached peers for the same feeds, which are those
that each of them had when it handled the handshake.
-/

namespace Pair

/-- The two ends. -/
inductive Side where
  | left
  | right
  deriving Repr, DecidableEq

/-- The end that is not this one. -/
def Side.other : Side → Side
  | .left => .right
  | .right => .left

@[simp] theorem Side.other_other (side : Side) :
    side.other.other = side := by
  cases side <;> rfl

/-- One end of the connection. -/
structure End where
  connection : Connection
  /-- The public keys that its sweep goes through. -/
  swept : List Key
  /-- The discovery keys of the channels that the protocol has reported. -/
  reported : List Key
  /-- Those of them for which a peer has been attached. -/
  attached : List Key

/-- An end of a replicator without feeds. -/
def End.new : End where
  connection := .new
  swept := []
  reported := []
  attached := []

/-- Both ends. -/
abbrev State := Side → End

/-- Both replicators are without feeds. -/
def initial : State := fun _ => .new

/-- A step of one of the ends. -/
structure Action where
  side : Side
  action : Connection.Action

section

variable (discoveryKey : Key → Key)

/-- One step of an end, with a record of what it sweeps and attaches. -/
def End.step (this : End) (action : Connection.Action) : Option End :=
  (this.connection.step discoveryKey action).map fun connection =>
    match action with
    | .handshake _ order =>
        { this with connection := connection, swept := order }
    | .channel dkey =>
        { this with
          connection := connection
          reported := this.reported ++ [dkey]
          attached :=
            match this.connection.feeds.lookup dkey,
              this.connection.remotePublicKey with
            | some _, some _ => this.attached ++ [dkey]
            | _, _ => this.attached }
    | _ => { this with connection := connection }

/-- One step of the pair. -/
def step (state : State) (action : Action) : Option State :=
  ((state action.side).step discoveryKey action.action).map
    (Function.update state action.side)

/-- The discovery keys of the channels that an end has opened. -/
def End.channels (this : End) : List Key :=
  this.connection.opened.map discoveryKey

/--
What the protocol does: there is one handshake, a channel is reported once and
after both ends have opened it, and a discovery key is reported after the other
end has opened the channel.
-/
def Allowed (keys : Set Key) (state : State) (action : Action) : Prop :=
  match action.action with
  | .handshake _ _ =>
      (state action.side).connection.remotePublicKey = none
  | .channel dkey =>
      dkey ∈ (state action.side).channels discoveryKey ∧
        dkey ∈ (state action.side.other).channels discoveryKey ∧
        dkey ∉ (state action.side).reported
  | .discoveryKey dkey =>
      dkey ∈ (state action.side.other).channels discoveryKey
  | .addFeed feed => feed.publicKey ∈ keys
  | _ => True

/-- Both ends have handled everything that the protocol has reported. -/
structure AtRest (state : State) : Prop where
  settled : ∀ side, (state side).connection.Settled
  reported :
    ∀ side dkey,
      dkey ∈ (state side).channels discoveryKey →
      dkey ∈ (state side.other).channels discoveryKey →
      dkey ∈ (state side).reported

end

/--
Discovery keys do not collide, not even with those of discovery keys, and no
public key is a discovery key.
-/
structure Distinct (discoveryKey : Key → Key) (keys : Set Key) : Prop where
  injective :
    Set.InjOn discoveryKey (keys ∪ Set.image discoveryKey keys)
  disjoint : ∀ key ∈ keys, key ∉ Set.image discoveryKey keys

/-! ## One end -/

/-- What holds of an end whose sweep goes through the given keys. -/
structure Sweeps
    (discoveryKey : Key → Key)
    (keys : Set Key)
    (swept : List Key)
    (state : Connection) : Prop where
  wired : state.Wired discoveryKey keys
  inMap : ∀ key ∈ swept, key ∈ state.feeds.publicKeys
  remaining : ∀ key ∈ state.phase.remaining, key ∈ swept
  opened :
    ∀ key ∈ state.opened,
      key ∈ swept ∨ key ∈ Set.image discoveryKey keys
  complete :
    state.phase.listens →
    ∀ key ∈ swept,
      key ∈ state.opened ∨ key ∈ state.phase.remaining
  unshaken :
    state.remotePublicKey = none → swept = [] ∧ state.opened = []

section

variable
  {discoveryKey : Key → Key}
  {keys : Set Key}
  {swept : List Key}
  {state next : Connection}

/-- A new end has swept nothing. -/
theorem sweeps_new : Sweeps discoveryKey keys [] .new where
  wired := Connection.wired_new
  inMap := by simp
  remaining := by simp [Connection.new, Phase.remaining]
  opened := by simp [Connection.new]
  complete := by simp
  unshaken := by simp [Connection.new]

/-- No discovery keys of known public keys collide. -/
theorem Distinct.injOn
    (distinct : Distinct discoveryKey keys) :
    Set.InjOn discoveryKey keys :=
  distinct.injective.mono Set.subset_union_left

/-- A known key with the discovery key of another is that key. -/
theorem Distinct.eq_of_known
    (distinct : Distinct discoveryKey keys)
    {key other : Key}
    (known : key ∈ keys)
    (otherKnown : other ∈ keys ∨ other ∈ Set.image discoveryKey keys)
    (same : discoveryKey key = discoveryKey other) :
    key = other ∧ other ∈ keys := by
  have equal : key = other :=
    distinct.injective (Or.inl known) otherKnown same
  exact ⟨equal, equal ▸ known⟩

/-- The handshake begins a sweep of the public keys. -/
theorem Sweeps.handshake
    (sweeps : Sweeps discoveryKey keys swept state)
    (distinct : Distinct discoveryKey keys)
    (first : state.remotePublicKey = none)
    {remotePublicKey : Key}
    {order : List Key}
    (stepped :
      state.step discoveryKey (.handshake remotePublicKey order) =
        some next) :
    Sweeps discoveryKey keys order next := by
  have known :
      (Connection.Action.handshake remotePublicKey order).Known keys :=
    trivial
  have wired := sweeps.wired.step distinct.injOn known stepped
  simp only [Connection.step, Option.ite_none_right_eq_some,
    Option.some.injEq] at stepped
  obtain ⟨⟨_, _, all⟩, rfl⟩ := stepped
  obtain ⟨_, noneOpened⟩ := sweeps.unshaken first
  refine ⟨wired, fun key member => all.subset member, ?_, ?_, ?_,
    by simp⟩
  · simp
  · simp [noneOpened]
  · intro _ key member
    exact Or.inr (by simpa using member)

/-- Every other step goes on with the sweep. -/
theorem Sweeps.step
    (sweeps : Sweeps discoveryKey keys swept state)
    (distinct : Distinct discoveryKey keys)
    {action : Connection.Action}
    (known : action.Known keys)
    (notHandshake :
      ∀ remotePublicKey order,
        action ≠ .handshake remotePublicKey order)
    (stepped : state.step discoveryKey action = some next) :
    Sweeps discoveryKey keys swept next := by
  have wired := sweeps.wired.step distinct.injOn known stepped
  have effect := Connection.effect_of_step stepped
  have inMap : ∀ key ∈ swept, key ∈ next.feeds.publicKeys :=
    fun key member =>
      sweeps.wired.publicKeys_subset distinct.injOn known effect
        (sweeps.inMap key member)
  obtain ⟨before, _, remaining, opened, complete, unshaken⟩ := sweeps
  cases effect with
  | inserted free =>
      exact ⟨wired, inMap, remaining, opened, complete, unshaken⟩
  | announced inserted =>
      exact ⟨wired, inMap, by simpa using remaining,
        by simpa using opened, by simpa using complete,
        by simpa using unshaken⟩
  | emitted dkey =>
      exact ⟨wired, inMap, by simpa using remaining,
        by simpa using opened, by simpa using complete,
        by simpa using unshaken⟩
  | subscribed spawned =>
      have noneSwept := (unshaken (before.unshaken spawned)).1
      refine ⟨wired, inMap, by simp [Phase.remaining], opened, ?_,
        unshaken⟩
      simp [noneSwept]
  | shaken waiting free all =>
      exact absurd rfl (notHandshake _ _)
  | @swept succeeds key rest sweeping =>
      rw [sweeping] at remaining complete
      have isSwept : key ∈ swept :=
        remaining key (by simp [Phase.remaining])
      refine ⟨wired, inMap, ?_, ?_, ?_, ?_⟩
      · intro other member
        cases succeeds with
        | false =>
            simp [Phase.remaining] at member
        | true =>
            simp only [↓reduceIte,
              Phase.remaining_ofRemaining] at member
            exact remaining other (by simp [Phase.remaining, member])
      · intro other member
        rcases List.mem_append.mp member with earlier | isNew
        · exact opened other earlier
        · rw [List.mem_singleton.mp isNew]
          exact Or.inl isSwept
      · intro listens other member
        cases succeeds with
        | false =>
            cases listens
        | true =>
            simp only [↓reduceIte, Phase.remaining_ofRemaining,
              List.mem_append, List.mem_singleton]
            rcases complete rfl other member with isOpened | left
            · exact Or.inl (Or.inl isOpened)
            · rcases List.mem_cons.mp left with isKey | later
              · exact Or.inl (Or.inr isKey)
              · exact Or.inr later
      · intro notShaken
        rw [(unshaken notShaken).1] at isSwept
        cases isSwept
  | attached waiting free =>
      exact ⟨wired, inMap, remaining, opened, complete, unshaken⟩
  | ended waiting =>
      exact ⟨wired, inMap, by simp [Phase.remaining], opened,
        by simp [Phase.listens], unshaken⟩
  | unchanged =>
      exact ⟨wired, inMap, remaining, opened, complete, unshaken⟩
  | @opened succeeds key rest waiting shaken taken =>
      obtain ⟨publicKey, member, hasDkey⟩ :=
        before.queued key (Or.inl (by simp [taken]))
      rw [waiting] at remaining complete
      refine ⟨wired, inMap, ?_, ?_, ?_, ?_⟩
      · cases succeeds <;> simp [Phase.remaining]
      · intro other isOpened
        rcases List.mem_append.mp isOpened with earlier | isNew
        · exact opened other earlier
        · rw [List.mem_singleton.mp isNew]
          exact Or.inr
            ⟨publicKey, before.keyed.known member, hasDkey⟩
      · intro listens other isSwept
        refine Or.inl (List.mem_append_left _ ?_)
        simpa [Phase.remaining] using complete rfl other isSwept
      · intro notShaken
        rw [show state.remotePublicKey = none from notShaken] at shaken
        cases shaken
  | dropped taken ignored =>
      exact ⟨wired, inMap, remaining, opened, complete, unshaken⟩

/-- No step takes back what has been opened. -/
theorem opened_subset
    {action : Connection.Action}
    (stepped : state.step discoveryKey action = some next)
    {key : Key}
    (isOpened : key ∈ state.opened) :
    key ∈ next.opened := by
  cases Connection.effect_of_step stepped with
  | inserted free => exact isOpened
  | announced inserted => simpa using isOpened
  | emitted dkey => simpa using isOpened
  | subscribed spawned => exact isOpened
  | shaken waiting free all => exact isOpened
  | swept sweeping => exact List.mem_append_left _ isOpened
  | attached waiting free => exact isOpened
  | ended waiting => exact isOpened
  | unchanged => exact isOpened
  | opened waiting shaken taken => exact List.mem_append_left _ isOpened
  | dropped taken ignored => exact isOpened

/-- The feed of a channel is there if and only if it has been swept. -/
theorem Sweeps.lookup_isSome_iff
    (sweeps : Sweeps discoveryKey keys swept state)
    (distinct : Distinct discoveryKey keys)
    {dkey : Key}
    (isChannel : dkey ∈ state.opened.map discoveryKey) :
    (state.feeds.lookup dkey).isSome ↔
      dkey ∈ swept.map discoveryKey := by
  obtain ⟨key, isOpened, hasDkey⟩ := List.mem_map.mp isChannel
  constructor
  · intro found
    obtain ⟨peered, isPeered⟩ := Option.isSome_iff_exists.mp found
    obtain ⟨peeredDkey, isKnown⟩ := sweeps.wired.keyed _ _ isPeered
    rcases sweeps.opened key isOpened with isSwept | isHashed
    · exact List.mem_map.mpr ⟨key, isSwept, hasDkey⟩
    · obtain ⟨_, keyKnown⟩ :=
        distinct.eq_of_known isKnown (Or.inr isHashed)
          (peeredDkey.trans hasDkey.symm)
      exact absurd isHashed (distinct.disjoint key keyKnown)
  · intro isSwept
    obtain ⟨other, otherSwept, otherDkey⟩ := List.mem_map.mp isSwept
    obtain ⟨peered, found, _⟩ :=
      sweeps.wired.keyed.lookup_discoveryKey
        (sweeps.inMap other otherSwept)
    rw [otherDkey] at found
    simp [found]

end

/-! ## Both ends -/

/-- What holds of an end. -/
structure Matched
    (discoveryKey : Key → Key)
    (keys : Set Key)
    (this : End) : Prop where
  sweeps : Sweeps discoveryKey keys this.swept this.connection
  reported : ∀ dkey ∈ this.reported, dkey ∈ this.channels discoveryKey
  once : this.reported.Nodup
  inOrder : this.attached.Sublist this.reported
  attached :
    ∀ dkey ∈ this.reported,
      (dkey ∈ this.attached ↔ dkey ∈ this.swept.map discoveryKey)

/-- What holds of the pair: a channel is reported when both have opened it. -/
structure Agreeing
    (discoveryKey : Key → Key)
    (keys : Set Key)
    (state : State) : Prop where
  matched : ∀ side, Matched discoveryKey keys (state side)
  opened :
    ∀ side,
      ∀ dkey ∈ (state side).reported,
        dkey ∈ (state side.other).channels discoveryKey

section

variable
  {discoveryKey : Key → Key}
  {keys : Set Key}
  {this after : End}
  {state next : State}

/-- A new pair agrees. -/
theorem agreeing_initial : Agreeing discoveryKey keys initial where
  matched := fun _ =>
    ⟨sweeps_new, by simp [initial, End.new], by simp [initial, End.new],
      by simp [initial, End.new], by simp [initial, End.new]⟩
  opened := by simp [initial, End.new]

/-- No step of an end takes back a channel. -/
theorem channels_subset
    {action : Connection.Action}
    (stepped : this.step discoveryKey action = some after)
    {dkey : Key}
    (isChannel : dkey ∈ this.channels discoveryKey) :
    dkey ∈ after.channels discoveryKey := by
  obtain ⟨connection, moved, rfl⟩ :=
    Option.map_eq_some_iff.mp stepped
  obtain ⟨key, isOpened, hasDkey⟩ := List.mem_map.mp isChannel
  have stillOpened := opened_subset moved isOpened
  refine List.mem_map.mpr ⟨key, ?_, hasDkey⟩
  cases action <;> exact stillOpened

/-- The handshake at an end. -/
theorem Matched.handshake
    (matched : Matched discoveryKey keys this)
    (distinct : Distinct discoveryKey keys)
    (first : this.connection.remotePublicKey = none)
    {remotePublicKey : Key}
    {order : List Key}
    (stepped :
      this.step discoveryKey (.handshake remotePublicKey order) =
        some after) :
    Matched discoveryKey keys after := by
  obtain ⟨connection, moved, rfl⟩ :=
    Option.map_eq_some_iff.mp stepped
  have noneReported : this.reported = [] := by
    rw [List.eq_nil_iff_forall_not_mem]
    intro dkey isReported
    have isChannel := matched.reported dkey isReported
    rw [End.channels, (matched.sweeps.unshaken first).2] at isChannel
    cases isChannel
  refine ⟨matched.sweeps.handshake distinct first moved, ?_,
    matched.once, matched.inOrder, ?_⟩
  · simp [noneReported]
  · simp [noneReported]

/-- What the report of a channel attaches. -/
theorem step_channel
    {dkey : Key}
    (shaken : this.connection.remotePublicKey ≠ none)
    (stepped : this.step discoveryKey (.channel dkey) = some after) :
    ∃ connection,
      this.connection.step discoveryKey (.channel dkey) =
          some connection ∧
        after =
          { this with
            connection := connection
            reported := this.reported ++ [dkey]
            attached :=
              if (this.connection.feeds.lookup dkey).isSome then
                this.attached ++ [dkey]
              else
                this.attached } := by
  obtain ⟨connection, moved, rfl⟩ :=
    Option.map_eq_some_iff.mp stepped
  refine ⟨connection, moved, ?_⟩
  cases isRemote : this.connection.remotePublicKey with
  | none =>
      exact absurd isRemote shaken
  | some remotePublicKey =>
      cases found : this.connection.feeds.lookup dkey with
      | none =>
          simp [found]
      | some peered =>
          simp [found]

/-- A channel that is reported at an end. -/
theorem Matched.channel
    (matched : Matched discoveryKey keys this)
    (distinct : Distinct discoveryKey keys)
    {dkey : Key}
    (isChannel : dkey ∈ this.channels discoveryKey)
    (isNew : dkey ∉ this.reported)
    (stepped : this.step discoveryKey (.channel dkey) = some after) :
    Matched discoveryKey keys after ∧
      after.reported = this.reported ++ [dkey] := by
  have kept : ∀ other ∈ this.channels discoveryKey,
      other ∈ after.channels discoveryKey :=
    fun other isOther => channels_subset stepped isOther
  have found :=
    matched.sweeps.lookup_isSome_iff distinct isChannel
  have shaken : this.connection.remotePublicKey ≠ none := by
    intro notShaken
    rw [End.channels, (matched.sweeps.unshaken notShaken).2]
      at isChannel
    cases isChannel
  have known : (Connection.Action.channel dkey).Known keys := trivial
  have notAttached : dkey ∉ this.attached :=
    fun isAttached => isNew (matched.inOrder.subset isAttached)
  obtain ⟨connection, moved, rfl⟩ := step_channel shaken stepped
  refine ⟨⟨matched.sweeps.step distinct known (by simp) moved, ?_,
    ?_, ?_, ?_⟩, rfl⟩
  · intro other isReported
    rcases List.mem_append.mp isReported with earlier | isLast
    · exact kept other (matched.reported other earlier)
    · rw [List.mem_singleton.mp isLast]
      exact kept dkey isChannel
  · exact List.nodup_append.mpr
      ⟨matched.once, by simp, by
        rintro other isReported last isLast rfl
        rw [List.mem_singleton.mp isLast] at isReported
        exact isNew isReported⟩
  · dsimp only
    split
    · exact matched.inOrder.append (List.Sublist.refl _)
    · exact matched.inOrder.trans (List.sublist_append_left _ _)
  · intro other isReported
    dsimp only
    rcases List.mem_append.mp isReported with earlier | isLast
    · have different : other ≠ dkey := by
        rintro rfl
        exact isNew earlier
      rw [← matched.attached other earlier]
      split
      · simp [different]
      · exact Iff.rfl
    · rw [List.mem_singleton.mp isLast, ← found]
      split
      · next isFound => simp [isFound]
      · next notFound => simp [notFound, notAttached]

/-- Any other step of an end. -/
theorem Matched.other
    (matched : Matched discoveryKey keys this)
    (distinct : Distinct discoveryKey keys)
    {action : Connection.Action}
    (stepped : this.step discoveryKey action = some after)
    (known : action.Known keys)
    (notHandshake :
      ∀ remotePublicKey order,
        action ≠ .handshake remotePublicKey order)
    (notChannel : ∀ dkey, action ≠ .channel dkey) :
    Matched discoveryKey keys after ∧
      after.reported = this.reported := by
  have kept : ∀ dkey ∈ this.channels discoveryKey,
      dkey ∈ after.channels discoveryKey :=
    fun dkey isChannel => channels_subset stepped isChannel
  obtain ⟨connection, moved, isAfter⟩ :=
    Option.map_eq_some_iff.mp stepped
  have sweeps := matched.sweeps.step distinct known notHandshake moved
  have same : after = { this with connection := connection } := by
    cases action with
    | handshake remotePublicKey order =>
        exact absurd rfl (notHandshake remotePublicKey order)
    | channel dkey =>
        exact absurd rfl (notChannel dkey)
    | _ =>
        exact isAfter.symm
  subst same
  exact ⟨⟨sweeps,
    fun dkey isReported => kept dkey (matched.reported dkey isReported),
    matched.once, matched.inOrder, matched.attached⟩, rfl⟩

/-- Every step of an end, for what it adds to the reports. -/
theorem Agreeing.end_step
    (agreeing : Agreeing discoveryKey keys state)
    (distinct : Distinct discoveryKey keys)
    {action : Action}
    (allowed : Allowed discoveryKey keys state action)
    (stepped :
      (state action.side).step discoveryKey action.action =
        some after) :
    Matched discoveryKey keys after ∧
      ∀ dkey ∈ after.reported,
        dkey ∈ (state action.side.other).channels discoveryKey := by
  have matched := agreeing.matched action.side
  have opened := agreeing.opened action.side
  obtain ⟨side, action⟩ := action
  cases action with
  | handshake remotePublicKey order =>
      refine ⟨matched.handshake distinct allowed stepped, ?_⟩
      obtain ⟨connection, _, rfl⟩ := Option.map_eq_some_iff.mp stepped
      exact opened
  | channel dkey =>
      obtain ⟨here, there, isNew⟩ := allowed
      obtain ⟨kept, reported⟩ :=
        matched.channel distinct here isNew stepped
      refine ⟨kept, ?_⟩
      intro other isReported
      rw [reported] at isReported
      rcases List.mem_append.mp isReported with earlier | isLast
      · exact opened other earlier
      · rw [List.mem_singleton.mp isLast]
        exact there
  | addFeed feed =>
      obtain ⟨kept, reported⟩ :=
        matched.other distinct stepped allowed (by simp) (by simp)
      exact ⟨kept, by rw [reported]; exact opened⟩
  | _ =>
      obtain ⟨kept, reported⟩ :=
        matched.other distinct stepped trivial (by simp) (by simp)
      exact ⟨kept, by rw [reported]; exact opened⟩

/-- Every step keeps the pair agreeing. -/
theorem Agreeing.step
    (agreeing : Agreeing discoveryKey keys state)
    (distinct : Distinct discoveryKey keys)
    {action : Action}
    (allowed : Allowed discoveryKey keys state action)
    (stepped : step discoveryKey state action = some next) :
    Agreeing discoveryKey keys next := by
  obtain ⟨after, moved, rfl⟩ := Option.map_eq_some_iff.mp stepped
  obtain ⟨matched, reported⟩ :=
    agreeing.end_step distinct allowed moved
  have otherSide : action.side.other ≠ action.side := by
    cases action.side <;> decide
  refine ⟨?_, ?_⟩
  · intro side
    by_cases isSide : side = action.side
    · subst isSide
      rw [Function.update_self]
      exact matched
    · rw [Function.update_of_ne isSide]
      exact agreeing.matched side
  · intro side dkey isReported
    by_cases isSide : side = action.side
    · subst isSide
      rw [Function.update_self] at isReported
      rw [Function.update_of_ne otherSide]
      exact reported dkey isReported
    · have isOther : side.other = action.side := by
        revert isSide
        cases side <;> cases action.side <;> decide
      rw [Function.update_of_ne isSide] at isReported
      rw [isOther, Function.update_self]
      refine channels_subset moved ?_
      rw [← isOther]
      exact agreeing.opened side dkey isReported

/-- A feed with a peer attached has been swept by both ends. -/
theorem Agreeing.swept_of_attached
    (agreeing : Agreeing discoveryKey keys state)
    (distinct : Distinct discoveryKey keys)
    {side : Side}
    {dkey : Key}
    (isAttached : dkey ∈ (state side).attached) :
    ∃ key,
      discoveryKey key = dkey ∧
        key ∈ (state side).swept ∧
        key ∈ (state side.other).swept := by
  have matched := agreeing.matched side
  have otherSweeps := (agreeing.matched side.other).sweeps
  have isReported := matched.inOrder.subset isAttached
  obtain ⟨key, isSwept, hasDkey⟩ :=
    List.mem_map.mp ((matched.attached dkey isReported).mp isAttached)
  obtain ⟨other, isOpened, otherDkey⟩ :=
    List.mem_map.mp (agreeing.opened side dkey isReported)
  have known : key ∈ keys :=
    matched.sweeps.wired.keyed.known (matched.sweeps.inMap key isSwept)
  have same : discoveryKey key = discoveryKey other :=
    hasDkey.trans otherDkey.symm
  refine ⟨key, hasDkey, isSwept, ?_⟩
  rcases otherSweeps.opened other isOpened with otherSwept | isHashed
  · have otherKnown : other ∈ keys :=
      otherSweeps.wired.keyed.known (otherSweeps.inMap other otherSwept)
    rw [(distinct.eq_of_known known (Or.inl otherKnown) same).1]
    exact otherSwept
  · obtain ⟨_, otherKnown⟩ :=
      distinct.eq_of_known known (Or.inr isHashed) same
    exact absurd isHashed (distinct.disjoint other otherKnown)

/-- At rest an end has opened all that it has swept. -/
theorem Matched.opened_of_settled
    (matched : Matched discoveryKey keys this)
    (settled : this.connection.Settled)
    {key : Key}
    (isSwept : key ∈ this.swept) :
    discoveryKey key ∈ this.channels discoveryKey := by
  obtain ⟨_, waiting, _⟩ := settled
  have complete := matched.sweeps.complete
  rw [waiting] at complete
  rcases complete rfl key isSwept with isOpened | left
  · exact List.mem_map_of_mem isOpened
  · cases left

/-- At rest a feed that both ends have swept has a peer attached at each. -/
theorem Agreeing.attached_of_swept
    (agreeing : Agreeing discoveryKey keys state)
    (atRest : AtRest discoveryKey state)
    {side : Side}
    {key : Key}
    (here : key ∈ (state side).swept)
    (there : key ∈ (state side.other).swept) :
    discoveryKey key ∈ (state side).attached := by
  have matched := agreeing.matched side
  have isReported :=
    atRest.reported side (discoveryKey key)
      (matched.opened_of_settled (atRest.settled side) here)
      ((agreeing.matched side.other).opened_of_settled
        (atRest.settled side.other) there)
  exact (matched.attached _ isReported).mpr
    (List.mem_map_of_mem here)

/--
In every run of the two ends of a connection: no end attaches two peers for one
channel; a peer is attached only for a feed that both ends have, and had when
they handled the handshake; and when both ends are at rest, each has attached
peers for all of these feeds, so that both have attached peers for the same
feeds.
-/
theorem ends_attach_shared_feeds
    (distinct : Distinct discoveryKey keys)
    {actions : List Action}
    {final : State}
    (along :
      Machine.Along (step discoveryKey) (Allowed discoveryKey keys)
        initial actions)
    (ran :
      Machine.run (step discoveryKey) initial actions = some final) :
    (∀ side, (final side).attached.Nodup) ∧
      (∀ side, ∀ dkey ∈ (final side).attached,
        ∃ key,
          discoveryKey key = dkey ∧
            ∀ either : Side,
              key ∈ (final either).swept ∧
                key ∈ (final either).connection.feeds.publicKeys) ∧
      (AtRest discoveryKey final →
        ∀ side dkey,
          dkey ∈ (final side).attached ↔
            ∃ key,
              discoveryKey key = dkey ∧
                ∀ either : Side, key ∈ (final either).swept) := by
  have agreeing : Agreeing discoveryKey keys final :=
    Machine.invariant_run_along (Agreeing discoveryKey keys)
      (fun agreeing allowed stepped =>
        agreeing.step distinct allowed stepped)
      agreeing_initial along ran
  have both :
      ∀ {side key},
        key ∈ (final side).swept →
        key ∈ (final side.other).swept →
        ∀ either : Side, key ∈ (final either).swept := by
    intro side key here there either
    cases side <;> cases either
    · exact here
    · exact there
    · exact there
    · exact here
  refine ⟨?_, ?_, ?_⟩
  · intro side
    exact (agreeing.matched side).once.sublist
      (agreeing.matched side).inOrder
  · intro side dkey isAttached
    obtain ⟨key, hasDkey, here, there⟩ :=
      agreeing.swept_of_attached distinct isAttached
    refine ⟨key, hasDkey, fun either => ?_⟩
    have isSwept := both here there either
    exact ⟨isSwept,
      (agreeing.matched either).sweeps.inMap key isSwept⟩
  · intro atRest side dkey
    constructor
    · intro isAttached
      obtain ⟨key, hasDkey, here, there⟩ :=
        agreeing.swept_of_attached distinct isAttached
      exact ⟨key, hasDkey, both here there⟩
    · rintro ⟨key, rfl, isSwept⟩
      exact agreeing.attached_of_swept atRest (isSwept side)
        (isSwept side.other)

end

/-! ## An example -/

/-- The discovery keys of the examples, and those of discovery keys. -/
def nestedDiscoveryKey (key : Key) : Key :=
  if key = sampleFoo.discoveryKey then
    ⟨[129, 89, 35, 94, 67, 188, 67, 237, 10, 119, 100, 158, 72, 199, 84,
      225, 239, 88, 128, 14, 111, 197, 66, 185, 209, 42, 108, 179, 86, 136,
      168, 128], rfl⟩
  else if key = sampleEmpty.discoveryKey then
    ⟨[63, 70, 68, 76, 232, 119, 30, 178, 119, 249, 55, 3, 30, 13, 183, 115,
      13, 76, 224, 193, 237, 91, 120, 23, 198, 199, 31, 158, 31, 185, 253,
      192], rfl⟩
  else
    sampleDiscoveryKey key

/-- The public keys of the example. -/
def nestedKeys : Set Key :=
  {sampleFoo.publicKey, sampleEmpty.publicKey}

/-- The keys of the example are distinct. -/
theorem distinct_nested : Distinct nestedDiscoveryKey nestedKeys := by
  have isImage :
      Set.image nestedDiscoveryKey nestedKeys =
        {sampleFoo.discoveryKey, sampleEmpty.discoveryKey} := by
    rw [nestedKeys, Set.image_pair]
    rfl
  refine ⟨?_, ?_⟩
  · rw [isImage]
    rintro first ((rfl | rfl) | (rfl | rfl)) second
      ((rfl | rfl) | (rfl | rfl)) same <;>
    first
      | rfl
      | exact absurd same (by decide)
  · rw [isImage]
    rintro key (rfl | rfl) (same | same) <;>
    exact absurd same (by decide)

/-- The feed of the empty name. -/
def emptyFeed : ArcFeed :=
  ⟨1, ⟨sampleEmpty.publicKey, none⟩⟩

/-- Both ends share `foo`; one adds the other feed after the handshake. -/
def lateAtRight : List Action :=
  ([.addFeed sampleFooArc, .announce, .addFeed emptyFeed,
      .announce, .subscribe,
      .handshake (Key.constant 9)
        [sampleEmpty.publicKey, sampleFoo.publicKey],
      .openNext true, .openNext true].map (⟨.left, ·⟩)) ++
    ([.addFeed sampleFooArc, .announce, .subscribe,
      .handshake (Key.constant 8) [sampleFoo.publicKey],
      .openNext true, .addFeed emptyFeed, .announce, .takeEvent true,
      .channel sampleFoo.discoveryKey].map (⟨.right, ·⟩)) ++
    [⟨.left, .channel sampleFoo.discoveryKey⟩]

/-- Both ends attach a peer for `foo` and none for the late feed. -/
theorem ends_attach_shared_feeds_lateAtRight :
    ∃ final,
      Machine.run (step nestedDiscoveryKey) initial lateAtRight =
          some final ∧
        (∀ side,
          sampleEmpty.publicKey ∈
            (final side).connection.feeds.publicKeys) ∧
        ∀ side dkey,
          dkey ∈ (final side).attached ↔
            dkey = sampleFoo.discoveryKey := by
  obtain ⟨final, ran, settled, leftSwept, rightSwept, leftChannels,
      rightChannels, reported, leftFeeds, rightFeeds⟩ :
      ∃ final,
        Machine.run (step nestedDiscoveryKey) initial lateAtRight =
            some final ∧
          (∀ side, (final side).connection.Settled) ∧
          (final .left).swept =
            [sampleEmpty.publicKey, sampleFoo.publicKey] ∧
          (final .right).swept = [sampleFoo.publicKey] ∧
          (final .left).channels nestedDiscoveryKey =
            [sampleEmpty.discoveryKey, sampleFoo.discoveryKey] ∧
          (final .right).channels nestedDiscoveryKey =
            [sampleFoo.discoveryKey,
              nestedDiscoveryKey sampleEmpty.discoveryKey] ∧
          (∀ side,
            (final side).reported = [sampleFoo.discoveryKey]) ∧
          (final .left).connection.feeds.publicKeys =
            [sampleFoo.publicKey, sampleEmpty.publicKey] ∧
          (final .right).connection.feeds.publicKeys =
            [sampleFoo.publicKey, sampleEmpty.publicKey] := by
    refine ⟨_, rfl, ?_, rfl, rfl, rfl, rfl, ?_, rfl, rfl⟩
    · intro side
      cases side <;> exact ⟨rfl, rfl, rfl⟩
    · intro side
      cases side <;> rfl
  have along :
      Machine.Along (step nestedDiscoveryKey)
        (Allowed nestedDiscoveryKey nestedKeys) initial
        lateAtRight := by
    refine ⟨Or.inl rfl, trivial, Or.inr rfl, trivial, trivial, rfl,
      trivial, trivial, Or.inl rfl, trivial, trivial, rfl, trivial,
      Or.inr rfl, trivial, trivial, ?_, ?_, trivial⟩
    · exact ⟨List.mem_cons_self, by decide, by decide⟩
    · exact ⟨by decide, List.mem_cons_self, by decide⟩
  have atRest : AtRest nestedDiscoveryKey final := by
    refine ⟨settled, ?_⟩
    intro side dkey here there
    rw [reported]
    have inBoth :
        dkey ∈ (final .left).channels nestedDiscoveryKey ∧
          dkey ∈ (final .right).channels nestedDiscoveryKey := by
      cases side
      · exact ⟨here, there⟩
      · exact ⟨there, here⟩
    rw [leftChannels, rightChannels] at inBoth
    simp only [List.mem_cons, List.not_mem_nil, or_false] at inBoth
    obtain ⟨rfl | rfl, isRight⟩ := inBoth
    · rcases isRight with same | same
      · exact absurd same (by decide)
      · exact absurd same (by decide)
    · exact List.mem_cons_self
  obtain ⟨_, _, exactly⟩ :=
    ends_attach_shared_feeds distinct_nested along ran
  refine ⟨final, ran, ?_, ?_⟩
  · intro side
    cases side
    · simp [leftFeeds]
    · simp [rightFeeds]
  · intro side dkey
    rw [exactly atRest side dkey]
    constructor
    · rintro ⟨key, rfl, isSwept⟩
      have isFoo := isSwept .right
      rw [rightSwept, List.mem_singleton] at isFoo
      rw [isFoo]
      rfl
    · rintro rfl
      refine ⟨sampleFoo.publicKey, rfl, fun either => ?_⟩
      cases either
      · simp [leftSwept]
      · simp [rightSwept]

end Pair

end Hyperspace.Replicator
