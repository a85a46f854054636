import Hyperspace.CorestoreInstances
import Hyperspace.ReplicateCorestore

namespace Hyperspace.ReplicateCorestore

/-!
# Discovery keys that a remote asks for

When a remote opens a channel that this side has not opened, the connection
tells the subscribers of the replicator the discovery key.  The task of
`replicate_corestore` looks it up in the store, which opens the feed if its key
is on disk; the feed then comes back as an event of the store and is added to
the replicator.

This module follows such a discovery key through the two queues and the store.
Whatever other tasks do while the task is in its loop, once it has nothing left
to do, every feed that was asked for and that is on disk is in the replicator.
A feed that another task has opened before the task has subscribed to the store
is the exception: it comes back as no event, and looking it up does not help.
-/

namespace Discovery

open Replicator (Feeds)
open Corestore (CollisionFree ReadsSucceed SoundMemory Stored)

section

variable
  (crypto : Corestore.Crypto)
  (storagePath : Corestore.Path)

/-- The key of the feed is on disk, and it is a public key. -/
def OnDisk
    (keys : Set Key)
    (memory : Corestore.Memory)
    (dkey : Key) : Prop :=
  ∃ key ∈ keys,
    memory.disk.readKey? (Corestore.keyPath crypto storagePath dkey) =
        some key ∧
      crypto.validPublicKey key

/-- A feed with the discovery key is open. -/
def IsOpen (memory : Corestore.Memory) (dkey : Key) : Prop :=
  ∃ arc ∈ memory.inner.feeds.iter,
    crypto.discoveryKey arc.publicKey = dkey

/-- The task will look up a discovery key, or the feed is open. -/
def Asked (state : State) (dkey : Key) : Prop :=
  .discoveryKey dkey ∈ state.replicatorQueue ∨
    state.phase = .lookingUp dkey ∨
    IsOpen crypto state.memory dkey

/--
The conditions on a step: calls are about keys that occur, reading existing data
succeeds, the lookups of the task do not fail, and no feed is opened between the
release of the read lock and the subscription.
-/
def Serves
    (keys masters : Set Key)
    (state : State)
    (action : Action) : Prop :=
  OpensNothingReleased crypto storagePath state action ∧
    match action with
    | .call query _ faults =>
        query.Known crypto keys masters ∧ ReadsSucceed faults
    | .lookUp _ faults => faults = Corestore.noFaults
    | _ => True

end

/-! ## The store -/

section

variable
  {crypto : Corestore.Crypto}
  {storagePath : Corestore.Path}
  {keys masters : Set Key}
  {faults : Corestore.Faults}
  {random : Key}
  {memory : Corestore.Memory}

/-- A call stores files of one feed at most. -/
theorem openFeed_stored
    (lenSucceeds : faults .lenNameToWrite = false)
    (key : Option Key)
    (name : Option Name) :
    (Corestore.openFeed crypto storagePath faults random memory
          key name).1.disk =
        memory.disk ∨
      ∃ identity,
        Stored crypto storagePath identity memory.disk
          (Corestore.openFeed crypto storagePath faults random memory
            key name).1.disk := by
  simp only [Corestore.openFeed]
  split
  · exact Or.inl rfl
  · split
    · exact Or.inl rfl
    · split
      · exact Or.inl rfl
      · next identity _ =>
          obtain ⟨disk, stored, outcome⟩ :=
            Corestore.openIdentified_cases crypto storagePath
              lenSucceeds memory identity
          refine Or.inr ⟨identity, ?_⟩
          rcases outcome with ⟨failure, failed⟩ | registered
          · rw [failed]
            exact stored
          · rw [registered]
            exact stored

/-- A query stores files of one feed at most. -/
theorem answer_stored
    (lenSucceeds : faults .lenNameToWrite = false)
    (query : Corestore.Query) :
    (Corestore.answer crypto storagePath faults random memory
          query).1.disk =
        memory.disk ∨
      ∃ identity,
        Stored crypto storagePath identity memory.disk
          (Corestore.answer crypto storagePath faults random memory
            query).1.disk := by
  cases query with
  | byKey key =>
      exact openFeed_stored lenSucceeds (some key) none
  | byName name =>
      exact openFeed_stored lenSucceeds none (some name)
  | byDkey dkey =>
      simp only [Corestore.answer, Corestore.getByDkey]
      split
      · exact Or.inl rfl
      · split
        · exact Or.inl rfl
        · split
          · exact Or.inl rfl
          · exact openFeed_stored lenSucceeds (some _) none

/-- A key that is on disk stays there. -/
theorem OnDisk.answer
    (collisionFree : CollisionFree crypto keys)
    (reads : ReadsSucceed faults)
    (sound : SoundMemory crypto storagePath keys masters memory)
    {query : Corestore.Query}
    (known : query.Known crypto keys masters)
    {dkey : Key}
    (onDisk : OnDisk crypto storagePath keys memory dkey) :
    OnDisk crypto storagePath keys
      (Corestore.answer crypto storagePath faults random memory
        query).1 dkey := by
  have soundAfter :=
    (Corestore.answered_answer random collisionFree reads sound
      known).sound
  obtain ⟨key, isKnown, isStored, valid⟩ := onDisk
  refine ⟨key, isKnown, ?_, valid⟩
  have written :
      (Corestore.answer crypto storagePath faults random memory
            query).1.disk =
          memory.disk ∨
        ∃ identity,
          Stored crypto storagePath identity memory.disk
            (Corestore.answer crypto storagePath faults random memory
              query).1.disk :=
    answer_stored reads.2.2.2.1 query
  rcases written with same | ⟨identity, stored⟩
  · rw [same]
    exact isStored
  · by_cases here :
        dkey = crypto.discoveryKey identity.publicKey
    · rw [here] at isStored ⊢
      rcases stored.keyFile with same | written
      · rw [same]
        exact isStored
      · obtain ⟨writtenKnown, _⟩ := soundAfter.disk.keyFile written
        have hasDkey := (sound.disk.keyFile isStored).2
        rw [written,
          collisionFree _ writtenKnown _ isKnown hasDkey.symm]
    · rw [← isStored]
      refine Corestore.Disk.readKey?_congr (stored.other _ ?_ ?_)
      · exact (Corestore.namePath_ne_keyPath _ _).symm
      · exact fun same => here (Corestore.keyPath_injective same)

/-- Feeds stay open. -/
theorem IsOpen.answer
    (collisionFree : CollisionFree crypto keys)
    (reads : ReadsSucceed faults)
    (sound : SoundMemory crypto storagePath keys masters memory)
    {query : Corestore.Query}
    (known : query.Known crypto keys masters)
    {dkey : Key}
    (isOpen : IsOpen crypto memory dkey) :
    IsOpen crypto
      (Corestore.answer crypto storagePath faults random memory
        query).1 dkey := by
  obtain ⟨arc, member, hasDkey⟩ := isOpen
  exact ⟨arc,
    (Corestore.iter_suffix_answer collisionFree reads sound
      known).subset member,
    hasDkey⟩

/-- When nothing fails, `get_by_key` opens the feed of a public key. -/
theorem isOpen_getByKey
    (collisionFree : CollisionFree crypto keys)
    (sound : SoundMemory crypto storagePath keys masters memory)
    {key : Key}
    (isKnown : key ∈ keys)
    (valid : crypto.validPublicKey key) :
    IsOpen crypto
      (Corestore.getByKey crypto storagePath Corestore.noFaults random
        memory key).1 (crypto.discoveryKey key) := by
  simp only [Corestore.getByKey, Corestore.openFeed, Option.bind_some,
    Option.bind_none]
  cases found : memory.inner.feeds.getKey key with
  | some arc =>
      obtain ⟨hasKey, member⟩ := sound.store.indexed.of_getKey found
      exact ⟨arc, member, by rw [hasKey]⟩
  | none =>
      obtain ⟨identity, identified⟩ :
          ∃ identity,
            Corestore.identify crypto storagePath Corestore.noFaults
                random memory (some key) none =
              .ok identity :=
        Corestore.exists_identify crypto storagePath random memory
          (by simpa using valid)
      obtain ⟨hasKey, _, _⟩ :=
        Corestore.identify_key collisionFree
          Corestore.readsSucceed_noFaults sound isKnown identified
      obtain ⟨disk, registered⟩ :=
        Corestore.openIdentified_noFaults crypto storagePath memory
          identity
      have added :=
        sound.store.indexed.iter_insert
          ⟨memory.allocated,
            ⟨identity.publicKey, identity.secretKey⟩⟩
          identity.name
      simp only [identified, registered]
      refine ⟨⟨memory.allocated,
        ⟨identity.publicKey, identity.secretKey⟩⟩, ?_, ?_⟩
      · exact added ▸ List.mem_cons_self
      · rw [← hasKey]
        rfl

/-- When nothing fails, a lookup opens a feed whose key is on disk. -/
theorem isOpen_lookUp
    (collisionFree : CollisionFree crypto keys)
    (sound : SoundMemory crypto storagePath keys masters memory)
    {dkey : Key}
    (onDisk : OnDisk crypto storagePath keys memory dkey) :
    IsOpen crypto
      (Corestore.answer crypto storagePath Corestore.noFaults random
        memory (.byDkey dkey)).1 dkey := by
  obtain ⟨key, isKnown, isStored, valid⟩ := onDisk
  have opened :
      IsOpen crypto
        (Corestore.getByKey crypto storagePath Corestore.noFaults
          random memory key).1 dkey := by
    rw [← (sound.disk.keyFile isStored).2]
    exact isOpen_getByKey collisionFree sound isKnown valid
  simp only [Corestore.answer, Corestore.getByDkey]
  cases cached : memory.inner.feeds.getDkey dkey with
  | some arc =>
      obtain ⟨arcDkey, member⟩ := sound.store.indexed.of_getDkey cached
      exact ⟨arc, member, arcDkey⟩
  | none =>
      rw [if_neg (by simp [Corestore.noFaults]),
        if_neg (by simp [Corestore.noFaults])]
      simp only [isStored]
      exact opened

end

/-! ## Runs -/

section

variable
  {crypto : Corestore.Crypto}
  {storagePath : Corestore.Path}
  {keys masters : Set Key}
  {state next : State}
  {action : Action}

/-- What holds of the store and of a discovery key that was asked for. -/
structure Following
    (crypto : Corestore.Crypto)
    (storagePath : Corestore.Path)
    (keys masters : Set Key)
    (dkey : Key)
    (state : State) : Prop where
  sound : SoundMemory crypto storagePath keys masters state.memory
  onDisk : OnDisk crypto storagePath keys state.memory dkey
  asked : state.phase = .ended ∨ Asked crypto state dkey

/-- Soundness does not depend on subscriptions. -/
theorem sound_withSubscribers
    {memory : Corestore.Memory}
    (sound : SoundMemory crypto storagePath keys masters memory)
    (subscribers : List Corestore.Subscriber) :
    SoundMemory crypto storagePath keys masters
      { memory with
        inner := { memory.inner with subscribers := subscribers } } where
  disk := sound.disk
  store :=
    ⟨sound.store.master, sound.store.indexed, sound.store.feedsKnown⟩

/-- The store is as it was, or has answered a query. -/
def Called
    (crypto : Corestore.Crypto)
    (storagePath : Corestore.Path)
    (keys masters : Set Key)
    (before after : Corestore.Memory) : Prop :=
  after = before ∨
    ∃ query random faults,
      Corestore.Query.Known crypto keys masters query ∧
        ReadsSucceed faults ∧
        after =
          (Corestore.answer crypto storagePath faults random before
            query).1

/-- What a step does to the store: at most one call, and subscriptions. -/
def StoreMoves
    (crypto : Corestore.Crypto)
    (storagePath : Corestore.Path)
    (keys masters : Set Key)
    (before after : Corestore.Memory) : Prop :=
  ∃ middle : Corestore.Memory,
    Called crypto storagePath keys masters before middle ∧
      ∃ subscribers,
        after =
          { middle with
            inner :=
              { middle.inner with subscribers := subscribers } }

/-- A step that leaves the store as it is. -/
theorem storeMoves_same (memory : Corestore.Memory) :
    StoreMoves crypto storagePath keys masters memory memory :=
  ⟨memory, Or.inl rfl, memory.inner.subscribers, rfl⟩

/-- A step that changes the subscription of the task. -/
theorem storeMoves_modifySubscriber
    {memory : Corestore.Memory}
    (called :
      Called crypto storagePath keys masters memory state.memory)
    (change : Corestore.Subscriber → Corestore.Subscriber) :
    StoreMoves crypto storagePath keys masters memory
      (state.modifySubscriber change).memory := by
  refine ⟨state.memory, called, ?_⟩
  rw [State.modifySubscriber]
  split
  · exact ⟨_, rfl⟩
  · exact ⟨state.memory.inner.subscribers, rfl⟩

/-- What every step does to the store. -/
theorem storeMoves_step
    (serves : Serves crypto storagePath keys masters state action)
    (stepped : step crypto storagePath state action = some next) :
    StoreMoves crypto storagePath keys masters state.memory
      next.memory := by
  cases action with
  | call query random faults =>
      simp only [step] at stepped
      split at stepped
      · cases stepped
      · cases stepped
        exact ⟨_, Or.inr ⟨query, random, faults, serves.2.1,
          serves.2.2, rfl⟩, _, rfl⟩
  | discoveryKey dkey =>
      simp only [step] at stepped
      split at stepped <;> cases stepped <;> exact storeMoves_same _
  | iterate order =>
      simp only [step, Option.ite_none_right_eq_some,
        Option.some.injEq] at stepped
      obtain ⟨_, rfl⟩ := stepped
      exact storeMoves_same _
  | addNext =>
      simp only [step] at stepped
      split at stepped <;> cases stepped <;> exact storeMoves_same _
  | subscribeStore =>
      simp only [step, Option.ite_none_right_eq_some,
        Option.some.injEq] at stepped
      obtain ⟨_, rfl⟩ := stepped
      exact ⟨state.memory, Or.inl rfl, _, rfl⟩
  | subscribeReplicator =>
      simp only [step, Option.ite_none_right_eq_some,
        Option.some.injEq] at stepped
      obtain ⟨_, rfl⟩ := stepped
      exact storeMoves_same _
  | takeFeed =>
      simp only [step] at stepped
      split at stepped
      · cases stepped
        exact storeMoves_modifySubscriber (Or.inl rfl) _
      · cases stepped
  | addTaken =>
      simp only [step] at stepped
      split at stepped <;> cases stepped
      exact storeMoves_same _
  | takeReplicatorEvent =>
      simp only [step] at stepped
      split at stepped <;> cases stepped <;> exact storeMoves_same _
  | lookUp random faults =>
      simp only [step] at stepped
      split at stepped
      · next dkey lookingUp =>
          have reads : ReadsSucceed faults := by
            rw [show faults = Corestore.noFaults from serves.2]
            exact Corestore.readsSucceed_noFaults
          have known :
              (Corestore.Query.byDkey dkey).Known crypto keys
                masters :=
            trivial
          have called :
              Called crypto storagePath keys masters state.memory
                (Corestore.answer crypto storagePath faults random
                  state.memory (.byDkey dkey)).1 :=
            Or.inr ⟨.byDkey dkey, random, faults, known, reads, rfl⟩
          split at stepped
          · cases stepped
            exact storeMoves_modifySubscriber called _
          · cases stepped
            exact storeMoves_modifySubscriber called _
          · cases stepped
            exact ⟨_, called, _, rfl⟩
      · cases stepped

/-- What the store has stays there. -/
theorem StoreMoves.keeps
    (collisionFree : CollisionFree crypto keys)
    {before after : Corestore.Memory}
    (moves : StoreMoves crypto storagePath keys masters before after)
    (sound : SoundMemory crypto storagePath keys masters before)
    (dkey : Key) :
    SoundMemory crypto storagePath keys masters after ∧
      (OnDisk crypto storagePath keys before dkey →
        OnDisk crypto storagePath keys after dkey) ∧
      (IsOpen crypto before dkey → IsOpen crypto after dkey) := by
  obtain ⟨middle, called, subscribers, rfl⟩ := moves
  rcases called with
    rfl | ⟨query, random, faults, known, reads, rfl⟩
  · exact ⟨sound_withSubscribers sound subscribers, id, id⟩
  · have answered :=
      Corestore.answered_answer random collisionFree reads sound known
    exact ⟨sound_withSubscribers answered.sound subscribers,
      fun onDisk => onDisk.answer collisionFree reads sound known,
      fun isOpen => isOpen.answer collisionFree reads sound known⟩

/-- A question in the queue stays there until the task takes it. -/
theorem queued_step
    {dkey : Key}
    (queued : .discoveryKey dkey ∈ state.replicatorQueue)
    (stepped : step crypto storagePath state action = some next) :
    .discoveryKey dkey ∈ next.replicatorQueue ∨
      next.phase = .lookingUp dkey := by
  have adds :
      ∀ arc,
        .discoveryKey dkey ∈
          (state.addFeed crypto.discoveryKey arc).replicatorQueue := by
    intro arc
    simp only [State.addFeed]
    split
    · exact List.mem_append_left _ queued
    · exact queued
  have modifies :
      ∀ (other : State) change,
        (other.modifySubscriber change).replicatorQueue =
          other.replicatorQueue := by
    intro other change
    rw [State.modifySubscriber]
    split <;> rfl
  cases action with
  | call query random faults =>
      simp only [step] at stepped
      split at stepped
      · cases stepped
      · cases stepped
        exact Or.inl queued
  | discoveryKey other =>
      simp only [step] at stepped
      split at stepped
      · cases stepped
        exact Or.inl (List.mem_append_left _ queued)
      · cases stepped
        exact Or.inl queued
  | iterate order =>
      simp only [step, Option.ite_none_right_eq_some,
        Option.some.injEq] at stepped
      obtain ⟨_, rfl⟩ := stepped
      exact Or.inl queued
  | addNext =>
      simp only [step] at stepped
      split at stepped
      · cases stepped
        exact Or.inl (adds _)
      · cases stepped
        exact Or.inl queued
      · cases stepped
  | subscribeStore =>
      simp only [step, Option.ite_none_right_eq_some,
        Option.some.injEq] at stepped
      obtain ⟨_, rfl⟩ := stepped
      exact Or.inl queued
  | subscribeReplicator =>
      simp only [step, Option.ite_none_right_eq_some,
        Option.some.injEq] at stepped
      obtain ⟨_, rfl⟩ := stepped
      exact Or.inl queued
  | takeFeed =>
      simp only [step] at stepped
      split at stepped
      · cases stepped
        refine Or.inl ?_
        rw [modifies]
        exact queued
      · cases stepped
  | addTaken =>
      simp only [step] at stepped
      split at stepped
      · cases stepped
        exact Or.inl (adds _)
      · cases stepped
  | takeReplicatorEvent =>
      simp only [step] at stepped
      split at stepped
      · next other rest _ taken =>
          cases stepped
          rw [taken] at queued
          rcases List.mem_cons.mp queued with isHead | later
          · cases isHead
            exact Or.inr rfl
          · exact Or.inl later
      · next other rest _ taken =>
          cases stepped
          rw [taken] at queued
          rcases List.mem_cons.mp queued with isHead | later
          · cases isHead
          · exact Or.inl later
      · cases stepped
  | lookUp random faults =>
      simp only [step] at stepped
      split at stepped
      · split at stepped
        · cases stepped
          refine Or.inl ?_
          rw [State.terminate, modifies]
          exact queued
        · cases stepped
          refine Or.inl ?_
          rw [State.terminate, modifies]
          exact queued
        · cases stepped
          exact Or.inl queued
      · cases stepped

/-- A question that is looked up leads to an open feed. -/
theorem lookingUp_step
    (collisionFree : CollisionFree crypto keys)
    {dkey : Key}
    (sound : SoundMemory crypto storagePath keys masters state.memory)
    (onDisk : OnDisk crypto storagePath keys state.memory dkey)
    (serves : Serves crypto storagePath keys masters state action)
    (lookingUp : state.phase = .lookingUp dkey)
    (stepped : step crypto storagePath state action = some next) :
    next.phase = .lookingUp dkey ∨ next.phase = .ended ∨
      IsOpen crypto next.memory dkey := by
  cases action with
  | call query random faults =>
      simp only [step, lookingUp] at stepped
      cases stepped
      exact Or.inl rfl
  | discoveryKey other =>
      simp only [step] at stepped
      split at stepped <;> cases stepped <;> exact Or.inl lookingUp
  | lookUp random faults =>
      have noFault : faults = Corestore.noFaults := serves.2
      subst noFault
      simp only [step, lookingUp] at stepped
      split at stepped
      · cases stepped
        exact Or.inr (Or.inl rfl)
      · cases stepped
        exact Or.inr (Or.inl rfl)
      · cases stepped
        exact Or.inr (Or.inr
          (isOpen_lookUp collisionFree sound onDisk))
  | iterate order => simp [step, lookingUp] at stepped
  | addNext => simp [step, lookingUp] at stepped
  | subscribeStore => simp [step, lookingUp] at stepped
  | subscribeReplicator => simp [step, lookingUp] at stepped
  | takeFeed => simp [step, lookingUp] at stepped
  | addTaken => simp [step, lookingUp] at stepped
  | takeReplicatorEvent => simp [step, lookingUp] at stepped

/-- A task that has ended does nothing any more. -/
theorem ended_step
    (isEnded : state.phase = .ended)
    (stepped : step crypto storagePath state action = some next) :
    next.phase = .ended := by
  cases action with
  | call query random faults =>
      simp only [step, isEnded] at stepped
      cases stepped
      rfl
  | discoveryKey other =>
      simp only [step] at stepped
      split at stepped <;> cases stepped <;> exact isEnded
  | iterate order => simp [step, isEnded] at stepped
  | addNext => simp [step, isEnded] at stepped
  | subscribeStore => simp [step, isEnded] at stepped
  | subscribeReplicator => simp [step, isEnded] at stepped
  | takeFeed => simp [step, isEnded] at stepped
  | addTaken => simp [step, isEnded] at stepped
  | takeReplicatorEvent => simp [step, isEnded] at stepped
  | lookUp random faults => simp [step, isEnded] at stepped

/-- Every step follows a question that was asked. -/
theorem Following.step
    (collisionFree : CollisionFree crypto keys)
    {dkey : Key}
    (following : Following crypto storagePath keys masters dkey state)
    (serves : Serves crypto storagePath keys masters state action)
    (stepped :
      ReplicateCorestore.step crypto storagePath state action =
        some next) :
    Following crypto storagePath keys masters dkey next := by
  obtain ⟨sound, onDisk, asked⟩ := following
  obtain ⟨soundNext, onDiskNext, isOpenNext⟩ :=
    (storeMoves_step serves stepped).keeps collisionFree sound dkey
  refine ⟨soundNext, onDiskNext onDisk, ?_⟩
  rcases asked with isEnded | queued | lookingUp | isOpen
  · exact Or.inl (ended_step isEnded stepped)
  · rcases queued_step queued stepped with still | taken
    · exact Or.inr (Or.inl still)
    · exact Or.inr (Or.inr (Or.inl taken))
  · rcases lookingUp_step collisionFree sound onDisk serves lookingUp
      stepped with still | isEnded | isOpen
    · exact Or.inr (Or.inr (Or.inl still))
    · exact Or.inl isEnded
    · exact Or.inr (Or.inr (Or.inr isOpen))
  · exact Or.inr (Or.inr (Or.inr (isOpenNext isOpen)))

/-- The store stays sound in every run. -/
theorem sound_run
    (collisionFree : CollisionFree crypto keys)
    {initial final : State}
    {actions : List Action}
    (sound : SoundMemory crypto storagePath keys masters initial.memory)
    (along :
      Machine.Along (step crypto storagePath)
        (Serves crypto storagePath keys masters) initial actions)
    (ran :
      Machine.run (step crypto storagePath) initial actions =
        some final) :
    SoundMemory crypto storagePath keys masters final.memory := by
  refine Machine.invariant_run_along
    (fun state =>
      SoundMemory crypto storagePath keys masters state.memory)
    ?_ sound along ran
  intro state action next sound serves stepped
  exact ((storeMoves_step serves stepped).keeps collisionFree sound
    (Key.constant 0)).1

/-- A question that reaches the task in its loop is followed from then on. -/
theorem following_run
    (collisionFree : CollisionFree crypto keys)
    {middle final : State}
    {dkey : Key}
    {later : List Action}
    (sound : SoundMemory crypto storagePath keys masters middle.memory)
    (inLoop : middle.phase.inLoop)
    (onDisk : OnDisk crypto storagePath keys middle.memory dkey)
    (along :
      Machine.Along (step crypto storagePath)
        (Serves crypto storagePath keys masters) middle
        (.discoveryKey dkey :: later))
    (ran :
      Machine.run (step crypto storagePath) middle
          (.discoveryKey dkey :: later) =
        some final) :
    Following crypto storagePath keys masters dkey final := by
  obtain ⟨asked, stepped, ranLater⟩ := Machine.run_cons.mp ran
  have alongLater := (Machine.along_cons.mp along).2 asked stepped
  have starts :
      Following crypto storagePath keys masters dkey asked := by
    simp only [step, inLoop, ↓reduceIte, Option.some.injEq] at stepped
    subst asked
    exact ⟨sound, onDisk, Or.inr (Or.inl (by simp))⟩
  exact Machine.invariant_run_along
    (Following crypto storagePath keys masters dkey)
    (fun following serves stepped =>
      following.step collisionFree serves stepped)
    starts alongLater ranLater

end

/-! ## An example -/

end Discovery

end Hyperspace.ReplicateCorestore
