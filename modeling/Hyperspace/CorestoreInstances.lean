import Hyperspace.CorestoreLookup

namespace Hyperspace.Corestore

/-!
# When a key has one open instance

`open_feed` looks for an open feed under the key or the name it is given.  A
feed that is open under its key alone is not found by its name: asking for the
name then opens a second instance over the same directory.  This happens for a
feed opened by key before its name was stored, and for the empty name, which
the name file cannot tell from no name.

`OpensOnce` is the condition on a call that excludes this; it is shown to be
exactly what keeps the open feeds' keys distinct.
-/

/-- The open feed that the cache check of a query finds. -/
def Query.cached (feeds : FeedMap) : Query → Option ArcFeed
  | .byKey key => feeds.getKey key
  | .byName name => feeds.getName name
  | .byDkey dkey => feeds.getDkey dkey

/-- A name that is not found belongs to no open feed. -/
def Query.OpensOnce
    (crypto : Crypto)
    (inner : InnerCorestore) : Query → Prop
  | .byName name =>
      inner.feeds.getName name = none →
      inner.feeds.getKey (crypto.keyOfName inner.masterKey name) = none
  | .byKey _ => True
  | .byDkey _ => True

/-- The condition on a step of a directory whose store is open. -/
def Action.OpensOnce
    (crypto : Crypto)
    (directory : Directory) : Action → Prop
  | .query asked _ _ =>
      ∀ inner ∈ directory.inner, asked.OpensOnce crypto inner
  | .reopen _ _ => True
  | .subscribe => True
  | .dropReceiver _ => True

/-- A call within one process, all of whose storage operations succeed. -/
def Action.SucceedsInProcess : Action → Prop
  | .query _ _ faults => faults = noFaults
  | .reopen _ _ => False
  | .subscribe => True
  | .dropReceiver _ => True

/-- No two open feeds have one public key. -/
def Directory.OnePerKey (directory : Directory) : Prop :=
  ∀ inner ∈ directory.inner,
    (inner.feeds.iter.map ArcFeed.publicKey).Nodup

section

variable
  {crypto : Crypto}
  {storagePath : Path}
  {keys masters : Set Key}
  {memory : Memory}
  {faults : Faults}
  {random : Key}

/-- A query that the cache check answers changes nothing. -/
theorem answer_of_cached
    {query : Query}
    {arc : ArcFeed}
    (cached : query.cached memory.inner.feeds = some arc) :
    answer crypto storagePath faults random memory query =
      (memory, .ok (some arc)) := by
  cases query with
  | byKey key =>
      simp only [Query.cached] at cached
      simp [answer, getByKey, openFeed, cached, Except.map]
  | byName name =>
      simp only [Query.cached] at cached
      simp [answer, getByName, openFeed, cached, Except.map]
  | byDkey dkey =>
      simp only [Query.cached] at cached
      simp [answer, getByDkey, cached]

/-- The query finds an open feed that it is about, unless it is not `OpensOnce`. -/
theorem cached_of_right
    (sound : SoundMemory crypto storagePath keys masters memory)
    {query : Query}
    {arc : ArcFeed}
    (opensOnce : query.OpensOnce crypto memory.inner)
    (isOpen : arc ∈ memory.inner.feeds.iter)
    (right :
      query.Right crypto memory.inner.masterKey arc.publicKey) :
    ∃ found, query.cached memory.inner.feeds = some found := by
  have byKey := sound.store.indexed.getKey_isSome isOpen
  have byDkey := sound.store.indexed.getDkey_isSome isOpen
  cases query with
  | byKey key =>
      rw [right] at byKey
      exact Option.isSome_iff_exists.mp byKey
  | byDkey dkey =>
      rw [right] at byDkey
      exact Option.isSome_iff_exists.mp byDkey
  | byName name =>
      cases found : memory.inner.feeds.getName name with
      | some other =>
          exact ⟨other, found⟩
      | none =>
          rw [right, opensOnce found] at byKey
          cases byKey

/-- A feed that the cache check finds answers the query, and is open. -/
theorem right_of_cached
    (sound : SoundMemory crypto storagePath keys masters memory)
    {query : Query}
    {arc : ArcFeed}
    (cached : query.cached memory.inner.feeds = some arc) :
    query.Right crypto memory.inner.masterKey arc.publicKey ∧
      arc ∈ memory.inner.feeds.iter := by
  cases query with
  | byKey key =>
      exact sound.store.indexed.of_getKey cached
  | byName name =>
      exact sound.store.indexed.of_getName cached
  | byDkey dkey =>
      exact sound.store.indexed.of_getDkey cached

/-- All keys that are right for a query are the same key. -/
theorem Query.Right.unique
    (collisionFree : CollisionFree crypto keys)
    {masterKey first second : Key}
    {query : Query}
    (firstKnown : first ∈ keys)
    (secondKnown : second ∈ keys)
    (firstRight : query.Right crypto masterKey first)
    (secondRight : query.Right crypto masterKey second) :
    first = second := by
  cases query with
  | byKey key =>
      exact firstRight.trans secondRight.symm
  | byName name =>
      exact firstRight.trans secondRight.symm
  | byDkey dkey =>
      exact collisionFree _ firstKnown _ secondKnown
        (firstRight.trans secondRight.symm)

/-- A query that opens a feed found none. -/
theorem cached_eq_none_of_opened
    {query : Query}
    {arc : ArcFeed}
    (added :
      (answer crypto storagePath faults random memory
          query).1.inner.feeds.iter =
        arc :: memory.inner.feeds.iter) :
    query.cached memory.inner.feeds = none := by
  cases cached : query.cached memory.inner.feeds with
  | none =>
      rfl
  | some found =>
      rw [answer_of_cached cached] at added
      have lengths := congrArg List.length added
      simp at lengths

/-- A query that is `OpensOnce` keeps the keys of the open feeds distinct. -/
theorem nodup_answer
    (collisionFree : CollisionFree crypto keys)
    (reads : ReadsSucceed faults)
    (sound : SoundMemory crypto storagePath keys masters memory)
    {query : Query}
    (known : query.Known crypto keys masters)
    (opensOnce : query.OpensOnce crypto memory.inner)
    (distinct :
      (memory.inner.feeds.iter.map ArcFeed.publicKey).Nodup) :
    ((answer crypto storagePath faults random memory
        query).1.inner.feeds.iter.map ArcFeed.publicKey).Nodup := by
  have answered :=
    answered_answer random collisionFree reads sound known
  rcases answered.opened with same | ⟨arc, added, right, _⟩
  · rw [same]
    exact distinct
  · rw [added, List.map_cons, List.nodup_cons]
    refine ⟨?_, distinct⟩
    intro member
    obtain ⟨other, isOpen, sameKey⟩ := List.mem_map.mp member
    rw [← sameKey] at right
    obtain ⟨found, cached⟩ :=
      cached_of_right sound opensOnce isOpen right
    rw [cached_eq_none_of_opened added] at cached
    cases cached

/-- Which feed to open is decided for every valid key. -/
theorem exists_identify
    (crypto : Crypto)
    (storagePath : Path)
    (random : Key)
    (memory : Memory)
    {key : Option Key}
    {name : Option Name}
    (valid :
      ∀ given ∈ key, name = none → crypto.validPublicKey given = true) :
    ∃ identity,
      identify crypto storagePath noFaults random memory key name =
        .ok identity := by
  cases name with
  | some name =>
      cases key <;> exact ⟨_, rfl⟩
  | none =>
      cases key with
      | none =>
          exact ⟨_, rfl⟩
      | some key =>
          have isValid := valid key rfl rfl
          by_cases empty :
              memory.disk
                (namePath crypto storagePath (crypto.discoveryKey key)) = []
          · simp [identify, readName, noFaults, empty, pubkeyFromBytes,
              isValid, bind, Except.bind, pure, Except.pure]
          · have nonempty := List.length_pos_iff.mpr empty
            simp [identify, readName, noFaults, nonempty, bind,
              Except.bind, pure, Except.pure]

/-- Storing the name succeeds when nothing fails. -/
theorem storeName_noFaults
    (crypto : Crypto)
    (storagePath : Path)
    (disk : Disk)
    (identity : Identity) :
    ∃ named wrote,
      storeName crypto storagePath noFaults disk identity =
        (named, .ok wrote) := by
  simp only [storeName]
  cases identity.name with
  | none =>
      exact ⟨disk, false, rfl⟩
  | some name =>
      simp only [writeNameIfEmpty, noFaults, Bool.false_eq_true,
        ↓reduceIte]
      split
      · exact ⟨_, _, rfl⟩
      · exact ⟨_, _, rfl⟩

/-- Opening an identified feed registers it when nothing fails. -/
theorem openIdentified_noFaults
    (crypto : Crypto)
    (storagePath : Path)
    (memory : Memory)
    (identity : Identity) :
    ∃ disk,
      openIdentified crypto storagePath noFaults memory identity =
        register crypto { memory with disk := disk }
          ⟨identity.publicKey, identity.secretKey⟩ identity.name := by
  obtain ⟨named, wrote, stored⟩ :=
    storeName_noFaults crypto storagePath memory.disk identity
  refine ⟨named.write
    (keyPath crypto storagePath (crypto.discoveryKey identity.publicKey))
    identity.publicKey.bytes, ?_⟩
  simp [openIdentified, stored, buildFeed, noFaults]

/-- A query that is not `OpensOnce` opens a second feed with an open key. -/
theorem not_nodup_answer
    (random : Key)
    (sound : SoundMemory crypto storagePath keys masters memory)
    {query : Query}
    (broken : ¬ query.OpensOnce crypto memory.inner) :
    ¬ ((answer crypto storagePath noFaults random memory
        query).1.inner.feeds.iter.map ArcFeed.publicKey).Nodup := by
  cases query with
  | byKey key =>
      exact (broken trivial).elim
  | byDkey dkey =>
      exact (broken trivial).elim
  | byName name =>
      simp only [Query.OpensOnce, Classical.not_imp] at broken
      obtain ⟨unnamed, isOpen⟩ := broken
      obtain ⟨open_, found⟩ := Option.ne_none_iff_exists'.mp isOpen
      obtain ⟨hasKey, member⟩ := sound.store.indexed.of_getKey found
      obtain ⟨disk, registered⟩ :=
        openIdentified_noFaults crypto storagePath memory
          (generateKeyPair crypto memory.inner.masterKey random
            (some name))
      have outcome :
          (answer crypto storagePath noFaults random memory
              (.byName name)).1 =
            (openIdentified crypto storagePath noFaults memory
              (generateKeyPair crypto memory.inner.masterKey random
                (some name))).1 := by
        simp [answer, getByName, openFeed, unnamed, identify, pure,
          Except.pure, bind, Except.bind]
      have added :=
        sound.store.indexed.iter_insert
          ⟨memory.allocated,
            ⟨crypto.keyOfName memory.inner.masterKey name,
              some (crypto.secretOfName memory.inner.masterKey name)⟩⟩
          (some name)
      rw [outcome, registered]
      simp only [register, generateKeyPair, Option.getD_some]
      rw [added, List.map_cons, List.nodup_cons]
      intro distinct
      exact distinct.1 (List.mem_map.mpr ⟨open_, member, hasKey⟩)

/-- Feeds stay open. -/
theorem iter_suffix_answer
    (collisionFree : CollisionFree crypto keys)
    (reads : ReadsSucceed faults)
    (sound : SoundMemory crypto storagePath keys masters memory)
    {query : Query}
    (known : query.Known crypto keys masters) :
    memory.inner.feeds.iter <:+
      (answer crypto storagePath faults random memory
        query).1.inner.feeds.iter := by
  have answered :=
    answered_answer random collisionFree reads sound known
  rcases answered.opened with same | ⟨arc, added, _⟩
  · simp only [same, List.suffix_rfl]
  · rw [added]
    exact List.suffix_cons arc _

/-- When the keys are distinct, a feed is the one found for its key. -/
theorem answer_of_open
    (collisionFree : CollisionFree crypto keys)
    (sound : SoundMemory crypto storagePath keys masters memory)
    {query : Query}
    {arc : ArcFeed}
    (opensOnce : query.OpensOnce crypto memory.inner)
    (distinct :
      (memory.inner.feeds.iter.map ArcFeed.publicKey).Nodup)
    (isOpen : arc ∈ memory.inner.feeds.iter)
    (right :
      query.Right crypto memory.inner.masterKey arc.publicKey) :
    answer crypto storagePath faults random memory query =
      (memory, .ok (some arc)) := by
  obtain ⟨found, cached⟩ :=
    cached_of_right sound opensOnce isOpen right
  obtain ⟨foundRight, foundOpen⟩ := right_of_cached sound cached
  have sameKey : found.publicKey = arc.publicKey :=
    foundRight.unique collisionFree
      (sound.store.feedsKnown found foundOpen)
      (sound.store.feedsKnown arc isOpen) right
  have same : found = arc :=
    List.inj_on_of_nodup_map distinct foundOpen isOpen sameKey
  rw [answer_of_cached cached, same]

end

/-! ## Runs within one process -/

section

variable
  {crypto : Crypto}
  {storagePath : Path}
  {keys masters : Set Key}

/-- What a call within a process can do to the open feeds. -/
theorem step_inProcess
    {directory next : Directory}
    {action : Action}
    (inProcess : action.SucceedsInProcess)
    (stepped : step crypto storagePath directory action = some next) :
    ∃ inner after,
      directory.inner = some inner ∧ next.inner = some after ∧
        (after.feeds = inner.feeds ∧ action.OpensOnce crypto directory ∨
          ∃ query random,
            action = .query query random noFaults ∧
              after =
                (answer crypto storagePath noFaults random
                  (directory.memory inner) query).1.inner) := by
  cases action with
  | reopen random faults =>
      exact inProcess.elim
  | query query random faults =>
      cases inProcess
      simp only [step, Option.map_eq_some_iff] at stepped
      obtain ⟨inner, isOpen, same⟩ := stepped
      subst next
      exact ⟨inner, _, isOpen, rfl,
        Or.inr ⟨query, random, rfl, rfl⟩⟩
  | subscribe =>
      simp only [step, Option.map_eq_some_iff] at stepped
      obtain ⟨inner, isOpen, same⟩ := stepped
      subst next
      exact ⟨inner, _, isOpen, rfl, Or.inl ⟨rfl, trivial⟩⟩
  | dropReceiver index =>
      simp only [step, Option.map_eq_some_iff] at stepped
      obtain ⟨inner, isOpen, same⟩ := stepped
      subst next
      exact ⟨inner, _, isOpen, rfl, Or.inl ⟨rfl, trivial⟩⟩

/-- An allowed call within a process that is `OpensOnce` keeps keys distinct. -/
theorem onePerKey_step
    (collisionFree : CollisionFree crypto keys)
    {directory next : Directory}
    {action : Action}
    (sound : Sound crypto storagePath keys masters directory)
    (distinct : directory.OnePerKey)
    (allowed : action.Allowed crypto keys masters)
    (inProcess : action.SucceedsInProcess)
    (opensOnce : action.OpensOnce crypto directory)
    (stepped : step crypto storagePath directory action = some next) :
    next.OnePerKey := by
  obtain ⟨inner, after, isOpen, isOpenAfter, effect⟩ :=
    step_inProcess inProcess stepped
  intro other same
  cases isOpenAfter.symm.trans same
  rcases effect with ⟨unchanged, _⟩ | ⟨query, random, isQuery, answered⟩
  · rw [unchanged]
    exact distinct inner isOpen
  · subst action
    rw [answered]
    exact nodup_answer collisionFree allowed.2
      (sound.ofProcess isOpen) allowed.1 (opensOnce inner isOpen)
      (distinct inner isOpen)

/-- Feeds stay open within a process. -/
theorem iter_suffix_step
    (collisionFree : CollisionFree crypto keys)
    {directory next : Directory}
    {action : Action}
    (sound : Sound crypto storagePath keys masters directory)
    (allowed : action.Allowed crypto keys masters)
    (inProcess : action.SucceedsInProcess)
    (stepped : step crypto storagePath directory action = some next) :
    ∃ inner after,
      directory.inner = some inner ∧ next.inner = some after ∧
        inner.feeds.iter <:+ after.feeds.iter := by
  obtain ⟨inner, after, isOpen, isOpenAfter, effect⟩ :=
    step_inProcess inProcess stepped
  refine ⟨inner, after, isOpen, isOpenAfter, ?_⟩
  rcases effect with ⟨unchanged, _⟩ | ⟨query, random, isQuery, answered⟩
  · simp only [unchanged, List.suffix_rfl]
  · subst action
    rw [answered]
    exact iter_suffix_answer collisionFree allowed.2
      (sound.ofProcess isOpen) allowed.1

/-- Two open feeds with one key stay open. -/
theorem not_onePerKey_step
    (collisionFree : CollisionFree crypto keys)
    {directory next : Directory}
    {action : Action}
    (sound : Sound crypto storagePath keys masters directory)
    (allowed : action.Allowed crypto keys masters)
    (inProcess : action.SucceedsInProcess)
    (twice : ¬ directory.OnePerKey)
    (stepped : step crypto storagePath directory action = some next) :
    ¬ next.OnePerKey := by
  obtain ⟨inner, after, isOpen, isOpenAfter, suffix⟩ :=
    iter_suffix_step collisionFree sound allowed inProcess stepped
  intro distinct
  apply twice
  intro other same
  cases isOpen.symm.trans same
  exact (distinct after isOpenAfter).sublist
    (suffix.sublist.map ArcFeed.publicKey)

/-- A call that is not `OpensOnce` leaves two open feeds with one key. -/
theorem not_onePerKey_of_broken
    {directory next : Directory}
    {action : Action}
    (sound : Sound crypto storagePath keys masters directory)
    (inProcess : action.SucceedsInProcess)
    (broken : ¬ action.OpensOnce crypto directory)
    (stepped : step crypto storagePath directory action = some next) :
    ¬ next.OnePerKey := by
  obtain ⟨inner, after, isOpen, isOpenAfter, effect⟩ :=
    step_inProcess inProcess stepped
  rcases effect with ⟨_, holds⟩ | ⟨query, random, isQuery, answered⟩
  · exact (broken holds).elim
  · subst action
    intro distinct
    apply broken
    intro other same
    cases isOpen.symm.trans same
    by_contra queryBroken
    refine not_nodup_answer random
      (sound.ofProcess isOpen) queryBroken ?_
    have nodup := distinct after isOpenAfter
    rw [answered] at nodup
    exact nodup

/-- A store that was just opened has no feeds. -/
theorem onePerKey_reopen
    {directory next : Directory}
    {random : Key}
    {faults : Faults}
    (stepped :
      step crypto storagePath directory (.reopen random faults) =
        some next) :
    next.OnePerKey := by
  obtain ⟨written, result, opening, rfl⟩ := opening_of_reopen stepped
  intro inner isOpen
  rw [opening.feeds isOpen]
  simp [FeedMap.new, FeedMap.iter]

/-- Calls of one process, about keys that occur. -/
def Action.Call
    (crypto : Crypto)
    (keys masters : Set Key)
    (action : Action) : Prop :=
  action.Allowed crypto keys masters ∧ action.SucceedsInProcess

/--
The feeds of a run of calls: the invariant holds, feeds that were open are
open, and if every call is `OpensOnce`, distinct keys stay distinct.
-/
theorem calls_run
    (collisionFree : CollisionFree crypto keys)
    {calls : List Action}
    {opened final : Directory}
    (sound : Sound crypto storagePath keys masters opened)
    (allowed : ∀ action ∈ calls, action.Call crypto keys masters)
    (called :
      Machine.run (step crypto storagePath) opened calls =
        some final) :
    Sound crypto storagePath keys masters final ∧
      (∀ arc,
        (∃ inner ∈ opened.inner, arc ∈ inner.feeds.iter) →
        ∃ inner ∈ final.inner, arc ∈ inner.feeds.iter) ∧
      (opened.OnePerKey →
        Machine.Along (step crypto storagePath)
          (Action.OpensOnce crypto) opened calls →
        final.OnePerKey) := by
  have along :
      Machine.Along (step crypto storagePath)
        (fun _ action => action.Call crypto keys masters)
        opened calls :=
    Machine.along_of_mem allowed
  refine ⟨?_, ?_, ?_⟩
  · refine Machine.invariant_run_along
      (Sound crypto storagePath keys masters) ?_ sound along called
    intro state action next kept call stepped
    exact kept.step collisionFree call.1 stepped
  · intro arc isOpen
    refine (Machine.invariant_run_along
      (fun directory =>
        Sound crypto storagePath keys masters directory ∧
          ∃ inner ∈ directory.inner, arc ∈ inner.feeds.iter)
      ?_ ⟨sound, isOpen⟩ along called).2
    rintro state action next ⟨kept, inner, found, member⟩ call stepped
    obtain ⟨same, after, foundSame, foundAfter, suffix⟩ :=
      iter_suffix_step collisionFree kept call.1 call.2 stepped
    cases foundSame.symm.trans found
    exact ⟨kept.step collisionFree call.1 stepped, after, foundAfter,
      suffix.subset member⟩
  · intro distinct opensOnce
    refine (Machine.invariant_run_along
      (fun directory =>
        Sound crypto storagePath keys masters directory ∧
          directory.OnePerKey)
      ?_ ⟨sound, distinct⟩
      (Machine.along_and along opensOnce) called).2
    rintro state action next ⟨kept, keptDistinct⟩ ⟨call, once⟩ stepped
    exact ⟨kept.step collisionFree call.1 stepped,
      onePerKey_step collisionFree kept keptDistinct call.1 call.2
        once stepped⟩

/--
A directory is left by earlier processes, opened, and used by any sequence of
calls.  The keys of the open feeds are then distinct exactly when every call
for a name that is not found is for a feed that is not open; and in that case a
feed that some call returned is returned, and nothing is opened or announced,
by every later such call that asks for its key, its discovery key or its name.
-/
theorem one_feed_per_key_iff
    (collisionFree : CollisionFree crypto keys)
    {earlier calls : List Action}
    {random : Key}
    {faults : Faults}
    {opened final : Directory}
    (allowedEarlier :
      ∀ action ∈ earlier ++ [.reopen random faults],
        action.Allowed crypto keys masters)
    (reopened :
      Machine.run (step crypto storagePath) .empty
          (earlier ++ [.reopen random faults]) =
        some opened)
    (allowed : ∀ action ∈ calls, action.Call crypto keys masters)
    (called :
      Machine.run (step crypto storagePath) opened calls =
        some final) :
    (final.OnePerKey ↔
      Machine.Along (step crypto storagePath)
        (Action.OpensOnce crypto) opened calls) ∧
    (Machine.Along (step crypto storagePath)
        (Action.OpensOnce crypto) opened calls →
      ∀ leading query returnRandom trailing middle inner arc,
        calls =
          leading ++ .query query returnRandom noFaults :: trailing →
        Machine.run (step crypto storagePath) opened leading =
          some middle →
        middle.inner = some inner →
        (answer crypto storagePath noFaults returnRandom
            (middle.memory inner) query).2 = .ok (some arc) →
        ∀ finalInner again laterRandom,
          final.inner = some finalInner →
          again.Right crypto finalInner.masterKey arc.publicKey →
          again.OpensOnce crypto finalInner →
          answer crypto storagePath noFaults laterRandom
              (final.memory finalInner) again =
            (final.memory finalInner, .ok (some arc))) := by
  have sound := sound_run collisionFree allowedEarlier reopened
  have starts : opened.OnePerKey := by
    obtain ⟨closed, _, last⟩ := Machine.run_split reopened
    obtain ⟨next, stepped, finished⟩ := Machine.run_cons.mp last
    cases finished
    exact onePerKey_reopen stepped
  obtain ⟨soundFinal, _, distinct⟩ :=
    calls_run collisionFree sound allowed called
  refine ⟨⟨?_, distinct starts⟩, ?_⟩
  · intro finalDistinct
    refine Machine.along_of_not_marked
      (Sound crypto storagePath keys masters)
      (fun directory => ¬ directory.OnePerKey) ?_ ?_ ?_ sound
      (Machine.along_of_mem allowed) called
      (fun twice => twice finalDistinct)
    · intro state action next kept call stepped
      exact kept.step collisionFree call.1 stepped
    · intro state action next kept call broken stepped
      exact not_onePerKey_of_broken kept call.2 broken stepped
    · intro state action next kept call twice stepped
      exact not_onePerKey_step collisionFree kept call.1 call.2 twice
        stepped
  · intro opensOnce leading query returnRandom trailing middle inner
      arc split ran isOpen returned finalInner again laterRandom
      isOpenFinal right againOnce
    subst calls
    obtain ⟨other, otherRan, rest⟩ := Machine.run_split called
    cases ran.symm.trans otherRan
    obtain ⟨next, stepped, trailed⟩ := Machine.run_cons.mp rest
    have soundMiddle :=
      (calls_run collisionFree sound
        (fun action member =>
          allowed action (List.mem_append_left _ member)) ran).1
    have call :=
      allowed (.query query returnRandom noFaults) (by simp)
    have answered :=
      answered_answer returnRandom collisionFree call.1.2
        (soundMiddle.ofProcess isOpen) call.1.1
    have openNext :
        ∃ inner ∈ next.inner, arc ∈ inner.feeds.iter := by
      simp only [step, isOpen, Option.map_some,
        Option.some.injEq] at stepped
      subst next
      exact ⟨_, rfl, (answered.returned arc returned).2⟩
    obtain ⟨known, isKnown, member⟩ :=
      (calls_run collisionFree
        (soundMiddle.step collisionFree call.1 stepped)
        (fun action member => allowed action (by simp [member]))
        trailed).2.1 arc openNext
    cases isOpenFinal.symm.trans isKnown
    exact answer_of_open collisionFree
      (soundFinal.ofProcess isOpenFinal) againOnce
      (distinct starts opensOnce finalInner isOpenFinal) member right

end

/-! ## An example -/

/-- An earlier process creates the feed of the empty name; another opens. -/
def sampleEarlier : List Action :=
  [.reopen sampleMaster noFaults,
    .query (.byName sampleEmpty.name) sampleMaster noFaults] ++
    [.reopen sampleMaster noFaults]

/-- Ask for the feed of the empty name, by name. -/
def sampleByName : Action :=
  .query (.byName sampleEmpty.name) sampleMaster noFaults

/-- Ask for the feed of the empty name, by key. -/
def sampleByKey : Action :=
  .query (.byKey sampleEmpty.publicKey) sampleMaster noFaults

/-- The earlier process is allowed. -/
theorem allowed_sampleEarlier :
    ∀ action ∈ sampleEarlier,
      action.Allowed sampleCrypto sampleKeys {sampleMaster} := by
  intro action member
  simp only [sampleEarlier, List.cons_append, List.nil_append,
    List.mem_cons, List.not_mem_nil, or_false] at member
  rcases member with rfl | rfl | rfl
  · exact ⟨rfl, readsSucceed_noFaults⟩
  · exact ⟨known_sample (Or.inr rfl), readsSucceed_noFaults⟩
  · exact ⟨rfl, readsSucceed_noFaults⟩

/-- Both ways of asking are calls. -/
theorem call_sample
    {action : Action}
    (isSample : action = sampleByName ∨ action = sampleByKey) :
    action.Call sampleCrypto sampleKeys {sampleMaster} := by
  rcases isSample with rfl | rfl
  · exact ⟨⟨known_sample (Or.inr rfl), readsSucceed_noFaults⟩, rfl⟩
  · exact ⟨⟨Or.inr rfl, readsSucceed_noFaults⟩, rfl⟩

/-- Asking by name first and by key then opens one instance. -/
theorem one_feed_per_key_iff_byName_first :
    ∃ opened final,
      Machine.run (step sampleCrypto []) .empty sampleEarlier =
          some opened ∧
        Machine.run (step sampleCrypto []) opened
            [sampleByName, sampleByKey] =
          some final ∧
        final.OnePerKey := by
  have finishes :
      ∃ opened final,
        Machine.run (step sampleCrypto []) .empty sampleEarlier =
            some opened ∧
          Machine.run (step sampleCrypto []) opened
              [sampleByName, sampleByKey] =
            some final ∧
          Machine.Along (step sampleCrypto [])
            (Action.OpensOnce sampleCrypto) opened
            [sampleByName, sampleByKey] := by
    refine ⟨_, _, rfl, rfl, ?_, ?_, trivial⟩
    · intro inner isOpen
      cases isOpen
      exact fun _ => rfl
    · intro inner isOpen
      trivial
  obtain ⟨opened, final, reopened, called, opensOnce⟩ := finishes
  have calls :
      ∀ action ∈ [sampleByName, sampleByKey],
        action.Call sampleCrypto sampleKeys {sampleMaster} := by
    intro action member
    exact call_sample (by simpa using member)
  refine ⟨opened, final, reopened, called, ?_⟩
  exact (one_feed_per_key_iff collisionFree_sample
    allowed_sampleEarlier reopened calls called).1.mpr opensOnce

/--
Asking by key first and by name then opens two instances of one feed, with
every storage operation of every process successful.
-/
theorem empty_name_opens_second_instance :
    CollisionFree sampleCrypto sampleKeys ∧
      (∀ action ∈ sampleEarlier,
        action.Allowed sampleCrypto sampleKeys {sampleMaster}) ∧
      (∀ action ∈ [sampleByKey, sampleByName],
        action.Call sampleCrypto sampleKeys {sampleMaster}) ∧
      ∃ opened final,
        Machine.run (step sampleCrypto []) .empty sampleEarlier =
            some opened ∧
          Machine.run (step sampleCrypto []) opened
              [sampleByKey, sampleByName] =
            some final ∧
          ¬ final.OnePerKey := by
  refine ⟨collisionFree_sample, allowed_sampleEarlier, ?_, ?_⟩
  · intro action member
    exact call_sample (by simpa [or_comm] using member)
  · refine ⟨_, _, rfl, rfl, ?_⟩
    intro distinct
    exact absurd (distinct _ rfl) (by decide)

end Hyperspace.Corestore
