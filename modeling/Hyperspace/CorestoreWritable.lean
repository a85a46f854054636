import Hyperspace.CorestoreEvents
import Hyperspace.CorestoreLookup

namespace Hyperspace.Corestore

/-!
# A named feed stays writable

`get_by_name` opens a feed with the secret key derived from the name and leaves
the name in the directory of the feed.  Any later lookup of the feed, by name,
by key or by discovery key, in this process or in another, gives a feed with its
secret key, whatever happens in between: the open feeds are found in the
indexes, and a feed that is opened again is opened by its stored name.

The empty name is an exception, since the file that holds it looks like one that
was never written; and a read-only feed that was opened before the name was used
stays with those who hold it, but is not found any more.
-/

namespace Writable

/-- The feed has its secret key. -/
def Signs (crypto : Crypto) (arc : ArcFeed) : Prop :=
  ∃ secret,
    arc.feed.secretKey = some secret ∧
      crypto.publicKey secret = arc.publicKey

/-- A feed that one of the indexes finds for a public key. -/
def Found
    (crypto : Crypto)
    (feeds : FeedMap)
    (key : Key)
    (arc : ArcFeed) : Prop :=
  feeds.getKey key = some arc ∨
    feeds.getDkey (crypto.discoveryKey key) = some arc

/-- The feeds that are found for a public key have their secret key. -/
def Secured
    (crypto : Crypto)
    (feeds : FeedMap)
    (key : Key) : Prop :=
  ∀ arc, Found crypto feeds key arc → Signs crypto arc

/-- What holds of the feeds found by name. -/
structure NamesSecured
    (crypto : Crypto)
    (storagePath : Path)
    (disk : Disk)
    (feeds : FeedMap) : Prop where
  signs :
    ∀ {name arc},
      feeds.getName name = some arc → Signs crypto arc
  secured :
    ∀ {name arc},
      feeds.getName name = some arc →
      Secured crypto feeds arc.publicKey
  stored :
    ∀ {name arc},
      feeds.getName name = some arc →
      name ≠ [] →
      disk (namePath crypto storagePath
        (crypto.discoveryKey arc.publicKey)) ≠ []

/--
How a call registers a feed: without a name it is one whose key was not known,
with a name it has its secret key and the name is stored.
-/
def RegistersFeed
    (crypto : Crypto)
    (storagePath : Path)
    (memory after : Memory)
    (arc : ArcFeed)
    (name : Option Name) : Prop :=
  after.inner = memory.inner.registered crypto arc name ∧
    match name with
    | none => memory.inner.feeds.getKey arc.publicKey = none
    | some text =>
        Signs crypto arc ∧
          (text ≠ [] →
            after.disk (namePath crypto storagePath
              (crypto.discoveryKey arc.publicKey)) ≠ [])

/-- A call leaves the store as it is, or registers a feed. -/
def CallEffect
    (crypto : Crypto)
    (storagePath : Path)
    (memory after : Memory) : Prop :=
  after.inner = memory.inner ∨
    ∃ arc name, RegistersFeed crypto storagePath memory after arc name

/-! ## Indexes after a registration -/

section

variable
  {discoveryKey : Key → Key}
  {keyOfName : Name → Key}
  {feedMap : FeedMap}
  (indexed : feedMap.Indexed discoveryKey keyOfName)

include indexed

/-- What an index finds after a feed has been entered in it. -/
theorem bind_lookup_insert
    {κ : Type}
    [DecidableEq κ]
    {index : Table κ Nat}
    (sound :
      ∀ {key id},
        index.lookup key = some id →
        ∃ arc, feedMap.feeds.lookup id = some arc)
    (arc : ArcFeed)
    (inserted key : κ) :
    (((index.insert inserted feedMap.feeds.size).lookup key).bind
        fun id =>
          (feedMap.feeds.insert feedMap.feeds.size arc).lookup id) =
      if key = inserted then
        some arc
      else
        (index.lookup key).bind fun id => feedMap.feeds.lookup id := by
  rw [Table.lookup_insert_ite]
  split
  · simp
  · cases known : index.lookup key with
    | none =>
        rfl
    | some id =>
        obtain ⟨other, stored⟩ := sound known
        simp only [Option.bind_some, stored]
        exact indexed.lookup_insert_of_some stored arc

/-- The feed found by key after an insertion. -/
theorem getKey_insert
    (arc : ArcFeed)
    (name : Option Name)
    (key : Key) :
    (feedMap.insert discoveryKey arc name).getKey key =
      if key = arc.publicKey then some arc else feedMap.getKey key := by
  refine bind_lookup_insert indexed ?_ arc arc.publicKey key
  intro other id known
  obtain ⟨stored, found, _⟩ := indexed.keySound known
  exact ⟨stored, found⟩

/-- The feed found by discovery key after an insertion. -/
theorem getDkey_insert
    (arc : ArcFeed)
    (name : Option Name)
    (dkey : Key) :
    (feedMap.insert discoveryKey arc name).getDkey dkey =
      if dkey = discoveryKey arc.publicKey then
        some arc
      else
        feedMap.getDkey dkey := by
  refine bind_lookup_insert indexed ?_ arc
    (discoveryKey arc.publicKey) dkey
  intro other id known
  obtain ⟨stored, found, _⟩ := indexed.dkeySound known
  exact ⟨stored, found⟩

/-- The feed found by name after an insertion. -/
theorem getName_insert
    (arc : ArcFeed)
    (given : Option Name)
    (name : Name) :
    (feedMap.insert discoveryKey arc given).getName name =
      if some name = given then
        some arc
      else
        feedMap.getName name := by
  have sound :
      ∀ {other id},
        feedMap.names.lookup other = some id →
        ∃ stored, feedMap.feeds.lookup id = some stored := by
    intro other id known
    obtain ⟨stored, found, _⟩ := indexed.nameSound known
    exact ⟨stored, found⟩
  cases given with
  | none =>
      simp only [FeedMap.getName, FeedMap.insert, reduceCtorEq,
        ↓reduceIte]
      cases known : feedMap.names.lookup name with
      | none =>
          rfl
      | some id =>
          obtain ⟨other, stored⟩ := sound known
          simp only [Option.bind_some, stored]
          exact indexed.lookup_insert_of_some stored arc
  | some text =>
      simp only [Option.some.injEq]
      exact bind_lookup_insert indexed sound arc text name

end

/-! ## What a call stores and registers -/

section

variable
  {crypto : Crypto}
  {storagePath : Path}
  {faults : Faults}
  {random : Key}
  {memory : Memory}

/-- A name that has been stored is there. -/
theorem storeName_stored
    (lenSucceeds : faults .lenNameToWrite = false)
    {before after : Disk}
    {identity : Identity}
    {wrote : Bool}
    (named :
      storeName crypto storagePath faults before identity =
        (after, .ok wrote))
    {text : Name}
    (isName : identity.name = some text)
    (nonempty : text ≠ []) :
    after (namePath crypto storagePath
      (crypto.discoveryKey identity.publicKey)) ≠ [] := by
  simp only [storeName, isName, writeNameIfEmpty, lenSucceeds,
    Bool.false_eq_true, ↓reduceIte] at named
  split at named
  · cases named
  · split at named
    · next holdsName =>
        cases named
        exact List.length_pos_iff.mp holdsName
    · split at named
      · cases named
      · cases named
        rw [Disk.write_same]
        simp [nonempty]

/-- Storing a name leaves every name that is stored as it is. -/
theorem storeName_namePath
    (lenSucceeds : faults .lenNameToWrite = false)
    {disk : Disk}
    {dkey : Key}
    (holdsName : disk (namePath crypto storagePath dkey) ≠ [])
    (identity : Identity) :
    (storeName crypto storagePath faults disk identity).1
        (namePath crypto storagePath dkey) =
      disk (namePath crypto storagePath dkey) := by
  rcases storeName_disk crypto storagePath lenSucceeds disk identity with
    same | ⟨name, _, empty, written⟩
  · rw [same]
  · rw [written]
    refine Disk.write_other disk ?_ name
    intro same
    rw [same] at holdsName
    exact holdsName empty

/-- Building a feed leaves every name as it is. -/
theorem buildFeed_namePath
    (faults : Faults)
    (disk : Disk)
    (identity : Identity)
    (dkey : Key) :
    (buildFeed crypto storagePath faults disk identity).1
        (namePath crypto storagePath dkey) =
      disk (namePath crypto storagePath dkey) := by
  rcases buildFeed_disk crypto storagePath faults disk identity with
    same | written
  · rw [same]
  · rw [written]
    exact Disk.write_other disk (namePath_ne_keyPath _ _) _

/-- Opening a feed leaves every name that is stored as it is. -/
theorem openIdentified_namePath
    (lenSucceeds : faults .lenNameToWrite = false)
    {dkey : Key}
    (holdsName : memory.disk (namePath crypto storagePath dkey) ≠ [])
    (identity : Identity) :
    (openIdentified crypto storagePath faults memory
        identity).1.disk (namePath crypto storagePath dkey) =
      memory.disk (namePath crypto storagePath dkey) := by
  have naming :
      (storeName crypto storagePath faults memory.disk identity).1
          (namePath crypto storagePath dkey) =
        memory.disk (namePath crypto storagePath dkey) :=
    storeName_namePath lenSucceeds holdsName identity
  simp only [openIdentified]
  split
  · next named =>
      rw [named] at naming
      exact naming
  · next disk wrote named =>
      rw [named] at naming
      have building :
          (buildFeed crypto storagePath faults disk identity).1
              (namePath crypto storagePath dkey) =
            disk (namePath crypto storagePath dkey) :=
        buildFeed_namePath faults disk identity dkey
      split
      · next built =>
          rw [built] at building
          exact building.trans naming
      · next built =>
          rw [built] at building
          exact building.trans naming

/-- What is known of a feed that `open_feed` has decided on. -/
def Decided
    (crypto : Crypto)
    (memory : Memory)
    (identity : Identity) : Prop :=
  match identity.name with
  | none => memory.inner.feeds.getKey identity.publicKey = none
  | some _ =>
      ∃ secret,
        identity.secretKey = some secret ∧
          crypto.publicKey secret = identity.publicKey

/-- The feed that is opened by a key which is not known. -/
theorem decided_identify
    {key : Option Key}
    {name : Option Name}
    {identity : Identity}
    (unknown : key.bind memory.inner.feeds.getKey = none)
    (identified :
      identify crypto storagePath faults random memory key name =
        .ok identity) :
    Decided crypto memory identity := by
  cases name with
  | some name =>
      cases key <;> cases identified <;> exact ⟨_, rfl, rfl⟩
  | none =>
      cases key with
      | none =>
          cases identified
          exact ⟨_, rfl, rfl⟩
      | some key =>
          simp only [identify, bind, Except.bind] at identified
          split at identified
          · cases identified
          · next found read =>
              cases found with
              | some name =>
                  cases identified
                  exact ⟨_, rfl, rfl⟩
              | none =>
                  simp only [pubkeyFromBytes] at identified
                  split at identified
                  · cases identified
                  · next publicKey isKey =>
                      split at isKey
                      · cases isKey
                        cases identified
                        exact unknown
                      · cases isKey

/-- Opening a feed that has been decided on. -/
theorem callEffect_openIdentified
    (lenSucceeds : faults .lenNameToWrite = false)
    {identity : Identity}
    (decided : Decided crypto memory identity) :
    CallEffect crypto storagePath memory
      (openIdentified crypto storagePath faults memory identity).1 := by
  simp only [openIdentified]
  split
  · exact Or.inl rfl
  · next disk wrote named =>
      have sameNames :
          ∀ dkey,
            (buildFeed crypto storagePath faults disk identity).1
                (namePath crypto storagePath dkey) =
              disk (namePath crypto storagePath dkey) :=
        buildFeed_namePath faults disk identity
      split
      · exact Or.inl rfl
      · next builtDisk feed built =>
          rw [built] at sameNames
          have isFeed := buildFeed_ok built
          refine Or.inr
            ⟨⟨memory.allocated, feed⟩, identity.name, rfl, ?_⟩
          subst isFeed
          cases isName : identity.name with
          | none =>
              rw [Decided, isName] at decided
              exact decided
          | some text =>
              rw [Decided, isName] at decided
              refine ⟨decided, fun nonempty => ?_⟩
              have stored :=
                storeName_stored lenSucceeds named isName nonempty
              rw [← sameNames] at stored
              exact stored

/-- What `open_feed` does to the store and to the names. -/
theorem callEffect_openFeed
    (lenSucceeds : faults .lenNameToWrite = false)
    (key : Option Key)
    (name : Option Name) :
    CallEffect crypto storagePath memory
        (openFeed crypto storagePath faults random memory
          key name).1 ∧
      ∀ dkey,
        memory.disk (namePath crypto storagePath dkey) ≠ [] →
        (openFeed crypto storagePath faults random memory
            key name).1.disk (namePath crypto storagePath dkey) =
          memory.disk (namePath crypto storagePath dkey) := by
  simp only [openFeed]
  split
  · exact ⟨Or.inl rfl, fun _ _ => rfl⟩
  · next unknown =>
      split
      · exact ⟨Or.inl rfl, fun _ _ => rfl⟩
      · split
        · exact ⟨Or.inl rfl, fun _ _ => rfl⟩
        · next identity identified =>
            exact ⟨callEffect_openIdentified lenSucceeds
                (decided_identify unknown identified),
              fun dkey holdsName =>
                openIdentified_namePath lenSucceeds holdsName identity⟩

/-- What a call does to the store and to the names. -/
theorem callEffect_answer
    (lenSucceeds : faults .lenNameToWrite = false)
    (query : Query) :
    CallEffect crypto storagePath memory
        (answer crypto storagePath faults random memory query).1 ∧
      ∀ dkey,
        memory.disk (namePath crypto storagePath dkey) ≠ [] →
        (answer crypto storagePath faults random memory
            query).1.disk (namePath crypto storagePath dkey) =
          memory.disk (namePath crypto storagePath dkey) := by
  cases query with
  | byKey key =>
      exact callEffect_openFeed lenSucceeds (some key) none
  | byName name =>
      exact callEffect_openFeed lenSucceeds none (some name)
  | byDkey dkey =>
      simp only [answer, getByDkey]
      split
      · exact ⟨Or.inl rfl, fun _ _ => rfl⟩
      · split
        · exact ⟨Or.inl rfl, fun _ _ => rfl⟩
        · split
          · exact ⟨Or.inl rfl, fun _ _ => rfl⟩
          · exact callEffect_openFeed lenSucceeds (some _) none

/-- A feed that has been opened is found by its key and by its name. -/
theorem openIdentified_found
    (indexed : memory.inner.Indexed crypto)
    {identity : Identity}
    {after : Memory}
    {arc : ArcFeed}
    (opened :
      openIdentified crypto storagePath faults memory identity =
        (after, .ok arc)) :
    after.inner.feeds.getKey arc.publicKey = some arc ∧
      ∀ text ∈ identity.name,
        after.inner.feeds.getName text = some arc := by
  simp only [openIdentified] at opened
  split at opened
  · cases opened
  · split at opened
    · cases opened
    · next feed built =>
        simp only [register, Prod.mk.injEq] at opened
        obtain ⟨rfl, returned⟩ := opened
        split at returned
        · cases returned
          refine ⟨?_, fun text isName => ?_⟩
          · rw [getKey_insert indexed, if_pos rfl]
          · rw [getName_insert indexed, if_pos isName.symm]
        · cases returned

/-- A feed that `open_feed` returns is found by key or by name. -/
theorem openFeed_found
    (indexed : memory.inner.Indexed crypto)
    {key : Option Key}
    {name : Option Name}
    {after : Memory}
    {arc : ArcFeed}
    (answered :
      openFeed crypto storagePath faults random memory key name =
        (after, .ok arc)) :
    Found crypto after.inner.feeds arc.publicKey arc ∨
      ∃ text, after.inner.feeds.getName text = some arc := by
  simp only [openFeed] at answered
  split at answered
  · next found =>
      cases answered
      obtain ⟨given, _, isKnown⟩ := Option.bind_eq_some_iff.mp found
      refine Or.inl (Or.inl ?_)
      rw [(FeedMap.Indexed.of_getKey indexed isKnown).1]
      exact isKnown
  · split at answered
    · next found =>
        cases answered
        obtain ⟨text, _, isKnown⟩ := Option.bind_eq_some_iff.mp found
        exact Or.inr ⟨text, isKnown⟩
    · split at answered
      · cases answered
      · exact Or.inl
          (Or.inl (openIdentified_found indexed answered).1)

/-- A feed that `get_by_name` returns is found by its name. -/
theorem getByName_found
    (indexed : memory.inner.Indexed crypto)
    {name : Name}
    {after : Memory}
    {arc : ArcFeed}
    (answered :
      getByName crypto storagePath faults random memory name =
        (after, .ok arc)) :
    after.inner.feeds.getName name = some arc := by
  simp only [getByName, openFeed, Option.bind_none,
    Option.bind_some] at answered
  split at answered
  · next found =>
      cases answered
      exact found
  · exact (openIdentified_found indexed answered).2 name rfl

/-- A feed that a call returns is found by one of the indexes afterwards. -/
theorem answer_found
    (indexed : memory.inner.Indexed crypto)
    {query : Query}
    {after : Memory}
    {arc : ArcFeed}
    (answered :
      answer crypto storagePath faults random memory query =
        (after, .ok (some arc))) :
    Found crypto after.inner.feeds arc.publicKey arc ∨
      ∃ text, after.inner.feeds.getName text = some arc := by
  have ofOpenFeed :
      ∀ key name,
        ((openFeed crypto storagePath faults random memory
            key name).1,
          (openFeed crypto storagePath faults random memory
            key name).2.map some) =
          (after, Except.ok (some arc)) →
        Found crypto after.inner.feeds arc.publicKey arc ∨
          ∃ text, after.inner.feeds.getName text = some arc := by
    intro key name same
    cases outcome :
        openFeed crypto storagePath faults random memory key name with
    | mk memory result =>
        rw [outcome, Prod.mk.injEq] at same
        obtain ⟨rfl, returned⟩ := same
        cases result with
        | error failure =>
            cases returned
        | ok other =>
            cases returned
            exact openFeed_found indexed outcome
  cases query with
  | byKey key =>
      exact ofOpenFeed (some key) none answered
  | byName name =>
      exact ofOpenFeed none (some name) answered
  | byDkey dkey =>
      simp only [answer, getByDkey] at answered
      split at answered
      · next found =>
          cases answered
          refine Or.inl (Or.inr ?_)
          rw [(FeedMap.Indexed.of_getDkey indexed found).1]
          exact found
      · split at answered
        · cases answered
        · split at answered
          · cases answered
          · exact ofOpenFeed (some _) none answered

end

/-! ## The invariants -/

/-- The feeds found by name in the process of a directory. -/
def NamesKept
    (crypto : Crypto)
    (storagePath : Path)
    (directory : Directory) : Prop :=
  ∀ inner ∈ directory.inner,
    NamesSecured crypto storagePath directory.disk inner.feeds

/-- A public key whose feed is found, or opened, with its secret key. -/
structure Kept
    (crypto : Crypto)
    (storagePath : Path)
    (key : Key)
    (directory : Directory) : Prop where
  stored :
    directory.disk
      (namePath crypto storagePath (crypto.discoveryKey key)) ≠ []
  secured :
    ∀ inner ∈ directory.inner, Secured crypto inner.feeds key

section

variable
  {crypto : Crypto}
  {storagePath : Path}
  {keys masters : Set Key}
  {faults : Faults}
  {random : Key}
  {memory after : Memory}
  {directory next : Directory}

/-- A key stays secured when a feed is registered. -/
theorem Secured.registered
    (indexed : memory.inner.Indexed crypto)
    {key : Key}
    (secured : Secured crypto memory.inner.feeds key)
    {arc : ArcFeed}
    (name : Option Name)
    (collisionFree :
      crypto.discoveryKey key = crypto.discoveryKey arc.publicKey →
      key = arc.publicKey)
    (signs : key = arc.publicKey → Signs crypto arc) :
    Secured crypto
      (memory.inner.registered crypto arc name).feeds key := by
  intro other found
  rcases found with byKey | byDkey
  · rw [InnerCorestore.registered, getKey_insert indexed] at byKey
    split at byKey
    · next same =>
        cases byKey
        exact signs same
    · exact secured other (Or.inl byKey)
  · rw [InnerCorestore.registered, getDkey_insert indexed] at byDkey
    split at byDkey
    · next same =>
        cases byDkey
        exact signs (collisionFree same)
    · exact secured other (Or.inr byDkey)

/-- A feed that has just been registered with its secret key. -/
theorem secured_of_registered
    (indexed : memory.inner.Indexed crypto)
    {arc : ArcFeed}
    (signs : Signs crypto arc)
    (name : Option Name) :
    Secured crypto
      (memory.inner.registered crypto arc name).feeds
      arc.publicKey := by
  intro other found
  rw [Found, InnerCorestore.registered, getKey_insert indexed,
    getDkey_insert indexed, if_pos rfl, if_pos rfl] at found
  rcases found with byKey | byDkey
  · cases byKey
    exact signs
  · cases byDkey
    exact signs

/-- A feed that a call registers is known. -/
theorem known_of_registered
    (sound : SoundMemory crypto storagePath keys masters memory)
    (soundAfter : SoundMemory crypto storagePath keys masters after)
    {arc : ArcFeed}
    {name : Option Name}
    (registered :
      after.inner = memory.inner.registered crypto arc name) :
    arc.publicKey ∈ keys := by
  refine soundAfter.store.feedsKnown arc ?_
  rw [registered]
  have added :=
    FeedMap.Indexed.iter_insert sound.store.indexed arc name
  exact added ▸ List.mem_cons_self

/-- Every call keeps what holds of the feeds found by name. -/
theorem NamesSecured.call
    (collisionFree : CollisionFree crypto keys)
    (sound : SoundMemory crypto storagePath keys masters memory)
    (soundAfter : SoundMemory crypto storagePath keys masters after)
    (effect : CallEffect crypto storagePath memory after)
    (sameNames :
      ∀ dkey,
        memory.disk (namePath crypto storagePath dkey) ≠ [] →
        after.disk (namePath crypto storagePath dkey) =
          memory.disk (namePath crypto storagePath dkey))
    (secured :
      NamesSecured crypto storagePath memory.disk
        memory.inner.feeds) :
    NamesSecured crypto storagePath after.disk after.inner.feeds := by
  have stillStored :
      ∀ dkey,
        memory.disk (namePath crypto storagePath dkey) ≠ [] →
        after.disk (namePath crypto storagePath dkey) ≠ [] := by
    intro dkey holdsName
    rw [sameNames dkey holdsName]
    exact holdsName
  rcases effect with same | ⟨arc, name, registered, how⟩
  · rw [same]
    exact ⟨secured.signs, secured.secured,
      fun found nonempty =>
        stillStored _ (secured.stored found nonempty)⟩
  · have indexed : memory.inner.Indexed crypto := sound.store.indexed
    have isKnown := known_of_registered sound soundAfter registered
    have cases :
        ∀ {text other},
          after.inner.feeds.getName text = some other →
          (some text = name ∧ other = arc) ∨
            memory.inner.feeds.getName text = some other := by
      intro text other found
      rw [registered, InnerCorestore.registered,
        getName_insert indexed] at found
      split at found
      · next isNew =>
          cases found
          exact Or.inl ⟨isNew, rfl⟩
      · exact Or.inr found
    refine ⟨?_, ?_, ?_⟩
    · intro text other found
      rcases cases found with ⟨rfl, rfl⟩ | before
      · exact how.1
      · exact secured.signs before
    · intro text other found
      rw [registered]
      rcases cases found with ⟨rfl, rfl⟩ | before
      · exact secured_of_registered indexed how.1 _
      · obtain ⟨_, isOpen⟩ :=
          FeedMap.Indexed.of_getName indexed before
        refine (secured.secured before).registered indexed name
          (collisionFree _ (sound.store.feedsKnown other isOpen) _
            isKnown) ?_
        intro sameKey
        cases name with
        | none =>
            have isCached :=
              FeedMap.Indexed.getKey_isSome indexed isOpen
            rw [sameKey, show memory.inner.feeds.getKey arc.publicKey =
              none from how] at isCached
            cases isCached
        | some text =>
            exact how.1
    · intro text other found nonempty
      rcases cases found with ⟨rfl, rfl⟩ | before
      · exact how.2 nonempty
      · exact stillStored _ (secured.stored before nonempty)

/-- Every call keeps a key whose name is stored. -/
theorem secured_call
    (collisionFree : CollisionFree crypto keys)
    (sound : SoundMemory crypto storagePath keys masters memory)
    {query : Query}
    {outcome : Memory × Except Failure (Option ArcFeed)}
    (answered :
      Answered crypto storagePath keys masters memory query outcome)
    (effect : CallEffect crypto storagePath memory outcome.1)
    {key : Key}
    (isKnown : key ∈ keys)
    (stored :
      outcome.1.disk
        (namePath crypto storagePath (crypto.discoveryKey key)) ≠ [])
    (secured : Secured crypto memory.inner.feeds key) :
    Secured crypto outcome.1.inner.feeds key := by
  rcases effect with same | ⟨arc, name, registered, _⟩
  · rw [same]
    exact secured
  · have indexed : memory.inner.Indexed crypto := sound.store.indexed
    have added :
        outcome.1.inner.feeds.iter = arc :: memory.inner.feeds.iter := by
      rw [registered]
      exact FeedMap.Indexed.iter_insert indexed arc name
    have arcKnown :=
      known_of_registered sound answered.sound registered
    rw [registered]
    refine secured.registered indexed name
      (collisionFree key isKnown _ arcKnown) ?_
    intro sameKey
    rcases answered.opened with same | ⟨other, otherAdded, _, secret⟩
    · rw [same] at added
      exact absurd (congrArg List.length added) (by simp)
    · have isArc : arc = other :=
        (List.cons.inj (added.symm.trans otherAdded)).1
      rw [← isArc, ← sameKey] at secret
      obtain ⟨isSecret, signs, isPublic⟩ := secret stored
      exact ⟨isSecret, signs, isPublic.trans sameKey⟩

/-- Opening the directory leaves the names as they are. -/
theorem namePath_of_opening
    {disk written : Disk}
    {result : Except Failure InnerCorestore}
    (opening : Opening storagePath faults random disk written result)
    (dkey : Key) :
    written (namePath crypto storagePath dkey) =
      disk (namePath crypto storagePath dkey) := by
  cases opening with
  | failed failure fails =>
      rfl
  | found stored =>
      rfl
  | generated opens writes unread =>
      exact Disk.write_other disk
        (masterKeyPath_ne_namePath dkey).symm _

/-- Nothing is found in a store without feeds. -/
theorem secured_new (key : Key) : Secured crypto .new key := by
  rintro arc (found | found) <;>
    simp [FeedMap.getKey, FeedMap.getDkey, FeedMap.new] at found

/-- Nothing is found by name in a store without feeds. -/
theorem namesSecured_new (disk : Disk) :
    NamesSecured crypto storagePath disk .new := by
  have nothing :
      ∀ {name arc}, FeedMap.new.getName name ≠ some arc := by
    simp [FeedMap.getName, FeedMap.new]
  exact ⟨fun found => absurd found nothing,
    fun found => absurd found nothing,
    fun found => absurd found nothing⟩

/-- A step that is not a call: a restart, or one about subscriptions. -/
def Quiet
    (crypto : Crypto)
    (storagePath : Path)
    (directory next : Directory) : Prop :=
  (∀ dkey,
    next.disk (namePath crypto storagePath dkey) =
      directory.disk (namePath crypto storagePath dkey)) ∧
    ∀ inner ∈ next.inner,
      inner.feeds = .new ∨
        ∃ before ∈ directory.inner, inner.feeds = before.feeds

/-- What a step does to the names and to the open feeds. -/
theorem quiet_or_call
    (collisionFree : CollisionFree crypto keys)
    (sound : Sound crypto storagePath keys masters directory)
    {action : Action}
    (allowed : action.Allowed crypto keys masters)
    (stepped :
      Corestore.step crypto storagePath directory action = some next) :
    Quiet crypto storagePath directory next ∨
      ∃ before ∈ directory.inner, ∃ query outcome,
        next = Memory.directory (Prod.fst outcome) ∧
          Answered crypto storagePath keys masters
            (directory.memory before) query outcome ∧
          CallEffect crypto storagePath (directory.memory before)
            outcome.1 ∧
          ∀ dkey,
            directory.disk (namePath crypto storagePath dkey) ≠ [] →
            outcome.1.disk (namePath crypto storagePath dkey) =
              directory.disk (namePath crypto storagePath dkey) := by
  cases action with
  | reopen random faults =>
      obtain ⟨written, result, opening, rfl⟩ :=
        opening_of_reopen stepped
      exact Or.inl ⟨namePath_of_opening opening,
        fun inner isOpen => Or.inl (opening.feeds isOpen)⟩
  | query query random faults =>
      simp only [Corestore.step, Option.map_eq_some_iff] at stepped
      obtain ⟨before, wasOpen, rfl⟩ := stepped
      obtain ⟨effect, sameNames⟩ :=
        callEffect_answer allowed.2.2.2.2.1 query
      exact Or.inr ⟨before, wasOpen, query, _, rfl,
        answered_answer random collisionFree allowed.2
          (sound.ofProcess wasOpen) allowed.1,
        effect, sameNames⟩
  | subscribe =>
      simp only [Corestore.step, Option.map_eq_some_iff] at stepped
      obtain ⟨before, wasOpen, rfl⟩ := stepped
      refine Or.inl ⟨fun _ => rfl, ?_⟩
      intro inner isOpen
      cases isOpen
      exact Or.inr ⟨before, wasOpen, rfl⟩
  | dropReceiver index =>
      simp only [Corestore.step, Option.map_eq_some_iff] at stepped
      obtain ⟨before, wasOpen, rfl⟩ := stepped
      refine Or.inl ⟨fun _ => rfl, ?_⟩
      intro inner isOpen
      cases isOpen
      exact Or.inr ⟨before, wasOpen, rfl⟩

/-- Every step keeps what holds of the feeds found by name. -/
theorem NamesKept.step
    (kept : NamesKept crypto storagePath directory)
    (collisionFree : CollisionFree crypto keys)
    (sound : Sound crypto storagePath keys masters directory)
    {action : Action}
    (allowed : action.Allowed crypto keys masters)
    (stepped :
      Corestore.step crypto storagePath directory action = some next) :
    NamesKept crypto storagePath next := by
  intro inner isOpen
  rcases quiet_or_call collisionFree sound allowed stepped with
    ⟨sameNames, feeds⟩ |
      ⟨before, wasOpen, query, outcome, rfl, answered, effect,
        sameNames⟩
  · rcases feeds inner isOpen with isNew | ⟨before, wasOpen, same⟩
    · rw [isNew]
      exact namesSecured_new _
    · have secured := kept before wasOpen
      rw [same]
      refine ⟨secured.signs, secured.secured, ?_⟩
      intro name arc found nonempty
      rw [sameNames]
      exact secured.stored found nonempty
  · cases isOpen
    exact NamesSecured.call collisionFree (sound.ofProcess wasOpen)
      answered.sound effect sameNames (kept before wasOpen)

/-- Every step keeps a key whose name is stored. -/
theorem Kept.step
    {key : Key}
    (kept : Kept crypto storagePath key directory)
    (isKnown : key ∈ keys)
    (collisionFree : CollisionFree crypto keys)
    (sound : Sound crypto storagePath keys masters directory)
    {action : Action}
    (allowed : action.Allowed crypto keys masters)
    (stepped :
      Corestore.step crypto storagePath directory action = some next) :
    Kept crypto storagePath key next := by
  rcases quiet_or_call collisionFree sound allowed stepped with
    ⟨sameNames, feeds⟩ |
      ⟨before, wasOpen, query, outcome, rfl, answered, effect,
        sameNames⟩
  · refine ⟨?_, ?_⟩
    · rw [sameNames]
      exact kept.stored
    · intro inner isOpen
      rcases feeds inner isOpen with isNew | ⟨before, wasOpen, same⟩
      · rw [isNew]
        exact secured_new key
      · rw [same]
        exact kept.secured before wasOpen
  · have stored :
        outcome.1.disk
          (namePath crypto storagePath (crypto.discoveryKey key)) ≠ [] := by
      rw [sameNames _ kept.stored]
      exact kept.stored
    refine ⟨stored, ?_⟩
    intro inner isOpen
    cases isOpen
    exact secured_call collisionFree (sound.ofProcess wasOpen) answered
      effect isKnown stored (kept.secured before wasOpen)

end

/-! ## Runs -/

section

variable
  {crypto : Crypto}
  {storagePath : Path}
  {keys masters : Set Key}

/-- What holds in every run. -/
structure Holds
    (crypto : Crypto)
    (storagePath : Path)
    (keys masters : Set Key)
    (directory : Directory) : Prop where
  sound : Sound crypto storagePath keys masters directory
  names : NamesKept crypto storagePath directory

/-- Every step keeps it. -/
theorem Holds.step
    (collisionFree : CollisionFree crypto keys)
    {directory next : Directory}
    (holds : Holds crypto storagePath keys masters directory)
    {action : Action}
    (allowed : action.Allowed crypto keys masters)
    (stepped :
      Corestore.step crypto storagePath directory action = some next) :
    Holds crypto storagePath keys masters next where
  sound := holds.sound.step collisionFree allowed stepped
  names :=
    holds.names.step collisionFree holds.sound allowed stepped

/-- It holds after every run from an empty directory. -/
theorem holds_run
    (collisionFree : CollisionFree crypto keys)
    {actions : List Action}
    {directory : Directory}
    (allowed : ∀ action ∈ actions, action.Allowed crypto keys masters)
    (ran :
      Machine.run (Corestore.step crypto storagePath) .empty actions =
        some directory) :
    Holds crypto storagePath keys masters directory := by
  have starts : Holds crypto storagePath keys masters .empty :=
    ⟨sound_empty, by simp [NamesKept, Directory.empty]⟩
  refine Machine.invariant_run_along
    (Holds crypto storagePath keys masters) ?_ starts
    (Machine.along_of_mem allowed) ran
  intro state action next holds permitted stepped
  exact holds.step collisionFree permitted stepped

/-- The key of a feed that `get_by_name` has returned is kept. -/
theorem Holds.kept_of_getByName
    (collisionFree : CollisionFree crypto keys)
    {before : Directory}
    (holds : Holds crypto storagePath keys masters before)
    {inner : InnerCorestore}
    (isOpen : before.inner = some inner)
    {name : Name}
    (nonempty : name ≠ [])
    (known : (Query.byName name).Known crypto keys masters)
    {faults : Faults}
    (reads : ReadsSucceed faults)
    {random : Key}
    {memory : Memory}
    {arc : ArcFeed}
    (answered :
      getByName crypto storagePath faults random
          (before.memory inner) name =
        (memory, .ok arc)) :
    Holds crypto storagePath keys masters memory.directory ∧
      arc.publicKey ∈ keys ∧
      Kept crypto storagePath arc.publicKey memory.directory := by
  have stepped :
      Corestore.step crypto storagePath before
          (.query (.byName name) random faults) =
        some memory.directory := by
    simp [Corestore.step, isOpen, answer, answered]
  have permitted :
      (Action.query (.byName name) random faults).Allowed crypto keys
        masters :=
    ⟨known, reads⟩
  have later : Holds crypto storagePath keys masters memory.directory :=
    holds.step collisionFree permitted stepped
  have indexed : inner.Indexed crypto :=
    (holds.sound.ofProcess isOpen).store.indexed
  have found : memory.inner.feeds.getName name = some arc :=
    getByName_found indexed answered
  have names := later.names memory.inner rfl
  have store := later.sound.store memory.inner rfl
  have isFound :=
    FeedMap.Indexed.of_getName store.indexed found
  refine ⟨later, store.feedsKnown arc isFound.2,
    names.stored found nonempty, ?_⟩
  intro other same
  cases same
  exact names.secured found

/-- A lookup that returns a feed whose key is kept. -/
theorem Holds.signs_of_kept
    (collisionFree : CollisionFree crypto keys)
    {directory : Directory}
    (holds : Holds crypto storagePath keys masters directory)
    {inner : InnerCorestore}
    (isOpen : directory.inner = some inner)
    {query : Query}
    (known : query.Known crypto keys masters)
    {faults : Faults}
    (reads : ReadsSucceed faults)
    {random : Key}
    {arc : ArcFeed}
    (answered :
      (answer crypto storagePath faults random
          (directory.memory inner) query).2 =
        .ok (some arc))
    (isKnown : arc.publicKey ∈ keys)
    (kept : Kept crypto storagePath arc.publicKey directory) :
    Signs crypto arc := by
  have stepped :
      Corestore.step crypto storagePath directory
          (.query query random faults) =
        some (answer crypto storagePath faults random
          (directory.memory inner) query).1.directory := by
    simp [Corestore.step, isOpen]
  have permitted :
      (Action.query query random faults).Allowed crypto keys masters :=
    ⟨known, reads⟩
  have names :=
    (holds.step collisionFree permitted stepped).names _ rfl
  have secured :=
    (kept.step isKnown collisionFree holds.sound permitted
      stepped).secured _ rfl
  have indexed : (directory.memory inner).inner.Indexed crypto :=
    (holds.sound.ofProcess isOpen).store.indexed
  rcases answer_found indexed (Prod.ext rfl answered) with
    isFound | ⟨text, isFound⟩
  · exact secured arc isFound
  · exact names.signs isFound

/--
In every run of lookups and restarts in which existing data can be read: once
`get_by_name` has returned a feed for a name that is not empty, every later
lookup that returns a feed with the same public key, by name, by key or by
discovery key and in any process, returns it with its secret key.
-/
theorem named_feed_stays_writable
    (collisionFree : CollisionFree crypto keys)
    {earlier later : List Action}
    {before after : Directory}
    {inner innerLater : InnerCorestore}
    {memory : Memory}
    {faults faultsLater : Faults}
    {random randomLater : Key}
    {name : Name}
    {query : Query}
    {arc arcLater : ArcFeed}
    (allowed : ∀ action ∈ earlier, action.Allowed crypto keys masters)
    (ran :
      Machine.run (Corestore.step crypto storagePath) .empty earlier =
        some before)
    (isOpen : before.inner = some inner)
    (nonempty : name ≠ [])
    (known : (Query.byName name).Known crypto keys masters)
    (reads : ReadsSucceed faults)
    (answered :
      getByName crypto storagePath faults random
          (before.memory inner) name =
        (memory, .ok arc))
    (allowedLater :
      ∀ action ∈ later, action.Allowed crypto keys masters)
    (ranLater :
      Machine.run (Corestore.step crypto storagePath) memory.directory
          later =
        some after)
    (isOpenLater : after.inner = some innerLater)
    (knownLater : query.Known crypto keys masters)
    (readsLater : ReadsSucceed faultsLater)
    (answeredLater :
      (answer crypto storagePath faultsLater randomLater
          (after.memory innerLater) query).2 =
        .ok (some arcLater))
    (sameKey : arcLater.publicKey = arc.publicKey) :
    Signs crypto arcLater := by
  obtain ⟨holdsThen, isKnown, keptThen⟩ :=
    (holds_run collisionFree allowed ran).kept_of_getByName
      collisionFree isOpen nonempty known reads answered
  obtain ⟨holdsLater, keptLater⟩ :
      Holds crypto storagePath keys masters after ∧
        Kept crypto storagePath arc.publicKey after := by
    refine Machine.invariant_run_along
      (fun state =>
        Holds crypto storagePath keys masters state ∧
          Kept crypto storagePath arc.publicKey state)
      ?_ ⟨holdsThen, keptThen⟩ (Machine.along_of_mem allowedLater)
      ranLater
    rintro state action next ⟨holds, kept⟩ permitted stepped
    exact ⟨holds.step collisionFree permitted stepped,
      kept.step isKnown collisionFree holds.sound permitted stepped⟩
  rw [← sameKey] at isKnown keptLater
  exact holdsLater.signs_of_kept collisionFree isOpenLater knownLater
    readsLater answeredLater isKnown keptLater

end

/-! ## An example -/

/-- The feed `foo` is first opened by its key, without its secret key. -/
def keyFirst : List Action :=
  [.reopen sampleMaster noFaults,
    .query (.byKey sampleFoo.publicKey) sampleMaster noFaults]

/-- The process is restarted. -/
def restarted : List Action :=
  [.reopen sampleMaster noFaults]

/-- After its name was used, `foo` is opened with its secret key. -/
theorem named_feed_stays_writable_keyFirst :
    ∃ before inner readOnly memory arc after innerLater arcLater,
      Machine.run (step sampleCrypto []) .empty keyFirst =
          some before ∧
        before.inner = some inner ∧
        inner.feeds.getKey sampleFoo.publicKey = some readOnly ∧
        readOnly.feed.secretKey = none ∧
        getByName sampleCrypto [] noFaults sampleMaster
            (before.memory inner) sampleFoo.name =
          (memory, .ok arc) ∧
        Machine.run (step sampleCrypto []) memory.directory restarted =
          some after ∧
        after.inner = some innerLater ∧
        (answer sampleCrypto [] noFaults sampleMaster
            (after.memory innerLater)
            (.byDkey sampleFoo.discoveryKey)).2 =
          .ok (some arcLater) ∧
        Signs sampleCrypto arcLater := by
  obtain ⟨before, inner, readOnly, memory, arc, after, innerLater,
      arcLater, ran, isOpen, wasReadOnly, noSecret, answered, ranLater,
      isOpenLater, answeredLater, sameKey⟩ :
      ∃ before inner readOnly memory arc after innerLater arcLater,
        Machine.run (step sampleCrypto []) .empty keyFirst =
            some before ∧
          before.inner = some inner ∧
          inner.feeds.getKey sampleFoo.publicKey = some readOnly ∧
          readOnly.feed.secretKey = none ∧
          getByName sampleCrypto [] noFaults sampleMaster
              (before.memory inner) sampleFoo.name =
            (memory, .ok arc) ∧
          Machine.run (step sampleCrypto []) memory.directory
              restarted =
            some after ∧
          after.inner = some innerLater ∧
          (answer sampleCrypto [] noFaults sampleMaster
              (after.memory innerLater)
              (.byDkey sampleFoo.discoveryKey)).2 =
            .ok (some arcLater) ∧
          arcLater.publicKey = arc.publicKey :=
    ⟨_, _, _, _, _, _, _, _, rfl, rfl, rfl, rfl, rfl, rfl, rfl, rfl,
      rfl⟩
  have reopens :
      (Action.reopen sampleMaster noFaults).Allowed sampleCrypto
        sampleKeys {sampleMaster} :=
    ⟨rfl, readsSucceed_noFaults⟩
  have known :
      Query.Known sampleCrypto sampleKeys {sampleMaster}
        (.byDkey sampleFoo.discoveryKey) :=
    trivial
  refine ⟨before, inner, readOnly, memory, arc, after, innerLater,
    arcLater, ran, isOpen, wasReadOnly, noSecret, answered, ranLater,
    isOpenLater, answeredLater, ?_⟩
  refine named_feed_stays_writable collisionFree_sample ?_ ran isOpen
    (by decide) (known_sample (Or.inl rfl)) readsSucceed_noFaults
    answered ?_ ranLater isOpenLater known readsSucceed_noFaults
    answeredLater sameKey
  · intro action member
    simp only [keyFirst, List.mem_cons, List.not_mem_nil,
      or_false] at member
    rcases member with rfl | rfl
    · exact reopens
    · exact ⟨Or.inl rfl, readsSucceed_noFaults⟩
  · intro action member
    rw [List.mem_singleton.mp member]
    exact reopens

end Writable

end Hyperspace.Corestore
