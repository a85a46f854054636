import Hyperspace.Corestore
import Mathlib.Data.Set.Insert

namespace Hyperspace.Corestore

/-!
# Lookups return the feed that was asked for

`get_by_key` does not use the key it is given when the feed's directory holds a
name: it opens the feed derived from that name.  That this is the same feed
rests on an invariant of the whole directory, kept by every route and over
restarts: a name is stored only in the directory of the key it derives, and a
key only in its own directory.

Discovery keys are assumed to be collision-free on the keys that occur, `keys`,
which contain the keys asked for and the keys derived from the names asked for
with a master key out of `masters`.
-/

/-! ## Paths -/

section

variable
  {crypto : Crypto}
  {storagePath : Path}

/-- Distinct discovery keys have distinct directories. -/
theorem feedPath_injective
    {first second : Key}
    (same :
      feedPath crypto storagePath first = feedPath crypto storagePath second) :
    first = second := by
  simp only [feedPath, List.append_cancel_left_eq, List.cons.injEq,
    and_true] at same
  exact Key.ext (crypto.hex.encode_injective same.2.2)

/-- Distinct discovery keys have distinct name files. -/
theorem namePath_injective
    {first second : Key}
    (same :
      namePath crypto storagePath first = namePath crypto storagePath second) :
    first = second :=
  feedPath_injective (List.append_cancel_right same)

/-- Distinct discovery keys have distinct key files. -/
theorem keyPath_injective
    {first second : Key}
    (same :
      keyPath crypto storagePath first = keyPath crypto storagePath second) :
    first = second :=
  feedPath_injective (List.append_cancel_right same)

/-- No name file is a key file. -/
theorem namePath_ne_keyPath (first second : Key) :
    namePath crypto storagePath first ≠
      keyPath crypto storagePath second := by
  intro same
  have last := congrArg List.getLast? same
  simp [namePath, keyPath] at last

/-- The master key is not stored in a name file. -/
theorem masterKeyPath_ne_namePath (dkey : Key) :
    masterKeyPath storagePath ≠ namePath crypto storagePath dkey := by
  intro same
  have lengths := congrArg List.length same
  simp [masterKeyPath, namePath, feedPath] at lengths

/-- The master key is not stored in a key file. -/
theorem masterKeyPath_ne_keyPath (dkey : Key) :
    masterKeyPath storagePath ≠ keyPath crypto storagePath dkey := by
  intro same
  have lengths := congrArg List.length same
  simp [masterKeyPath, keyPath, feedPath] at lengths

end

/-- A file that was just written. -/
theorem Disk.write_same (disk : Disk) (path : Path) (bytes : Bytes) :
    disk.write path bytes path =
      bytes ++ (disk path).drop bytes.length := by
  simp [Disk.write]

/-- Every other file is unchanged. -/
theorem Disk.write_other
    (disk : Disk)
    {path other : Path}
    (different : other ≠ path)
    (bytes : Bytes) :
    disk.write path bytes other = disk other := by
  simp [Disk.write, different]

/-- A key that was just written is read back. -/
theorem Disk.readKey?_write (disk : Disk) (path : Path) (key : Key) :
    (disk.write path key.bytes).readKey? path = some key := by
  rw [Disk.readKey?, Disk.write_same,
    List.take_append_of_le_length (by simp [key.length_eq]),
    List.take_of_length_le (by simp [key.length_eq])]
  simp

/-- Reading a key depends on that file only. -/
theorem Disk.readKey?_congr
    {disk other : Disk}
    {path : Path}
    (same : disk path = other path) :
    disk.readKey? path = other.readKey? path := by
  simp [Disk.readKey?, same]

/-! ## The invariant -/

section

variable
  (crypto : Crypto)
  (storagePath : Path)
  (keys masters : Set Key)

/-- Every name and key file is in the directory it belongs to. -/
structure SoundDisk (disk : Disk) : Prop where
  masterKnown :
    ∀ {masterKey},
      disk.readKey? (masterKeyPath storagePath) = some masterKey →
      masterKey ∈ masters
  nameFile :
    ∀ {dkey},
      disk (namePath crypto storagePath dkey) ≠ [] →
      ∃ masterKey,
        disk.readKey? (masterKeyPath storagePath) = some masterKey ∧
          crypto.keyOfName masterKey
              (disk (namePath crypto storagePath dkey)) ∈ keys ∧
          crypto.discoveryKey
              (crypto.keyOfName masterKey
                (disk (namePath crypto storagePath dkey))) = dkey
  keyFile :
    ∀ {dkey key},
      disk.readKey? (keyPath crypto storagePath dkey) = some key →
      key ∈ keys ∧ crypto.discoveryKey key = dkey

/-- The open store agrees with the disk, and its feeds are indexed. -/
structure SoundStore (disk : Disk) (inner : InnerCorestore) : Prop where
  master :
    disk.readKey? (masterKeyPath storagePath) = some inner.masterKey
  indexed :
    inner.feeds.Indexed crypto.discoveryKey
      (crypto.keyOfName inner.masterKey)
  feedsKnown :
    ∀ arc ∈ inner.feeds.iter, arc.publicKey ∈ keys

/-- Both parts of the invariant, for the memory of a process. -/
structure SoundMemory (memory : Memory) : Prop where
  disk : SoundDisk crypto storagePath keys masters memory.disk
  store : SoundStore crypto storagePath keys memory.disk memory.inner

/-- The invariant of a directory. -/
structure Sound (directory : Directory) : Prop where
  disk : SoundDisk crypto storagePath keys masters directory.disk
  store :
    ∀ inner ∈ directory.inner,
      SoundStore crypto storagePath keys directory.disk inner

/-- Discovery keys do not collide on the keys that occur. -/
def CollisionFree : Prop :=
  ∀ first ∈ keys, ∀ second ∈ keys,
    crypto.discoveryKey first = crypto.discoveryKey second →
    first = second

/-- The keys that a query can make the store use. -/
def Query.Known : Query → Prop
  | .byKey key => key ∈ keys
  | .byName name =>
      ∀ masterKey ∈ masters, crypto.keyOfName masterKey name ∈ keys
  | .byDkey _ => True

/-- Reading data that exists succeeds. -/
def ReadsSucceed (faults : Faults) : Prop :=
  faults .readMasterKey = false ∧ faults .lenNameToRead = false ∧
    faults .readName = false ∧ faults .lenNameToWrite = false ∧
    faults .readKey = false

/-- When nothing fails, no read does. -/
theorem readsSucceed_noFaults : ReadsSucceed noFaults :=
  ⟨rfl, rfl, rfl, rfl, rfl⟩

/-- A feed that may be opened: its key occurs and agrees with its name. -/
structure Identity.Fits (masterKey : Key) (identity : Identity) : Prop where
  known : identity.publicKey ∈ keys
  named :
    ∀ name ∈ identity.name,
      identity.publicKey = crypto.keyOfName masterKey name

/-- The files that opening a feed may change, and how. -/
structure Stored (identity : Identity) (before after : Disk) : Prop where
  other :
    ∀ path,
      path ≠ namePath crypto storagePath
        (crypto.discoveryKey identity.publicKey) →
      path ≠ keyPath crypto storagePath
        (crypto.discoveryKey identity.publicKey) →
      after path = before path
  nameFile :
    after (namePath crypto storagePath
        (crypto.discoveryKey identity.publicKey)) =
      before (namePath crypto storagePath
        (crypto.discoveryKey identity.publicKey)) ∨
      after (namePath crypto storagePath
        (crypto.discoveryKey identity.publicKey)) ∈ identity.name
  keyFile :
    after.readKey? (keyPath crypto storagePath
        (crypto.discoveryKey identity.publicKey)) =
      before.readKey? (keyPath crypto storagePath
        (crypto.discoveryKey identity.publicKey)) ∨
      after.readKey? (keyPath crypto storagePath
        (crypto.discoveryKey identity.publicKey)) =
        some identity.publicKey

end

section

variable
  {crypto : Crypto}
  {storagePath : Path}
  {keys masters : Set Key}
  {memory : Memory}
  {faults : Faults}
  {random : Key}

/-- Opening a feed leaves the master key alone. -/
theorem Stored.readKey?_master
    {identity : Identity}
    {before after : Disk}
    (stored : Stored crypto storagePath identity before after) :
    after.readKey? (masterKeyPath storagePath) =
      before.readKey? (masterKeyPath storagePath) :=
  Disk.readKey?_congr
    (stored.other _ (masterKeyPath_ne_namePath _)
      (masterKeyPath_ne_keyPath _))

/-- Opening a feed keeps every file in the directory it belongs to. -/
theorem SoundDisk.stored
    {identity : Identity}
    {masterKey : Key}
    {before after : Disk}
    (sound : SoundDisk crypto storagePath keys masters before)
    (master :
      before.readKey? (masterKeyPath storagePath) = some masterKey)
    (fits : identity.Fits crypto keys masterKey)
    (stored : Stored crypto storagePath identity before after) :
    SoundDisk crypto storagePath keys masters after where
  masterKnown := by
    intro other known
    rw [stored.readKey?_master] at known
    exact sound.masterKnown known
  nameFile := by
    intro dkey nonempty
    rw [stored.readKey?_master]
    have unchanged :
        after (namePath crypto storagePath dkey) =
            before (namePath crypto storagePath dkey) →
          ∃ other,
            before.readKey? (masterKeyPath storagePath) = some other ∧
              crypto.keyOfName other
                  (after (namePath crypto storagePath dkey)) ∈ keys ∧
              crypto.discoveryKey
                  (crypto.keyOfName other
                    (after (namePath crypto storagePath dkey))) = dkey := by
      intro same
      rw [same] at nonempty ⊢
      exact sound.nameFile nonempty
    by_cases here :
        dkey = crypto.discoveryKey identity.publicKey
    · subst dkey
      rcases stored.nameFile with same | written
      · exact unchanged same
      · have given := fits.named _ written
        refine ⟨masterKey, master, ?_, ?_⟩
        · rw [← given]
          exact fits.known
        · rw [← given]
    · refine unchanged (stored.other _ ?_ (namePath_ne_keyPath _ _))
      exact fun same => here (namePath_injective same)
  keyFile := by
    intro dkey key found
    by_cases here :
        dkey = crypto.discoveryKey identity.publicKey
    · subst dkey
      rcases stored.keyFile with same | written
      · rw [same] at found
        exact sound.keyFile found
      · rw [written] at found
        cases found
        exact ⟨fits.known, rfl⟩
    · have same :
          after (keyPath crypto storagePath dkey) =
            before (keyPath crypto storagePath dkey) :=
        stored.other _ (namePath_ne_keyPath _ _).symm
          (fun same => here (keyPath_injective same))
      rw [Disk.readKey?_congr same] at found
      exact sound.keyFile found

/-- A feed that was built has the keys it was built with. -/
theorem buildFeed_ok
    {disk after : Disk}
    {identity : Identity}
    {feed : Feed}
    (built :
      buildFeed crypto storagePath faults disk identity =
        (after, .ok feed)) :
    feed = ⟨identity.publicKey, identity.secretKey⟩ := by
  simp only [buildFeed] at built
  split at built
  · cases built
  · split at built
    · cases built
    · split at built <;> cases built
      rfl

/-- The name and the key are the only files that opening a feed changes. -/
theorem stored_of_writes
    {identity : Identity}
    {before named after : Disk}
    (naming :
      named = before ∨
        ∃ name ∈ identity.name,
          before (namePath crypto storagePath
              (crypto.discoveryKey identity.publicKey)) = [] ∧
            named =
              before.write
                (namePath crypto storagePath
                  (crypto.discoveryKey identity.publicKey)) name)
    (building :
      after = named ∨
        after =
          named.write
            (keyPath crypto storagePath
              (crypto.discoveryKey identity.publicKey))
            identity.publicKey.bytes) :
    Stored crypto storagePath identity before after := by
  have afterNamed :
      ∀ path,
        path ≠ keyPath crypto storagePath
          (crypto.discoveryKey identity.publicKey) →
        after path = named path := by
    intro path different
    rcases building with same | written
    · rw [same]
    · rw [written, Disk.write_other _ different]
  have namedBefore :
      ∀ path,
        path ≠ namePath crypto storagePath
          (crypto.discoveryKey identity.publicKey) →
        named path = before path := by
    intro path different
    rcases naming with same | ⟨name, _, _, written⟩
    · rw [same]
    · rw [written, Disk.write_other _ different]
  refine ⟨?_, ?_, ?_⟩
  · intro path notName notKey
    rw [afterNamed path notKey, namedBefore path notName]
  · rw [afterNamed _ (namePath_ne_keyPath _ _)]
    rcases naming with same | ⟨name, isName, empty, written⟩
    · exact Or.inl (by rw [same])
    · apply Or.inr
      rw [written, Disk.write_same, empty]
      simpa using isName
  · rcases building with same | written
    · refine Or.inl (Disk.readKey?_congr ?_)
      rw [same, namedBefore _ (namePath_ne_keyPath _ _).symm]
    · apply Or.inr
      rw [written, Disk.readKey?_write]

end

section

variable
  (crypto : Crypto)
  (storagePath : Path)
  {faults : Faults}

/-- `write_name_if_empty` changes nothing or stores the name. -/
theorem writeNameIfEmpty_disk
    (lenSucceeds : faults .lenNameToWrite = false)
    (disk : Disk)
    (dkey : Key)
    (name : Name) :
    (writeNameIfEmpty crypto storagePath faults disk dkey name).1 = disk ∨
      (disk (namePath crypto storagePath dkey) = [] ∧
        (writeNameIfEmpty crypto storagePath faults disk dkey name).1 =
          disk.write (namePath crypto storagePath dkey) name) := by
  simp only [writeNameIfEmpty, lenSucceeds]
  split
  · exact Or.inl rfl
  · by_cases holdsName :
        0 < (disk (namePath crypto storagePath dkey)).length
    · simp [holdsName]
    · have empty : disk (namePath crypto storagePath dkey) = [] := by
        simpa using holdsName
      simp only [holdsName, ↓reduceIte, Bool.false_eq_true]
      split
      · exact Or.inl rfl
      · exact Or.inr ⟨empty, rfl⟩

/-- Storing the name of a feed changes at most its name file. -/
theorem storeName_disk
    (lenSucceeds : faults .lenNameToWrite = false)
    (disk : Disk)
    (identity : Identity) :
    (storeName crypto storagePath faults disk identity).1 = disk ∨
      ∃ name ∈ identity.name,
        disk (namePath crypto storagePath
            (crypto.discoveryKey identity.publicKey)) = [] ∧
          (storeName crypto storagePath faults disk identity).1 =
            disk.write
              (namePath crypto storagePath
                (crypto.discoveryKey identity.publicKey)) name := by
  simp only [storeName]
  cases identity.name with
  | none =>
      exact Or.inl rfl
  | some name =>
      rcases writeNameIfEmpty_disk crypto storagePath lenSucceeds disk
          (crypto.discoveryKey identity.publicKey) name with
        same | written
      · exact Or.inl same
      · exact Or.inr ⟨name, rfl, written⟩

/-- Building a feed changes nothing or stores the public key. -/
theorem buildFeed_disk
    (faults : Faults)
    (disk : Disk)
    (identity : Identity) :
    (buildFeed crypto storagePath faults disk identity).1 = disk ∨
      (buildFeed crypto storagePath faults disk identity).1 =
        disk.write
          (keyPath crypto storagePath (crypto.discoveryKey identity.publicKey))
          identity.publicKey.bytes := by
  simp only [buildFeed]
  split
  · exact Or.inl rfl
  · split
    · exact Or.inl rfl
    · split <;> exact Or.inr rfl

/--
What opening an identified feed can do: it stores files of that feed, and then
fails, or registers the feed.
-/
theorem openIdentified_cases
    (lenSucceeds : faults .lenNameToWrite = false)
    (memory : Memory)
    (identity : Identity) :
    ∃ disk,
      Stored crypto storagePath identity memory.disk disk ∧
        ((∃ failure,
            openIdentified crypto storagePath faults memory identity =
              ({ memory with disk := disk }, .error failure)) ∨
          openIdentified crypto storagePath faults memory identity =
            register crypto { memory with disk := disk }
              ⟨identity.publicKey, identity.secretKey⟩
              identity.name) := by
  have naming :=
    storeName_disk crypto storagePath lenSucceeds memory.disk identity
  simp only [openIdentified]
  cases named : storeName crypto storagePath faults memory.disk identity with
  | mk namedDisk outcome =>
  rw [named] at naming
  cases outcome with
  | error failure =>
      exact ⟨namedDisk, stored_of_writes naming (Or.inl rfl),
        Or.inl ⟨failure, rfl⟩⟩
  | ok wrote =>
      have building :=
        buildFeed_disk crypto storagePath faults namedDisk identity
      cases built :
          buildFeed crypto storagePath faults namedDisk identity with
      | mk builtDisk result =>
      rw [built] at building
      refine ⟨builtDisk, stored_of_writes naming building, ?_⟩
      cases result with
      | error failure =>
          exact Or.inl ⟨failure, by simp [built]⟩
      | ok feed =>
          apply Or.inr
          simp [built, buildFeed_ok built]

end

/-! ## What a call does -/

section

variable
  (crypto : Crypto)
  (storagePath : Path)
  (keys masters : Set Key)

/--
The outcome of a call that opens the feed with a given key: the invariant is
kept, a feed that is returned is open and has the key, and the call opens no
other feed; a feed whose directory holds a name is opened with its secret key.
-/
structure Opens
    (memory : Memory)
    (expected : Key)
    (outcome : Memory × Except Failure ArcFeed) : Prop where
  sound : SoundMemory crypto storagePath keys masters outcome.1
  returned :
    ∀ arc,
      outcome.2 = .ok arc →
      arc.publicKey = expected ∧ arc ∈ outcome.1.inner.feeds.iter
  opened :
    outcome.1.inner.feeds.iter = memory.inner.feeds.iter ∨
      ∃ arc,
        outcome.1.inner.feeds.iter = arc :: memory.inner.feeds.iter ∧
          arc.publicKey = expected ∧
          (outcome.1.disk
              (namePath crypto storagePath
                (crypto.discoveryKey arc.publicKey)) ≠ [] →
            ∃ secret,
              arc.feed.secretKey = some secret ∧
                crypto.publicKey secret = arc.publicKey)

end

section

variable
  {crypto : Crypto}
  {storagePath : Path}
  {keys masters : Set Key}
  {memory : Memory}
  {faults : Faults}
  {random : Key}

/-- A call that returns an open feed and changes nothing. -/
theorem opens_of_cached
    (sound : SoundMemory crypto storagePath keys masters memory)
    {arc : ArcFeed}
    (isOpen : arc ∈ memory.inner.feeds.iter) :
    Opens crypto storagePath keys masters memory arc.publicKey
      (memory, .ok arc) where
  sound := sound
  returned := by
    intro other same
    cases same
    exact ⟨rfl, isOpen⟩
  opened := Or.inl rfl

/-- A call that fails and has only stored files of the feed. -/
theorem opens_of_error
    {disk : Disk}
    (soundDisk : SoundDisk crypto storagePath keys masters disk)
    (soundStore : SoundStore crypto storagePath keys disk memory.inner)
    (failure : Failure)
    (expected : Key) :
    Opens crypto storagePath keys masters memory expected
      ({ memory with disk := disk }, .error failure) where
  sound := ⟨soundDisk, soundStore⟩
  returned := by
    intro other same
    cases same
  opened := Or.inl rfl

/-- Registering a feed whose key and name fit. -/
theorem opens_of_register
    {disk : Disk}
    {identity : Identity}
    (soundDisk : SoundDisk crypto storagePath keys masters disk)
    (soundStore : SoundStore crypto storagePath keys disk memory.inner)
    (fits : identity.Fits crypto keys memory.inner.masterKey)
    (secret :
      disk (namePath crypto storagePath
          (crypto.discoveryKey identity.publicKey)) ≠ [] →
        ∃ secret,
          identity.secretKey = some secret ∧
            crypto.publicKey secret = identity.publicKey) :
    Opens crypto storagePath keys masters memory identity.publicKey
      (register crypto { memory with disk := disk }
        ⟨identity.publicKey, identity.secretKey⟩ identity.name) := by
  let arc : ArcFeed :=
    ⟨memory.allocated, ⟨identity.publicKey, identity.secretKey⟩⟩
  have added :
      (memory.inner.feeds.insert crypto.discoveryKey arc
          identity.name).iter =
        arc :: memory.inner.feeds.iter :=
    soundStore.indexed.iter_insert arc identity.name
  refine ⟨⟨soundDisk, ?_⟩, ?_, Or.inr ⟨arc, added, rfl, secret⟩⟩
  · refine ⟨soundStore.master,
      soundStore.indexed.insert arc fits.named, ?_⟩
    intro other isOpen
    have cases := added ▸ isOpen
    rcases List.mem_cons.mp cases with isNew | before
    · rw [isNew]
      exact fits.known
    · exact soundStore.feedsKnown other before
  · intro other result
    simp only [register] at result
    split at result <;> cases result
    exact ⟨rfl, added ▸ List.mem_cons_self⟩

/-- Opening an identified feed. -/
theorem opens_openIdentified
    (lenSucceeds : faults .lenNameToWrite = false)
    (sound : SoundMemory crypto storagePath keys masters memory)
    (identity : Identity)
    (fits : identity.Fits crypto keys memory.inner.masterKey)
    (secret :
      (∃ secret,
        identity.secretKey = some secret ∧
          crypto.publicKey secret = identity.publicKey) ∨
      (identity.name = none ∧
        memory.disk (namePath crypto storagePath
          (crypto.discoveryKey identity.publicKey)) = [])) :
    Opens crypto storagePath keys masters memory identity.publicKey
      (openIdentified crypto storagePath faults memory identity) := by
  obtain ⟨disk, stored, outcome⟩ :=
    openIdentified_cases crypto storagePath lenSucceeds memory identity
  have soundDisk :=
    sound.disk.stored sound.store.master fits stored
  have soundStore :
      SoundStore crypto storagePath keys disk memory.inner :=
    ⟨by rw [stored.readKey?_master]; exact sound.store.master,
      sound.store.indexed, sound.store.feedsKnown⟩
  rcases outcome with ⟨failure, failed⟩ | registered
  · rw [failed]
    exact opens_of_error soundDisk soundStore failure _
  · rw [registered]
    apply opens_of_register soundDisk soundStore fits
    intro holdsName
    rcases secret with hasSecret | ⟨unnamed, empty⟩
    · exact hasSecret
    · rcases stored.nameFile with same | written
      · exact (holdsName (same.trans empty)).elim
      · rw [unnamed] at written
        cases written

/-- The feed derived from a name fits, and its secret key belongs to it. -/
theorem fits_generateKeyPair
    {masterKey : Key}
    {name : Name}
    (known : crypto.keyOfName masterKey name ∈ keys) :
    (generateKeyPair crypto masterKey random (some name)).Fits
      crypto keys masterKey where
  known := known
  named := by
    intro other same
    simp only [generateKeyPair, Option.getD_some, Option.mem_def,
      Option.some.injEq] at same
    subst other
    rfl

/--
The feed that `open_feed` decides on for a key is the feed with that key, also
when it follows a name found on disk.
-/
theorem identify_key
    (collisionFree : CollisionFree crypto keys)
    (reads : ReadsSucceed faults)
    (sound : SoundMemory crypto storagePath keys masters memory)
    {key : Key}
    (asked : key ∈ keys)
    {identity : Identity}
    (identified :
      identify crypto storagePath faults random memory (some key) none =
        .ok identity) :
    identity.publicKey = key ∧
      identity.Fits crypto keys memory.inner.masterKey ∧
      ((∃ secret,
        identity.secretKey = some secret ∧
          crypto.publicKey secret = identity.publicKey) ∨
      (identity.name = none ∧
        memory.disk (namePath crypto storagePath
          (crypto.discoveryKey identity.publicKey)) = [])) := by
  obtain ⟨_, lenSucceeds, readSucceeds, _, _⟩ := reads
  simp only [identify, readName, lenSucceeds, readSucceeds,
    Bool.false_eq_true, ↓reduceIte] at identified
  split at identified
  · cases identified
  · by_cases empty :
        memory.disk (namePath crypto storagePath (crypto.discoveryKey key)) = []
    · simp only [empty, List.length_nil, lt_self_iff_false, ↓reduceIte,
        pubkeyFromBytes, bind, Except.bind] at identified
      by_cases valid : crypto.validPublicKey key
      · simp only [valid, ↓reduceIte] at identified
        cases identified
        exact ⟨rfl, ⟨asked, by simp⟩, Or.inr ⟨rfl, empty⟩⟩
      · simp [valid] at identified
    · have nonempty :
          0 < (memory.disk
            (namePath crypto storagePath (crypto.discoveryKey key))).length :=
        List.length_pos_iff.mpr empty
      simp only [nonempty, ↓reduceIte, List.take_length] at identified
      cases identified
      obtain ⟨masterKey, master, known, sameDkey⟩ :=
        sound.disk.nameFile empty
      rw [sound.store.master] at master
      cases master
      refine ⟨collisionFree _ known _ asked sameDkey,
        fits_generateKeyPair known, Or.inl ⟨_, rfl, rfl⟩⟩

/-- `get_by_key` opens the feed with the key it is given. -/
theorem opens_getByKey
    (collisionFree : CollisionFree crypto keys)
    (reads : ReadsSucceed faults)
    (sound : SoundMemory crypto storagePath keys masters memory)
    {key : Key}
    (asked : key ∈ keys) :
    Opens crypto storagePath keys masters memory key
      (getByKey crypto storagePath faults random memory key) := by
  simp only [getByKey, openFeed, Option.bind_some, Option.bind_none]
  cases cached : memory.inner.feeds.getKey key with
  | some arc =>
      obtain ⟨hasKey, isOpen⟩ := sound.store.indexed.of_getKey cached
      subst key
      exact opens_of_cached sound isOpen
  | none =>
      cases identified :
          identify crypto storagePath faults random memory
            (some key) none with
      | error failure =>
          exact opens_of_error sound.disk sound.store failure key
      | ok identity =>
          obtain ⟨hasKey, fits, secret⟩ :=
            identify_key collisionFree reads sound asked identified
          subst key
          exact opens_openIdentified reads.2.2.2.1 sound identity fits
            secret

/-- `get_by_name` opens the feed derived from the name. -/
theorem opens_getByName
    (reads : ReadsSucceed faults)
    (sound : SoundMemory crypto storagePath keys masters memory)
    {name : Name}
    (asked :
      ∀ masterKey ∈ masters, crypto.keyOfName masterKey name ∈ keys) :
    Opens crypto storagePath keys masters memory
      (crypto.keyOfName memory.inner.masterKey name)
      (getByName crypto storagePath faults random memory name) := by
  simp only [getByName, openFeed, Option.bind_some, Option.bind_none]
  cases cached : memory.inner.feeds.getName name with
  | some arc =>
      obtain ⟨hasKey, isOpen⟩ := sound.store.indexed.of_getName cached
      rw [← hasKey]
      exact opens_of_cached sound isOpen
  | none =>
      have known :=
        asked _ (sound.disk.masterKnown sound.store.master)
      exact opens_openIdentified reads.2.2.2.1 sound
        (generateKeyPair crypto memory.inner.masterKey random
          (some name))
        (fits_generateKeyPair known) (Or.inl ⟨_, rfl, rfl⟩)

end

/-! ## Calls and restarts -/

/-- The public keys that answer a query rightly, given the master key. -/
def Query.Right (crypto : Crypto) (masterKey : Key) : Query → Key → Prop
  | .byKey key, publicKey => publicKey = key
  | .byName name, publicKey =>
      publicKey = crypto.keyOfName masterKey name
  | .byDkey dkey, publicKey => crypto.discoveryKey publicKey = dkey

section

variable
  (crypto : Crypto)
  (storagePath : Path)
  (keys masters : Set Key)

/-- The outcome of a query that is answered rightly. -/
structure Answered
    (memory : Memory)
    (query : Query)
    (outcome : Memory × Except Failure (Option ArcFeed)) : Prop where
  sound : SoundMemory crypto storagePath keys masters outcome.1
  returned :
    ∀ arc,
      outcome.2 = .ok (some arc) →
      query.Right crypto memory.inner.masterKey arc.publicKey ∧
        arc ∈ outcome.1.inner.feeds.iter
  opened :
    outcome.1.inner.feeds.iter = memory.inner.feeds.iter ∨
      ∃ arc,
        outcome.1.inner.feeds.iter = arc :: memory.inner.feeds.iter ∧
          query.Right crypto memory.inner.masterKey arc.publicKey ∧
          (outcome.1.disk
              (namePath crypto storagePath
                (crypto.discoveryKey arc.publicKey)) ≠ [] →
            ∃ secret,
              arc.feed.secretKey = some secret ∧
                crypto.publicKey secret = arc.publicKey)

/-- Actions about keys that occur, with reads of existing data succeeding. -/
def Action.Allowed : Action → Prop
  | .reopen random faults => random ∈ masters ∧ ReadsSucceed faults
  | .query asked _ faults =>
      asked.Known crypto keys masters ∧ ReadsSucceed faults
  | .subscribe => True
  | .dropReceiver _ => True

end

section

variable
  {crypto : Crypto}
  {storagePath : Path}
  {keys masters : Set Key}
  {memory : Memory}
  {faults : Faults}
  {random : Key}

/-- Opening a feed with a right key answers the query. -/
theorem Opens.answered
    {expected : Key}
    {outcome : Memory × Except Failure ArcFeed}
    (opens :
      Opens crypto storagePath keys masters memory expected outcome)
    {query : Query}
    (right : query.Right crypto memory.inner.masterKey expected) :
    Answered crypto storagePath keys masters memory query
      (outcome.1, outcome.2.map some) where
  sound := opens.sound
  returned := by
    intro arc result
    cases given : outcome.2 with
    | error failure =>
        simp [given, Except.map] at result
    | ok returned =>
        simp only [given, Except.map, Except.ok.injEq,
          Option.some.injEq] at result
        subst returned
        obtain ⟨hasKey, isOpen⟩ := opens.returned arc given
        rw [hasKey]
        exact ⟨right, isOpen⟩
  opened := by
    rcases opens.opened with same | ⟨arc, added, hasKey, secret⟩
    · exact Or.inl same
    · refine Or.inr ⟨arc, added, ?_, secret⟩
      rw [hasKey]
      exact right

/-- A query that returns without opening anything. -/
theorem answered_of_unchanged
    (sound : SoundMemory crypto storagePath keys masters memory)
    {query : Query}
    {result : Except Failure (Option ArcFeed)}
    (returned :
      ∀ arc,
        result = .ok (some arc) →
        query.Right crypto memory.inner.masterKey arc.publicKey ∧
          arc ∈ memory.inner.feeds.iter) :
    Answered crypto storagePath keys masters memory query
      (memory, result) where
  sound := sound
  returned := returned
  opened := Or.inl rfl

/-- Every query is answered rightly, whichever route it takes. -/
theorem answered_answer
    (random : Key)
    (collisionFree : CollisionFree crypto keys)
    (reads : ReadsSucceed faults)
    (sound : SoundMemory crypto storagePath keys masters memory)
    {query : Query}
    (known : query.Known crypto keys masters) :
    Answered crypto storagePath keys masters memory query
      (answer crypto storagePath faults random memory query) := by
  cases query with
  | byKey key =>
      exact (opens_getByKey collisionFree reads sound known).answered rfl
  | byName name =>
      exact (opens_getByName reads sound known).answered rfl
  | byDkey dkey =>
      simp only [answer, getByDkey, reads.2.2.2.2, Bool.false_eq_true,
        ↓reduceIte]
      cases cached : memory.inner.feeds.getDkey dkey with
      | some arc =>
          apply answered_of_unchanged sound
          intro other same
          cases same
          exact sound.store.indexed.of_getDkey cached
      | none =>
          simp only
          split
          · exact answered_of_unchanged sound (by simp)
          · cases found :
                memory.disk.readKey? (keyPath crypto storagePath dkey) with
            | none =>
                exact answered_of_unchanged sound (by simp)
            | some key =>
                obtain ⟨keyKnown, hasDkey⟩ := sound.disk.keyFile found
                exact (opens_getByKey collisionFree reads sound
                  keyKnown).answered hasDkey

/-- An empty directory is sound. -/
theorem sound_empty :
    Sound crypto storagePath keys masters Directory.empty where
  disk := by
    refine ⟨?_, ?_, ?_⟩
    · intro masterKey found
      simp [Directory.empty, Disk.readKey?, Key.ofBytes?] at found
    · intro dkey nonempty
      simp [Directory.empty] at nonempty
    · intro dkey key found
      simp [Directory.empty, Disk.readKey?, Key.ofBytes?] at found
  store := by simp [Directory.empty]

/-- Writing the first master key keeps the disk sound. -/
theorem SoundDisk.writeMasterKey
    {disk : Disk}
    (sound : SoundDisk crypto storagePath keys masters disk)
    (missing : disk.readKey? (masterKeyPath storagePath) = none)
    (known : random ∈ masters) :
    SoundDisk crypto storagePath keys masters
      (disk.write (masterKeyPath storagePath) random.bytes) where
  masterKnown := by
    intro masterKey found
    rw [Disk.readKey?_write] at found
    cases found
    exact known
  nameFile := by
    intro dkey nonempty
    rw [Disk.write_other _ (masterKeyPath_ne_namePath _).symm] at nonempty
    obtain ⟨masterKey, found, _⟩ := sound.nameFile nonempty
    rw [missing] at found
    cases found
  keyFile := by
    intro dkey key found
    rw [Disk.readKey?_congr
      (Disk.write_other _ (masterKeyPath_ne_keyPath _).symm _)] at found
    exact sound.keyFile found

/-- A store that was just opened has no feeds. -/
theorem soundStore_new
    {disk : Disk}
    {masterKey : Key}
    (master :
      disk.readKey? (masterKeyPath storagePath) = some masterKey) :
    SoundStore crypto storagePath keys disk ⟨masterKey, .new, []⟩ where
  master := master
  indexed := FeedMap.indexed_new
  feedsKnown := by simp [FeedMap.iter, FeedMap.new]

/-- Opening the directory keeps it sound. -/
theorem Sound.reopen
    {directory next : Directory}
    (sound : Sound crypto storagePath keys masters directory)
    (reads : faults .readMasterKey = false)
    (known : random ∈ masters)
    (stepped :
      step crypto storagePath directory (.reopen random faults) =
        some next) :
    Sound crypto storagePath keys masters next := by
  obtain ⟨written, result, opening, rfl⟩ := opening_of_reopen stepped
  cases opening with
  | failed failure fails =>
      exact ⟨sound.disk, by simp [Except.toOption]⟩
  | found stored =>
      refine ⟨sound.disk, ?_⟩
      intro inner same
      cases same
      exact soundStore_new stored
  | generated opens writes unread =>
      have absent :
          directory.disk.readKey? (masterKeyPath storagePath) = none :=
        unread.resolve_left (by simp [reads])
      refine ⟨sound.disk.writeMasterKey absent known, ?_⟩
      intro inner same
      cases same
      exact soundStore_new (Disk.readKey?_write _ _ _)

/-- The memory of a sound directory's process is sound. -/
theorem Sound.ofProcess
    {directory : Directory}
    (sound : Sound crypto storagePath keys masters directory)
    {inner : InnerCorestore}
    (isOpen : directory.inner = some inner) :
    SoundMemory crypto storagePath keys masters
      (directory.memory inner) :=
  ⟨sound.disk, sound.store inner isOpen⟩

/-- Subscriptions do not matter to the invariant. -/
theorem Sound.withSubscribers
    {directory : Directory}
    (sound : Sound crypto storagePath keys masters directory)
    {inner : InnerCorestore}
    (isOpen : directory.inner = some inner)
    (subscribers : List Subscriber) :
    Sound crypto storagePath keys masters
      { directory with
        inner := some { inner with subscribers := subscribers } } := by
  have store := sound.store inner isOpen
  refine ⟨sound.disk, ?_⟩
  intro other same
  cases same
  exact ⟨store.master, store.indexed, store.feedsKnown⟩

/-- Every step with existing data readable keeps the directory sound. -/
theorem Sound.step
    (collisionFree : CollisionFree crypto keys)
    {directory next : Directory}
    (sound : Sound crypto storagePath keys masters directory)
    {action : Action}
    (allowed : action.Allowed crypto keys masters)
    (stepped :
      Corestore.step crypto storagePath directory action = some next) :
    Sound crypto storagePath keys masters next := by
  cases action with
  | reopen random faults =>
      exact sound.reopen allowed.2.1 allowed.1 stepped
  | query query random faults =>
      simp only [Corestore.step, Option.map_eq_some_iff] at stepped
      obtain ⟨inner, isOpen, same⟩ := stepped
      subst next
      have answered :=
        answered_answer random collisionFree allowed.2
          (sound.ofProcess isOpen) allowed.1
      refine ⟨answered.sound.disk, ?_⟩
      intro other sameInner
      cases sameInner
      exact answered.sound.store
  | subscribe =>
      simp only [Corestore.step, Option.map_eq_some_iff] at stepped
      obtain ⟨inner, isOpen, same⟩ := stepped
      subst next
      exact sound.withSubscribers isOpen _
  | dropReceiver index =>
      simp only [Corestore.step, Option.map_eq_some_iff] at stepped
      obtain ⟨inner, isOpen, same⟩ := stepped
      subst next
      exact sound.withSubscribers isOpen _

/-- Every run from an empty directory stays sound. -/
theorem sound_run
    (collisionFree : CollisionFree crypto keys)
    {actions : List Action}
    {directory : Directory}
    (allowed : ∀ action ∈ actions, action.Allowed crypto keys masters)
    (ran :
      Machine.run (Corestore.step crypto storagePath) .empty actions =
        some directory) :
    Sound crypto storagePath keys masters directory := by
  refine Machine.invariant_run_along
    (Sound crypto storagePath keys masters) ?_ sound_empty
    (Machine.along_of_mem allowed) ran
  intro state action next sound permitted stepped
  exact sound.step collisionFree permitted stepped

/--
After any sequence of lookups and restarts from an empty directory, every feed
that a lookup returns is the one asked for, and a feed that it opens while the
feed's directory holds a name is opened with its secret key.
-/
theorem lookups_return_asked
    (random : Key)
    (collisionFree : CollisionFree crypto keys)
    {actions : List Action}
    {directory : Directory}
    {inner : InnerCorestore}
    {query : Query}
    (allowed : ∀ action ∈ actions, action.Allowed crypto keys masters)
    (ran :
      Machine.run (Corestore.step crypto storagePath) .empty actions =
        some directory)
    (isOpen : directory.inner = some inner)
    (known : query.Known crypto keys masters)
    (reads : ReadsSucceed faults) :
    ∃ masterKey,
      directory.disk.readKey? (masterKeyPath storagePath) =
          some masterKey ∧
        (∀ arc,
          (answer crypto storagePath faults random
              (directory.memory inner) query).2 = .ok (some arc) →
          query.Right crypto masterKey arc.publicKey) ∧
        ∀ arc after,
          (answer crypto storagePath faults random
              (directory.memory inner) query).1 = after →
          after.inner.feeds.iter = arc :: inner.feeds.iter →
          after.disk
              (namePath crypto storagePath
                (crypto.discoveryKey arc.publicKey)) ≠ [] →
          ∃ secret,
            arc.feed.secretKey = some secret ∧
              crypto.publicKey secret = arc.publicKey := by
  have sound := (sound_run collisionFree allowed ran).ofProcess isOpen
  have answered :=
    answered_answer random collisionFree reads sound known
  refine ⟨inner.masterKey, sound.store.master, ?_, ?_⟩
  · intro arc returned
    exact (answered.returned arc returned).1
  · intro arc after result added holdsName
    subst after
    rcases answered.opened with same | ⟨other, otherAdded, _, secret⟩
    · have lengths := congrArg List.length (same.symm.trans added)
      simp [Directory.memory] at lengths
    · have heads :=
        (List.cons.inj (otherAdded.symm.trans added)).1
      subst other
      exact secret holdsName

end

/-! ## An example -/

/-- The cryptographic functions, tabulated on the keys of the example. -/
def sampleCrypto : Crypto where
  hex := Hex.lowerCase
  discoveryKey := sampleDiscoveryKey
  blake2b key message :=
    if key = sampleMaster.bytes then
      if message = namespaceBytes ++ sampleFoo.name then
        sampleFoo.secretKey
      else if message = namespaceBytes ++ sampleEmpty.name then
        sampleEmpty.secretKey
      else
        Key.constant 0
    else
      Key.constant 0
  publicKey secretKey :=
    if secretKey = sampleFoo.secretKey then sampleFoo.publicKey
    else if secretKey = sampleEmpty.secretKey then sampleEmpty.publicKey
    else secretKey
  validPublicKey _ := true

/-- The public keys of the example. -/
def sampleKeys : Set Key :=
  {sampleFoo.publicKey, sampleEmpty.publicKey}

/-- The discovery keys of the example do not collide. -/
theorem collisionFree_sample :
    CollisionFree sampleCrypto sampleKeys := by
  rintro first (rfl | rfl) second (rfl | rfl) same
  · rfl
  · exact absurd same (by decide)
  · exact absurd same (by decide)
  · rfl

/-- The names of the example derive its keys. -/
theorem known_sample
    {name : Name}
    (isSample : name = sampleFoo.name ∨ name = sampleEmpty.name) :
    Query.Known sampleCrypto sampleKeys {sampleMaster}
      (.byName name) := by
  rintro masterKey rfl
  rcases isSample with rfl | rfl
  · exact Or.inl (by decide)
  · exact Or.inr (Set.mem_singleton_iff.2 (by decide))

/-- Create the feed `foo` in an empty directory, and restart the process. -/
def sampleActions : List Action :=
  [.reopen sampleMaster noFaults,
    .query (.byName sampleFoo.name) sampleMaster noFaults,
    .reopen sampleMaster noFaults]

/-- The actions of the example are allowed. -/
theorem allowed_sample :
    ∀ action ∈ sampleActions,
      action.Allowed sampleCrypto sampleKeys {sampleMaster} := by
  intro action member
  simp only [sampleActions, List.mem_cons, List.not_mem_nil,
    or_false] at member
  rcases member with rfl | rfl | rfl
  · exact ⟨rfl, readsSucceed_noFaults⟩
  · exact ⟨known_sample (Or.inl rfl), readsSucceed_noFaults⟩
  · exact ⟨rfl, readsSucceed_noFaults⟩

/-- After the restart `get_by_key` opens `foo`, and with its secret key. -/
theorem lookups_return_asked_sample :
    ∃ directory inner arc,
      Machine.run (step sampleCrypto []) .empty sampleActions =
          some directory ∧
        directory.inner = some inner ∧
        (answer sampleCrypto [] noFaults sampleMaster
            (directory.memory inner)
            (.byKey sampleFoo.publicKey)).2 = .ok (some arc) ∧
        arc.publicKey = sampleFoo.publicKey ∧
        ∃ secret,
          arc.feed.secretKey = some secret ∧
            sampleCrypto.publicKey secret = arc.publicKey := by
  have answers :
      ∃ directory inner arc after,
        Machine.run (step sampleCrypto []) .empty sampleActions =
            some directory ∧
          directory.inner = some inner ∧
          answer sampleCrypto [] noFaults sampleMaster
              (directory.memory inner) (.byKey sampleFoo.publicKey) =
            (after, .ok (some arc)) ∧
          after.inner.feeds.iter = arc :: inner.feeds.iter ∧
          after.disk
              (namePath sampleCrypto []
                (sampleCrypto.discoveryKey arc.publicKey)) ≠ [] :=
    ⟨_, _, _, _, rfl, rfl, rfl, rfl, by decide⟩
  obtain ⟨directory, inner, arc, after, ran, isOpen, outcome, added,
    holdsName⟩ := answers
  have known :
      Query.Known sampleCrypto sampleKeys {sampleMaster}
        (.byKey sampleFoo.publicKey) :=
    Or.inl rfl
  obtain ⟨_, _, returned, opened⟩ :=
    lookups_return_asked sampleMaster collisionFree_sample
      allowed_sample ran isOpen known readsSucceed_noFaults
  rw [outcome] at returned opened
  exact ⟨directory, inner, arc, ran, isOpen, by rw [outcome],
    returned arc rfl, opened arc after rfl added holdsName⟩

end Hyperspace.Corestore
