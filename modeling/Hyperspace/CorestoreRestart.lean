import Hyperspace.CorestoreEvents
import Hyperspace.CorestoreLookup

namespace Hyperspace.Corestore

/-!
# Names across restarts

The key of a named feed is derived from the name and from the master key, which
is kept in a file.  Opening a directory reads that file; when the read fails, for
whatever reason, a new master key is made up and written over the old one, and
every name then derives another key.

No other storage operation touches the file.  So a name keeps its key in every
run, whatever else fails, in which no open fails to read a master key that is
there.
-/

/--
The condition on a step: an open that fails to read a master key which the
directory has fails as a whole, in opening the file or in writing a new key.
-/
def KeepsMasterKey
    (storagePath : Path)
    (directory : Directory) : Action → Prop
  | .reopen _ faults =>
      (directory.disk.readKey? (masterKeyPath storagePath)).isSome →
      faults .readMasterKey →
      faults .openMasterKey ∨ faults .writeMasterKey
  | _ => True

/-- The master key in memory is the one on disk. -/
def Directory.MasterStored
    (storagePath : Path)
    (directory : Directory) : Prop :=
  ∀ inner ∈ directory.inner,
    directory.disk.readKey? (masterKeyPath storagePath) =
      some inner.masterKey

section

variable
  {crypto : Crypto}
  {storagePath : Path}
  {faults : Faults}
  {random : Key}
  {memory : Memory}

/-! ## Calls leave the master key alone -/

/-- Storing a name does not write to the master key. -/
theorem storeName_masterKey
    (crypto : Crypto)
    (storagePath : Path)
    (faults : Faults)
    (disk : Disk)
    (identity : Identity) :
    (storeName crypto storagePath faults disk identity).1
        (masterKeyPath storagePath) =
      disk (masterKeyPath storagePath) := by
  simp only [storeName]
  cases identity.name with
  | none =>
      rfl
  | some name =>
      simp only [writeNameIfEmpty]
      split
      · rfl
      · by_cases isLong :
            0 < if faults .lenNameToWrite then 0 else
              (disk (namePath crypto storagePath
                (crypto.discoveryKey identity.publicKey))).length
        · rw [if_pos isLong]
        · rw [if_neg isLong]
          split
          · rfl
          · exact Disk.write_other disk (masterKeyPath_ne_namePath _) _

/-- Building a feed does not write to the master key. -/
theorem buildFeed_masterKey
    (crypto : Crypto)
    (storagePath : Path)
    (faults : Faults)
    (disk : Disk)
    (identity : Identity) :
    (buildFeed crypto storagePath faults disk identity).1
        (masterKeyPath storagePath) =
      disk (masterKeyPath storagePath) := by
  rcases buildFeed_disk crypto storagePath faults disk identity with
    same | written
  · rw [same]
  · rw [written]
    exact Disk.write_other disk (masterKeyPath_ne_keyPath _) _

/-- Opening a feed does not write to the master key. -/
theorem openFeed_masterKey
    (key : Option Key)
    (name : Option Name) :
    (openFeed crypto storagePath faults random memory key name).1.disk
        (masterKeyPath storagePath) =
      memory.disk (masterKeyPath storagePath) := by
  simp only [openFeed]
  split
  · rfl
  · split
    · rfl
    · split
      · rfl
      · next identity _ =>
          have naming :=
            storeName_masterKey crypto storagePath faults memory.disk
              identity
          simp only [openIdentified]
          split
          · next disk failure named =>
              rw [named] at naming
              exact naming
          · next disk wrote named =>
              rw [named] at naming
              have building :=
                buildFeed_masterKey crypto storagePath faults disk
                  identity
              split
              · next built =>
                  rw [built] at building
                  exact building.trans naming
              · next built =>
                  rw [built] at building
                  exact building.trans naming

/-- No call writes to the master key. -/
theorem answer_masterKey (query : Query) :
    (answer crypto storagePath faults random memory query).1.disk
        (masterKeyPath storagePath) =
      memory.disk (masterKeyPath storagePath) := by
  cases query with
  | byKey key =>
      exact openFeed_masterKey (some key) none
  | byName name =>
      exact openFeed_masterKey none (some name)
  | byDkey dkey =>
      simp only [answer, getByDkey]
      split
      · rfl
      · split
        · rfl
        · split
          · rfl
          · exact openFeed_masterKey (some _) none

/-- A call keeps the master key in memory. -/
theorem Registers.masterKey
    {inner after : InnerCorestore}
    (registers : Registers crypto inner after) :
    after.masterKey = inner.masterKey := by
  rcases registers with same | ⟨arc, name, registered, _⟩
  · rw [same]
  · rw [registered]
    rfl

/-! ## The key of a name -/

/-- A feed that is built and registered has the key that was decided on. -/
theorem openIdentified_publicKey
    {identity : Identity}
    {after : Memory}
    {arc : ArcFeed}
    (opened :
      openIdentified crypto storagePath faults memory identity =
        (after, .ok arc)) :
    arc.publicKey = identity.publicKey := by
  simp only [openIdentified] at opened
  split at opened
  · cases opened
  · split at opened
    · cases opened
    · next feed built =>
        have sameKeys := buildFeed_ok built
        simp only [register, Prod.mk.injEq] at opened
        obtain ⟨_, returned⟩ := opened
        split at returned
        · cases returned
          rw [sameKeys]
          rfl
        · cases returned

/-- `get_by_name` returns a feed with the key derived from the name. -/
theorem getByName_publicKey
    (indexed : memory.inner.Indexed crypto)
    {name : Name}
    {after : Memory}
    {arc : ArcFeed}
    (answered :
      getByName crypto storagePath faults random memory name =
        (after, .ok arc)) :
    arc.publicKey = crypto.keyOfName memory.inner.masterKey name := by
  simp only [getByName, openFeed, Option.bind_none,
    Option.bind_some] at answered
  split at answered
  · next found =>
      cases answered
      exact (FeedMap.Indexed.of_getName indexed found).1
  · exact openIdentified_publicKey answered

end

/-! ## Runs -/

section

variable
  {crypto : Crypto}
  {storagePath : Path}
  {directory next : Directory}
  {action : Action}

/-- The master key of a store that was just opened is the one on disk. -/
theorem Opening.masterKey
    {faults : Faults}
    {random : Key}
    {disk written : Disk}
    {result : Except Failure InnerCorestore}
    {inner : InnerCorestore}
    (opening : Opening storagePath faults random disk written result)
    (isOpen : result.toOption = some inner) :
    written.readKey? (masterKeyPath storagePath) =
      some inner.masterKey := by
  cases opening with
  | failed failure fails =>
      cases isOpen
  | found stored =>
      cases isOpen
      exact stored
  | generated opens writes unread =>
      cases isOpen
      exact Disk.readKey?_write disk _ random

/-- An open that meets the condition leaves a stored master key alone. -/
theorem Opening.keeps
    {faults : Faults}
    {random : Key}
    {disk written : Disk}
    {result : Except Failure InnerCorestore}
    {masterKey : Key}
    (opening : Opening storagePath faults random disk written result)
    (stored :
      disk.readKey? (masterKeyPath storagePath) = some masterKey)
    (keeps :
      faults .readMasterKey →
      faults .openMasterKey ∨ faults .writeMasterKey) :
    written = disk := by
  cases opening with
  | failed failure fails =>
      rfl
  | found found =>
      rfl
  | generated opens writes unread =>
      rcases unread with fails | absent
      · rcases keeps fails with failsToOpen | failsToWrite
        · rw [opens] at failsToOpen
          cases failsToOpen
        · rw [writes] at failsToWrite
          cases failsToWrite
      · rw [stored] at absent
        cases absent

/-- A step of a running process leaves the master key alone. -/
theorem masterKey_inProcess
    (notReopen : ∀ random faults, action ≠ .reopen random faults)
    (stepped :
      Corestore.step crypto storagePath directory action =
        some next) :
    next.disk.readKey? (masterKeyPath storagePath) =
        directory.disk.readKey? (masterKeyPath storagePath) ∧
      ∀ inner ∈ next.inner,
        ∃ before ∈ directory.inner,
          inner.masterKey = before.masterKey := by
  cases action with
  | reopen random faults =>
      exact absurd rfl (notReopen random faults)
  | query query random faults =>
      simp only [Corestore.step, Option.map_eq_some_iff] at stepped
      obtain ⟨before, wasOpen, rfl⟩ := stepped
      have sameFile :
          (answer crypto storagePath faults random
              (directory.memory before) query).1.disk
              (masterKeyPath storagePath) =
            directory.disk (masterKeyPath storagePath) :=
        answer_masterKey query
      have registers :
          Registers crypto before
            (answer crypto storagePath faults random
              (directory.memory before) query).1.inner :=
        registers_answer query
      refine ⟨Disk.readKey?_congr sameFile, ?_⟩
      intro inner isOpen
      cases isOpen
      exact ⟨before, wasOpen, registers.masterKey⟩
  | subscribe =>
      simp only [Corestore.step, Option.map_eq_some_iff] at stepped
      obtain ⟨before, wasOpen, rfl⟩ := stepped
      refine ⟨rfl, ?_⟩
      intro inner isOpen
      cases isOpen
      exact ⟨before, wasOpen, rfl⟩
  | dropReceiver index =>
      simp only [Corestore.step, Option.map_eq_some_iff] at stepped
      obtain ⟨before, wasOpen, rfl⟩ := stepped
      refine ⟨rfl, ?_⟩
      intro inner isOpen
      cases isOpen
      exact ⟨before, wasOpen, rfl⟩

/-- Every step keeps the master key in memory the one on disk. -/
theorem Directory.MasterStored.step
    (masterStored : directory.MasterStored storagePath)
    (stepped :
      Corestore.step crypto storagePath directory action =
        some next) :
    next.MasterStored storagePath := by
  intro inner isOpen
  by_cases isReopen :
      ∃ random faults, action = .reopen random faults
  · obtain ⟨random, faults, rfl⟩ := isReopen
    obtain ⟨written, result, opening, rfl⟩ := opening_of_reopen stepped
    exact opening.masterKey isOpen
  · simp only [not_exists] at isReopen
    obtain ⟨sameKey, sameMemory⟩ :=
      masterKey_inProcess isReopen stepped
    obtain ⟨before, wasOpen, sameMaster⟩ := sameMemory inner isOpen
    calc
      _ = directory.disk.readKey? (masterKeyPath storagePath) := sameKey
      _ = some before.masterKey := masterStored before wasOpen
      _ = some inner.masterKey := by rw [sameMaster]

/-- A step that meets the condition keeps the master key on disk. -/
theorem masterKey_step
    {masterKey : Key}
    (stored :
      directory.disk.readKey? (masterKeyPath storagePath) =
        some masterKey)
    (keeps : KeepsMasterKey storagePath directory action)
    (stepped :
      Corestore.step crypto storagePath directory action =
        some next) :
    next.disk.readKey? (masterKeyPath storagePath) =
      some masterKey := by
  by_cases isReopen :
      ∃ random faults, action = .reopen random faults
  · obtain ⟨random, faults, rfl⟩ := isReopen
    obtain ⟨written, result, opening, rfl⟩ := opening_of_reopen stepped
    have sameDisk : written = directory.disk :=
      opening.keeps stored (keeps (by simp [stored]))
    exact (congrArg (Disk.readKey? · _) sameDisk).trans stored
  · simp only [not_exists] at isReopen
    exact (masterKey_inProcess isReopen stepped).1.trans stored

/-- The master key in memory is the one on disk after every run. -/
theorem masterStored_run
    {actions : List Action}
    (ran :
      Machine.run (Corestore.step crypto storagePath) .empty actions =
        some directory) :
    directory.MasterStored storagePath :=
  Machine.invariant_run (Directory.MasterStored storagePath)
    (fun holds stepped => holds.step stepped)
    (by simp [Directory.MasterStored, Directory.empty]) ran

/--
In every run of opens and calls, whatever storage operations fail, in which no
open replaces a master key that it failed to read: once `get_by_name` has
returned a feed for a name, the master key stays what it is, and every later
`get_by_name` of that name, in this process or in another, fails or returns a
feed with the same public key.
-/
theorem names_keep_key
    {earlier later : List Action}
    {before after : Directory}
    {inner : InnerCorestore}
    {memory : Memory}
    {faults : Faults}
    {random : Key}
    {name : Name}
    {arc : ArcFeed}
    (ran :
      Machine.run (Corestore.step crypto storagePath) .empty earlier =
        some before)
    (isOpen : before.inner = some inner)
    (answered :
      getByName crypto storagePath faults random
          (before.memory inner) name =
        (memory, .ok arc))
    (ranLater :
      Machine.run (Corestore.step crypto storagePath) memory.directory
          later =
        some after)
    (along :
      Machine.Along (Corestore.step crypto storagePath)
        (KeepsMasterKey storagePath) memory.directory later) :
    after.disk.readKey? (masterKeyPath storagePath) =
        before.disk.readKey? (masterKeyPath storagePath) ∧
      ∀ innerLater faultsLater randomLater,
        after.inner = some innerLater →
        ∀ memoryLater arcLater,
          getByName crypto storagePath faultsLater randomLater
              (after.memory innerLater) name =
            (memoryLater, .ok arcLater) →
          arcLater.publicKey = arc.publicKey := by
  have stored :
      before.disk.readKey? (masterKeyPath storagePath) =
        some inner.masterKey :=
    masterStored_run ran inner isOpen
  have stepped :
      Corestore.step crypto storagePath before
          (.query (.byName name) random faults) =
        some memory.directory := by
    simp [Corestore.step, isOpen, answer, answered]
  have isCall :
      KeepsMasterKey storagePath before
        (.query (.byName name) random faults) :=
    trivial
  have storedThen :
      memory.directory.disk.readKey? (masterKeyPath storagePath) =
        some inner.masterKey :=
    masterKey_step stored isCall stepped
  have storedLater :
      after.disk.readKey? (masterKeyPath storagePath) =
        some inner.masterKey :=
    Machine.invariant_run_along
      (fun state =>
        state.disk.readKey? (masterKeyPath storagePath) =
          some inner.masterKey)
      masterKey_step storedThen along ranLater
  refine ⟨storedLater.trans stored.symm, ?_⟩
  intro innerLater faultsLater randomLater isOpenLater memoryLater
    arcLater answeredLater
  have whole :
      Machine.run (Corestore.step crypto storagePath) .empty
          (earlier ++ .query (.byName name) random faults :: later) =
        some after :=
    Machine.run_append ran
      (Machine.run_cons.mpr ⟨_, stepped, ranLater⟩)
  have sameMaster : innerLater.masterKey = inner.masterKey := by
    have inMemory := masterStored_run whole innerLater isOpenLater
    rw [storedLater] at inMemory
    exact (Option.some.inj inMemory).symm
  calc
    arcLater.publicKey =
        crypto.keyOfName innerLater.masterKey name :=
      getByName_publicKey (indexed_run whole isOpenLater) answeredLater
    _ = crypto.keyOfName inner.masterKey name := by rw [sameMaster]
    _ = arc.publicKey :=
      (getByName_publicKey (indexed_run ran isOpen) answered).symm

end

/-! ## Examples -/

/-- The name `foo`, with the keys that the master key of eights gives it. -/
def otherFoo : SampleName where
  name := sampleFoo.name
  secretKey :=
    ⟨[232, 40, 65, 55, 137, 143, 253, 191, 70, 134, 80, 50, 221, 19, 197,
      247, 100, 149, 66, 122, 179, 163, 25, 86, 40, 216, 110, 207, 90, 110,
      40, 155], rfl⟩
  publicKey :=
    ⟨[46, 96, 155, 63, 53, 126, 116, 160, 245, 26, 70, 235, 46, 22, 188,
      185, 119, 185, 234, 48, 248, 249, 233, 19, 149, 206, 129, 191, 90, 110,
      67, 24], rfl⟩
  discoveryKey :=
    ⟨[21, 152, 143, 32, 131, 168, 157, 251, 183, 60, 63, 3, 229, 88, 169,
      229, 155, 233, 165, 62, 135, 26, 170, 19, 4, 245, 47, 197, 155, 212,
      215, 60], rfl⟩

/-- The key that a later open makes up. -/
def otherMaster : Key := Key.constant 8

/-- The cryptographic functions, with the keys of the other master key. -/
def restartCrypto : Crypto where
  hex := Hex.lowerCase
  discoveryKey key :=
    if key = otherFoo.publicKey then otherFoo.discoveryKey
    else sampleCrypto.discoveryKey key
  blake2b key message :=
    if key = otherMaster.bytes ∧
        message = namespaceBytes ++ otherFoo.name then
      otherFoo.secretKey
    else
      sampleCrypto.blake2b key message
  publicKey secretKey :=
    if secretKey = otherFoo.secretKey then otherFoo.publicKey
    else sampleCrypto.publicKey secretKey
  validPublicKey _ := true

/-- The given operations fail. -/
def failing (operations : List StorageOp) : Faults :=
  fun operation => operations.contains operation

/-- An empty directory is opened. -/
def firstOpen : List Action := [.reopen sampleMaster noFaults]

/-- Restarts during which reads fail, and never only that of the master key. -/
def readsFail : List Action :=
  [.reopen otherMaster (failing [.readMasterKey, .writeMasterKey]),
    .reopen otherMaster noFaults,
    .query (.byKey sampleFoo.publicKey) otherMaster
      (failing [.lenNameToRead])]

/-- The name `foo` keeps its key through failing reads and lengths. -/
theorem names_keep_key_readsFail :
    ∃ before inner memory arc after innerLater memoryLater arcLater,
      Machine.run (step restartCrypto []) .empty firstOpen =
          some before ∧
        before.inner = some inner ∧
        getByName restartCrypto [] noFaults otherMaster
            (before.memory inner) sampleFoo.name =
          (memory, .ok arc) ∧
        Machine.run (step restartCrypto []) memory.directory readsFail =
          some after ∧
        after.inner = some innerLater ∧
        getByName restartCrypto [] (failing [.lenNameToWrite])
            otherMaster (after.memory innerLater) sampleFoo.name =
          (memoryLater, .ok arcLater) ∧
        arcLater.publicKey = arc.publicKey := by
  have finishes :
      ∃ before inner memory arc after innerLater memoryLater arcLater,
        Machine.run (step restartCrypto []) .empty firstOpen =
            some before ∧
          before.inner = some inner ∧
          getByName restartCrypto [] noFaults otherMaster
              (before.memory inner) sampleFoo.name =
            (memory, .ok arc) ∧
          Machine.run (step restartCrypto []) memory.directory
              readsFail =
            some after ∧
          Machine.Along (step restartCrypto []) (KeepsMasterKey [])
            memory.directory readsFail ∧
          after.inner = some innerLater ∧
          getByName restartCrypto [] (failing [.lenNameToWrite])
              otherMaster (after.memory innerLater) sampleFoo.name =
            (memoryLater, .ok arcLater) := by
    refine ⟨_, _, _, _, _, _, _, _, rfl, rfl, rfl, rfl, ?_, rfl, rfl⟩
    refine ⟨?_, ?_, trivial, trivial⟩
    · intro _ _
      exact Or.inr rfl
    · intro _ fails
      cases fails
  obtain ⟨before, inner, memory, arc, after, innerLater, memoryLater,
    arcLater, ran, isOpen, answered, ranLater, along, isOpenLater,
    answeredLater⟩ := finishes
  refine ⟨before, inner, memory, arc, after, innerLater, memoryLater,
    arcLater, ran, isOpen, answered, ranLater, isOpenLater,
    answeredLater, ?_⟩
  exact (names_keep_key ran isOpen answered ranLater along).2 innerLater
    _ _ isOpenLater memoryLater arcLater answeredLater

/-- A failed read of the master key gives the name `foo` another key. -/
theorem failed_read_replaces_master_key :
    ∃ before inner memory arc after innerLater memoryLater arcLater,
      Machine.run (step restartCrypto []) .empty firstOpen =
          some before ∧
        before.inner = some inner ∧
        getByName restartCrypto [] noFaults otherMaster
            (before.memory inner) sampleFoo.name =
          (memory, .ok arc) ∧
        Machine.run (step restartCrypto []) memory.directory
            [.reopen otherMaster (failing [.readMasterKey]),
              .reopen otherMaster noFaults] =
          some after ∧
        after.inner = some innerLater ∧
        getByName restartCrypto [] noFaults otherMaster
            (after.memory innerLater) sampleFoo.name =
          (memoryLater, .ok arcLater) ∧
        before.disk.readKey? (masterKeyPath []) = some sampleMaster ∧
        after.disk.readKey? (masterKeyPath []) = some otherMaster ∧
        arc.publicKey = sampleFoo.publicKey ∧
        arcLater.publicKey = otherFoo.publicKey ∧
        arcLater.publicKey ≠ arc.publicKey :=
  ⟨_, _, _, _, _, _, _, _, rfl, rfl, rfl, rfl, rfl, rfl, rfl, rfl, rfl,
    rfl, by decide⟩

end Hyperspace.Corestore
