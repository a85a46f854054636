import Hyperspace.FeedMap
import Hyperspace.Machine

namespace Hyperspace

/-!
# The feed store

`corestore/src/corestore.rs` opens feeds by public key, by name or by discovery
key.  On disk every feed has a directory named by its discovery key, with the
public key in the file `key` and, for feeds that have one, the name in the file
`name`; the master key from which named feeds derive their keys is a file of
its own.  In memory the open feeds are kept in a `FeedMap`.

A call holds the store's write lock from beginning to end, so calls are modelled
as functions on the disk and the memory of the process.  Every storage operation
may fail; which ones do is an argument of the call.
-/

namespace Corestore

/-- The cryptographic functions of the dependencies, and the crate `hex`. -/
structure Crypto where
  hex : Hex
  discoveryKey : Key → Key
  /-- A keyed `Blake2b` with a digest of 32 bytes. -/
  blake2b : Bytes → Bytes → Key
  /-- The public key of a secret key. -/
  publicKey : Key → Key
  /-- Whether `PublicKey::from_bytes` accepts the bytes. -/
  validPublicKey : Key → Bool

/-- The constant `NAMESPACE`, the bytes of `corestore`. -/
def namespaceBytes : Bytes :=
  [99, 111, 114, 101, 115, 116, 111, 114, 101]

namespace Crypto

/-- The function `derive_key`. -/
def deriveKey
    (crypto : Crypto)
    (masterKey : Key)
    (ns name : Bytes) : Key :=
  crypto.blake2b masterKey.bytes (ns ++ name)

/-- The secret key that `generate_key_pair` derives for a name. -/
def secretOfName (crypto : Crypto) (masterKey : Key) (name : Name) : Key :=
  crypto.deriveKey masterKey namespaceBytes name

/-- The public key that `generate_key_pair` derives for a name. -/
def keyOfName (crypto : Crypto) (masterKey : Key) (name : Name) : Key :=
  crypto.publicKey (crypto.secretOfName masterKey name)

end Crypto

/-! ## The disk -/

/-- A file path, as its components. -/
abbrev Path := List String

/--
The contents of every file.  Opening a file creates it, so a missing file is
the same as an empty one.
-/
abbrev Disk := Path → Bytes

/-- Write at offset 0; what the file has beyond the written bytes stays. -/
def Disk.write (disk : Disk) (path : Path) (bytes : Bytes) : Disk :=
  Function.update disk path (bytes ++ (disk path).drop bytes.length)

/-- Read the first 32 bytes as a key; fails when the file is shorter. -/
def Disk.readKey? (disk : Disk) (path : Path) : Option Key :=
  Key.ofBytes? ((disk path).take 32)

/-- The file with the master key. -/
def masterKeyPath (storagePath : Path) : Path :=
  storagePath ++ ["master_key"]

/-- The method `feed_path`. -/
def feedPath
    (crypto : Crypto)
    (storagePath : Path)
    (dkey : Key) : Path :=
  let hdkey := crypto.hex.encode dkey.bytes
  storagePath ++
    [String.ofList (hdkey.toList.take 2),
      String.ofList ((hdkey.toList.drop 2).take 2),
      hdkey]

/-- The file with the name of a feed. -/
def namePath
    (crypto : Crypto)
    (storagePath : Path)
    (dkey : Key) : Path :=
  feedPath crypto storagePath dkey ++ ["name"]

/-- The file with the public key of a feed. -/
def keyPath
    (crypto : Crypto)
    (storagePath : Path)
    (dkey : Key) : Path :=
  feedPath crypto storagePath dkey ++ ["key"]

/-! ## Storage operations and their failures -/

/-- The storage operations that a call makes, in the places it makes them. -/
inductive StorageOp where
  | openMasterKey
  | readMasterKey
  | writeMasterKey
  | openNameToRead
  | lenNameToRead
  | readName
  | openNameToWrite
  | lenNameToWrite
  | writeName
  | openKey
  | readKey
  | storageDisk
  | buildBeforeKey
  | buildAfterKey
  deriving Repr, DecidableEq

/-- The operations that fail during one call. -/
abbrev Faults := StorageOp → Bool

/-- No operation fails. -/
def noFaults : Faults := fun _ => false

/-- Why a call returns no feed. -/
inductive Failure where
  /-- The call returns the error of a storage operation. -/
  | storage (operation : StorageOp)
  /-- The call returns the error of `PublicKey::from_bytes`. -/
  | publicKey
  /-- The call panics on the error of a storage operation. -/
  | panicked (operation : StorageOp)
  /-- The call panics on sending to a receiver that was dropped. -/
  | receiverDropped
  deriving Repr, DecidableEq

/-! ## The memory of the process -/

/-- One subscription: whether its receiver exists, and the events queued in it. -/
structure Subscriber where
  alive : Bool
  queue : List ArcFeed
  deriving Repr, DecidableEq

/-- The structure `InnerCorestore`; the storage path is fixed. -/
structure InnerCorestore where
  masterKey : Key
  feeds : FeedMap
  subscribers : List Subscriber

/-- The disk, the number of feeds allocated so far, and the open store. -/
structure Memory where
  disk : Disk
  allocated : Nat
  inner : InnerCorestore

/--
The method `emit`: send to one subscriber after the other.  The result says
whether all receivers still exist; sending stops at the first that does not.
-/
def emit (arc : ArcFeed) : List Subscriber → List Subscriber × Bool
  | [] => ([], true)
  | subscriber :: rest =>
      if subscriber.alive then
        let (sent, allAlive) := emit arc rest
        ({ subscriber with queue := subscriber.queue ++ [arc] } :: sent,
          allAlive)
      else
        (subscriber :: rest, false)

/-- Who a feed is: its keys, and the name it is registered under. -/
structure Identity where
  publicKey : Key
  secretKey : Option Key
  name : Option Name
  deriving Repr, DecidableEq

section

variable
  (crypto : Crypto)
  (storagePath : Path)

/-- The method `read_name`. -/
def readName
    (faults : Faults)
    (disk : Disk)
    (dkey : Key) : Except Failure (Option Name) :=
  if faults .openNameToRead then
    .error (.storage .openNameToRead)
  else
    let stored := disk (namePath crypto storagePath dkey)
    let len := if faults .lenNameToRead then 0 else stored.length
    if 0 < len then
      if faults .readName then
        .error (.panicked .readName)
      else
        .ok (some (stored.take len))
    else
      .ok none

/-- The method `write_name_if_empty`. -/
def writeNameIfEmpty
    (faults : Faults)
    (disk : Disk)
    (dkey : Key)
    (name : Name) : Disk × Except Failure Bool :=
  if faults .openNameToWrite then
    (disk, .error (.storage .openNameToWrite))
  else
    let stored := disk (namePath crypto storagePath dkey)
    let len := if faults .lenNameToWrite then 0 else stored.length
    if 0 < len then
      (disk, .ok false)
    else if faults .writeName then
      (disk, .error (.panicked .writeName))
    else
      (disk.write (namePath crypto storagePath dkey) name, .ok true)

/-- The method `generate_key_pair`; without a name a random one is made up. -/
def generateKeyPair
    (masterKey random : Key)
    (name : Option Name) : Identity :=
  let name := name.getD random.bytes
  { publicKey := crypto.keyOfName masterKey name
    secretKey := some (crypto.secretOfName masterKey name)
    name := some name }

/-- The function `pubkey_from_bytes`. -/
def pubkeyFromBytes (key : Key) : Except Failure Key :=
  if crypto.validPublicKey key then .ok key else .error .publicKey

/--
The part of `open_feed` that decides which feed to open: with a name, given or
found on disk, the feed is the one derived from the name.
-/
def identify
    (faults : Faults)
    (random : Key)
    (memory : Memory)
    (key : Option Key)
    (name : Option Name) : Except Failure Identity := do
  let name ←
    match key, name with
    | _, some name => pure (some name)
    | none, none => pure none
    | some key, none =>
        readName crypto storagePath faults memory.disk (crypto.discoveryKey key)
  match key, name with
  | _, some name =>
      pure (generateKeyPair crypto memory.inner.masterKey random (some name))
  | none, none =>
      pure (generateKeyPair crypto memory.inner.masterKey random none)
  | some key, none =>
      let publicKey ← pubkeyFromBytes crypto key
      pure { publicKey := publicKey, secretKey := none, name := none }

/-- Store the name of a feed that has one in the feed's directory. -/
def storeName
    (faults : Faults)
    (disk : Disk)
    (identity : Identity) : Disk × Except Failure Bool :=
  match identity.name with
  | some name =>
      writeNameIfEmpty crypto storagePath faults disk
        (crypto.discoveryKey identity.publicKey) name
  | none => (disk, .ok false)

/-- Open the directory of a feed and build the feed, storing its public key. -/
def buildFeed
    (faults : Faults)
    (disk : Disk)
    (identity : Identity) : Disk × Except Failure Feed :=
  if faults .storageDisk then
    (disk, .error (.storage .storageDisk))
  else if faults .buildBeforeKey then
    (disk, .error (.storage .buildBeforeKey))
  else
    let path :=
      keyPath crypto storagePath (crypto.discoveryKey identity.publicKey)
    let stored := disk.write path identity.publicKey.bytes
    if faults .buildAfterKey then
      (stored, .error (.storage .buildAfterKey))
    else
      (stored,
        .ok {
          publicKey := identity.publicKey
          secretKey := identity.secretKey })

/-- Register a feed that has been built, and announce it. -/
def register
    (memory : Memory)
    (feed : Feed)
    (name : Option Name) : Memory × Except Failure ArcFeed :=
  let arc : ArcFeed := ⟨memory.allocated, feed⟩
  let feeds :=
    memory.inner.feeds.insert crypto.discoveryKey arc name
  let (subscribers, allAlive) := emit arc memory.inner.subscribers
  ({ memory with
     allocated := memory.allocated + 1
     inner :=
       { memory.inner with feeds := feeds, subscribers := subscribers } },
    if allAlive then .ok arc else .error .receiverDropped)

/-- The part of `open_feed` after the feed to open has been decided. -/
def openIdentified
    (faults : Faults)
    (memory : Memory)
    (identity : Identity) : Memory × Except Failure ArcFeed :=
  match storeName crypto storagePath faults memory.disk identity with
  | (disk, .error failure) =>
      ({ memory with disk := disk }, .error failure)
  | (disk, .ok _) =>
      match buildFeed crypto storagePath faults disk identity with
      | (disk, .error failure) =>
          ({ memory with disk := disk }, .error failure)
      | (disk, .ok feed) =>
          register crypto { memory with disk := disk } feed identity.name

/-- The method `open_feed`. -/
def openFeed
    (faults : Faults)
    (random : Key)
    (memory : Memory)
    (key : Option Key)
    (name : Option Name) : Memory × Except Failure ArcFeed :=
  match key.bind memory.inner.feeds.getKey with
  | some arc => (memory, .ok arc)
  | none =>
      match name.bind memory.inner.feeds.getName with
      | some arc => (memory, .ok arc)
      | none =>
          match identify crypto storagePath faults random memory key name with
          | .error failure => (memory, .error failure)
          | .ok identity =>
              openIdentified crypto storagePath faults memory identity

/-- The method `get_by_key`. -/
def getByKey
    (faults : Faults)
    (random : Key)
    (memory : Memory)
    (key : Key) : Memory × Except Failure ArcFeed :=
  openFeed crypto storagePath faults random memory (some key) none

/-- The method `get_by_name`. -/
def getByName
    (faults : Faults)
    (random : Key)
    (memory : Memory)
    (name : Name) : Memory × Except Failure ArcFeed :=
  openFeed crypto storagePath faults random memory none (some name)

/-- The method `get_by_dkey`. -/
def getByDkey
    (faults : Faults)
    (random : Key)
    (memory : Memory)
    (dkey : Key) : Memory × Except Failure (Option ArcFeed) :=
  match memory.inner.feeds.getDkey dkey with
  | some arc => (memory, .ok (some arc))
  | none =>
      if faults .openKey then
        (memory, .error (.storage .openKey))
      else
        let stored :=
          if faults .readKey then
            none
          else
            memory.disk.readKey? (keyPath crypto storagePath dkey)
        match stored with
        | none => (memory, .ok none)
        | some key =>
            let (memory, result) :=
              getByKey crypto storagePath faults random memory key
            (memory, result.map some)

/-- One call of the three lookup methods. -/
inductive Query where
  | byKey (key : Key)
  | byName (name : Name)
  | byDkey (dkey : Key)
  deriving Repr, DecidableEq

/-- Answer a query. -/
def answer
    (faults : Faults)
    (random : Key)
    (memory : Memory) :
    Query → Memory × Except Failure (Option ArcFeed)
  | .byKey key =>
      let (memory, result) :=
        getByKey crypto storagePath faults random memory key
      (memory, result.map some)
  | .byName name =>
      let (memory, result) :=
        getByName crypto storagePath faults random memory name
      (memory, result.map some)
  | .byDkey dkey =>
      getByDkey crypto storagePath faults random memory dkey

/-- The function `with_storage_path`; `random` is the key it may generate. -/
def withStoragePath
    (faults : Faults)
    (random : Key)
    (disk : Disk) : Disk × Except Failure InnerCorestore :=
  if faults .openMasterKey then
    (disk, .error (.storage .openMasterKey))
  else
    let stored :=
      if faults .readMasterKey then
        none
      else
        disk.readKey? (masterKeyPath storagePath)
    match stored with
    | some masterKey => (disk, .ok ⟨masterKey, .new, []⟩)
    | none =>
        if faults .writeMasterKey then
          (disk, .error (.panicked .writeMasterKey))
        else
          (disk.write (masterKeyPath storagePath) random.bytes,
            .ok ⟨random, .new, []⟩)

/-! ## Runs over one storage directory -/

/-- A storage directory, and the store that a process has opened on it. -/
structure Directory where
  disk : Disk
  allocated : Nat
  inner : Option InnerCorestore

/-- An empty directory that no process has opened. -/
def Directory.empty : Directory where
  disk := fun _ => []
  allocated := 0
  inner := none

/-- What can happen to a storage directory. -/
inductive Action where
  /-- The process ends, if there is one, and another opens the directory. -/
  | reopen (random : Key) (faults : Faults)
  | query (query : Query) (random : Key) (faults : Faults)
  | subscribe
  | dropReceiver (index : Nat)

/-- The method `subscribe`. -/
def InnerCorestore.subscribe (inner : InnerCorestore) : InnerCorestore :=
  { inner with subscribers := inner.subscribers ++ [⟨true, []⟩] }

/-- A receiver is dropped by its owner. -/
def InnerCorestore.dropReceiver
    (inner : InnerCorestore)
    (index : Nat) : InnerCorestore :=
  { inner with
    subscribers :=
      inner.subscribers.modify index
        fun subscriber => { subscriber with alive := false } }

/-- The store of a directory whose process runs. -/
def Directory.memory
    (directory : Directory)
    (inner : InnerCorestore) : Memory :=
  ⟨directory.disk, directory.allocated, inner⟩

/-- The directory after a call. -/
def Memory.directory (memory : Memory) : Directory :=
  ⟨memory.disk, memory.allocated, some memory.inner⟩

/-- One step of a directory. -/
def step (directory : Directory) : Action → Option Directory
  | .reopen random faults =>
      match withStoragePath storagePath faults random directory.disk with
      | (disk, .ok inner) =>
          some { directory with disk := disk, inner := some inner }
      | (disk, .error _) =>
          some { directory with disk := disk, inner := none }
  | .query query random faults =>
      directory.inner.map fun inner =>
        (answer crypto storagePath faults random
          (directory.memory inner) query).1.directory
  | .subscribe =>
      directory.inner.map fun inner =>
        { directory with inner := some inner.subscribe }
  | .dropReceiver index =>
      directory.inner.map fun inner =>
        { directory with inner := some (inner.dropReceiver index) }

end

/-! ## Opening the directory -/

section

variable
  {crypto : Crypto}
  {storagePath : Path}
  {faults : Faults}
  {random : Key}

/-- How `with_storage_path` can end, and what it leaves on disk. -/
inductive Opening
    (storagePath : Path)
    (faults : Faults)
    (random : Key)
    (disk : Disk) : Disk → Except Failure InnerCorestore → Prop
  | failed
      (failure : Failure)
      (fails :
        faults .openMasterKey = true ∨ faults .writeMasterKey = true) :
      Opening storagePath faults random disk disk (.error failure)
  | found
      {masterKey : Key}
      (stored :
        disk.readKey? (masterKeyPath storagePath) = some masterKey) :
      Opening storagePath faults random disk disk
        (.ok ⟨masterKey, .new, []⟩)
  | generated
      (opens : faults .openMasterKey = false)
      (writes : faults .writeMasterKey = false)
      (unread :
        faults .readMasterKey = true ∨
          disk.readKey? (masterKeyPath storagePath) = none) :
      Opening storagePath faults random disk
        (disk.write (masterKeyPath storagePath) random.bytes)
        (.ok ⟨random, .new, []⟩)

/-- Opening the directory ends in one of these ways. -/
theorem opening_withStoragePath
    (storagePath : Path)
    (faults : Faults)
    (random : Key)
    (disk : Disk) :
    Opening storagePath faults random disk
      (withStoragePath storagePath faults random disk).1
      (withStoragePath storagePath faults random disk).2 := by
  simp only [withStoragePath]
  split
  · next fails =>
      exact .failed _ (Or.inl fails)
  · next opens =>
      split
      · next masterKey stored =>
          split at stored
          · cases stored
          · exact .found stored
      · next unread =>
          split
          · next fails =>
              exact .failed _ (Or.inr fails)
          · next writes =>
              refine .generated (by simpa using opens)
                (by simpa using writes) ?_
              split at unread
              · next fails =>
                  exact Or.inl fails
              · exact Or.inr unread

/-- A store that was just opened has no feeds. -/
theorem Opening.feeds
    {disk written : Disk}
    {result : Except Failure InnerCorestore}
    {inner : InnerCorestore}
    (opening : Opening storagePath faults random disk written result)
    (isOpen : result.toOption = some inner) :
    inner.feeds = .new := by
  cases opening with
  | failed failure fails =>
      cases isOpen
  | found stored =>
      cases isOpen
      rfl
  | generated opens writes unread =>
      cases isOpen
      rfl

/-- What a restart does to a directory. -/
theorem opening_of_reopen
    {directory next : Directory}
    (stepped :
      step crypto storagePath directory (.reopen random faults) =
        some next) :
    ∃ written result,
      Opening storagePath faults random directory.disk written result ∧
        next =
          { directory with
            disk := written, inner := result.toOption } := by
  have opening :=
    opening_withStoragePath storagePath faults random directory.disk
  refine ⟨_, _, opening, ?_⟩
  simp only [step] at stepped
  split at stepped
  · next opened =>
      cases stepped
      rw [opened]
      rfl
  · next opened =>
      cases stepped
      rw [opened]
      rfl

end

end Corestore

end Hyperspace
