import Hyperspace.FeedMap
import Hyperspace.Machine
import Mathlib.Data.Set.Operations

namespace Hyperspace

/-!
# The replicator

`Replicator` of `replicator/src/lib.rs` keeps the feeds to replicate in a map
from discovery keys to `PeeredFeed`s, and tells its subscribers of every feed
that is added.  Each connection runs a task, `run_peer`, that subscribes and
then handles the events of its protocol stream and of the replicator.
-/

namespace Replicator

/-- The type `ReplicatorEvent`. -/
inductive ReplicatorEvent where
  | feed (dkey : Key)
  | discoveryKey (dkey : Key)
  deriving Repr, DecidableEq

/--
The structure `Stats`.  The counters are of type `u64`; they are modelled by
natural numbers that do not wrap around.
-/
structure Stats where
  id : Key
  downloadedBlocks : Nat := 0
  downloadedBytes : Nat := 0
  uploadedBlocks : Nat := 0
  uploadedBytes : Nat := 0
  deriving Repr, DecidableEq

/-- The method `add_downloaded`. -/
def Stats.addDownloaded (stats : Stats) (blocks bytes : Nat) : Stats :=
  { stats with
    downloadedBlocks := stats.downloadedBlocks + blocks
    downloadedBytes := stats.downloadedBytes + bytes }

/-- The method `add_uploaded`. -/
def Stats.addUploaded (stats : Stats) (blocks bytes : Nat) : Stats :=
  { stats with
    uploadedBlocks := stats.uploadedBlocks + blocks
    uploadedBytes := stats.uploadedBytes + bytes }

/-- The structure `PeeredFeed`; peer tasks are numbered as they are spawned. -/
structure PeeredFeed where
  feed : ArcFeed
  stats : List Stats
  tasks : List Nat
  deriving Repr, DecidableEq

namespace PeeredFeed

/-- The function `new`. -/
def new (feed : ArcFeed) : PeeredFeed where
  feed := feed
  stats := []
  tasks := []

/-- The method `add_peer`, for the task that it spawns. -/
def addPeer (peered : PeeredFeed) (id : Key) (task : Nat) : PeeredFeed :=
  { peered with
    tasks := peered.tasks ++ [task]
    stats := peered.stats ++ [{ id := id }] }

/-- The public key of the feed. -/
def publicKey (peered : PeeredFeed) : Key :=
  peered.feed.publicKey

end PeeredFeed

/-- The map `Replicator.feeds`. -/
abbrev Feeds := Table Key PeeredFeed

namespace Feeds

/-- The public keys of the feeds in the map. -/
def publicKeys (feeds : Feeds) : List Key :=
  feeds.values.map PeeredFeed.publicKey

/-- The insertion that `add_feed` makes. -/
def addFeed
    (discoveryKey : Key → Key)
    (feeds : Feeds)
    (feed : ArcFeed) : Feeds :=
  feeds.insert (discoveryKey feed.publicKey) (PeeredFeed.new feed)

/-- The change that a channel for a feed makes: a peer is attached to it. -/
def addPeer
    (feeds : Feeds)
    (dkey id : Key)
    (task : Nat) : Feeds :=
  match feeds.lookup dkey with
  | some peered => feeds.insert dkey (peered.addPeer id task)
  | none => feeds

/-- Every feed is stored under its discovery key, and its key is known. -/
def Keyed
    (discoveryKey : Key → Key)
    (keys : Set Key)
    (feeds : Feeds) : Prop :=
  ∀ dkey peered,
    feeds.lookup dkey = some peered →
    discoveryKey peered.publicKey = dkey ∧ peered.publicKey ∈ keys

/-- A public key belongs to a feed that some discovery key finds. -/
theorem mem_publicKeys
    {feeds : Feeds}
    {key : Key} :
    key ∈ feeds.publicKeys ↔
      ∃ dkey peered,
        feeds.lookup dkey = some peered ∧ peered.publicKey = key := by
  simp only [publicKeys, List.mem_map]
  constructor
  · rintro ⟨peered, member, hasKey⟩
    obtain ⟨dkey, found⟩ := Table.mem_values.mp member
    exact ⟨dkey, peered, found, hasKey⟩
  · rintro ⟨dkey, peered, found, hasKey⟩
    exact ⟨peered, Table.mem_values.mpr ⟨dkey, found⟩, hasKey⟩

section

variable
  {discoveryKey : Key → Key}
  {keys : Set Key}
  {feeds : Feeds}

/-- No feeds are keyed. -/
theorem keyed_empty : Keyed discoveryKey keys (∅ : Feeds) := by
  intro dkey peered found
  simp at found

/-- Storing a feed under its discovery key keeps the map keyed. -/
theorem Keyed.insert
    (keyed : Keyed discoveryKey keys feeds)
    {dkey : Key}
    (peered : PeeredFeed)
    (hasDkey : discoveryKey peered.publicKey = dkey)
    (known : peered.publicKey ∈ keys) :
    Keyed discoveryKey keys (feeds.insert dkey peered) := by
  intro other stored found
  rw [Table.lookup_insert_ite] at found
  split at found
  · next same =>
      cases found
      exact ⟨hasDkey.trans same.symm, known⟩
  · exact keyed _ _ found

/-- The public keys in a keyed map are known. -/
theorem Keyed.known
    (keyed : Keyed discoveryKey keys feeds)
    {key : Key}
    (member : key ∈ feeds.publicKeys) :
    key ∈ keys := by
  obtain ⟨dkey, peered, found, hasKey⟩ := mem_publicKeys.mp member
  rw [← hasKey]
  exact (keyed _ _ found).2

/-- A feed in a keyed map is found under its discovery key. -/
theorem Keyed.lookup_discoveryKey
    (keyed : Keyed discoveryKey keys feeds)
    {key : Key}
    (member : key ∈ feeds.publicKeys) :
    ∃ peered,
      feeds.lookup (discoveryKey key) = some peered ∧
        peered.publicKey = key := by
  obtain ⟨dkey, peered, found, hasKey⟩ := mem_publicKeys.mp member
  have hasDkey := (keyed _ _ found).1
  rw [hasKey] at hasDkey
  rw [hasDkey]
  exact ⟨peered, found, hasKey⟩

/--
Storing a feed under its discovery key adds its public key and removes none,
as long as discovery keys do not collide.
-/
theorem Keyed.mem_publicKeys_insert
    (keyed : Keyed discoveryKey keys feeds)
    (collisionFree : Set.InjOn discoveryKey keys)
    {dkey : Key}
    (peered : PeeredFeed)
    (hasDkey : discoveryKey peered.publicKey = dkey)
    (known : peered.publicKey ∈ keys)
    {key : Key} :
    key ∈ publicKeys (feeds.insert dkey peered) ↔
      key = peered.publicKey ∨ key ∈ feeds.publicKeys := by
  rw [mem_publicKeys, mem_publicKeys]
  constructor
  · rintro ⟨other, stored, found, hasKey⟩
    rw [Table.lookup_insert_ite] at found
    split at found
    · cases found
      exact Or.inl hasKey.symm
    · exact Or.inr ⟨other, stored, found, hasKey⟩
  · rintro (isNew | ⟨other, stored, found, hasKey⟩)
    · exact ⟨dkey, peered, by simp, isNew.symm⟩
    · by_cases same : other = dkey
      · subst other
        have sameKey : stored.publicKey = peered.publicKey :=
          collisionFree (keyed _ _ found).2 known
            ((keyed _ _ found).1.trans hasDkey.symm)
        exact ⟨dkey, peered, by simp, sameKey.symm.trans hasKey⟩
      · refine ⟨other, stored, ?_, hasKey⟩
        rw [AList.lookup_insert_ne same, found]

/-- `add_feed` adds the public key of the feed. -/
theorem Keyed.mem_publicKeys_addFeed
    (keyed : Keyed discoveryKey keys feeds)
    (collisionFree : Set.InjOn discoveryKey keys)
    {feed : ArcFeed}
    (known : feed.publicKey ∈ keys)
    {key : Key} :
    key ∈ publicKeys (feeds.addFeed discoveryKey feed) ↔
      key = feed.publicKey ∨ key ∈ feeds.publicKeys :=
  keyed.mem_publicKeys_insert collisionFree (PeeredFeed.new feed) rfl
    known

/-- Attaching a peer keeps the map keyed. -/
theorem Keyed.addPeer
    (keyed : Keyed discoveryKey keys feeds)
    (dkey id : Key)
    (task : Nat) :
    Keyed discoveryKey keys (feeds.addPeer dkey id task) := by
  simp only [Feeds.addPeer]
  cases found : feeds.lookup dkey with
  | none =>
      exact keyed
  | some peered =>
      exact keyed.insert (peered.addPeer id task)
        (keyed _ _ found).1 (keyed _ _ found).2

/-- Attaching a peer changes no public key. -/
theorem Keyed.mem_publicKeys_addPeer
    (keyed : Keyed discoveryKey keys feeds)
    (collisionFree : Set.InjOn discoveryKey keys)
    {dkey id : Key}
    {task : Nat}
    {key : Key} :
    key ∈ publicKeys (feeds.addPeer dkey id task) ↔
      key ∈ feeds.publicKeys := by
  simp only [Feeds.addPeer]
  cases found : feeds.lookup dkey with
  | none =>
      rfl
  | some peered =>
      simp only
      rw [keyed.mem_publicKeys_insert collisionFree
        (peered.addPeer id task) (keyed _ _ found).1
        (keyed _ _ found).2]
      constructor
      · rintro (isNew | before)
        · exact mem_publicKeys.mpr ⟨dkey, peered, found, isNew.symm⟩
        · exact before
      · exact Or.inr

end

end Feeds

end Replicator

end Hyperspace
