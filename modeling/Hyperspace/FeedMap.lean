import Hyperspace.Key
import Hyperspace.Table

namespace Hyperspace

/-!
# The store's table of open feeds

`FeedMap` of `corestore/src/feed_map.rs` indexes the open feeds by an id, by
public key, by discovery key and by name.  Ids come from the number of feeds.
The invariant `Indexed` says what the four indexes have to do with one another
as long as nothing is removed; it allows several feeds with one public key, of
which the indexes then know the last.
-/

/-- A feed name, the bytes of a string. -/
abbrev Name := Bytes

/-- The parts of an opened `Feed` that the store looks at. -/
structure Feed where
  publicKey : Key
  secretKey : Option Key
  deriving Repr, DecidableEq

/-- An `Arc<Mutex<Feed>>`; two pointers with one number are clones. -/
structure ArcFeed where
  pointer : Nat
  feed : Feed
  deriving Repr, DecidableEq

namespace ArcFeed

/-- The public key of the feed behind a pointer. -/
def publicKey (arc : ArcFeed) : Key :=
  arc.feed.publicKey

end ArcFeed

/-- The structure `FeedMap`. -/
structure FeedMap where
  feeds : Table Nat ArcFeed
  keys : Table Key Nat
  dkeys : Table Key Nat
  names : Table Name Nat
  namesRev : Table Nat Name

namespace FeedMap

/-- The function `new`. -/
def new : FeedMap where
  feeds := ∅
  keys := ∅
  dkeys := ∅
  names := ∅
  namesRev := ∅

/-- The method `get_name`. -/
def getName (feedMap : FeedMap) (name : Name) : Option ArcFeed :=
  (feedMap.names.lookup name).bind fun id => feedMap.feeds.lookup id

/-- The method `get_key`. -/
def getKey (feedMap : FeedMap) (key : Key) : Option ArcFeed :=
  (feedMap.keys.lookup key).bind fun id => feedMap.feeds.lookup id

/-- The method `get_dkey`. -/
def getDkey (feedMap : FeedMap) (dkey : Key) : Option ArcFeed :=
  (feedMap.dkeys.lookup dkey).bind fun id => feedMap.feeds.lookup id

/-- The method `iter`. -/
def iter (feedMap : FeedMap) : List ArcFeed :=
  feedMap.feeds.values

/-- The method `insert`, for a feed whose new `Arc` is given. -/
def insert
    (discoveryKey : Key → Key)
    (feedMap : FeedMap)
    (arc : ArcFeed)
    (name : Option Name) : FeedMap :=
  let key := arc.publicKey
  let id := feedMap.feeds.size
  { feeds := feedMap.feeds.insert id arc
    keys := feedMap.keys.insert key id
    dkeys := feedMap.dkeys.insert (discoveryKey key) id
    names :=
      match name with
      | some name => feedMap.names.insert name id
      | none => feedMap.names
    namesRev :=
      match name with
      | some name => feedMap.namesRev.insert id name
      | none => feedMap.namesRev }

/-- The method `_remove`. -/
def remove
    (discoveryKey : Key → Key)
    (feedMap : FeedMap)
    (arc : ArcFeed) : FeedMap :=
  let key := arc.publicKey
  match feedMap.keys.lookup key with
  | none => feedMap
  | some id =>
      { feeds := feedMap.feeds.erase id
        keys := feedMap.keys.erase key
        dkeys := feedMap.dkeys.erase (discoveryKey key)
        names :=
          match feedMap.namesRev.lookup id with
          | some name => feedMap.names.erase name
          | none => feedMap.names
        namesRev :=
          match feedMap.namesRev.lookup id with
          | some _ => feedMap.namesRev.erase id
          | none => feedMap.namesRev }

/--
The indexes of a map into which feeds are only inserted.  `keyOfName` is the
public key that belongs to a name.
-/
structure Indexed
    (discoveryKey : Key → Key)
    (keyOfName : Name → Key)
    (feedMap : FeedMap) : Prop where
  idRange :
    ∀ id, (feedMap.feeds.lookup id).isSome ↔ id < feedMap.feeds.size
  keySound :
    ∀ {key id},
      feedMap.keys.lookup key = some id →
      ∃ arc,
        feedMap.feeds.lookup id = some arc ∧ arc.publicKey = key
  dkeySound :
    ∀ {dkey id},
      feedMap.dkeys.lookup dkey = some id →
      ∃ arc,
        feedMap.feeds.lookup id = some arc ∧
          discoveryKey arc.publicKey = dkey
  nameSound :
    ∀ {name id},
      feedMap.names.lookup name = some id →
      ∃ arc,
        feedMap.feeds.lookup id = some arc ∧
          arc.publicKey = keyOfName name
  keyComplete :
    ∀ {id arc},
      feedMap.feeds.lookup id = some arc →
      (feedMap.keys.lookup arc.publicKey).isSome
  dkeyComplete :
    ∀ {id arc},
      feedMap.feeds.lookup id = some arc →
      (feedMap.dkeys.lookup (discoveryKey arc.publicKey)).isSome

section

variable
  {discoveryKey : Key → Key}
  {keyOfName : Name → Key}
  {feedMap : FeedMap}

/-- A feed found through an index has what the index promises. -/
private theorem found_through_index
    {κ : Type}
    [DecidableEq κ]
    {index : Table κ Nat}
    {query : κ}
    {promise : ArcFeed → Prop}
    {arc : ArcFeed}
    (sound :
      ∀ {id},
        index.lookup query = some id →
        ∃ stored,
          feedMap.feeds.lookup id = some stored ∧ promise stored)
    (found :
      ((index.lookup query).bind
        fun id => feedMap.feeds.lookup id) = some arc) :
    promise arc ∧ arc ∈ feedMap.iter := by
  obtain ⟨id, known, stored⟩ := Option.bind_eq_some_iff.mp found
  obtain ⟨other, otherStored, promised⟩ := sound known
  rw [stored] at otherStored
  cases otherStored
  exact ⟨promised, Table.mem_values.mpr ⟨id, stored⟩⟩

/-- The empty map is indexed. -/
theorem indexed_new : Indexed discoveryKey keyOfName new where
  idRange := by simp [new]
  keySound := by simp [new]
  dkeySound := by simp [new]
  nameSound := by simp [new]
  keyComplete := by simp [new]
  dkeyComplete := by simp [new]

/-- An index still knows every feed when the new one is entered in it. -/
theorem index_complete_insert
    {κ : Type}
    [DecidableEq κ]
    {index : Table κ Nat}
    {added : ArcFeed}
    {keyOf : ArcFeed → κ}
    (complete :
      ∀ {id arc},
        feedMap.feeds.lookup id = some arc →
        (index.lookup (keyOf arc)).isSome)
    {id : Nat}
    {other : ArcFeed}
    (found :
      (feedMap.feeds.insert feedMap.feeds.size added).lookup id =
        some other) :
    ((index.insert (keyOf added) feedMap.feeds.size).lookup
      (keyOf other)).isSome := by
  rw [Table.lookup_insert_ite] at found ⊢
  split
  · rfl
  · next different =>
      split at found
      · cases found
        exact (different rfl).elim
      · exact complete found

namespace Indexed

variable (indexed : Indexed discoveryKey keyOfName feedMap)

include indexed

/-- The next id is free. -/
theorem lookup_size :
    feedMap.feeds.lookup feedMap.feeds.size = none := by
  rw [← Option.not_isSome_iff_eq_none, indexed.idRange]
  exact Nat.lt_irrefl _

/-- A lookup that succeeded before an insertion still succeeds after it. -/
theorem lookup_insert_of_some
    {id : Nat}
    {arc : ArcFeed}
    (found : feedMap.feeds.lookup id = some arc)
    (added : ArcFeed) :
    (feedMap.feeds.insert feedMap.feeds.size added).lookup id =
      some arc := by
  have different : id ≠ feedMap.feeds.size := by
    intro same
    rw [same, indexed.lookup_size] at found
    cases found
  rw [AList.lookup_insert_ne different, found]

/-- Insertion adds one feed to those that `iter` yields. -/
theorem iter_insert
    (arc : ArcFeed)
    (name : Option Name) :
    (feedMap.insert discoveryKey arc name).iter =
      arc :: feedMap.iter :=
  Table.values_insert_of_lookup_none indexed.lookup_size arc

section

variable
  {κ : Type}
  [DecidableEq κ]
  {index : Table κ Nat}
  {added : ArcFeed}

/-- An index that keeps its promise about old feeds keeps it later. -/
theorem index_sound_of_lookup
    {promise : ArcFeed → Prop}
    {id : Nat}
    (stored :
      ∃ arc, feedMap.feeds.lookup id = some arc ∧ promise arc) :
    ∃ arc,
      (feedMap.feeds.insert feedMap.feeds.size added).lookup id =
          some arc ∧
        promise arc := by
  obtain ⟨arc, found, promised⟩ := stored
  exact ⟨arc, indexed.lookup_insert_of_some found added, promised⟩

/-- An index keeps its promise when the new feed is entered in it. -/
theorem index_sound_insert
    {promise : κ → ArcFeed → Prop}
    (sound :
      ∀ {key id},
        index.lookup key = some id →
        ∃ arc, feedMap.feeds.lookup id = some arc ∧ promise key arc)
    {inserted : κ}
    (promised : promise inserted added)
    {key : κ}
    {id : Nat}
    (found :
      (index.insert inserted feedMap.feeds.size).lookup key = some id) :
    ∃ arc,
      (feedMap.feeds.insert feedMap.feeds.size added).lookup id =
          some arc ∧
        promise key arc := by
  rw [Table.lookup_insert_ite] at found
  split at found
  · next same =>
      cases found
      subst key
      exact ⟨added, AList.lookup_insert _, promised⟩
  · exact indexed.index_sound_of_lookup (sound found)

end

/-- Insertion under the name that belongs to the key keeps the indexes. -/
theorem insert
    (arc : ArcFeed)
    {name : Option Name}
    (named : ∀ text ∈ name, arc.publicKey = keyOfName text) :
    Indexed discoveryKey keyOfName
      (feedMap.insert discoveryKey arc name) where
  idRange := by
    intro id
    simp only [FeedMap.insert]
    rw [Table.size_insert_of_lookup_none indexed.lookup_size,
      Table.lookup_insert_ite]
    have before := indexed.idRange id
    split
    · simp
      omega
    · rw [before]
      omega
  keySound := indexed.index_sound_insert indexed.keySound rfl
  dkeySound := indexed.index_sound_insert indexed.dkeySound rfl
  nameSound := by
    intro text id found
    cases name with
    | none =>
        exact indexed.index_sound_of_lookup (indexed.nameSound found)
    | some given =>
        exact indexed.index_sound_insert indexed.nameSound
          (named given rfl) found
  keyComplete := index_complete_insert indexed.keyComplete
  dkeyComplete := index_complete_insert indexed.dkeyComplete

/-- A feed found by key is open and has that key. -/
theorem of_getKey
    {key : Key}
    {arc : ArcFeed}
    (found : feedMap.getKey key = some arc) :
    arc.publicKey = key ∧ arc ∈ feedMap.iter :=
  found_through_index indexed.keySound found

/-- A feed found by discovery key is open and has that discovery key. -/
theorem of_getDkey
    {dkey : Key}
    {arc : ArcFeed}
    (found : feedMap.getDkey dkey = some arc) :
    discoveryKey arc.publicKey = dkey ∧ arc ∈ feedMap.iter :=
  found_through_index indexed.dkeySound found

/-- A feed found by name is open and has the key that belongs to the name. -/
theorem of_getName
    {name : Name}
    {arc : ArcFeed}
    (found : feedMap.getName name = some arc) :
    arc.publicKey = keyOfName name ∧ arc ∈ feedMap.iter :=
  found_through_index indexed.nameSound found

/-- The key of an open feed is found, at some feed with that key. -/
theorem getKey_isSome
    {arc : ArcFeed}
    (isOpen : arc ∈ feedMap.iter) :
    (feedMap.getKey arc.publicKey).isSome := by
  obtain ⟨id, stored⟩ := Table.mem_values.mp isOpen
  obtain ⟨known, found⟩ :=
    Option.isSome_iff_exists.mp (indexed.keyComplete stored)
  obtain ⟨other, otherStored, _⟩ := indexed.keySound found
  simp [getKey, found, otherStored]

/-- The discovery key of an open feed is found. -/
theorem getDkey_isSome
    {arc : ArcFeed}
    (isOpen : arc ∈ feedMap.iter) :
    (feedMap.getDkey (discoveryKey arc.publicKey)).isSome := by
  obtain ⟨id, stored⟩ := Table.mem_values.mp isOpen
  obtain ⟨known, found⟩ :=
    Option.isSome_iff_exists.mp (indexed.dkeyComplete stored)
  obtain ⟨other, otherStored, _⟩ := indexed.dkeySound found
  simp [getDkey, found, otherStored]

end Indexed

end

end FeedMap

/-- The feed named `foo`, for examples. -/
def sampleFooArc : ArcFeed where
  pointer := 0
  feed := ⟨sampleFoo.publicKey, some sampleFoo.secretKey⟩

end Hyperspace
