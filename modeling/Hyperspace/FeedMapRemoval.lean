import Hyperspace.FeedMap
import Hyperspace.Machine
import Mathlib.Data.Set.Function

namespace Hyperspace

/-!
# Feeds that are taken out of the table again

`insert` numbers a feed by the number of feeds that the map holds.  As long as
nothing is removed every feed gets a number of its own; after a removal the
number may be that of a feed which is still there, and this feed is then
replaced by the new one in `feeds` while the indexes still lead to its number.

This module follows the map through any sequence of `insert` and `_remove`.  A
list of the feeds that were inserted and not removed says what the map should
answer.  Each feed is listed with the number of feeds that were in the map when
it was inserted, and the map is right as long as no feed is inserted while one
is listed with the present number.
-/

namespace FeedMapRemoval

/-- A feed in the map, its name, and how many were there when it came. -/
structure Entry where
  arc : ArcFeed
  name : Option Name
  count : Nat
  deriving Repr, DecidableEq

/-- The map, and the feeds that were inserted and not removed. -/
structure State where
  feedMap : FeedMap
  live : List Entry

/-- A map without feeds. -/
def initial : State where
  feedMap := .new
  live := []

/-- A call of `insert` or of `_remove`. -/
inductive Action where
  | insert (arc : ArcFeed) (name : Option Name)
  | remove (arc : ArcFeed)
  deriving Repr, DecidableEq

/-- One call. -/
def step (discoveryKey : Key → Key) (state : State) :
    Action → Option State
  | .insert arc name =>
      some
        { feedMap := state.feedMap.insert discoveryKey arc name
          live := ⟨arc, name, state.live.length⟩ :: state.live }
  | .remove arc =>
      some
        { feedMap := state.feedMap.remove discoveryKey arc
          live :=
            state.live.filter fun entry =>
              decide (entry.arc.publicKey ≠ arc.publicKey) }

/--
The feeds that may be inserted: neither the public key nor the name is in use.
-/
def Valid (keys : Set Key) (state : State) : Action → Prop
  | .insert arc name =>
      arc.publicKey ∈ keys ∧
        ∀ entry ∈ state.live,
          entry.arc.publicKey ≠ arc.publicKey ∧
            ∀ text ∈ name, entry.name ≠ some text
  | .remove _ => True

/-- The map answers with the feeds that were inserted and not removed. -/
structure Answers
    (discoveryKey : Key → Key)
    (state : State) : Prop where
  getKey :
    ∀ entry ∈ state.live,
      state.feedMap.getKey entry.arc.publicKey = some entry.arc
  getDkey :
    ∀ entry ∈ state.live,
      state.feedMap.getDkey (discoveryKey entry.arc.publicKey) =
        some entry.arc
  getName :
    ∀ entry ∈ state.live,
      ∀ name ∈ entry.name,
        state.feedMap.getName name = some entry.arc
  iter : state.feedMap.iter.Perm (state.live.map Entry.arc)
  noKey :
    ∀ key,
      (∀ entry ∈ state.live, entry.arc.publicKey ≠ key) →
      state.feedMap.getKey key = none
  noDkey :
    ∀ dkey,
      (∀ entry ∈ state.live,
        discoveryKey entry.arc.publicKey ≠ dkey) →
      state.feedMap.getDkey dkey = none
  noName :
    ∀ name,
      (∀ entry ∈ state.live, entry.name ≠ some name) →
      state.feedMap.getName name = none

/-- The map answers after a call, and an insertion takes an id not in use. -/
def Keeps
    (discoveryKey : Key → Key)
    (state : State)
    (action : Action) : Prop :=
  (∀ next,
    step discoveryKey state action = some next →
    Answers discoveryKey next) ∧
  match action with
  | .insert _ _ =>
      state.feedMap.feeds.lookup state.feedMap.feeds.size = none
  | .remove _ => True

/--
When a feed is inserted, none is in the map that was inserted when the map held
as many feeds as it does now.
-/
def CountUnused (state : State) : Action → Prop
  | .insert _ _ =>
      ∀ entry ∈ state.live, entry.count ≠ state.live.length
  | .remove _ => True

/-- Whether a call is one of those that are followed can be checked. -/
instance decidableValid
    (keys : Set Key)
    [DecidablePred (· ∈ keys)]
    (state : State) :
    (action : Action) → Decidable (Valid keys state action)
  | .insert _ _ => inferInstanceAs (Decidable (_ ∧ _))
  | .remove _ => inferInstanceAs (Decidable True)

/-- The condition on the numbers can be checked. -/
instance decidableCountUnused (state : State) :
    (action : Action) → Decidable (CountUnused state action)
  | .insert _ _ =>
      inferInstanceAs (Decidable (∀ entry ∈ state.live, _))
  | .remove _ => inferInstanceAs (Decidable True)

/-- The invariant: every table of the map holds its rows of the list. -/
structure Sound
    (discoveryKey : Key → Key)
    (keys : Set Key)
    (state : State) : Prop where
  known : ∀ entry ∈ state.live, entry.arc.publicKey ∈ keys
  feeds :
    state.feedMap.feeds.Holds state.live fun entry =>
      some (entry.count, entry.arc)
  keys :
    state.feedMap.keys.Holds state.live fun entry =>
      some (entry.arc.publicKey, entry.count)
  dkeys :
    state.feedMap.dkeys.Holds state.live fun entry =>
      some (discoveryKey entry.arc.publicKey, entry.count)
  names :
    state.feedMap.names.Holds state.live fun entry =>
      entry.name.map fun name => (name, entry.count)
  namesRev :
    state.feedMap.namesRev.Holds state.live fun entry =>
      entry.name.map fun name => (entry.count, name)
  counts : (state.live.map Entry.count).Nodup

section

variable
  {discoveryKey : Key → Key}
  {keys : Set Key}
  {state next : State}

/-- A map without feeds holds no rows. -/
theorem sound_initial : Sound discoveryKey keys initial where
  known := by simp [initial]
  feeds := Table.holds_empty
  keys := Table.holds_empty
  dkeys := Table.holds_empty
  names := Table.holds_empty
  namesRev := Table.holds_empty
  counts := List.nodup_nil

/-! ## What the tables say about two entries -/

/-- Entries with one number are one entry. -/
theorem Sound.eq_of_count
    (sound : Sound discoveryKey keys state)
    {first second : Entry}
    (firstLive : first ∈ state.live)
    (secondLive : second ∈ state.live)
    (same : first.count = second.count) :
    first = second :=
  List.inj_on_of_nodup_map sound.counts firstLive secondLive same

/-- Entries with one key in an index are one entry. -/
theorem Sound.eq_of_key
    (sound : Sound discoveryKey keys state)
    {κ : Type}
    [DecidableEq κ]
    {index : Table κ Nat}
    (key : Entry → Option κ)
    (holds :
      index.Holds state.live fun entry =>
        (key entry).map fun found => (found, entry.count))
    {first second : Entry}
    (firstLive : first ∈ state.live)
    (secondLive : second ∈ state.live)
    {found : κ}
    (firstKey : key first = some found)
    (secondKey : key second = some found) :
    first = second := by
  have firstFound : index.lookup found = some first.count :=
    holds.lookup_eq firstLive (by rw [firstKey]; rfl)
  have secondFound : index.lookup found = some second.count :=
    holds.lookup_eq secondLive (by rw [secondKey]; rfl)
  rw [firstFound, Option.some.injEq] at secondFound
  exact sound.eq_of_count firstLive secondLive secondFound

/-- The map has as many feeds as are listed. -/
theorem Sound.size_eq (sound : Sound discoveryKey keys state) :
    state.feedMap.feeds.size = state.live.length := by
  have sameLength := (sound.feeds.values_perm sound.counts).length_eq
  simpa [Table.values, Table.size] using sameLength

/-- The number that the next feed gets is not in use. -/
theorem Sound.lookup_size_iff (sound : Sound discoveryKey keys state) :
    state.feedMap.feeds.lookup state.feedMap.feeds.size = none ↔
      ∀ entry ∈ state.live, entry.count ≠ state.live.length := by
  rw [sound.size_eq]
  constructor
  · intro unused entry isLive same
    rw [← same, sound.feeds.lookup_eq isLive rfl] at unused
    cases unused
  · intro unused
    apply sound.feeds.lookup_eq_none
    intro entry isLive arc isRow
    simp only [Option.some.injEq, Prod.mk.injEq] at isRow
    exact unused entry isLive isRow.1

/-! ## What the map answers -/

/-- An index leads to the feed of an entry. -/
theorem Sound.bind_lookup
    (sound : Sound discoveryKey keys state)
    {κ : Type}
    [DecidableEq κ]
    {index : Table κ Nat}
    (key : Entry → Option κ)
    (holds :
      index.Holds state.live fun entry =>
        (key entry).map fun found => (found, entry.count))
    {entry : Entry}
    (isLive : entry ∈ state.live)
    {found : κ}
    (isKey : key entry = some found) :
    ((index.lookup found).bind
        fun id => state.feedMap.feeds.lookup id) =
      some entry.arc := by
  rw [holds.lookup_eq isLive (by rw [isKey]; rfl)]
  exact sound.feeds.lookup_eq isLive rfl

/-- An index leads nowhere from a key that no entry has. -/
theorem bind_lookup_eq_none
    {κ : Type}
    [DecidableEq κ]
    {index : Table κ Nat}
    (key : Entry → Option κ)
    (holds :
      index.Holds state.live fun entry =>
        (key entry).map fun found => (found, entry.count))
    {query : κ}
    (absent : ∀ entry ∈ state.live, key entry ≠ some query) :
    ((index.lookup query).bind
        fun id => state.feedMap.feeds.lookup id) = none := by
  have unknown : index.lookup query = none := by
    apply holds.lookup_eq_none
    intro entry isLive count isRow
    obtain ⟨found, isKey, same⟩ := Option.map_eq_some_iff.mp isRow
    cases same
    exact absent entry isLive isKey
  rw [unknown]
  rfl

/-- The map answers with the feeds that are listed. -/
theorem Sound.answers (sound : Sound discoveryKey keys state) :
    Answers discoveryKey state where
  getKey := fun _ isLive =>
    sound.bind_lookup (fun entry => some entry.arc.publicKey)
      sound.keys isLive rfl
  getDkey := fun _ isLive =>
    sound.bind_lookup
      (fun entry => some (discoveryKey entry.arc.publicKey))
      sound.dkeys isLive rfl
  getName := fun _ isLive _ isName =>
    sound.bind_lookup Entry.name sound.names isLive isName
  iter := sound.feeds.values_perm sound.counts
  noKey := by
    intro key absent
    refine bind_lookup_eq_none
      (fun entry => some entry.arc.publicKey) sound.keys ?_
    intro entry isLive same
    exact absent entry isLive (Option.some.inj same)
  noDkey := by
    intro dkey absent
    refine bind_lookup_eq_none
      (fun entry => some (discoveryKey entry.arc.publicKey))
      sound.dkeys ?_
    intro entry isLive same
    exact absent entry isLive (Option.some.inj same)
  noName := fun _ absent =>
    bind_lookup_eq_none Entry.name sound.names absent

/-! ## What a call does -/

/-- An entry is added to an index. -/
theorem holds_insert_key
    {live : List Entry}
    (added : Entry)
    {κ : Type}
    [DecidableEq κ]
    {index : Table κ Nat}
    (key : Entry → Option κ)
    (holds :
      index.Holds live fun entry =>
        (key entry).map fun found => (found, entry.count))
    {inserted : κ}
    (isKey : key added = some inserted)
    (unused : ∀ entry ∈ live, key entry ≠ some inserted) :
    Table.Holds (index.insert inserted added.count) (added :: live)
      fun entry => (key entry).map fun found => (found, entry.count) := by
  refine holds.insert (by rw [isKey]; rfl) ?_
  intro entry isLive count isRow
  obtain ⟨found, entryKey, same⟩ := Option.map_eq_some_iff.mp isRow
  cases same
  exact unused entry isLive entryKey

/-- Inserting a feed while its number is not in use. -/
theorem Sound.insert
    (collisionFree : Set.InjOn discoveryKey keys)
    (sound : Sound discoveryKey keys state)
    {arc : ArcFeed}
    {name : Option Name}
    (valid : Valid keys state (.insert arc name))
    (unused : CountUnused state (.insert arc name)) :
    Sound discoveryKey keys
      { feedMap := state.feedMap.insert discoveryKey arc name
        live := ⟨arc, name, state.live.length⟩ :: state.live } := by
  obtain ⟨isKnown, notInUse⟩ := valid
  simp only [FeedMap.insert, sound.size_eq]
  refine ⟨?_, ?_, ?_, ?_, ?_, ?_, ?_⟩
  · intro entry isLive
    rcases List.mem_cons.mp isLive with rfl | old
    · exact isKnown
    · exact sound.known entry old
  · refine sound.feeds.insert rfl ?_
    intro entry isLive old isRow
    simp only [Option.some.injEq, Prod.mk.injEq] at isRow
    exact unused entry isLive isRow.1
  · refine holds_insert_key ⟨arc, name, state.live.length⟩
      (fun entry => some entry.arc.publicKey) sound.keys rfl ?_
    intro entry isLive same
    exact (notInUse entry isLive).1 (Option.some.inj same)
  · refine holds_insert_key ⟨arc, name, state.live.length⟩
      (fun entry => some (discoveryKey entry.arc.publicKey))
      sound.dkeys rfl ?_
    intro entry isLive same
    exact (notInUse entry isLive).1
      (collisionFree (sound.known entry isLive) isKnown
        (Option.some.inj same))
  · cases name with
    | none =>
        exact sound.names.skip rfl
    | some text =>
        refine holds_insert_key ⟨arc, some text, state.live.length⟩
          Entry.name sound.names rfl ?_
        intro entry isLive
        exact (notInUse entry isLive).2 text rfl
  · cases name with
    | none =>
        exact sound.namesRev.skip rfl
    | some text =>
        refine sound.namesRev.insert rfl ?_
        intro entry isLive old isRow
        obtain ⟨other, isName, same⟩ := Option.map_eq_some_iff.mp isRow
        simp only [Prod.mk.injEq] at same
        exact unused entry isLive same.1
  · simp only [List.map_cons, List.nodup_cons, List.mem_map, not_exists,
      not_and]
    exact ⟨unused, sound.counts⟩

/-- Removing a feed that is not in the map. -/
theorem Sound.remove_absent
    (sound : Sound discoveryKey keys state)
    {arc : ArcFeed}
    (absent : state.feedMap.keys.lookup arc.publicKey = none) :
    state.feedMap.remove discoveryKey arc = state.feedMap ∧
      (state.live.filter fun entry =>
        decide (entry.arc.publicKey ≠ arc.publicKey)) = state.live := by
  constructor
  · simp only [FeedMap.remove, absent]
  · rw [List.filter_eq_self]
    intro entry isLive
    apply decide_eq_true
    intro same
    rw [← same, sound.keys.lookup_eq isLive rfl] at absent
    cases absent

section

variable
  {removed : Entry}
  {keep : Entry → Bool}

/-- An entry is dropped from an index. -/
theorem Sound.erase_key
    (sound : Sound discoveryKey keys state)
    (isLive : removed ∈ state.live)
    (kept :
      ∀ entry ∈ state.live, keep entry = true ↔ entry ≠ removed)
    {κ : Type}
    [DecidableEq κ]
    {index : Table κ Nat}
    (key : Entry → Option κ)
    (holds :
      index.Holds state.live fun entry =>
        (key entry).map fun found => (found, entry.count))
    {erased : κ}
    (isKey : key removed = some erased) :
    Table.Holds (index.erase erased) (state.live.filter keep)
      fun entry => (key entry).map fun found => (found, entry.count) := by
  refine holds.erase (by rw [isKey]; rfl) ?_ kept
  intro entry entryLive value entryRow
  obtain ⟨found, entryKey, same⟩ := Option.map_eq_some_iff.mp entryRow
  cases same
  exact sound.eq_of_key key holds entryLive isLive entryKey isKey

/-- The name of an entry is found by its number. -/
theorem Sound.lookup_namesRev
    (sound : Sound discoveryKey keys state)
    (isLive : removed ∈ state.live) :
    state.feedMap.namesRev.lookup removed.count = removed.name := by
  cases isName : removed.name with
  | some name =>
      apply sound.namesRev.lookup_eq isLive
      rw [isName]
      rfl
  | none =>
      apply sound.namesRev.lookup_eq_none
      intro entry entryLive name entryRow
      obtain ⟨text, hasName, same⟩ := Option.map_eq_some_iff.mp entryRow
      simp only [Prod.mk.injEq] at same
      have isSame := sound.eq_of_count entryLive isLive same.1
      rw [isSame, isName] at hasName
      cases hasName

/-- The entries with another public key are the other entries. -/
theorem Sound.other_key_iff
    (sound : Sound discoveryKey keys state)
    (isLive : removed ∈ state.live)
    {entry : Entry}
    (entryLive : entry ∈ state.live) :
    decide (entry.arc.publicKey ≠ removed.arc.publicKey) = true ↔
      entry ≠ removed := by
  rw [decide_eq_true_eq]
  constructor
  · rintro different rfl
    exact different rfl
  · intro different same
    refine different
      (sound.eq_of_key (fun entry => some entry.arc.publicKey)
        sound.keys entryLive isLive rfl ?_)
    rw [same]

/-- Removing the feed of an entry erases its rows. -/
theorem Sound.remove_live
    (sound : Sound discoveryKey keys state)
    (isLive : removed ∈ state.live)
    {arc : ArcFeed}
    (sameKey : arc.publicKey = removed.arc.publicKey) :
    Sound discoveryKey keys
      { feedMap := state.feedMap.remove discoveryKey arc
        live :=
          state.live.filter fun entry =>
            decide (entry.arc.publicKey ≠ arc.publicKey) } := by
  have found :
      state.feedMap.keys.lookup arc.publicKey = some removed.count := by
    rw [sameKey]
    exact sound.keys.lookup_eq isLive rfl
  have isName := sound.lookup_namesRev isLive
  have kept :
      ∀ entry ∈ state.live,
        decide (entry.arc.publicKey ≠ removed.arc.publicKey) = true ↔
          entry ≠ removed :=
    fun _ => sound.other_key_iff isLive
  simp only [FeedMap.remove, found, isName, sameKey]
  refine ⟨?_, ?_, ?_, ?_, ?_, ?_, ?_⟩
  · intro entry filtered
    exact sound.known entry (List.mem_filter.mp filtered).1
  · refine sound.feeds.erase rfl ?_ kept
    intro entry entryLive other entryRow
    simp only [Option.some.injEq, Prod.mk.injEq] at entryRow
    exact sound.eq_of_count entryLive isLive entryRow.1
  · exact sound.erase_key isLive kept
      (fun entry => some entry.arc.publicKey) sound.keys rfl
  · exact sound.erase_key isLive kept
      (fun entry => some (discoveryKey entry.arc.publicKey))
      sound.dkeys rfl
  · cases isName : removed.name with
    | some name =>
        exact sound.erase_key isLive kept Entry.name sound.names isName
    | none =>
        exact sound.names.drop (by rw [isName]; rfl) kept
  · cases isName : removed.name with
    | some name =>
        refine sound.namesRev.erase (by rw [isName]; rfl) ?_ kept
        intro entry entryLive other entryRow
        obtain ⟨text, -, same⟩ := Option.map_eq_some_iff.mp entryRow
        simp only [Prod.mk.injEq] at same
        exact sound.eq_of_count entryLive isLive same.1
    | none =>
        exact sound.namesRev.drop (by rw [isName]; rfl) kept
  · exact (List.filter_sublist.map Entry.count).nodup sound.counts

end

/-- Removing a feed keeps the rows of the others. -/
theorem Sound.remove
    (sound : Sound discoveryKey keys state)
    (arc : ArcFeed) :
    Sound discoveryKey keys
      { feedMap := state.feedMap.remove discoveryKey arc
        live :=
          state.live.filter fun entry =>
            decide (entry.arc.publicKey ≠ arc.publicKey) } := by
  cases found : state.feedMap.keys.lookup arc.publicKey with
  | none =>
      obtain ⟨sameMap, sameLive⟩ := sound.remove_absent found
      rw [sameMap, sameLive]
      exact sound
  | some id =>
      obtain ⟨removed, isLive, isRow⟩ := (sound.keys _ _).mp found
      simp only [Option.some.injEq, Prod.mk.injEq] at isRow
      exact sound.remove_live isLive isRow.1.symm

/-- A call on a number that is not in use keeps the invariant. -/
theorem Sound.step
    (collisionFree : Set.InjOn discoveryKey keys)
    (sound : Sound discoveryKey keys state)
    {action : Action}
    (valid : Valid keys state action)
    (unused : CountUnused state action)
    (stepped :
      FeedMapRemoval.step discoveryKey state action = some next) :
    Sound discoveryKey keys next := by
  cases action with
  | insert arc name =>
      cases stepped
      exact sound.insert collisionFree valid unused
  | remove arc =>
      cases stepped
      exact sound.remove arc

/-- One call is right exactly when its number is not in use. -/
theorem Sound.keeps_iff
    (collisionFree : Set.InjOn discoveryKey keys)
    (sound : Sound discoveryKey keys state)
    {action : Action}
    (valid : Valid keys state action) :
    Keeps discoveryKey state action ↔ CountUnused state action := by
  constructor
  · intro keeps
    cases action with
    | insert arc name =>
        exact sound.lookup_size_iff.mp keeps.2
    | remove arc =>
        trivial
  · intro unused
    refine ⟨?_, ?_⟩
    · intro next stepped
      exact (sound.step collisionFree valid unused stepped).answers
    · cases action with
      | insert arc name =>
          exact sound.lookup_size_iff.mpr unused
      | remove arc =>
          trivial

/-! ## Whole runs -/

/--
In every sequence of calls, the map answers with the feeds that are in it, and
every insertion takes a number of its own, exactly when no feed is inserted
while one is in the map that came when the map held as many feeds.
-/
theorem keeps_feeds_iff_count_unused
    (discoveryKey : Key → Key)
    (keys : Set Key)
    (collisionFree : Set.InjOn discoveryKey keys)
    (actions : List Action)
    (valid :
      Machine.Along (step discoveryKey) (Valid keys) initial actions) :
    Machine.Along (step discoveryKey) (Keeps discoveryKey)
        initial actions ↔
      Machine.Along (step discoveryKey) CountUnused initial actions := by
  constructor
  · intro keeps
    refine Machine.along_imp (Sound discoveryKey keys) ?_ ?_
      sound_initial (Machine.along_and valid keeps)
    · intro state action next sound holds stepped
      have unused := (sound.keeps_iff collisionFree holds.1).mp holds.2
      exact sound.step collisionFree holds.1 unused stepped
    · intro state action sound holds
      exact (sound.keeps_iff collisionFree holds.1).mp holds.2
  · intro unused
    refine Machine.along_imp (Sound discoveryKey keys) ?_ ?_
      sound_initial (Machine.along_and valid unused)
    · intro state action next sound holds stepped
      exact sound.step collisionFree holds.1 holds.2 stepped
    · intro state action sound holds
      exact (sound.keeps_iff collisionFree holds.1).mpr holds.2

end

/-- The feed with the empty name. -/
def sampleEmptyArc : ArcFeed where
  pointer := 1
  feed := ⟨sampleEmpty.publicKey, some sampleEmpty.secretKey⟩

/-- The public keys of the two feeds. -/
def samplePublicKeys : Set Key :=
  {key | key = sampleFoo.publicKey ∨ key = sampleEmpty.publicKey}

instance : DecidablePred (· ∈ samplePublicKeys) := fun key =>
  inferInstanceAs
    (Decidable (key = sampleFoo.publicKey ∨ key = sampleEmpty.publicKey))

/-- The two public keys have different discovery keys. -/
theorem injOn_samplePublicKeys :
    Set.InjOn sampleDiscoveryKey samplePublicKeys := by
  rintro first (rfl | rfl) second (rfl | rfl) same
  · rfl
  · exact absurd same (by decide)
  · exact absurd same (by decide)
  · rfl

/-- Both feeds are inserted. -/
def insertBoth : List Action :=
  [.insert sampleFooArc (some sampleFoo.name),
    .insert sampleEmptyArc (some sampleEmpty.name)]

/-- The feed that came last is removed and inserted again. -/
def reinsertLast : List Action :=
  insertBoth ++
    [.remove sampleEmptyArc,
      .insert sampleEmptyArc (some sampleEmpty.name)]

/-- The feed that came first is removed and inserted again. -/
def reinsertFirst : List Action :=
  insertBoth ++
    [.remove sampleFooArc,
      .insert sampleFooArc (some sampleFoo.name)]

/-- A feed that came last may be removed and inserted again. -/
theorem keeps_feeds_reinsertLast :
    Machine.Along (step sampleDiscoveryKey) (Valid samplePublicKeys)
        initial reinsertLast ∧
      Machine.Along (step sampleDiscoveryKey)
        (Keeps sampleDiscoveryKey) initial reinsertLast := by
  have valid :
      Machine.Along (step sampleDiscoveryKey) (Valid samplePublicKeys)
        initial reinsertLast := by
    decide
  refine ⟨valid, ?_⟩
  refine (keeps_feeds_iff_count_unused sampleDiscoveryKey
    samplePublicKeys injOn_samplePublicKeys reinsertLast valid).mpr ?_
  decide

/--
When the feed that came first is removed and inserted again, it takes the
number of the other feed, and that feed is lost.
-/
theorem reinsertFirst_replaces :
    Set.InjOn sampleDiscoveryKey samplePublicKeys ∧
      Machine.Along (step sampleDiscoveryKey) (Valid samplePublicKeys)
        initial reinsertFirst ∧
      ¬ Machine.Along (step sampleDiscoveryKey)
          (Keeps sampleDiscoveryKey) initial reinsertFirst ∧
      ∃ final,
        Machine.run (step sampleDiscoveryKey) initial reinsertFirst =
            some final ∧
          final.live.map Entry.arc = [sampleFooArc, sampleEmptyArc] ∧
          final.feedMap.iter = [sampleFooArc] ∧
          final.feedMap.getKey sampleEmpty.publicKey =
            some sampleFooArc := by
  refine ⟨injOn_samplePublicKeys, by decide, ?_, ?_⟩
  · rintro ⟨-, -, -, ⟨-, unused⟩, -⟩
    exact absurd unused (by decide)
  · exact ⟨_, rfl, by decide, by decide, by decide⟩

end FeedMapRemoval

end Hyperspace
