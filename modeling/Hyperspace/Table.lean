import Mathlib.Data.List.AList

namespace Hyperspace

/-!
# Finite tables

The hash maps of the source are modelled by Mathlib's association lists, in
which every key occurs at most once.  This module adds the non-dependent names,
the number of entries, the list of values and the lookup lemmas in the shape
the later invariants use.  No result depends on the order of the entries.

Where several tables describe the same things, each of them holds the rows of
one list: `Holds` says so for a table, and its lemmas say what an insertion and
an erasure have to do with a longer and a shorter list.
-/

/-- A finite map from keys to values. -/
abbrev Table (κ υ : Type) := AList fun _ : κ => υ

namespace Table

variable {κ υ : Type}

/-- Number of entries of a table. -/
def size (table : Table κ υ) : Nat :=
  table.entries.length

/-- Every stored value, once for each key. -/
def values (table : Table κ υ) : List υ :=
  table.entries.map Sigma.snd

@[simp] theorem size_empty : (∅ : Table κ υ).size = 0 :=
  rfl

@[simp] theorem values_empty : (∅ : Table κ υ).values = [] :=
  rfl

variable [DecidableEq κ]

/-- A value is stored exactly when some key looks it up. -/
theorem mem_values
    {table : Table κ υ}
    {value : υ} :
    value ∈ table.values ↔ ∃ key, table.lookup key = some value := by
  simp only [values, List.mem_map]
  constructor
  · rintro ⟨⟨key, stored⟩, member, rfl⟩
    exact ⟨key, AList.mem_lookup_iff.mpr member⟩
  · rintro ⟨key, found⟩
    exact ⟨⟨key, value⟩, AList.mem_lookup_iff.mp found, rfl⟩

/-- Lookup after an insertion. -/
theorem lookup_insert_ite
    (table : Table κ υ)
    (inserted key : κ)
    (value : υ) :
    (table.insert inserted value).lookup key =
      if key = inserted then some value else table.lookup key := by
  by_cases same : key = inserted
  · subst key
    simp
  · simp [AList.lookup_insert_ne same, same]

/-- Inserting under an absent key adds one entry in front. -/
theorem values_insert_of_lookup_none
    {table : Table κ υ}
    {key : κ}
    (absent : table.lookup key = none)
    (value : υ) :
    values (table.insert key value) = value :: table.values := by
  rw [values,
    AList.entries_insert_of_notMem (AList.lookup_eq_none.mp absent)]
  rfl

/-- Inserting under an absent key increases the size by one. -/
theorem size_insert_of_lookup_none
    {table : Table κ υ}
    {key : κ}
    (absent : table.lookup key = none)
    (value : υ) :
    size (table.insert key value) = table.size + 1 := by
  rw [size,
    AList.entries_insert_of_notMem (AList.lookup_eq_none.mp absent)]
  rfl

/-- An insertion never makes a table smaller. -/
theorem size_le_size_insert
    (table : Table κ υ)
    (key : κ)
    (value : υ) :
    table.size ≤ size (table.insert key value) := by
  cases found : table.lookup key with
  | none =>
      rw [size_insert_of_lookup_none found]
      exact Nat.le_succ _
  | some old =>
      have member : key ∈ table.entries.keys :=
        AList.lookup_isSome.mp (by simp [found])
      obtain ⟨_, leading, trailing, _, before, after⟩ :=
        List.exists_of_kerase member
      rw [size, size, AList.entries_insert, after, before]
      simp
      omega

/-- Lookup after an erasure. -/
theorem lookup_erase_ite
    (table : Table κ υ)
    (erased key : κ) :
    AList.lookup key (table.erase erased) =
      if key = erased then none else table.lookup key := by
  by_cases same : key = erased
  · subst key
    simp
  · simp [AList.lookup_erase_ne same, same]

/-! ## Tables that hold the rows of a list -/

section

variable {ε : Type}

/--
A table holds the rows that a list of entries makes, and no others.  An entry
may make no row.
-/
def Holds
    (table : Table κ υ)
    (entries : List ε)
    (row : ε → Option (κ × υ)) : Prop :=
  ∀ key value,
    table.lookup key = some value ↔
      ∃ entry ∈ entries, row entry = some (key, value)

variable
  {table : Table κ υ}
  {entries : List ε}
  {row : ε → Option (κ × υ)}

/-- The empty table holds the rows of no entries. -/
theorem holds_empty : (∅ : Table κ υ).Holds [] row := by
  intro key value
  simp

/-- The row of an entry is found. -/
theorem Holds.lookup_eq
    (holds : table.Holds entries row)
    {entry : ε}
    (member : entry ∈ entries)
    {key : κ}
    {value : υ}
    (isRow : row entry = some (key, value)) :
    table.lookup key = some value :=
  (holds key value).mpr ⟨entry, member, isRow⟩

/-- A key of which there is no row is not found. -/
theorem Holds.lookup_eq_none
    (holds : table.Holds entries row)
    {key : κ}
    (absent :
      ∀ entry ∈ entries, ∀ value, row entry ≠ some (key, value)) :
    table.lookup key = none := by
  cases found : table.lookup key with
  | none =>
      rfl
  | some value =>
      obtain ⟨entry, member, isRow⟩ := (holds key value).mp found
      exact absurd isRow (absent entry member value)

/-- A new entry whose key is in no row is inserted. -/
theorem Holds.insert
    (holds : table.Holds entries row)
    {entry : ε}
    {key : κ}
    {value : υ}
    (isRow : row entry = some (key, value))
    (absent : ∀ other ∈ entries, ∀ old, row other ≠ some (key, old)) :
    Holds (table.insert key value) (entry :: entries) row := by
  intro query found
  rw [lookup_insert_ite]
  by_cases same : query = key
  · subst query
    rw [if_pos rfl]
    constructor
    · intro isFound
      cases isFound
      exact ⟨entry, List.mem_cons_self, isRow⟩
    · rintro ⟨other, member, otherRow⟩
      rcases List.mem_cons.mp member with rfl | old
      · rw [isRow] at otherRow
        cases otherRow
        rfl
      · exact absurd otherRow (absent other old found)
  · rw [if_neg same, holds query found]
    constructor
    · rintro ⟨other, member, otherRow⟩
      exact ⟨other, List.mem_cons_of_mem _ member, otherRow⟩
    · rintro ⟨other, member, otherRow⟩
      rcases List.mem_cons.mp member with rfl | old
      · rw [isRow] at otherRow
        cases otherRow
        exact absurd rfl same
      · exact ⟨other, old, otherRow⟩

/-- A new entry that makes no row. -/
theorem Holds.skip
    (holds : table.Holds entries row)
    {entry : ε}
    (noRow : row entry = none) :
    table.Holds (entry :: entries) row := by
  intro key value
  rw [holds key value, List.exists_mem_cons_iff, noRow]
  simp

/-- An entry is dropped, and the key of its row is erased. -/
theorem Holds.erase
    (holds : table.Holds entries row)
    {dropped : ε}
    {key : κ}
    {old : υ}
    (isRow : row dropped = some (key, old))
    (unique :
      ∀ entry ∈ entries,
        ∀ value, row entry = some (key, value) → entry = dropped)
    {keep : ε → Bool}
    (kept :
      ∀ entry ∈ entries, keep entry = true ↔ entry ≠ dropped) :
    Holds (table.erase key) (entries.filter keep) row := by
  intro query value
  rw [lookup_erase_ite]
  constructor
  · intro found
    split at found
    · cases found
    · next different =>
        obtain ⟨entry, member, entryRow⟩ := (holds query value).mp found
        have isKept : keep entry = true := by
          rw [kept entry member]
          rintro rfl
          rw [isRow] at entryRow
          cases entryRow
          exact different rfl
        exact ⟨entry, List.mem_filter.mpr ⟨member, isKept⟩, entryRow⟩
  · rintro ⟨entry, filtered, entryRow⟩
    obtain ⟨member, isKept⟩ := List.mem_filter.mp filtered
    have different : query ≠ key := by
      rintro rfl
      exact (kept entry member).mp isKept
        (unique entry member value entryRow)
    rw [if_neg different]
    exact holds.lookup_eq member entryRow

/-- An entry that makes no row is dropped. -/
theorem Holds.drop
    (holds : table.Holds entries row)
    {dropped : ε}
    (noRow : row dropped = none)
    {keep : ε → Bool}
    (kept :
      ∀ entry ∈ entries, keep entry = true ↔ entry ≠ dropped) :
    table.Holds (entries.filter keep) row := by
  intro key value
  rw [holds key value]
  constructor
  · rintro ⟨entry, member, entryRow⟩
    have isKept : keep entry = true := by
      rw [kept entry member]
      rintro rfl
      rw [noRow] at entryRow
      cases entryRow
    exact ⟨entry, List.mem_filter.mpr ⟨member, isKept⟩, entryRow⟩
  · rintro ⟨entry, filtered, entryRow⟩
    exact ⟨entry, (List.mem_filter.mp filtered).1, entryRow⟩

/-- The values of a table whose entries all make rows, with distinct keys. -/
theorem Holds.values_perm
    {key : ε → κ}
    {value : ε → υ}
    (holds :
      table.Holds entries fun entry => some (key entry, value entry))
    (distinct : (entries.map key).Nodup) :
    table.values.Perm (entries.map value) := by
  have rowsDistinct :
      (entries.map fun entry =>
        (⟨key entry, value entry⟩ : Sigma fun _ : κ => υ)).Nodup := by
    apply List.Nodup.of_map Sigma.fst
    rw [List.map_map]
    exact distinct
  have rows :
      table.entries.Perm
        (entries.map fun entry => ⟨key entry, value entry⟩) := by
    rw [List.perm_ext_iff_of_nodup table.nodupKeys.nodup rowsDistinct]
    rintro ⟨query, found⟩
    rw [← AList.mem_lookup_iff, Option.mem_def, holds query found]
    simp
  have projected := rows.map Sigma.snd
  rw [List.map_map] at projected
  exact projected

end

end Table

end Hyperspace
