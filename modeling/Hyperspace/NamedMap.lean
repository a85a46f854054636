import Hyperspace.Table

namespace Hyperspace

/-!
# The client's map of sessions

`client/src/freemap.rs` keeps values under numeric ids together with any number
of names for each id.  Ids come from a queue of freed ids or, when that queue
is empty, from the current number of values.  Nothing frees an id (the removal
in the source is commented out), so the ids in use are exactly `1 .. len`; this
is the invariant `WellFormed`, and it makes every id that `insert` hands out
fresh.
-/

/-- `InnerMap` of `freemap.rs`; `NamedMap` is a lock around it. -/
structure NamedMap (Name Value : Type) where
  map : Table Nat Value
  nameId : Table Name Nat
  idName : Table Nat (List Name)
  free : List Nat

namespace NamedMap

variable {Name Value : Type}

/-- The function `new`. -/
def new : NamedMap Name Value where
  map := ∅
  nameId := ∅
  idName := ∅
  free := []

/-- The id that the next insertion uses, and the queue that remains. -/
def nextId (named : NamedMap Name Value) : Nat × List Nat :=
  match named.free with
  | id :: rest => (id, rest)
  | [] => (named.map.size + 1, [])

/-- The method `insert`. -/
def insert
    (named : NamedMap Name Value)
    (value : Value) :
    NamedMap Name Value × Nat :=
  let (id, free) := named.nextId
  ({ named with map := named.map.insert id value, free := free }, id)

/-- The method `get`. -/
def get
    (named : NamedMap Name Value)
    (id : Nat) : Option Value :=
  named.map.lookup id

variable [DecidableEq Name]

/-- The method `set_name`. -/
def setName
    (named : NamedMap Name Value)
    (id : Nat)
    (key : Name) : NamedMap Name Value :=
  { named with
    nameId := named.nameId.insert key id
    idName :=
      named.idName.insert id
        (match named.idName.lookup id with
        | some names => names ++ [key]
        | none => [key]) }

/-- The method `insert_with_name`. -/
def insertWithName
    (named : NamedMap Name Value)
    (value : Value)
    (name : Name) :
    NamedMap Name Value × Nat :=
  let (inserted, id) := named.insert value
  (inserted.setName id name, id)

/-- The method `get_by_name`. -/
def getByName
    (named : NamedMap Name Value)
    (key : Name) : Option Value :=
  match named.nameId.lookup key with
  | none => none
  | some id => named.map.lookup id

/-- The ids in use are `1 .. len`, no id is free and every name has a value. -/
structure WellFormed (named : NamedMap Name Value) : Prop where
  freeEmpty :
    named.free = []
  idRange :
    ∀ id, (named.get id).isSome ↔ 1 ≤ id ∧ id ≤ named.map.size
  nameResolves :
    ∀ {name id},
      named.nameId.lookup name = some id →
      (named.get id).isSome

/-- The empty map is well formed. -/
theorem wellFormed_new :
    (new : NamedMap Name Value).WellFormed where
  freeEmpty := rfl
  idRange := by
    intro id
    simp only [get, new, AList.lookup_empty, Table.size_empty]
    simp
    omega
  nameResolves := by
    intro name id found
    simp [new] at found

namespace WellFormed

variable {named : NamedMap Name Value}

/-- The next id is one more than the number of values. -/
theorem nextId_eq (wellFormed : named.WellFormed) :
    named.nextId = (named.map.size + 1, []) := by
  simp [nextId, wellFormed.freeEmpty]

/-- The next id is not in use. -/
theorem lookup_nextId (wellFormed : named.WellFormed) :
    named.map.lookup (named.map.size + 1) = none := by
  have unused := (wellFormed.idRange (named.map.size + 1)).not
  simp only [get] at unused
  rw [← Option.not_isSome_iff_eq_none, unused]
  omega

/-- What `insert_with_name` makes of a well-formed map. -/
theorem insertWithName_eq
    (wellFormed : named.WellFormed)
    (value : Value)
    (name : Name) :
    named.insertWithName value name =
      (setName
        { named with map := named.map.insert (named.map.size + 1) value }
        (named.map.size + 1) name,
        named.map.size + 1) := by
  have noneFree := wellFormed.freeEmpty
  simp [insertWithName, insert, wellFormed.nextId_eq, noneFree]

end WellFormed

/-- Giving a name to an id in use keeps the map well formed. -/
theorem WellFormed.setName
    {named : NamedMap Name Value}
    (wellFormed : named.WellFormed)
    {id : Nat}
    (used : (named.get id).isSome)
    (name : Name) :
    (named.setName id name).WellFormed where
  freeEmpty := wellFormed.freeEmpty
  idRange := wellFormed.idRange
  nameResolves := by
    intro other otherId found
    simp only [NamedMap.setName, Table.lookup_insert_ite] at found
    split at found
    · cases found
      exact used
    · exact wellFormed.nameResolves found

/-- Inserting a value under a fresh id keeps the map well formed. -/
theorem WellFormed.insertWithName
    {named : NamedMap Name Value}
    (wellFormed : named.WellFormed)
    (value : Value)
    (name : Name) :
    (named.insertWithName value name).1.WellFormed := by
  have absent := wellFormed.lookup_nextId
  have extended :
      WellFormed
        { named with
          map := named.map.insert (named.map.size + 1) value } := by
    refine ⟨wellFormed.freeEmpty, ?_, ?_⟩
    · intro id
      have before := wellFormed.idRange id
      simp only [get] at before ⊢
      rw [Table.size_insert_of_lookup_none absent,
        Table.lookup_insert_ite]
      split
      · simp
        omega
      · rw [before]
        omega
    · intro other otherId found
      have resolved := wellFormed.nameResolves found
      simp only [get, Table.lookup_insert_ite] at resolved ⊢
      split
      · rfl
      · exact resolved
  rw [wellFormed.insertWithName_eq]
  refine extended.setName ?_ name
  simp [get]

/-- Names after `set_name`: the new name resolves to its id. -/
theorem getByName_setName
    (named : NamedMap Name Value)
    (id : Nat)
    (name query : Name) :
    (named.setName id name).getByName query =
      if query = name then named.get id else named.getByName query := by
  by_cases same : query = name
  · subst query
    simp [getByName, setName, get]
  · simp [getByName, setName, AList.lookup_insert_ne same, same]

/-- Names after `insert_with_name`: the new name resolves to the new value. -/
theorem WellFormed.getByName_insertWithName
    {named : NamedMap Name Value}
    (wellFormed : named.WellFormed)
    (value : Value)
    (name query : Name) :
    (named.insertWithName value name).1.getByName query =
      if query = name then some value else named.getByName query := by
  rw [wellFormed.insertWithName_eq]
  simp only [getByName_setName]
  split
  · simp [get]
  · simp only [getByName]
    cases found : named.nameId.lookup query with
    | none =>
        rfl
    | some id =>
        have used := wellFormed.nameResolves found
        have inRange := (wellFormed.idRange id).mp used
        have different : id ≠ named.map.size + 1 := by omega
        simp [AList.lookup_insert_ne different]

/-- Values after `insert_with_name`: the new id resolves to the new value. -/
theorem WellFormed.get_insertWithName
    {named : NamedMap Name Value}
    (wellFormed : named.WellFormed)
    (value : Value)
    (name : Name)
    (id : Nat) :
    (named.insertWithName value name).1.get id =
      if id = (named.insertWithName value name).2 then
        some value
      else
        named.get id := by
  rw [wellFormed.insertWithName_eq]
  simp only [get, NamedMap.setName, Table.lookup_insert_ite]

end NamedMap

end Hyperspace
