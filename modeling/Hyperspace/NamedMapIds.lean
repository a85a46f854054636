import Hyperspace.Machine
import Hyperspace.NamedMap
import Hyperspace.RemoteHypercore

namespace Hyperspace

/-!
# The ids of the client's sessions

A `NamedMap` is cloned with every handle on the store, and all clones share one
record behind a lock.  Each method takes the lock once, so calls on any number
of clones are one sequence of calls on the record.  This module follows such a
sequence together with what was said to the callers: the id that was returned
for each value, and the id that each name was given.

The ids that were returned are `1, 2, ...` in the order of the calls.  No id is
given out twice, and below `2 ^ 32` none is lost in the cast to `u32` that
every request to the server makes.
-/

namespace NamedMapIds

/--
The record that the clones share; the ids and values of the insertions, in
their order; and the names with the ids they were given, the latest first.
-/
structure State (Name Value : Type) where
  named : NamedMap Name Value
  returned : List (Nat × Value)
  assigned : List (Name × Nat)

/-- A call on one of the clones. -/
inductive Action (Name Value : Type) where
  | insertWithName (value : Value) (name : Name)
  | setName (id : Nat) (name : Name)
  deriving Repr, DecidableEq

variable {Name Value : Type}

/-- A map without values. -/
def initial : State Name Value where
  named := .new
  returned := []
  assigned := []

/-- Only an id that was returned before is given a name. -/
def Valid (state : State Name Value) : Action Name Value → Prop
  | .insertWithName _ _ => True
  | .setName id _ => id ∈ state.returned.map Prod.fst

/-- Whether an id was returned can be checked. -/
instance decidableValid (state : State Name Value) :
    (action : Action Name Value) → Decidable (Valid state action)
  | .insertWithName _ _ => inferInstanceAs (Decidable True)
  | .setName _ _ => inferInstanceAs (Decidable (_ ∈ _))

variable [DecidableEq Name]

/-- One call. -/
def step (state : State Name Value) :
    Action Name Value → Option (State Name Value)
  | .insertWithName value name =>
      let (named, id) := state.named.insertWithName value name
      some
        { named := named
          returned := state.returned ++ [(id, value)]
          assigned := (name, id) :: state.assigned }
  | .setName id name =>
      some
        { named := state.named.setName id name
          returned := state.returned
          assigned := (name, id) :: state.assigned }

/-- Every id and every name still leads to its value. -/
structure Resolves (state : State Name Value) : Prop where
  start : ∀ first ∈ state.returned.head?, first.1 = 1
  distinct : (state.returned.map Prod.fst).Nodup
  get :
    ∀ inserted ∈ state.returned,
      state.named.get inserted.1 = some inserted.2
  getByName :
    ∀ name id,
      state.assigned.lookup name = some id →
      ∃ value,
        (id, value) ∈ state.returned ∧
          state.named.getByName name = some value
  getByName_none :
    ∀ name,
      state.assigned.lookup name = none →
      state.named.getByName name = none

/-- The requests of different sessions name different ids. -/
def RequestsDiffer (state : State Name Value) : Prop :=
  ∀ first ∈ state.returned,
    ∀ second ∈ state.returned,
      first.1 ≠ second.1 →
      ∀ (inner innerOther : InnerHypercore)
        (call callOther : HypercoreCall),
        ((inner.setId first.1).request call).id ≠
          ((innerOther.setId second.1).request callOther).id

/-- The invariant: the ids count the values, and the names are the latest. -/
structure Counts (state : State Name Value) : Prop where
  wellFormed : state.named.WellFormed
  ids :
    state.returned.map Prod.fst =
      List.range' 1 state.named.map.size
  values :
    ∀ inserted ∈ state.returned,
      state.named.get inserted.1 = some inserted.2
  names :
    ∀ name,
      state.named.nameId.lookup name = state.assigned.lookup name

/-- Nothing was returned for a map without values. -/
theorem counts_initial : Counts (initial : State Name Value) where
  wellFormed := NamedMap.wellFormed_new
  ids := rfl
  values := by simp [initial]
  names := by simp [initial, NamedMap.new]

section

variable {state next : State Name Value}

/-- The ids that were returned are those up to the number of values. -/
theorem Counts.mem_ids_iff
    (counts : Counts state)
    {id : Nat} :
    id ∈ state.returned.map Prod.fst ↔
      1 ≤ id ∧ id ≤ state.named.map.size := by
  rw [counts.ids, List.mem_range'_1]
  omega

/-- As many ids were returned as there are values. -/
theorem Counts.length_eq (counts : Counts state) :
    state.returned.length = state.named.map.size := by
  have sameLength := congrArg List.length counts.ids
  simpa using sameLength

/-- A table of names after an assignment is the list with it in front. -/
theorem lookup_insert_eq_lookup_cons
    {table : Table Name Nat}
    {assigned : List (Name × Nat)}
    (same : ∀ name, table.lookup name = assigned.lookup name)
    (name : Name)
    (id : Nat)
    (query : Name) :
    (table.insert name id).lookup query =
      ((name, id) :: assigned).lookup query := by
  rw [Table.lookup_insert_ite, List.lookup_cons]
  by_cases isName : query = name
  · simp [isName]
  · rw [if_neg isName, same query, beq_eq_false_iff_ne.mpr isName]

/-- An insertion returns the next number. -/
theorem Counts.insertWithName
    (counts : Counts state)
    {value : Value}
    {name : Name}
    (stepped : step state (.insertWithName value name) = some next) :
    Counts next := by
  have wellFormed := counts.wellFormed
  have made := wellFormed.insertWithName_eq value name
  simp only [step, made, Option.some.injEq] at stepped
  subst next
  refine ⟨?_, ?_, ?_, ?_⟩
  · have later := wellFormed.insertWithName value name
    rw [made] at later
    exact later
  · have grown :=
      Table.size_insert_of_lookup_none wellFormed.lookup_nextId value
    simp only [NamedMap.setName, grown, List.map_append, counts.ids,
      List.range'_1_concat, List.map_cons, List.map_nil]
    rw [Nat.add_comm]
  · intro inserted member
    have found :=
      wellFormed.get_insertWithName value name inserted.1
    simp only [made] at found
    rw [found]
    rcases List.mem_append.mp member with old | new
    · have isId := List.mem_map_of_mem (f := Prod.fst) old
      have inRange := counts.mem_ids_iff.mp isId
      rw [if_neg (by omega)]
      exact counts.values inserted old
    · rw [List.mem_singleton] at new
      subst inserted
      exact if_pos rfl
  · exact lookup_insert_eq_lookup_cons counts.names name _

/-- Giving a name to an id that was returned keeps the numbers. -/
theorem Counts.setName
    (counts : Counts state)
    {id : Nat}
    {name : Name}
    (valid : Valid state (.setName id name))
    (stepped : step state (.setName id name) = some next) :
    Counts next := by
  cases stepped
  refine ⟨?_, counts.ids, counts.values, ?_⟩
  · have inRange := counts.mem_ids_iff.mp valid
    exact counts.wellFormed.setName
      ((counts.wellFormed.idRange id).mpr inRange) name
  · exact lookup_insert_eq_lookup_cons counts.names name id

/-- Every call can be made and keeps the numbers. -/
theorem Counts.exists_step
    (counts : Counts state)
    {action : Action Name Value}
    (valid : Valid state action) :
    ∃ next, step state action = some next ∧ Counts next := by
  cases action with
  | insertWithName value name =>
      exact ⟨_, rfl, counts.insertWithName rfl⟩
  | setName id name =>
      exact ⟨_, rfl, counts.setName valid rfl⟩

/-- What the numbers say about the ids and the names. -/
theorem Counts.resolves (counts : Counts state) : Resolves state where
  start := by
    intro first isFirst
    have heads := congrArg List.head? counts.ids
    rw [List.head?_map, Option.mem_def.mp isFirst] at heads
    cases size : state.named.map.size with
    | zero =>
        rw [size] at heads
        cases heads
    | succ count =>
        rw [size] at heads
        exact Option.some.inj heads
  distinct := by
    rw [counts.ids]
    exact List.nodup_range'
  get := counts.values
  getByName := by
    intro name id assigned
    rw [← counts.names] at assigned
    have used := counts.wellFormed.nameResolves assigned
    have inRange := (counts.wellFormed.idRange id).mp used
    obtain ⟨⟨other, value⟩, member, rfl⟩ :=
      List.mem_map.mp (counts.mem_ids_iff.mpr inRange)
    refine ⟨value, member, ?_⟩
    simp only [NamedMap.getByName, assigned]
    exact counts.values _ member
  getByName_none := by
    intro name unassigned
    rw [← counts.names] at unassigned
    simp only [NamedMap.getByName, unassigned]

/-- While the ids fit into 32 bits, the cast keeps them apart. -/
theorem Counts.requestsDiffer
    (counts : Counts state)
    (few : state.returned.length < 2 ^ 32) :
    RequestsDiffer state := by
  have fits :
      ∀ inserted ∈ state.returned,
        inserted.1 % 2 ^ 32 = inserted.1 := by
    intro inserted member
    have isId := List.mem_map_of_mem (f := Prod.fst) member
    have inRange := counts.mem_ids_iff.mp isId
    rw [counts.length_eq] at few
    exact Nat.mod_eq_of_lt (by omega)
  intro first isFirst second isSecond different inner innerOther call
    callOther
  rw [InnerHypercore.request_id, InnerHypercore.request_id]
  simp only [InnerHypercore.setId]
  rw [fits first isFirst, fits second isSecond]
  exact different

end

/--
However the clones are used, every id that was returned is new and leads to its
value, and every name leads to the value of the id it was given last; and while
there are fewer than `2 ^ 32` values, the requests of different sessions name
different ids.
-/
theorem exists_run_resolves
    (actions : List (Action Name Value))
    (valid : Machine.Along step Valid initial actions) :
    ∃ final,
      Machine.run step initial actions = some final ∧
        Resolves final ∧
        (final.returned.length < 2 ^ 32 → RequestsDiffer final) := by
  obtain ⟨final, ran, counts⟩ :=
    Machine.exists_run_along Counts
      (fun counts isValid => counts.exists_step isValid)
      counts_initial valid
  exact ⟨final, ran, counts.resolves, counts.requestsDiffer⟩

/-- Two sessions; the second gets a further name and then that of the first. -/
def renamingCalls : List (Action String Nat) :=
  [.insertWithName 10 "first",
    .insertWithName 20 "second",
    .setName 2 "third",
    .setName 2 "first"]

/-- A name that was given to another id leads to that id's value. -/
theorem exists_run_resolves_renamingCalls :
    ∃ final,
      Machine.run step initial renamingCalls = some final ∧
        final.returned = [(1, 10), (2, 20)] ∧
        final.named.getByName "first" = some 20 ∧
        Resolves final ∧
        RequestsDiffer final := by
  have valid : Machine.Along step Valid initial renamingCalls := by
    decide
  obtain ⟨final, ran, resolves, differ⟩ :=
    exists_run_resolves renamingCalls valid
  have isFinal := ran
  cases ran
  exact ⟨_, isFinal, by decide, by decide, resolves, differ (by decide)⟩

end NamedMapIds

end Hyperspace
