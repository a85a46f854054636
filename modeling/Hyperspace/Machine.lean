import Mathlib.Data.List.Basic

namespace Hyperspace

/-!
# Machines with partial labelled steps

Every concurrent component of this development is a function
`State → Action → Option State`: the action names the party that moves and
carries whatever the environment chooses, and `none` says that the action is
not enabled.  This module holds the vocabulary for finite runs of such a
function.  It names nothing of any particular component.
-/

namespace Machine

variable {State Action : Type}

/-- Run a finite list of actions, failing at the first disabled one. -/
def run (step : State → Action → Option State) :
    State → List Action → Option State
  | state, [] => some state
  | state, action :: rest =>
      match step state action with
      | none => none
      | some next => run step next rest

/-- Every action of a run meets a condition in the state it is taken from. -/
def Along
    (step : State → Action → Option State)
    (condition : State → Action → Prop) :
    State → List Action → Prop
  | _, [] => True
  | state, action :: rest =>
      condition state action ∧
        match step state action with
        | none => True
        | some next => Along step condition next rest

/-- A decidable condition can be checked along a run. -/
instance decidableAlong
    (step : State → Action → Option State)
    (condition : State → Action → Prop)
    [∀ state action, Decidable (condition state action)] :
    (state : State) → (actions : List Action) →
      Decidable (Along step condition state actions)
  | _, [] => inferInstanceAs (Decidable True)
  | state, action :: rest =>
      have : Decidable
          (match step state action with
          | none => True
          | some next => Along step condition next rest) :=
        match step state action with
        | none => inferInstanceAs (Decidable True)
        | some next => decidableAlong step condition next rest
      inferInstanceAs (Decidable (_ ∧ _))

variable {step : State → Action → Option State}

@[simp] theorem run_nil (state : State) :
    run step state [] = some state :=
  rfl

/-- A nonempty run takes its first step and continues from there. -/
theorem run_cons
    {initial final : State}
    {action : Action}
    {rest : List Action} :
    run step initial (action :: rest) = some final ↔
      ∃ middle,
        step initial action = some middle ∧
          run step middle rest = some final := by
  rw [run]
  cases step initial action with
  | none =>
      simp only [reduceCtorEq, false_and, exists_false]
  | some middle =>
      simp only [Option.some.injEq, exists_eq_left']

/-- Two runs whose boundary states agree compose. -/
theorem run_append
    {initial middle final : State}
    {leading trailing : List Action}
    (first : run step initial leading = some middle)
    (later : run step middle trailing = some final) :
    run step initial (leading ++ trailing) = some final := by
  induction leading generalizing initial with
  | nil =>
      simp only [run_nil, Option.some.injEq] at first
      subst middle
      exact later
  | cons action rest inductionHypothesis =>
      obtain ⟨next, stepped, continued⟩ := run_cons.mp first
      exact run_cons.mpr
        ⟨next, stepped, inductionHypothesis continued⟩

/-- A run of a concatenation passes through a boundary state. -/
theorem run_split
    {initial final : State}
    {leading trailing : List Action}
    (whole : run step initial (leading ++ trailing) = some final) :
    ∃ middle,
      run step initial leading = some middle ∧
        run step middle trailing = some final := by
  induction leading generalizing initial with
  | nil =>
      exact ⟨initial, rfl, whole⟩
  | cons action rest inductionHypothesis =>
      obtain ⟨next, stepped, continued⟩ := run_cons.mp whole
      obtain ⟨middle, first, later⟩ := inductionHypothesis continued
      exact ⟨middle, run_cons.mpr ⟨next, stepped, first⟩, later⟩

/-- The condition along a nonempty run. -/
theorem along_cons
    {condition : State → Action → Prop}
    {state : State}
    {action : Action}
    {rest : List Action} :
    Along step condition state (action :: rest) ↔
      condition state action ∧
        ∀ next,
          step state action = some next →
          Along step condition next rest := by
  rw [Along]
  cases step state action with
  | none =>
      simp only [reduceCtorEq, false_implies, implies_true]
  | some middle =>
      simp only [Option.some.injEq, forall_eq']

/-- A run whose first step is known. -/
theorem along_cons_of_step
    {condition : State → Action → Prop}
    {state next : State}
    {action : Action}
    {rest : List Action}
    (here : condition state action)
    (stepped : step state action = some next)
    (later : Along step condition next rest) :
    Along step condition state (action :: rest) := by
  refine along_cons.mpr ⟨here, ?_⟩
  intro other otherStepped
  rw [stepped] at otherStepped
  cases otherStepped
  exact later

/-- A condition along two runs one after the other. -/
theorem along_append
    {condition : State → Action → Prop}
    {state : State}
    {leading trailing : List Action} :
    Along step condition state (leading ++ trailing) ↔
      Along step condition state leading ∧
        ∀ middle,
          run step state leading = some middle →
          Along step condition middle trailing := by
  induction leading generalizing state with
  | nil =>
      simp [Along]
  | cons action rest inductionHypothesis =>
      rw [List.cons_append, along_cons, along_cons, and_assoc]
      refine and_congr_right fun _ => ?_
      constructor
      · intro later
        refine ⟨fun next stepped =>
          (inductionHypothesis.mp (later next stepped)).1, ?_⟩
        intro middle ran
        obtain ⟨next, stepped, continued⟩ := run_cons.mp ran
        exact (inductionHypothesis.mp (later next stepped)).2 middle
          continued
      · rintro ⟨early, late⟩ next stepped
        refine inductionHypothesis.mpr ⟨early next stepped, ?_⟩
        intro middle continued
        exact late middle (run_cons.mpr ⟨next, stepped, continued⟩)

/-- The condition-free case: every list of actions meets a valid condition. -/
theorem along_of_forall
    {condition : State → Action → Prop}
    (holds : ∀ state action, condition state action)
    (state : State)
    (actions : List Action) :
    Along step condition state actions := by
  induction actions generalizing state with
  | nil =>
      trivial
  | cons action rest inductionHypothesis =>
      exact along_cons.mpr
        ⟨holds state action, fun next _ => inductionHypothesis next⟩

/-- A condition on the actions alone holds along every run of such actions. -/
theorem along_of_mem
    {condition : Action → Prop}
    {state : State}
    {actions : List Action}
    (holds : ∀ action ∈ actions, condition action) :
    Along step (fun _ action => condition action) state actions := by
  induction actions generalizing state with
  | nil =>
      trivial
  | cons action rest inductionHypothesis =>
      refine along_cons.mpr ⟨holds action (by simp), ?_⟩
      intro next _
      exact inductionHypothesis
        (fun later member => holds later (by simp [member]))

/--
The run rule: an invariant kept by every step that meets a condition holds at
the end of every run whose steps all meet it.
-/
theorem invariant_run_along
    (invariant : State → Prop)
    {condition : State → Action → Prop}
    (preserved :
      ∀ {state action next},
        invariant state →
        condition state action →
        step state action = some next →
        invariant next)
    {initial final : State}
    {actions : List Action}
    (starts : invariant initial)
    (along : Along step condition initial actions)
    (ran : run step initial actions = some final) :
    invariant final := by
  induction actions generalizing initial with
  | nil =>
      simp only [run_nil, Option.some.injEq] at ran
      subst final
      exact starts
  | cons action rest inductionHypothesis =>
      obtain ⟨next, stepped, continued⟩ := run_cons.mp ran
      obtain ⟨holds, later⟩ := along_cons.mp along
      exact inductionHypothesis
        (preserved starts holds stepped)
        (later next stepped) continued

/--
The run rule for actions that are always enabled: if every action that meets a
condition can be taken from every state of an invariant and keeps it, then
every list of such actions is a run and keeps it.
-/
theorem exists_run_along
    (invariant : State → Prop)
    {condition : State → Action → Prop}
    (enabled :
      ∀ {state action},
        invariant state →
        condition state action →
        ∃ next, step state action = some next ∧ invariant next)
    {initial : State}
    {actions : List Action}
    (starts : invariant initial)
    (along : Along step condition initial actions) :
    ∃ final,
      run step initial actions = some final ∧ invariant final := by
  induction actions generalizing initial with
  | nil =>
      exact ⟨initial, rfl, starts⟩
  | cons action rest inductionHypothesis =>
      obtain ⟨holds, later⟩ := along_cons.mp along
      obtain ⟨next, stepped, kept⟩ := enabled starts holds
      obtain ⟨final, ran, holdsFinal⟩ :=
        inductionHypothesis kept (later next stepped)
      exact ⟨final, run_cons.mpr ⟨next, stepped, ran⟩, holdsFinal⟩

/-- The run rule for an invariant that every step keeps. -/
theorem invariant_run
    (invariant : State → Prop)
    (preserved :
      ∀ {state action next},
        invariant state →
        step state action = some next →
        invariant next)
    {initial final : State}
    {actions : List Action}
    (starts : invariant initial)
    (ran : run step initial actions = some final) :
    invariant final := by
  have always : Along step (fun _ _ => True) initial actions :=
    along_of_forall (fun _ _ => trivial) initial actions
  exact invariant_run_along invariant
    (fun holds _ stepped => preserved holds stepped)
    starts always ran

/--
A condition that some step of a run breaks marks the final state: if breaking
it establishes a property and every later step keeps the property, then a run
without the property in its final state met the condition throughout.
-/
theorem along_of_not_marked
    (invariant marked : State → Prop)
    {permitted condition : State → Action → Prop}
    (preserved :
      ∀ {state action next},
        invariant state →
        permitted state action →
        step state action = some next →
        invariant next)
    (breaks :
      ∀ {state action next},
        invariant state →
        permitted state action →
        ¬ condition state action →
        step state action = some next →
        marked next)
    (persists :
      ∀ {state action next},
        invariant state →
        permitted state action →
        marked state →
        step state action = some next →
        marked next)
    {initial final : State}
    {actions : List Action}
    (starts : invariant initial)
    (along : Along step permitted initial actions)
    (ran : run step initial actions = some final)
    (unmarked : ¬ marked final) :
    Along step condition initial actions := by
  induction actions generalizing initial with
  | nil =>
      trivial
  | cons action rest inductionHypothesis =>
      obtain ⟨next, stepped, continued⟩ := run_cons.mp ran
      obtain ⟨allowed, allowedLater⟩ := along_cons.mp along
      have later : invariant next := preserved starts allowed stepped
      refine along_cons.mpr ⟨?_, ?_⟩
      · by_contra broken
        have both : invariant final ∧ marked final :=
          invariant_run_along
            (fun state => invariant state ∧ marked state)
            (fun holds permits taken =>
              ⟨preserved holds.1 permits taken,
                persists holds.1 permits holds.2 taken⟩)
            ⟨later, breaks starts allowed broken stepped⟩
            (allowedLater next stepped) continued
        exact unmarked both.2
      · intro other otherStepped
        have same : other = next :=
          Option.some.inj (otherStepped.symm.trans stepped)
        subst other
        exact inductionHypothesis later
          (allowedLater next stepped) continued

/--
A condition along a run gives another one, if it does so in every state that
meets an invariant which the condition keeps.
-/
theorem along_imp
    (invariant : State → Prop)
    {condition other : State → Action → Prop}
    (preserved :
      ∀ {state action next},
        invariant state →
        condition state action →
        step state action = some next →
        invariant next)
    (gives :
      ∀ {state action},
        invariant state →
        condition state action →
        other state action)
    {initial : State}
    {actions : List Action}
    (starts : invariant initial)
    (along : Along step condition initial actions) :
    Along step other initial actions := by
  induction actions generalizing initial with
  | nil =>
      trivial
  | cons action rest inductionHypothesis =>
      obtain ⟨holds, later⟩ := along_cons.mp along
      refine along_cons.mpr ⟨gives starts holds, ?_⟩
      intro next stepped
      exact inductionHypothesis (preserved starts holds stepped)
        (later next stepped)

/-- Two conditions hold along a run when each does. -/
theorem along_and
    {first second : State → Action → Prop}
    {state : State}
    {actions : List Action}
    (holdsFirst : Along step first state actions)
    (holdsSecond : Along step second state actions) :
    Along step (fun state action =>
      first state action ∧ second state action) state actions := by
  induction actions generalizing state with
  | nil =>
      trivial
  | cons action rest inductionHypothesis =>
      obtain ⟨here, later⟩ := along_cons.mp holdsFirst
      obtain ⟨otherHere, otherLater⟩ := along_cons.mp holdsSecond
      refine along_cons.mpr ⟨⟨here, otherHere⟩, ?_⟩
      intro next stepped
      exact inductionHypothesis (later next stepped)
        (otherLater next stepped)

/-- The first of two conditions that hold along a run does. -/
theorem along_left
    {first second : State → Action → Prop}
    {state : State}
    {actions : List Action}
    (holds :
      Along step (fun state action =>
        first state action ∧ second state action) state actions) :
    Along step first state actions :=
  along_imp (fun _ => True) (fun _ _ _ => trivial)
    (fun _ both => both.1) trivial holds

/--
The progress rule: if in every state of an invariant that is not at its goal
some step keeps the invariant and lowers a weight, then from every state of the
invariant some run reaches the goal.
-/
theorem exists_run_of_lighter
    (invariant goal : State → Prop)
    (weight : State → Nat)
    (progress :
      ∀ {state},
        invariant state →
        goal state ∨
          ∃ action next,
            step state action = some next ∧
              invariant next ∧
              weight next < weight state)
    {initial : State}
    (starts : invariant initial) :
    ∃ actions final,
      run step initial actions = some final ∧ goal final := by
  induction bound : weight initial using Nat.strongRecOn
      generalizing initial with
  | ind bound inductionHypothesis =>
      rcases progress starts with
        reached | ⟨action, next, stepped, kept, lighter⟩
      · exact ⟨[], initial, rfl, reached⟩
      · obtain ⟨actions, final, ran, reached⟩ :=
          inductionHypothesis _ (by omega) kept rfl
        exact ⟨action :: actions, final,
          run_cons.mpr ⟨next, stepped, ran⟩, reached⟩

/--
Of a run whose steps do not make a weight heavier, no more steps are counted
than what the counted ones take off it.
-/
theorem countP_add_weight_le_along
    (invariant : State → Prop)
    {condition : State → Action → Prop}
    (counted : Action → Bool)
    (weight : State → Nat)
    (lighter :
      ∀ {state action next},
        invariant state →
        condition state action →
        step state action = some next →
        invariant next ∧
          (if counted action then 1 else 0) + weight next ≤
            weight state)
    {initial final : State}
    {actions : List Action}
    (starts : invariant initial)
    (along : Along step condition initial actions)
    (ran : run step initial actions = some final) :
    actions.countP counted + weight final ≤ weight initial := by
  induction actions generalizing initial with
  | nil =>
      simp only [run_nil, Option.some.injEq] at ran
      subst final
      simp
  | cons action rest inductionHypothesis =>
      obtain ⟨next, stepped, continued⟩ := run_cons.mp ran
      obtain ⟨here, later⟩ := along_cons.mp along
      obtain ⟨kept, lower⟩ := lighter starts here stepped
      have shorter :=
        inductionHypothesis kept (later next stepped) continued
      rw [List.countP_cons]
      omega

/-- Where every step makes it lighter, all steps are counted. -/
theorem length_add_weight_le_along
    (invariant : State → Prop)
    {condition : State → Action → Prop}
    (weight : State → Nat)
    (lighter :
      ∀ {state action next},
        invariant state →
        condition state action →
        step state action = some next →
        invariant next ∧ weight next < weight state)
    {initial final : State}
    {actions : List Action}
    (starts : invariant initial)
    (along : Along step condition initial actions)
    (ran : run step initial actions = some final) :
    actions.length + weight final ≤ weight initial := by
  have counted :=
    countP_add_weight_le_along invariant (fun _ => true) weight
      (fun holds here stepped => by
        obtain ⟨kept, lower⟩ := lighter holds here stepped
        exact ⟨kept, by simp only [if_true]; omega⟩)
      starts along ran
  rwa [List.countP_true] at counted

/-- A run is no longer than what its steps take off a weight. -/
theorem length_add_weight_le
    (weight : State → Nat)
    (lighter :
      ∀ {state action next},
        step state action = some next →
        weight next < weight state)
    {initial final : State}
    {actions : List Action}
    (ran : run step initial actions = some final) :
    actions.length + weight final ≤ weight initial := by
  have always : Along step (fun _ _ => True) initial actions :=
    along_of_forall (fun _ _ => trivial) initial actions
  exact length_add_weight_le_along (fun _ => True) weight
    (fun _ _ stepped => ⟨trivial, lighter stepped⟩)
    trivial always ran

/-- What an observer sees of a run, one observation for each action. -/
def observe
    {Observation : Type}
    (step : State → Action → Option State)
    (view : State → Action → Observation) :
    State → List Action → List Observation
  | _, [] => []
  | state, action :: rest =>
      view state action ::
        match step state action with
        | none => []
        | some next => observe step view next rest

/--
The simulation rule: if every step is matched by a step of an abstract machine
on what is observed of it, then the observations of every run are a run of the
abstract machine.
-/
theorem simulation_run
    {Observation Abstract : Type}
    {view : State → Action → Observation}
    {abstractStep : Abstract → Observation → Option Abstract}
    {related : State → Abstract → Prop}
    (simulates :
      ∀ {state action next abstract},
        related state abstract →
        step state action = some next →
        ∃ abstractNext,
          abstractStep abstract (view state action) =
              some abstractNext ∧
            related next abstractNext)
    {initial final : State}
    {abstract : Abstract}
    {actions : List Action}
    (starts : related initial abstract)
    (ran : run step initial actions = some final) :
    ∃ abstractFinal,
      run abstractStep abstract
          (observe step view initial actions) =
          some abstractFinal ∧
        related final abstractFinal := by
  induction actions generalizing initial abstract with
  | nil =>
      simp only [run_nil, Option.some.injEq] at ran
      subst final
      exact ⟨abstract, rfl, starts⟩
  | cons action rest inductionHypothesis =>
      obtain ⟨next, stepped, continued⟩ := run_cons.mp ran
      obtain ⟨abstractNext, matched, relatedNext⟩ :=
        simulates starts stepped
      obtain ⟨abstractFinal, abstractRan, relatedFinal⟩ :=
        inductionHypothesis relatedNext continued
      refine ⟨abstractFinal, ?_, relatedFinal⟩
      rw [observe, stepped]
      exact run_cons.mpr ⟨abstractNext, matched, abstractRan⟩

/-! ## What a state lists by number -/

variable {Entry : Type}

/-- An entry after one has been replaced: the replaced one or another. -/
theorem getElem?_set_cases
    {entries : List Entry}
    {index other : Nat}
    {moved entry : Entry}
    (found : (entries.set index moved)[other]? = some entry) :
    (other = index ∧ entry = moved) ∨
      (other ≠ index ∧ entries[other]? = some entry) := by
  by_cases same : index = other
  · subst other
    left
    rw [List.getElem?_set] at found
    split at found
    · split at found
      · exact ⟨rfl, (Option.some.inj found).symm⟩
      · cases found
    · next different =>
        exact absurd rfl different
  · right
    rw [List.getElem?_set_ne same] at found
    exact ⟨fun isSame => same isSame.symm, found⟩

/-- An entry after a new one has come: an older one or the new one. -/
theorem getElem?_concat_cases
    {entries : List Entry}
    {index : Nat}
    {fresh entry : Entry}
    (found : (entries ++ [fresh])[index]? = some entry) :
    entries[index]? = some entry ∨
      index = entries.length ∧ entry = fresh := by
  by_cases isOld : index < entries.length
  · rw [List.getElem?_append_left isOld] at found
    exact Or.inl found
  · rw [List.getElem?_append_right (Nat.not_lt.mp isOld),
      List.getElem?_singleton] at found
    split at found
    · next isLast =>
        cases found
        exact Or.inr ⟨by omega, rfl⟩
    · cases found

/-- Earlier entries keep their numbers. -/
theorem getElem?_concat_of_some
    {entries : List Entry}
    {index : Nat}
    {fresh entry : Entry}
    (found : entries[index]? = some entry) :
    (entries ++ [fresh])[index]? = some entry := by
  rw [List.getElem?_append_left
    (List.getElem?_eq_some_iff.mp found).1]
  exact found

end Machine

end Hyperspace
