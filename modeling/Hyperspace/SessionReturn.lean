import Hyperspace.SessionAppend

namespace Hyperspace

/-!
# Appends and gets return

An RPC waits for at most two locks: the map of its session, and then its feed.
Whoever holds the lock of a feed waits for nothing, so some RPC can always move
on until all have returned, and each has only so many steps to make.

With this, the batches of `SessionAppend` are not only what a later get returns
if it does: however the RPCs go on, the get returns its block.
-/

namespace SessionAppend

/-- The RPC has returned. -/
def Phase.Finished : Phase → Prop
  | .refused _ => True
  | .appended _ _ => True
  | .got _ _ => True
  | _ => False

/-- The RPC has the lock of its session's map. -/
def Phase.Inside : Phase → Prop
  | .lockFeed _ => True
  | .appending _ _ _ _ => True
  | .getting _ => True
  | _ => False

/-- The phases of an append and the phases of a get. -/
def Phase.Fits : Phase → Request → Prop
  | .appending _ _ _ _, .get _ _ => False
  | .appended _ _, .get _ _ => False
  | .getting _, .append _ _ => False
  | .got _ _, .append _ _ => False
  | _, _ => True

/-- Every lock is held by an RPC that is going to release it. -/
structure Locks {Feed : Type} (state : State Feed) : Prop where
  feed :
    ∀ {feed index : Nat},
      state.feedLock feed = some index →
      ∃ rpc,
        state.rpcs[index]? = some rpc ∧ rpc.phase.holds = some feed
  cores :
    ∀ {session index : Nat},
      state.coresLock session = some index →
      ∃ rpc,
        state.rpcs[index]? = some rpc ∧
          rpc.session = session ∧ rpc.phase.Inside
  fits :
    ∀ {index : Nat} {rpc : Rpc},
      state.rpcs[index]? = some rpc → rpc.phase.Fits rpc.request

/-- The feed that an RPC works on, or will if its map stays as it is. -/
def State.target
    {Feed : Type}
    (state : State Feed)
    (rpc : Rpc) : Option Nat :=
  match rpc.phase with
  | .lockCores => (state.cores rpc.session).lookup rpc.request.id
  | .lockFeed feed => some feed
  | .appending feed _ _ _ => some feed
  | .getting feed => some feed
  | .refused _ => none
  | .appended feed _ => some feed
  | .got feed _ => some feed

/-- One step of an RPC, while no request comes in and no id is bound. -/
def rpcStep
    {Feed : Type}
    (core : SessionFeed Feed)
    (state : State Feed)
    (index : Nat) : Option (State Feed) :=
  step core state (.advance index)

/-- No RPC can move on. -/
def Idle
    {Feed : Type}
    (core : SessionFeed Feed)
    (state : State Feed) : Prop :=
  ∀ index, rpcStep core state index = none

/-- The RPC with a request works on a feed or has done so. -/
def Serving
    {Feed : Type}
    (state : State Feed)
    (index session : Nat)
    (request : Request)
    (feed : Nat) : Prop :=
  ∃ phase,
    state.rpcs[index]? = some ⟨session, request, phase⟩ ∧
      state.target ⟨session, request, phase⟩ = some feed

/-- However the RPCs go on, they come to rest, and then one has returned. -/
def ComesTo
    {Feed : Type}
    (core : SessionFeed Feed)
    (state : State Feed)
    (index : Nat)
    (returned : Rpc) : Prop :=
  ∃ bound, ∀ schedule final,
    Machine.run (rpcStep core) state schedule = some final →
    schedule.length ≤ bound ∧
      (Idle core final → final.rpcs[index]? = some returned)

/-- The number of blocks that a request brings. -/
def Request.size : Request → Nat
  | .append _ blocks => blocks.length
  | .get _ _ => 0

/-- A bound on the steps that an RPC still has to make. -/
def Rpc.weight (rpc : Rpc) : Nat :=
  match rpc.phase with
  | .lockCores => rpc.request.size + 3
  | .lockFeed _ => rpc.request.size + 2
  | .appending _ _ _ remaining => remaining.length + 1
  | .getting _ => 1
  | .refused _ => 0
  | .appended _ _ => 0
  | .got _ _ => 0

/-- A bound on the steps that all RPCs still have to make. -/
def State.weight {Feed : Type} (state : State Feed) : Nat :=
  (state.rpcs.map Rpc.weight).sum

section

variable
  {Feed : Type}
  {core : SessionFeed Feed}
  {state next : State Feed}

/-- No lock is held yet. -/
theorem locks_initial
    (feeds : Nat → Feed)
    (cores : Nat → Table Nat Nat) :
    Locks (initial feeds cores) where
  feed := by simp [initial]
  cores := by simp [initial]
  fits := by simp [initial]

/-- An RPC that has the lock of a feed has it in its phase. -/
theorem Locks.own_feed
    (locks : Locks state)
    {index feed : Nat}
    {rpc : Rpc}
    (found : state.rpcs[index]? = some rpc)
    (held : state.feedLock feed = some index) :
    rpc.phase.holds = some feed := by
  obtain ⟨holder, isHolder, holds⟩ := locks.feed held
  rw [found] at isHolder
  cases isHolder
  exact holds

/-- An RPC that has the lock of a map has it by its phase. -/
theorem Locks.own_cores
    (locks : Locks state)
    {index session : Nat}
    {rpc : Rpc}
    (found : state.rpcs[index]? = some rpc)
    (held : state.coresLock session = some index) :
    rpc.session = session ∧ rpc.phase.Inside := by
  obtain ⟨holder, isHolder, inside⟩ := locks.cores held
  rw [found] at isHolder
  cases isHolder
  exact inside

/-- Locks stay held when an RPC moves on and keeps what it holds. -/
theorem Locks.moved
    (locks : Locks state)
    {index : Nat}
    {rpc : Rpc}
    (found : state.rpcs[index]? = some rpc)
    {phase : Phase}
    {later : State Feed}
    (sameRpcs :
      later.rpcs = state.rpcs.set index { rpc with phase := phase })
    (feed :
      ∀ feed holder,
        later.feedLock feed = some holder →
        (holder = index ∧ phase.holds = some feed) ∨
          (holder ≠ index ∧ state.feedLock feed = some holder))
    (cores :
      ∀ session holder,
        later.coresLock session = some holder →
        (holder = index ∧ rpc.session = session ∧ phase.Inside) ∨
          (holder ≠ index ∧ state.coresLock session = some holder))
    (fits : phase.Fits rpc.request) :
    Locks later := by
  have inside : index < state.rpcs.length :=
    (List.getElem?_eq_some_iff.mp found).1
  have own :
      later.rpcs[index]? = some { rpc with phase := phase } := by
    rw [sameRpcs, List.getElem?_set_self inside]
  have others :
      ∀ {other : Nat},
        other ≠ index → later.rpcs[other]? = state.rpcs[other]? := by
    intro other different
    rw [sameRpcs, List.getElem?_set_ne different.symm]
  refine ⟨?_, ?_, ?_⟩
  · intro held holder isHeld
    rcases feed held holder isHeld with
      ⟨rfl, holds⟩ | ⟨different, before⟩
    · exact ⟨_, own, holds⟩
    · rw [others different]
      exact locks.feed before
  · intro session holder isHeld
    rcases cores session holder isHeld with
      ⟨rfl, isSession, isInside⟩ | ⟨different, before⟩
    · exact ⟨_, own, isSession, isInside⟩
    · rw [others different]
      exact locks.cores before
  · intro other otherRpc isOther
    rw [sameRpcs] at isOther
    rcases Machine.getElem?_set_cases isOther with ⟨_, rfl⟩ | ⟨_, old⟩
    · exact fits
    · exact locks.fits old

/-- An RPC that returns releases both locks. -/
theorem Locks.finish
    (locks : Locks state)
    {index feed : Nat}
    {rpc : Rpc}
    (found : state.rpcs[index]? = some rpc)
    (holds : rpc.phase.holds = some feed)
    {phase : Phase}
    (fits : phase.Fits rpc.request) :
    Locks (state.finish index rpc feed phase) := by
  refine locks.moved found rfl ?_ ?_ fits
  · intro other holder held
    simp only [State.finish, Function.update_apply] at held
    split at held
    · cases held
    · next different =>
        refine Or.inr ⟨?_, held⟩
        rintro rfl
        have same := locks.own_feed found held
        rw [holds] at same
        exact different (Option.some.inj same).symm
  · intro session holder held
    simp only [State.finish, Function.update_apply] at held
    split at held
    · cases held
    · next different =>
        refine Or.inr ⟨?_, held⟩
        rintro rfl
        exact different (locks.own_cores found held).1.symm

/-- An append goes on with its phases. -/
theorem Locks.appends
    (locks : Locks state)
    {index feed first : Nat}
    {rpc : Rpc}
    {written remaining : List Bytes}
    (found : state.rpcs[index]? = some rpc)
    (isPhase : rpc.phase = .appending feed first written remaining) :
    ∃ id blocks, rpc.request = .append id blocks := by
  have fits := locks.fits found
  cases isRequest : rpc.request with
  | append id blocks =>
      exact ⟨id, blocks, rfl⟩
  | get id seq =>
      simp [isPhase, isRequest, Phase.Fits] at fits

/-- A lock on a feed stays with an RPC that holds what it held. -/
theorem Locks.feed_kept
    (locks : Locks state)
    {index : Nat}
    {rpc : Rpc}
    (found : state.rpcs[index]? = some rpc)
    {phase : Phase}
    (sameHolds : phase.holds = rpc.phase.holds)
    (feed holder : Nat)
    (held : state.feedLock feed = some holder) :
    (holder = index ∧ phase.holds = some feed) ∨
      (holder ≠ index ∧ state.feedLock feed = some holder) := by
  by_cases same : holder = index
  · subst same
    exact Or.inl ⟨rfl, sameHolds.trans (locks.own_feed found held)⟩
  · exact Or.inr ⟨same, held⟩

/-- A lock on a map stays with an RPC that is inside if it was. -/
theorem Locks.cores_kept
    (locks : Locks state)
    {index : Nat}
    {rpc : Rpc}
    (found : state.rpcs[index]? = some rpc)
    {phase : Phase}
    (staysInside : rpc.phase.Inside → phase.Inside)
    (session holder : Nat)
    (held : state.coresLock session = some holder) :
    (holder = index ∧ rpc.session = session ∧ phase.Inside) ∨
      (holder ≠ index ∧ state.coresLock session = some holder) := by
  by_cases same : holder = index
  · subst same
    obtain ⟨isSession, isInside⟩ := locks.own_cores found held
    exact Or.inl ⟨rfl, isSession, staysInside isInside⟩
  · exact Or.inr ⟨same, held⟩

/-- An RPC that starts on a feed has its lock, in a phase that fits. -/
theorem start_fits
    (core : SessionFeed Feed)
    (feeds : Nat → Feed)
    (feed : Nat)
    (request : Request) :
    (start core feeds feed request).holds = some feed ∧
      (start core feeds feed request).Inside ∧
      (start core feeds feed request).Fits request := by
  cases request <;> exact ⟨rfl, trivial, trivial⟩

/-- One step of an RPC keeps the locks. -/
theorem Locks.advance
    (locks : Locks state)
    {index : Nat}
    {rpc : Rpc}
    (found : state.rpcs[index]? = some rpc)
    (advances : Advances core state index rpc next) :
    Locks next := by
  cases advances with
  | refuse isPhase free unknown =>
      refine locks.moved found rfl (locks.feed_kept found ?_)
        (locks.cores_kept found ?_) trivial
      · rw [isPhase]
        rfl
      · rw [isPhase]
        exact False.elim
  | takeCores isPhase free known =>
      refine locks.moved found rfl (locks.feed_kept found ?_) ?_ trivial
      · rw [isPhase]
        rfl
      · intro session holder held
        simp only [Function.update_apply] at held
        split at held
        · next same =>
            cases held
            exact Or.inl ⟨rfl, same.symm, trivial⟩
        · refine locks.cores_kept found ?_ session holder held
          exact fun _ => trivial
  | @takeFeed feed isPhase free =>
      obtain ⟨holds, inside, fits⟩ :=
        start_fits core state.feeds feed rpc.request
      refine locks.moved found rfl ?_
        (locks.cores_kept found (fun _ => inside)) fits
      intro other holder held
      simp only [Function.update_apply] at held
      split at held
      · next same =>
          cases held
          exact Or.inl ⟨rfl, by rw [same, holds]⟩
      · refine Or.inr ⟨?_, held⟩
        rintro rfl
        have held := locks.own_feed found held
        rw [isPhase] at held
        cases held
  | @append feed first written remaining block later isPhase appended =>
      obtain ⟨id, blocks, isRequest⟩ := locks.appends found isPhase
      refine locks.moved found rfl (locks.feed_kept found ?_)
        (locks.cores_kept found (fun _ => trivial)) ?_
      · rw [isPhase]
        rfl
      · rw [isRequest]
        trivial
  | fail isPhase failed =>
      obtain ⟨id, blocks, isRequest⟩ := locks.appends found isPhase
      refine locks.finish found (by simp [isPhase, Phase.holds]) ?_
      rw [isRequest]
      trivial
  | respond isPhase =>
      obtain ⟨id, blocks, isRequest⟩ := locks.appends found isPhase
      refine locks.finish found (by simp [isPhase, Phase.holds]) ?_
      rw [isRequest]
      trivial
  | get isPhase isRequest =>
      refine locks.finish found (by simp [isPhase, Phase.holds]) ?_
      rw [isRequest]
      trivial

/-- One step keeps the locks. -/
theorem Locks.step
    (locks : Locks state)
    {action : Action}
    (stepped : SessionAppend.step core state action = some next) :
    Locks next := by
  cases action with
  | request session request =>
      cases stepped
      have kept :
          ∀ {index : Nat} {rpc : Rpc},
            state.rpcs[index]? = some rpc →
            (state.rpcs ++
              [⟨session, request, .lockCores⟩])[index]? = some rpc := by
        intro index rpc found
        have inside := (List.getElem?_eq_some_iff.mp found).1
        rw [List.getElem?_append_left inside]
        exact found
      refine ⟨?_, ?_, ?_⟩
      · intro feed index held
        obtain ⟨rpc, found, holds⟩ := locks.feed held
        exact ⟨rpc, kept found, holds⟩
      · intro session index held
        obtain ⟨rpc, found, inside⟩ := locks.cores held
        exact ⟨rpc, kept found, inside⟩
      · intro index rpc found
        rcases Machine.getElem?_concat_cases found with old | ⟨_, rfl⟩
        · exact locks.fits old
        · trivial
  | advance index =>
      simp only [SessionAppend.step] at stepped
      split at stepped
      · cases stepped
      · next rpc found =>
          exact locks.advance found (advances_of_advance stepped)
  | bind session id feed =>
      simp only [SessionAppend.step] at stepped
      split at stepped
      · cases stepped
      · cases stepped
        exact ⟨locks.feed, locks.cores, locks.fits⟩

/-- While no RPC can move on, no RPC has the lock of a feed. -/
theorem Locks.holds_of_idle
    (locks : Locks state)
    (idle : Idle core state)
    {index : Nat}
    {rpc : Rpc}
    (found : state.rpcs[index]? = some rpc) :
    rpc.phase.holds = none := by
  have disabled := idle index
  have fits := locks.fits found
  simp only [rpcStep, SessionAppend.step, found] at disabled
  cases isPhase : rpc.phase with
  | appending feed first written remaining =>
      cases remaining with
      | nil =>
          simp [SessionAppend.advance, isPhase] at disabled
      | cons block remaining =>
          cases appended : core.append (state.feeds feed) block <;>
            simp [SessionAppend.advance, isPhase, appended] at disabled
  | getting feed =>
      cases isRequest : rpc.request with
      | append id blocks =>
          simp [isPhase, isRequest, Phase.Fits] at fits
      | get id seq =>
          simp [SessionAppend.advance, isPhase, isRequest] at disabled
  | lockCores =>
      rfl
  | lockFeed feed =>
      rfl
  | refused message =>
      rfl
  | appended feed result =>
      rfl
  | got feed result =>
      rfl

/-- While no RPC can move on, no RPC has the lock of its map. -/
theorem Locks.not_inside_of_idle
    (locks : Locks state)
    (idle : Idle core state)
    {index : Nat}
    {rpc : Rpc}
    (found : state.rpcs[index]? = some rpc) :
    ¬ rpc.phase.Inside := by
  have holdsNone := locks.holds_of_idle idle found
  cases isPhase : rpc.phase with
  | lockFeed feed =>
      cases locked : state.feedLock feed with
      | none =>
          have disabled := idle index
          simp [rpcStep, SessionAppend.step, SessionAppend.advance,
            found, isPhase, locked] at disabled
      | some holder =>
          obtain ⟨other, isOther, holds⟩ := locks.feed locked
          rw [locks.holds_of_idle idle isOther] at holds
          cases holds
  | appending feed first written remaining =>
      simp [isPhase, Phase.holds] at holdsNone
  | getting feed =>
      simp [isPhase, Phase.holds] at holdsNone
  | lockCores =>
      simp [Phase.Inside]
  | refused message =>
      simp [Phase.Inside]
  | appended feed result =>
      simp [Phase.Inside]
  | got feed result =>
      simp [Phase.Inside]

/-- When no RPC can move on, all have returned. -/
theorem Locks.finished_of_idle
    (locks : Locks state)
    (idle : Idle core state)
    {index : Nat}
    {rpc : Rpc}
    (found : state.rpcs[index]? = some rpc) :
    rpc.phase.Finished := by
  have outside := locks.not_inside_of_idle idle found
  cases isPhase : rpc.phase with
  | lockCores =>
      cases locked : state.coresLock rpc.session with
      | none =>
          have disabled := idle index
          cases known :
              (state.cores rpc.session).lookup rpc.request.id <;>
            simp [rpcStep, SessionAppend.step, SessionAppend.advance,
              found, isPhase, locked, known] at disabled
      | some holder =>
          obtain ⟨other, isOther, _, inside⟩ := locks.cores locked
          exact absurd inside (locks.not_inside_of_idle idle isOther)
  | lockFeed feed =>
      simp [isPhase, Phase.Inside] at outside
  | appending feed first written remaining =>
      simp [isPhase, Phase.Inside] at outside
  | getting feed =>
      simp [isPhase, Phase.Inside] at outside
  | refused message =>
      trivial
  | appended feed result =>
      trivial
  | got feed result =>
      trivial

/-- A sum of weights gets smaller with one of them. -/
theorem sum_weight_set_lt
    {rpcs : List Rpc}
    {index : Nat}
    {rpc moved : Rpc}
    (found : rpcs[index]? = some rpc)
    (lighter : moved.weight < rpc.weight) :
    ((rpcs.set index moved).map Rpc.weight).sum <
      (rpcs.map Rpc.weight).sum := by
  induction rpcs generalizing index with
  | nil =>
      cases found
  | cons head rest inductionHypothesis =>
      cases index with
      | zero =>
          cases found
          simp only [List.set_cons_zero, List.map_cons, List.sum_cons]
          omega
      | succ index =>
          have smaller := inductionHypothesis found
          simp only [List.set_cons_succ, List.map_cons, List.sum_cons]
          omega

/-- Every step of an RPC is one less to make. -/
theorem weight_advance
    {index : Nat}
    {rpc : Rpc}
    (found : state.rpcs[index]? = some rpc)
    (advances : Advances core state index rpc next) :
    next.weight < state.weight := by
  cases advances with
  | refuse isPhase free unknown =>
      exact sum_weight_set_lt found (by simp [Rpc.weight, isPhase])
  | takeCores isPhase free known =>
      exact sum_weight_set_lt found (by simp [Rpc.weight, isPhase])
  | takeFeed isPhase free =>
      refine sum_weight_set_lt found ?_
      cases isRequest : rpc.request <;>
        simp [Rpc.weight, isPhase, isRequest, start, Request.size]
  | append isPhase appended =>
      exact sum_weight_set_lt found (by simp [Rpc.weight, isPhase])
  | fail isPhase failed =>
      exact sum_weight_set_lt found (by simp [Rpc.weight, isPhase])
  | respond isPhase =>
      exact sum_weight_set_lt found (by simp [Rpc.weight, isPhase])
  | get isPhase isRequest =>
      exact sum_weight_set_lt found (by simp [Rpc.weight, isPhase])

/-- An RPC that moves on keeps working on its feed. -/
theorem Serving.advance
    {getter session feed : Nat}
    {request : Request}
    (serving : Serving state getter session request feed)
    {index : Nat}
    {rpc : Rpc}
    (found : state.rpcs[index]? = some rpc)
    (advances : Advances core state index rpc next) :
    Serving next getter session request feed := by
  have moved :
      ∀ {phase : Phase} {later : State Feed},
        later.rpcs =
            state.rpcs.set index { rpc with phase := phase } →
        later.cores = state.cores →
        (state.target rpc = some feed →
          later.target { rpc with phase := phase } = some feed) →
        Serving later getter session request feed := by
    intro phase later sameRpcs sameCores keeps
    obtain ⟨before, isGetter, isTarget⟩ := serving
    by_cases same : index = getter
    · subst same
      rw [found] at isGetter
      cases isGetter
      refine ⟨phase, ?_, keeps isTarget⟩
      rw [sameRpcs, List.getElem?_set_self
        (List.getElem?_eq_some_iff.mp found).1]
    · refine ⟨before, ?_, ?_⟩
      · rw [sameRpcs, List.getElem?_set_ne same]
        exact isGetter
      · rw [← isTarget]
        simp only [State.target, sameCores]
  cases advances with
  | refuse isPhase free unknown =>
      refine moved rfl rfl ?_
      simp [State.target, isPhase, unknown]
  | takeCores isPhase free known =>
      refine moved rfl rfl ?_
      simp [State.target, isPhase, known]
  | takeFeed isPhase free =>
      refine moved rfl rfl ?_
      cases isRequest : rpc.request <;>
        simp [State.target, isPhase, start]
  | append isPhase appended =>
      refine moved rfl rfl ?_
      simp [State.target, isPhase]
  | fail isPhase failed =>
      refine moved rfl rfl ?_
      simp [State.target, isPhase]
  | respond isPhase =>
      refine moved rfl rfl ?_
      simp [State.target, isPhase]
  | get isPhase isRequest =>
      refine moved rfl rfl ?_
      simp [State.target, isPhase]

/-- A get that has come to rest has returned from its feed. -/
theorem Locks.got_of_idle
    (locks : Locks state)
    (idle : Idle core state)
    {getter session id seq feed : Nat}
    (serving : Serving state getter session (.get id seq) feed) :
    ∃ result,
      state.rpcs[getter]? =
        some ⟨session, .get id seq, .got feed result⟩ := by
  obtain ⟨phase, found, isTarget⟩ := serving
  have finished := locks.finished_of_idle idle found
  have fits := locks.fits found
  cases phase with
  | got other result =>
      cases isTarget
      exact ⟨result, found⟩
  | appended other result =>
      exact fits.elim
  | refused message =>
      cases isTarget
  | lockCores =>
      exact finished.elim
  | lockFeed other =>
      exact finished.elim
  | appending other first written remaining =>
      exact finished.elim
  | getting other =>
      exact finished.elim

/-- Every step of an RPC lowers the weight. -/
theorem weight_rpcStep
    {index : Nat}
    (stepped : rpcStep core state index = some next) :
    next.weight < state.weight := by
  simp only [rpcStep, SessionAppend.step] at stepped
  split at stepped
  · cases stepped
  · next rpc found =>
      exact weight_advance found (advances_of_advance stepped)

/-- Every step of an RPC keeps what an RPC works on. -/
theorem Serving.step
    {getter session feed : Nat}
    {request : Request}
    (serving : Serving state getter session request feed)
    {index : Nat}
    (stepped : rpcStep core state index = some next) :
    Serving next getter session request feed := by
  simp only [rpcStep, SessionAppend.step] at stepped
  split at stepped
  · cases stepped
  · next rpc found =>
      exact serving.advance found (advances_of_advance stepped)

/-- A get of a block that is stored comes to return it. -/
theorem GetsReturn.comesTo
    (appendOnly : core.AppendOnly)
    {since getter session id seq feed first offset : Nat}
    {blocks : List Bytes}
    {block : Bytes}
    (stored : Stored core (state.feeds feed) first blocks)
    (returns : GetsReturn state since feed first blocks)
    (locks : Locks state)
    (serving : Serving state getter session (.get id seq) feed)
    (isLater : since ≤ getter)
    (isBlock : blocks[offset]? = some block)
    (isPlace : seq = first + offset) :
    ComesTo core state getter
      ⟨session, .get id seq, .got feed (.ok (some block))⟩ := by
  refine ⟨state.weight, ?_⟩
  intro schedule final ran
  have shorter := Machine.length_add_weight_le State.weight
    weight_rpcStep ran
  refine ⟨by omega, ?_⟩
  intro idle
  obtain ⟨⟨_, finalReturns⟩, finalLocks, finalServing⟩ :=
    Machine.invariant_run
      (fun state =>
        (Stored core (state.feeds feed) first blocks ∧
          GetsReturn state since feed first blocks) ∧
        Locks state ∧
        Serving state getter session (.get id seq) feed)
      (fun holds stepped =>
        ⟨holds.1.2.step appendOnly holds.1.1 stepped,
          holds.2.1.step stepped, holds.2.2.step stepped⟩)
      ⟨⟨stored, returns⟩, locks, serving⟩ ran
  obtain ⟨result, found⟩ := finalLocks.got_of_idle idle finalServing
  rw [found, finalReturns getter session id seq result offset block
    isLater found isBlock isPlace]

end

/-- An append of the blocks to the feed has returned a response. -/
def ReturnedAppend
    {Feed : Type}
    (state : State Feed)
    (index feed : Nat)
    (blocks : List Bytes)
    (response : AppendResponse) : Prop :=
  ∃ session id,
    state.rpcs[index]? =
      some ⟨session, .append id blocks, .appended feed (.ok response)⟩

/-- The indices that a response assigns to the blocks of its request. -/
def Assigned
    (blocks : List Bytes)
    (response : AppendResponse)
    (place : Nat) : Prop :=
  response.length - blocks.length ≤ place ∧ place < response.length

/--
In every interleaving of the RPCs of any number of sessions: an append that has
returned a length has its blocks stored in order right below that length, no
other append has been assigned any of these indices, every later get of one of
them that has returned has returned its block, and every later get that is
underway comes to return it.
-/
theorem appends_contiguous_and_durable
    {Feed : Type}
    {core : SessionFeed Feed}
    (appendOnly : core.AppendOnly)
    {feeds : Nat → Feed}
    {cores : Nat → Table Nat Nat}
    {before after : List Action}
    {middle final : State Feed}
    (ran :
      Machine.run (step core) (initial feeds cores) before = some middle)
    (continued : Machine.run (step core) middle after = some final)
    {index feed : Nat}
    {blocks : List Bytes}
    {response : AppendResponse}
    (returned : ReturnedAppend middle index feed blocks response) :
    blocks.length ≤ response.length ∧
      Stored core (final.feeds feed)
        (response.length - blocks.length) blocks ∧
      (∀ other otherBlocks otherResponse place,
        ReturnedAppend middle other feed otherBlocks otherResponse →
        Assigned blocks response place →
        Assigned otherBlocks otherResponse place →
        other = index) ∧
      GetsReturn final middle.rpcs.length feed
        (response.length - blocks.length) blocks ∧
      ∀ getter session id seq offset block,
        middle.rpcs.length ≤ getter →
        Serving final getter session (.get id seq) feed →
        blocks[offset]? = some block →
        seq = response.length - blocks.length + offset →
        ComesTo core final getter
          ⟨session, .get id seq, .got feed (.ok (some block))⟩ := by
  have sound : Sound core middle :=
    Machine.invariant_run (Sound core)
      (fun holds stepped => holds.step appendOnly stepped)
      (sound_initial feeds cores) ran
  have wrote :
      ∀ {other : Nat} {otherBlocks : List Bytes}
        {otherResponse : AppendResponse} {place : Nat},
        ReturnedAppend middle other feed otherBlocks otherResponse →
        Assigned otherBlocks otherResponse place →
        ∃ rpc, middle.rpcs[other]? = some rpc ∧ rpc.Wrote feed place := by
    rintro other otherBlocks otherResponse place ⟨session, id, found⟩
      ⟨above, below⟩
    exact ⟨_, found, _, otherBlocks, rfl, above, by omega⟩
  obtain ⟨session, id, found⟩ := returned
  obtain ⟨_, _, isRequest, fits⟩ := sound.answered found feed response rfl
  cases isRequest
  have stored :
      Stored core (middle.feeds feed)
        (response.length - blocks.length) blocks :=
    (sound.stored found rfl).2
  have none_yet :
      GetsReturn middle middle.rpcs.length feed
        (response.length - blocks.length) blocks := by
    intro other otherSession otherId seq result offset block isLater
      isOther
    have inside := (List.getElem?_eq_some_iff.mp isOther).1
    omega
  obtain ⟨storedLater, returns⟩ :=
    Machine.invariant_run
      (fun state =>
        Stored core (state.feeds feed)
            (response.length - blocks.length) blocks ∧
          GetsReturn state middle.rpcs.length feed
            (response.length - blocks.length) blocks)
      (fun holds stepped => holds.2.step appendOnly holds.1 stepped)
      ⟨stored, none_yet⟩ continued
  have locks : Locks final :=
    Machine.invariant_run Locks (fun holds stepped => holds.step stepped)
      (locks_initial feeds cores) (Machine.run_append ran continued)
  refine ⟨fits, storedLater, ?_, returns, ?_⟩
  · intro other otherBlocks otherResponse place otherReturned assigned
      otherAssigned
    obtain ⟨rpc, isRpc, hasWritten⟩ := wrote ⟨session, id, found⟩ assigned
    obtain ⟨otherRpc, isOther, otherWritten⟩ :=
      wrote otherReturned otherAssigned
    exact sound.apart isOther isRpc otherWritten hasWritten
  · intro getter getSession getId seq offset block isLater serving isBlock
      isPlace
    exact returns.comesTo appendOnly storedLater locks serving isLater
      isBlock isPlace

/-- Two sessions append to one feed, the second while the first does. -/
def twoSessions : List Action :=
  [.request 0 (.append 1 [[1], [2]]), .request 1 (.append 1 [[3]]),
    .advance 0, .advance 0, .advance 1, .advance 0, .advance 0,
    .advance 0, .advance 1, .advance 1, .advance 1]

/-- The second session gets the second block of the first. -/
def getSecond : List Action :=
  [.request 1 (.get 1 1), .advance 2, .advance 2, .advance 2]

/-- The two sessions of the example are both bound to feed 0. -/
def sharedFeed : State (List Bytes) :=
  initial (fun _ => []) fun _ => (∅ : Table Nat Nat).insert 1 0

/-- The first batch is at the indices 0 and 1, and index 1 reads back. -/
theorem appends_contiguous_and_durable_twoSessions :
    ∃ middle final,
      Machine.run (step blockFeed) sharedFeed twoSessions =
          some middle ∧
        Machine.run (step blockFeed) middle getSecond = some final ∧
        ReturnedAppend middle 0 0 [[1], [2]] ⟨2, 2⟩ ∧
        ReturnedAppend middle 1 0 [[3]] ⟨3, 3⟩ ∧
        Stored blockFeed (final.feeds 0) 0 [[1], [2]] ∧
        GetsReturn final middle.rpcs.length 0 0 [[1], [2]] ∧
        ∃ asked,
          Machine.run (step blockFeed) middle
              [.request 1 (.get 1 1)] = some asked ∧
            ComesTo blockFeed asked 2
              ⟨1, .get 1 1, .got 0 (.ok (some [2]))⟩ := by
  have finishes :
      ∃ middle final asked,
        Machine.run (step blockFeed) sharedFeed twoSessions =
            some middle ∧
          Machine.run (step blockFeed) middle getSecond = some final ∧
          Machine.run (step blockFeed) middle
              [.request 1 (.get 1 1)] = some asked ∧
          ReturnedAppend middle 0 0 [[1], [2]] ⟨2, 2⟩ ∧
          ReturnedAppend middle 1 0 [[3]] ⟨3, 3⟩ ∧
          middle.rpcs.length ≤ 2 ∧
          Serving asked 2 1 (.get 1 1) 0 :=
    ⟨_, _, _, rfl, rfl, rfl, ⟨0, 1, rfl⟩, ⟨1, 1, rfl⟩, by decide,
      ⟨.lockCores, rfl, rfl⟩⟩
  obtain ⟨middle, final, asked, ran, continued, asks, first, second,
    isLater, serving⟩ := finishes
  obtain ⟨_, stored, _, returns, _⟩ :=
    appends_contiguous_and_durable appendOnly_blockFeed ran continued
      first
  obtain ⟨_, _, _, _, comesTo⟩ :=
    appends_contiguous_and_durable appendOnly_blockFeed ran asks first
  exact ⟨middle, final, ran, continued, first, second, stored, returns,
    asked, asks, comesTo 2 1 1 1 1 [2] isLater serving rfl rfl⟩

end SessionAppend

end Hyperspace
