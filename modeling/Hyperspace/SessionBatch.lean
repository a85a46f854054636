import Hyperspace.SessionAppend

namespace Hyperspace

/-!
# A batch of appends that fails

`Session::append` appends the blocks of its request in a loop that leaves at the
first error.  The blocks before the failing one stay in the feed, and the client
receives nothing but the error.

This module has the handler as one function of the feed that it has locked.  It
determines for which batches an error means that nothing has changed, and shows
that the function is what an RPC does in every interleaving of the sessions of a
server.
-/

namespace SessionBatch

open SessionAppend (State Rpc Action appendResponse)

section

variable {Feed : Type} (core : SessionFeed Feed)

/-- The loop of `append`: the feed when it ends, and the error it leaves with. -/
def appendBlocks : Feed → List Bytes → Feed × Except IoError Unit
  | feed, [] => (feed, .ok ())
  | feed, block :: rest =>
      match core.append feed block with
      | .error message => (feed, .error message)
      | .ok next => appendBlocks next rest

/-- The handler of `append`, with the feeds after it. -/
def append
    (feeds : Nat → Feed)
    (cores : Table Nat Nat)
    (id : Nat)
    (blocks : List Bytes) :
    (Nat → Feed) × Except IoError AppendResponse :=
  match cores.lookup id with
  | none => (feeds, .error Session.badId)
  | some feed =>
      match appendBlocks core (feeds feed) blocks with
      | (last, .error message) =>
          (Function.update feeds feed last, .error message)
      | (last, .ok ()) =>
          (Function.update feeds feed last,
            .ok (appendResponse core last))

/-- Two states of a feed have the same length and contents. -/
def Unchanged (before after : Feed) : Prop :=
  core.len after = core.len before ∧
    core.byteLen after = core.byteLen before ∧
    ∀ index, core.get after index = core.get before index

/-- The blocks are appended one after the other, and none fails. -/
def Accepts : Feed → List Bytes → Feed → Prop
  | feed, [], last => last = feed
  | feed, block :: rest, last =>
      ∃ next, core.append feed block = .ok next ∧ Accepts next rest last

/-- No block fails, or the first one does. -/
def AllOrNone (feed : Feed) (blocks : List Bytes) : Prop :=
  (∃ last, Accepts core feed blocks last) ∨
    ∃ first rest message,
      blocks = first :: rest ∧ core.append feed first = .error message

end

section

variable
  {Feed : Type}
  {core : SessionFeed Feed}

/-- One more block has been appended. -/
theorem Accepts.snoc
    {feed last next : Feed}
    {written : List Bytes}
    {block : Bytes}
    (accepts : Accepts core feed written last)
    (appended : core.append last block = .ok next) :
    Accepts core feed (written ++ [block]) next := by
  induction written generalizing feed with
  | nil =>
      cases accepts
      exact ⟨next, appended, rfl⟩
  | cons first rest inductionHypothesis =>
      obtain ⟨middle, appendedFirst, later⟩ := accepts
      exact ⟨middle, appendedFirst, inductionHypothesis later⟩

/-- The feed is longer by the blocks appended. -/
theorem Accepts.len_eq
    (appendOnly : core.AppendOnly)
    {feed last : Feed}
    {written : List Bytes}
    (accepts : Accepts core feed written last) :
    core.len last = core.len feed + written.length := by
  induction written generalizing feed with
  | nil =>
      cases accepts
      rfl
  | cons first rest inductionHypothesis =>
      obtain ⟨middle, appended, later⟩ := accepts
      have longer := appendOnly.longer appended
      have further := inductionHypothesis later
      simp only [List.length_cons]
      omega

/-- The loop goes on after the blocks that it has appended. -/
theorem Accepts.appendBlocks_append
    {feed last : Feed}
    {written : List Bytes}
    (accepts : Accepts core feed written last)
    (remaining : List Bytes) :
    appendBlocks core feed (written ++ remaining) =
      appendBlocks core last remaining := by
  induction written generalizing feed with
  | nil =>
      cases accepts
      rfl
  | cons first rest inductionHypothesis =>
      obtain ⟨middle, appended, later⟩ := accepts
      rw [List.cons_append, appendBlocks, appended]
      exact inductionHypothesis later

/-- How the loop ends: after the last block, or at the first that fails. -/
theorem appendBlocks_cases
    (core : SessionFeed Feed)
    (feed : Feed)
    (blocks : List Bytes) :
    (∃ last,
      Accepts core feed blocks last ∧
        appendBlocks core feed blocks = (last, .ok ())) ∨
      ∃ written block remaining last message,
        blocks = written ++ block :: remaining ∧
          Accepts core feed written last ∧
          core.append last block = .error message ∧
          appendBlocks core feed blocks = (last, .error message) := by
  induction blocks generalizing feed with
  | nil =>
      exact Or.inl ⟨feed, rfl, rfl⟩
  | cons first rest inductionHypothesis =>
      cases appended : core.append feed first with
      | error message =>
          refine Or.inr ⟨[], first, rest, feed, message, rfl, rfl,
            appended, ?_⟩
          simp only [appendBlocks, appended]
      | ok next =>
          rcases inductionHypothesis next with
            ⟨last, accepts, ends⟩ |
              ⟨written, block, remaining, last, message, isRest, accepts,
                failed, ends⟩
          · refine Or.inl ⟨last, ⟨next, appended, accepts⟩, ?_⟩
            simpa only [appendBlocks, appended] using ends
          · refine Or.inr ⟨first :: written, block, remaining, last,
              message, by rw [isRest]; rfl, ⟨next, appended, accepts⟩,
              failed, ?_⟩
            simpa only [appendBlocks, appended] using ends

/-- No block of a batch that is accepted fails. -/
theorem Accepts.not_error
    {feed last middle : Feed}
    {written remaining : List Bytes}
    {block : Bytes}
    {message : IoError}
    (accepts :
      Accepts core feed (written ++ block :: remaining) last)
    (before : Accepts core feed written middle) :
    core.append middle block ≠ .error message := by
  induction written generalizing feed with
  | nil =>
      cases before
      obtain ⟨next, appended, -⟩ := accepts
      rw [appended]
      simp
  | cons first rest inductionHypothesis =>
      obtain ⟨next, appended, later⟩ := accepts
      obtain ⟨other, otherAppended, otherLater⟩ := before
      rw [appended] at otherAppended
      cases otherAppended
      exact inductionHypothesis later otherLater

/-- The loop leaves the feed as it was on every error, or it does not fail. -/
theorem appendBlocks_unchanged_iff
    (appendOnly : core.AppendOnly)
    (feed : Feed)
    (blocks : List Bytes) :
    (∀ last message,
      appendBlocks core feed blocks = (last, .error message) →
      Unchanged core feed last) ↔
      AllOrNone core feed blocks := by
  rcases appendBlocks_cases core feed blocks with
    ⟨last, accepts, ends⟩ |
      ⟨written, block, remaining, last, message, isBatch, accepts, failed,
        ends⟩
  · refine iff_of_true ?_ (Or.inl ⟨last, accepts⟩)
    intro other message isError
    rw [ends] at isError
    cases isError
  · constructor
    · intro keeps
      obtain ⟨sameLength, -, -⟩ := keeps last message ends
      have nothing : written = [] := by
        have longer := accepts.len_eq appendOnly
        exact List.eq_nil_of_length_eq_zero (by omega)
      subst nothing
      cases accepts
      exact Or.inr ⟨block, remaining, message, isBatch, failed⟩
    · rintro (⟨final, all⟩ | ⟨first, rest, other, isFirst, failedFirst⟩)
      · rw [isBatch] at all
        exact absurd failed (all.not_error accepts)
      · intro after afterMessage isError
        rw [ends] at isError
        cases isError
        cases written with
        | nil =>
            cases accepts
            exact ⟨rfl, rfl, fun _ => rfl⟩
        | cons block rest =>
            obtain ⟨next, appended, -⟩ := accepts
            rw [isFirst] at isBatch
            cases isBatch
            rw [failedFirst] at appended
            cases appended

end

/-! ## In every interleaving -/

section

variable
  {Feed : Type}
  {core : SessionFeed Feed}
  {state next : State Feed}

/-- A step of an RPC leaves the other RPCs, and the feeds it has not locked. -/
theorem advances_frame
    {other : Nat}
    {rpc : Rpc}
    (advances : SessionAppend.Advances core state other rpc next) :
    (∀ index,
      index ≠ other → next.rpcs[index]? = state.rpcs[index]?) ∧
      ∀ feed,
        next.feeds feed = state.feeds feed ∨
          rpc.phase.holds = some feed := by
  have others :
      ∀ phase index,
        index ≠ other →
        (state.setPhase other rpc phase).rpcs[index]? =
          state.rpcs[index]? := by
    intro phase index different
    exact List.getElem?_set_ne (fun same => different same.symm)
  cases advances with
  | refuse =>
      exact ⟨others _, fun _ => Or.inl rfl⟩
  | takeCores =>
      exact ⟨others _, fun _ => Or.inl rfl⟩
  | takeFeed =>
      exact ⟨others _, fun _ => Or.inl rfl⟩
  | @append locked first written remaining block later isPhase =>
      refine ⟨others _, ?_⟩
      intro feed
      by_cases same : feed = locked
      · subst same
        right
        rw [isPhase]
        rfl
      · exact Or.inl (Function.update_of_ne same _ _)
  | fail =>
      exact ⟨others _, fun _ => Or.inl rfl⟩
  | respond =>
      exact ⟨others _, fun _ => Or.inl rfl⟩
  | get =>
      exact ⟨others _, fun _ => Or.inl rfl⟩

/-- An append that locked its feed as `origin` is in its loop. -/
def InLoop
    (core : SessionFeed Feed)
    (origin : Feed)
    (index session id feed : Nat)
    (blocks : List Bytes)
    (state : State Feed) : Prop :=
  ∃ first written remaining,
    state.rpcs[index]? =
        some ⟨session, .append id blocks,
          .appending feed first written remaining⟩ ∧
      Accepts core origin written (state.feeds feed)

/-- An append that locked its feed as `origin` is in its loop or has returned. -/
def Begun
    (core : SessionFeed Feed)
    (origin : Feed)
    (index session id feed : Nat)
    (blocks : List Bytes)
    (state : State Feed) : Prop :=
  InLoop core origin index session id feed blocks state ∨
    ∃ result,
      state.rpcs[index]? =
        some ⟨session, .append id blocks, .appended feed result⟩

variable
  {origin : Feed}
  {index session id feed : Nat}
  {blocks : List Bytes}

/-- Steps that leave the RPC and its feed alone. -/
theorem Begun.of_same
    (begun :
      Begun core origin index session id feed blocks state)
    (sameRpc : next.rpcs[index]? = state.rpcs[index]?)
    (sameFeed :
      InLoop core origin index session id feed blocks state →
      next.feeds feed = state.feeds feed) :
    Begun core origin index session id feed blocks next := by
  rcases begun with inLoop | ⟨result, returned⟩
  · left
    have same := sameFeed inLoop
    obtain ⟨first, written, remaining, found, accepts⟩ := inLoop
    exact ⟨first, written, remaining, by rw [sameRpc]; exact found,
      by rw [same]; exact accepts⟩
  · exact Or.inr ⟨result, by rw [sameRpc]; exact returned⟩

/-- A step of the RPC itself: it appends a block, or it returns. -/
theorem InLoop.advance
    (sound : SessionAppend.Sound core state)
    (inLoop : InLoop core origin index session id feed blocks state)
    (stepped :
      SessionAppend.step core state (.advance index) = some next) :
    InLoop core origin index session id feed blocks next ∨
      ∃ result,
        next.rpcs[index]? =
            some ⟨session, .append id blocks, .appended feed result⟩ ∧
          next.feeds feed =
            (appendBlocks core origin blocks).1 ∧
          result =
            (appendBlocks core origin blocks).2.map
              (fun _ => appendResponse core (next.feeds feed)) := by
  obtain ⟨first, written, remaining, found, accepts⟩ := inLoop
  have inside := (List.getElem?_eq_some_iff.mp found).1
  obtain ⟨⟨batchId, isRequest⟩, -⟩ :=
    sound.batch found feed first written remaining rfl
  cases isRequest
  simp only [SessionAppend.step, found] at stepped
  cases SessionAppend.advances_of_advance stepped with
  | refuse isPhase =>
      cases isPhase
  | takeCores isPhase =>
      cases isPhase
  | takeFeed isPhase =>
      cases isPhase
  | get isPhase =>
      cases isPhase
  | append isPhase appended =>
      cases isPhase
      refine Or.inl ⟨_, _, _, List.getElem?_set_self inside, ?_⟩
      simp only [Function.update_self]
      exact accepts.snoc appended
  | fail isPhase failed =>
      cases isPhase
      refine Or.inr ⟨_, List.getElem?_set_self inside, ?_⟩
      rw [accepts.appendBlocks_append, appendBlocks, failed]
      exact ⟨rfl, rfl⟩
  | respond isPhase =>
      cases isPhase
      refine Or.inr ⟨_, List.getElem?_set_self inside, ?_⟩
      rw [accepts.appendBlocks_append, appendBlocks]
      exact ⟨rfl, rfl⟩

/-- Every step leaves an append in its loop, or lets it return. -/
theorem Begun.step
    (sound : SessionAppend.Sound core state)
    (begun :
      Begun core origin index session id feed blocks state)
    {action : Action}
    (stepped : SessionAppend.step core state action = some next) :
    Begun core origin index session id feed blocks next := by
  cases action with
  | request other request =>
      cases stepped
      have inside : index < state.rpcs.length := by
        rcases begun with ⟨_, _, _, found, _⟩ | ⟨_, found⟩
        · exact (List.getElem?_eq_some_iff.mp found).1
        · exact (List.getElem?_eq_some_iff.mp found).1
      exact begun.of_same (List.getElem?_append_left inside)
        (fun _ => rfl)
  | bind other otherId bound =>
      simp only [SessionAppend.step] at stepped
      split at stepped
      · cases stepped
      · cases stepped
        exact begun.of_same rfl (fun _ => rfl)
  | advance other =>
      by_cases same : other = index
      · subst same
        rcases begun with inLoop | ⟨result, returned⟩
        · rcases inLoop.advance sound stepped with
            still | ⟨result, returned, -⟩
          · exact Or.inl still
          · exact Or.inr ⟨result, returned⟩
        · simp [SessionAppend.step, returned,
            SessionAppend.advance] at stepped
      · simp only [SessionAppend.step] at stepped
        split at stepped
        · cases stepped
        · next rpc found =>
            obtain ⟨others, feeds⟩ :=
              advances_frame (SessionAppend.advances_of_advance stepped)
            refine begun.of_same
              (others index (fun isSame => same isSame.symm)) ?_
            rintro ⟨first, written, remaining, isOwn, -⟩
            refine (feeds feed).resolve_right ?_
            intro holds
            have locked := sound.locked found holds
            have ownLocked : state.feedLock feed = some index :=
              sound.locked isOwn rfl
            rw [ownLocked] at locked
            exact same (Option.some.inj locked).symm

end

/--
In every run of the sessions of a server, an append that has locked its feed and
returns has done to the feed, and returns, what the handler's function says for
the feed as it was when it was locked.
-/
theorem append_of_run
    {Feed : Type}
    {core : SessionFeed Feed}
    (appendOnly : core.AppendOnly)
    {feeds : Nat → Feed}
    {cores : Nat → Table Nat Nat}
    {before locked last after : State Feed}
    {earlier later : List Action}
    {index session id feed : Nat}
    {blocks : List Bytes}
    {result : Except IoError AppendResponse}
    (ran :
      Machine.run (SessionAppend.step core)
        (SessionAppend.initial feeds cores) earlier = some before)
    (waits :
      before.rpcs[index]? =
        some ⟨session, .append id blocks, .lockFeed feed⟩)
    (locks :
      SessionAppend.step core before (.advance index) = some locked)
    (serves :
      Machine.run (SessionAppend.step core) locked later = some last)
    (returns :
      SessionAppend.step core last (.advance index) = some after)
    (answered :
      after.rpcs[index]? =
        some ⟨session, .append id blocks, .appended feed result⟩) :
    after.feeds feed =
        (appendBlocks core (before.feeds feed) blocks).1 ∧
      result =
        (appendBlocks core (before.feeds feed) blocks).2.map
          (fun _ => appendResponse core (after.feeds feed)) := by
  have sound : SessionAppend.Sound core before :=
    Machine.invariant_run (SessionAppend.Sound core)
      (fun holds stepped => holds.step appendOnly stepped)
      (SessionAppend.sound_initial feeds cores) ran
  have starts :
      Begun core (before.feeds feed) index session id feed blocks
        locked := by
    have inside := (List.getElem?_eq_some_iff.mp waits).1
    have advanced := locks
    simp only [SessionAppend.step, waits] at advanced
    cases SessionAppend.advances_of_advance advanced with
    | takeFeed isPhase =>
        cases isPhase
        exact Or.inl
          ⟨_, _, _, List.getElem?_set_self inside, rfl⟩
    | refuse isPhase =>
        cases isPhase
    | takeCores isPhase =>
        cases isPhase
    | append isPhase =>
        cases isPhase
    | fail isPhase =>
        cases isPhase
    | respond isPhase =>
        cases isPhase
    | get isPhase =>
        cases isPhase
  obtain ⟨soundLast, begun⟩ :=
    Machine.invariant_run
      (fun state =>
        SessionAppend.Sound core state ∧
          Begun core (before.feeds feed) index session id feed blocks
            state)
      (fun holds stepped =>
        ⟨holds.1.step appendOnly stepped, holds.2.step holds.1 stepped⟩)
      ⟨sound.step appendOnly locks, starts⟩ serves
  rcases begun with inLoop | ⟨other, returned⟩
  · rcases inLoop.advance soundLast returns with
      ⟨_, _, _, still, -⟩ | ⟨other, isOther, sameFeed, isResult⟩
    · rw [still] at answered
      cases answered
    · rw [isOther] at answered
      cases answered
      exact ⟨sameFeed, isResult⟩
  · simp [SessionAppend.step, returned, SessionAppend.advance] at returns

/-! ## When a failed append changes nothing -/

/--
For every session, feed and batch, and whichever appends fail: an error of
`append` means that no feed has changed, if and only if the session has no feed
for the id, or no append of the batch fails, or the first one does.
-/
theorem failed_append_changes_nothing_iff
    {Feed : Type}
    {core : SessionFeed Feed}
    (appendOnly : core.AppendOnly)
    (feeds : Nat → Feed)
    (cores : Table Nat Nat)
    (id : Nat)
    (blocks : List Bytes) :
    (∀ message,
      (append core feeds cores id blocks).2 = .error message →
      ∀ feed,
        Unchanged core (feeds feed)
          ((append core feeds cores id blocks).1 feed)) ↔
      ∀ feed,
        cores.lookup id = some feed →
        AllOrNone core (feeds feed) blocks := by
  cases found : cores.lookup id with
  | none =>
      refine iff_of_true ?_ (by simp)
      intro message _ feed
      simp only [append, found]
      exact ⟨rfl, rfl, fun _ => rfl⟩
  | some feed =>
      simp only [append, found, Option.some.injEq, forall_eq']
      rw [← appendBlocks_unchanged_iff appendOnly]
      cases ends : appendBlocks core (feeds feed) blocks with
      | mk last result =>
          cases result with
          | ok done =>
              simp
          | error message =>
              simp only [Except.error.injEq, forall_eq', Prod.mk.injEq,
                and_imp]
              constructor
              · intro keeps other otherMessage isLast isMessage
                subst isLast
                simpa using keeps feed
              · intro keeps other
                by_cases same : other = feed
                · subst same
                  simpa using keeps last message rfl rfl
                · rw [Function.update_of_ne same]
                  exact ⟨rfl, rfl, fun _ => rfl⟩

/-- A feed whose storage holds a number of bytes. -/
def boundedFeed (capacity : Nat) : SessionFeed (List Bytes) :=
  { blockFeed with
    append := fun feed block =>
      if feed.flatten.length + block.length ≤ capacity then
        .ok (feed ++ [block])
      else
        .error "No space left on device" }

/-- An append to such a feed is one to a feed without bounds. -/
theorem append_of_boundedFeed
    {capacity : Nat}
    {feed next : List Bytes}
    {block : Bytes}
    (appended : (boundedFeed capacity).append feed block = .ok next) :
    blockFeed.append feed block = .ok next := by
  simp only [boundedFeed] at appended
  split at appended
  · exact appended
  · cases appended

/-- An append to such a feed stores its block behind the others. -/
theorem appendOnly_boundedFeed (capacity : Nat) :
    (boundedFeed capacity).AppendOnly where
  longer appended :=
    appendOnly_blockFeed.longer (append_of_boundedFeed appended)
  stores appended :=
    appendOnly_blockFeed.stores (append_of_boundedFeed appended)
  keeps appended :=
    appendOnly_blockFeed.keeps (append_of_boundedFeed appended)

/-- A batch whose first block does not fit leaves the feed as it was. -/
theorem failed_append_changes_nothing_iff_firstFails :
    (append (boundedFeed 3) (fun _ => [[1]]) (AList.singleton 7 0) 7
        [[97, 98, 99], [100]]).2 = .error "No space left on device" ∧
      Unchanged (boundedFeed 3) [[1]]
        ((append (boundedFeed 3) (fun _ => [[1]])
          (AList.singleton 7 0) 7 [[97, 98, 99], [100]]).1 0) := by
  refine ⟨rfl, ?_⟩
  refine
    (failed_append_changes_nothing_iff (appendOnly_boundedFeed 3)
      (fun _ => [[1]]) (AList.singleton 7 0) 7
      [[97, 98, 99], [100]]).mpr ?_ _ rfl 0
  intro feed _
  exact Or.inr ⟨_, _, _, rfl, rfl⟩

/--
A batch of two blocks, the second of which does not fit, leaves the first one in
the feed, and leaves it there twice when the client tries again.
-/
theorem retried_batch_stores_block_twice :
    (append (boundedFeed 3) (fun _ => []) (AList.singleton 7 0) 7
        [[97], [98, 98, 98]]).2 = .error "No space left on device" ∧
      (append (boundedFeed 3) (fun _ => []) (AList.singleton 7 0) 7
        [[97], [98, 98, 98]]).1 0 = [[97]] ∧
      (append (boundedFeed 3) (fun _ => [[97]]) (AList.singleton 7 0)
        7 [[97], [98, 98, 98]]).1 0 = [[97], [97]] ∧
      ¬ Unchanged (boundedFeed 3) [] [[97]] := by
  refine ⟨rfl, rfl, rfl, ?_⟩
  rintro ⟨sameLength, -, -⟩
  cases sameLength

end SessionBatch

end Hyperspace
