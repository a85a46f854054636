import Hyperspace.SessionBatch
import Hyperspace.SessionReturn
import Mathlib.Data.List.ReduceOption

namespace Hyperspace

/-!
# A server that does one thing at a time

Any number of sessions call `append`, `get` and `open` at the same time, on
feeds that they share.  An `append` or a `get` takes the lock of its session's
map, looks up its id, takes the lock of the feed, and works on the feed step by
step.  An `open` that has found its feed enters it into the map, and only then
takes the lock of the feed to read what it answers.

Seen from outside, an `append` or a `get` happens at one moment: the moment it
returns.  An `open` happens at two: it binds its id, and later it returns.  In
between, other requests can use the id, and these may return first.  The answers
of every interleaving, taken in the order in which they are given, are those of
a server that does each of these things in one step.
-/

namespace SessionLinear

open SessionAppend

/-- What an RPC returns to its caller. -/
inductive Answer where
  | append (result : Except IoError AppendResponse)
  | get (result : Except IoError (Option Bytes))
  deriving DecidableEq

/-- What an RPC that has returned has answered. -/
def answer (rpc : Rpc) : Option Answer :=
  match rpc.phase, rpc.request with
  | .refused message, .append _ _ => some (.append (.error message))
  | .refused message, .get _ _ => some (.get (.error message))
  | .appended _ result, _ => some (.append result)
  | .got _ result, _ => some (.get result)
  | _, _ => none

/-- A call of `open` that has entered its feed into the map. -/
structure OpenCall where
  session : Nat
  id : Nat
  feed : Nat
  answered : Bool
  deriving Repr, DecidableEq

/-- The calls of `open` that a step enters. -/
def entered : Action → List OpenCall
  | .bind session id feed => [⟨session, id, feed, false⟩]
  | _ => []

/-- What is seen of the server from outside; calls of `open` are numbered. -/
inductive Event where
  | bound (session id feed : Nat)
  | returned (session : Nat) (request : Request) (answer : Answer)
  | opened (call : Nat) (response : OpenResponse)
  deriving DecidableEq

/-- A server that does one thing at a time. -/
structure Server (Feed : Type) where
  feeds : Nat → Feed
  cores : Nat → Table Nat Nat
  calls : List OpenCall

/-- The sessions of a server, with the calls of `open`. -/
structure Sessions (Feed : Type) where
  state : State Feed
  calls : List OpenCall

/-- What can happen. -/
inductive Sessions.Action where
  | rpc (action : SessionAppend.Action)
  /-- A call of `open` takes the lock of its feed and answers. -/
  | respond (call : Nat)
  deriving Repr, DecidableEq

section

variable {Feed : Type} (core : SessionFeed Feed)

/-- What is seen of a step. -/
def view (state : State Feed) : Action → Option Event
  | .request _ _ => none
  | .bind session id feed => some (.bound session id feed)
  | .advance index =>
      (step core state (.advance index)).bind fun next =>
        next.rpcs[index]?.bind fun rpc =>
          (answer rpc).map (.returned rpc.session rpc.request)

/-- One step; the lock is not held any more when `open` has answered. -/
def Sessions.step (sessions : Sessions Feed) :
    Sessions.Action → Option (Sessions Feed)
  | .rpc action =>
      (SessionAppend.step core sessions.state action).map fun next =>
        ⟨next, sessions.calls ++ entered action⟩
  | .respond call =>
      match sessions.calls[call]? with
      | none => none
      | some found =>
          if found.answered then
            none
          else
            match sessions.state.feedLock found.feed with
            | some _ => none
            | none =>
                some { sessions with
                  calls :=
                    sessions.calls.set call
                      { found with answered := true } }

/-- What is seen of such a step. -/
def Sessions.view (sessions : Sessions Feed) :
    Sessions.Action → Option Event
  | .rpc action => SessionLinear.view core sessions.state action
  | .respond call =>
      sessions.calls[call]?.map fun found =>
        .opened call
          (core.openResponse (sessions.state.feeds found.feed))

/-- A request handled in one step. -/
def handle (server : Server Feed) (session : Nat) :
    Request → Server Feed × Answer
  | .append id blocks =>
      let handled :=
        SessionBatch.append core server.feeds (server.cores session) id
          blocks
      ({ server with feeds := handled.1 }, .append handled.2)
  | .get id seq =>
      (server,
        .get
          (match (server.cores session).lookup id with
          | none => .error Session.badId
          | some feed => core.get (server.feeds feed) seq))

/-- The atomic server accepts an answer that it would give itself. -/
def atomicStep (server : Server Feed) :
    Option Event → Option (Server Feed)
  | none => some server
  | some (.bound session id feed) =>
      some { server with
        cores :=
          Function.update server.cores session
            ((server.cores session).insert id feed)
        calls := server.calls ++ [⟨session, id, feed, false⟩] }
  | some (.opened call response) =>
      match server.calls[call]? with
      | none => none
      | some found =>
          if found.answered = false ∧
              core.openResponse (server.feeds found.feed) =
                response then
            some { server with
              calls :=
                server.calls.set call { found with answered := true } }
          else
            none
  | some (.returned session request given) =>
      let handled := handle core server session request
      if handled.2 = given then
        some handled.1
      else
        none

/--
The state of the server that handles one request at a time: it has the same
maps, an RPC inside has found its feed there, and a feed differs only by the
blocks that the batch which holds its lock has written.
-/
structure Refines (state : State Feed) (server : Server Feed) : Prop where
  cores : server.cores = state.cores
  inside :
    ∀ {index feed : Nat} {rpc : Rpc},
      state.rpcs[index]? = some rpc →
      rpc.phase = .lockFeed feed ∨ rpc.phase.holds = some feed →
      state.coresLock rpc.session = some index ∧
        (state.cores rpc.session).lookup rpc.request.id = some feed
  locked :
    ∀ {index feed : Nat} {rpc : Rpc},
      state.rpcs[index]? = some rpc →
      rpc.phase.holds = some feed →
      state.feedLock feed = some index
  batch :
    ∀ {index feed first : Nat} {written remaining : List Bytes}
      {rpc : Rpc},
      state.rpcs[index]? = some rpc →
      rpc.phase = .appending feed first written remaining →
      (∃ id, rpc.request = .append id (written ++ remaining)) ∧
        SessionBatch.Accepts core (server.feeds feed) written
          (state.feeds feed)
  reading :
    ∀ {index feed : Nat} {rpc : Rpc},
      state.rpcs[index]? = some rpc →
      rpc.phase = .getting feed →
      server.feeds feed = state.feeds feed
  free :
    ∀ feed,
      state.feedLock feed = none →
      server.feeds feed = state.feeds feed

end

section

variable
  {Feed : Type}
  {core : SessionFeed Feed}
  {state later : State Feed}
  {server after : Server Feed}

/--
An RPC moves on.  The other RPCs keep their locks, and the feeds that are not
locked by the one that moves stay as they are on both sides.
-/
theorem Refines.moved
    (refines : Refines core state server)
    {index : Nat}
    {rpc : Rpc}
    {phase : Phase}
    (sameRpcs :
      later.rpcs = state.rpcs.set index { rpc with phase := phase })
    (sameCores : later.cores = state.cores)
    (sameServerCores : after.cores = server.cores)
    (inside :
      ∀ feed,
        phase = .lockFeed feed ∨ phase.holds = some feed →
        later.coresLock rpc.session = some index ∧
          (state.cores rpc.session).lookup rpc.request.id = some feed)
    (locked :
      ∀ feed,
        phase.holds = some feed → later.feedLock feed = some index)
    (batch :
      ∀ feed first written remaining,
        phase = .appending feed first written remaining →
        (∃ id, rpc.request = .append id (written ++ remaining)) ∧
          SessionBatch.Accepts core (after.feeds feed) written
            (later.feeds feed))
    (reading :
      ∀ feed,
        phase = .getting feed →
        after.feeds feed = later.feeds feed)
    (free :
      ∀ feed,
        later.feedLock feed = none →
        after.feeds feed = later.feeds feed)
    (otherCores :
      ∀ session other,
        other ≠ index →
        state.coresLock session = some other →
        later.coresLock session = some other)
    (otherFeeds :
      ∀ feed other,
        other ≠ index →
        state.feedLock feed = some other →
        later.feedLock feed = some other ∧
          later.feeds feed = state.feeds feed ∧
          after.feeds feed = server.feeds feed) :
    Refines core later after := by
  have moved :
      ∀ {place : Nat} {found : Rpc},
        later.rpcs[place]? = some found →
        (place = index ∧ found = { rpc with phase := phase }) ∨
          (place ≠ index ∧ state.rpcs[place]? = some found) := by
    intro place found isFound
    rw [sameRpcs] at isFound
    exact Machine.getElem?_set_cases isFound
  refine ⟨?_, ?_, ?_, ?_, ?_, free⟩
  · rw [sameServerCores, sameCores, refines.cores]
  · intro place feed found isFound isInside
    rw [sameCores]
    rcases moved isFound with ⟨rfl, rfl⟩ | ⟨different, old⟩
    · exact inside feed isInside
    · obtain ⟨held, isFeed⟩ := refines.inside old isInside
      exact ⟨otherCores _ _ different held, isFeed⟩
  · intro place feed found isFound holds
    rcases moved isFound with ⟨rfl, rfl⟩ | ⟨different, old⟩
    · exact locked feed holds
    · exact (otherFeeds _ _ different (refines.locked old holds)).1
  · intro place feed first written remaining found isFound isPhase
    rcases moved isFound with ⟨rfl, rfl⟩ | ⟨different, old⟩
    · exact batch feed first written remaining isPhase
    · have held := refines.locked old (by rw [isPhase]; rfl)
      obtain ⟨_, sameFeed, sameServer⟩ :=
        otherFeeds feed place different held
      rw [sameFeed, sameServer]
      exact refines.batch old isPhase
  · intro place feed found isFound isPhase
    rcases moved isFound with ⟨rfl, rfl⟩ | ⟨different, old⟩
    · exact reading feed isPhase
    · have held := refines.locked old (by rw [isPhase]; rfl)
      obtain ⟨_, sameFeed, sameServer⟩ :=
        otherFeeds feed place different held
      rw [sameFeed, sameServer]
      exact refines.reading old isPhase

/-- An RPC returns, and the atomic server has done its work. -/
theorem Refines.finish
    (refines : Refines core state server)
    {index feed : Nat}
    {rpc : Rpc}
    (found : state.rpcs[index]? = some rpc)
    (holds : rpc.phase.holds = some feed)
    {phase : Phase}
    (outside : phase.holds = none)
    (notWaiting : ∀ other, phase ≠ .lockFeed other)
    (sameServerCores : after.cores = server.cores)
    (done : after.feeds feed = state.feeds feed)
    (others :
      ∀ other, other ≠ feed → after.feeds other = server.feeds other) :
    Refines core (state.finish index rpc feed phase) after := by
  have held := refines.locked found holds
  obtain ⟨heldCores, _⟩ := refines.inside found (Or.inr holds)
  refine refines.moved rfl rfl sameServerCores ?_ ?_ ?_ ?_ ?_ ?_ ?_
  · rintro other (waits | isHeld)
    · exact absurd waits (notWaiting other)
    · rw [outside] at isHeld
      cases isHeld
  · intro other isHeld
    rw [outside] at isHeld
    cases isHeld
  · rintro other first written remaining rfl
    cases outside
  · rintro other rfl
    cases outside
  · intro other isFree
    simp only [State.finish, State.setPhase] at isFree ⊢
    by_cases same : other = feed
    · rw [same]
      exact done
    · rw [Function.update_of_ne same] at isFree
      rw [others other same]
      exact refines.free other isFree
  · intro session other different isHeld
    simp only [State.finish]
    rw [Function.update_of_ne]
    · exact isHeld
    · rintro rfl
      rw [heldCores] at isHeld
      exact different (Option.some.inj isHeld).symm
  · intro place other different isHeld
    have notFeed : place ≠ feed := by
      rintro rfl
      rw [held] at isHeld
      exact different (Option.some.inj isHeld).symm
    refine ⟨?_, rfl, others place notFeed⟩
    simp only [State.finish]
    rw [Function.update_of_ne notFeed]
    exact isHeld

/-- What is seen of a step of an RPC is what it answers then. -/
theorem view_advance
    {index : Nat}
    {rpc : Rpc}
    {phase : Phase}
    (found : state.rpcs[index]? = some rpc)
    (stepped : step core state (.advance index) = some later)
    (sameRpcs :
      later.rpcs = state.rpcs.set index { rpc with phase := phase }) :
    view core state (.advance index) =
      (answer { rpc with phase := phase }).map
        (.returned rpc.session rpc.request) := by
  have inside : index < state.rpcs.length :=
    (List.getElem?_eq_some_iff.mp found).1
  have isMoved :
      later.rpcs[index]? = some { rpc with phase := phase } := by
    rw [sameRpcs, List.getElem?_set_self inside]
  simp only [view, stepped, Option.bind_some, isMoved]

/-- An answer that the atomic server gives as well. -/
theorem atomicStep_returned
    {session : Nat}
    {request : Request}
    {given : Answer}
    (handled : handle core server session request = (after, given)) :
    atomicStep core server (some (.returned session request given)) =
      some after := by
  simp only [atomicStep, handled, if_true]

/-- An id that is not in the map is refused at once. -/
theorem Refines.refuse
    (refines : Refines core state server)
    {index : Nat}
    {rpc : Rpc}
    (found : state.rpcs[index]? = some rpc)
    (unknown :
      (state.cores rpc.session).lookup rpc.request.id = none)
    (stepped :
      step core state (.advance index) =
        some (state.setPhase index rpc (.refused Session.badId))) :
    atomicStep core server (view core state (.advance index)) =
        some server ∧
      Refines core (state.setPhase index rpc (.refused Session.badId))
        server := by
  rw [view_advance found stepped rfl]
  constructor
  · rw [← refines.cores] at unknown
    cases isRequest : rpc.request with
    | append id blocks =>
        rw [isRequest] at unknown
        refine atomicStep_returned ?_
        have missing : (server.cores rpc.session).lookup id = none :=
          unknown
        simp [handle, SessionBatch.append, missing]
    | get id seq =>
        rw [isRequest] at unknown
        refine atomicStep_returned ?_
        have missing : (server.cores rpc.session).lookup id = none :=
          unknown
        simp [handle, missing]
  · refine refines.moved rfl rfl rfl ?_ ?_ ?_ ?_ refines.free
      (fun _ _ _ held => held) (fun _ _ _ held => ⟨held, rfl, rfl⟩)
    · rintro feed (waits | holds)
      · cases waits
      · cases holds
    · intro feed holds
      cases holds
    · intro feed first written remaining isPhase
      cases isPhase
    · intro feed isPhase
      cases isPhase

/-- A batch that ends has done what the handler does in one step. -/
theorem Refines.append_returns
    (refines : Refines core state server)
    {index feed first : Nat}
    {written remaining : List Bytes}
    {rpc : Rpc}
    (result : Except IoError Unit)
    (found : state.rpcs[index]? = some rpc)
    (isPhase : rpc.phase = .appending feed first written remaining)
    (ends :
      SessionBatch.appendBlocks core (state.feeds feed) remaining =
        (state.feeds feed, result))
    (stepped :
      step core state (.advance index) =
        some (state.finish index rpc feed
          (.appended feed
            (result.map fun _ =>
              appendResponse core (state.feeds feed))))) :
    ∃ after,
      atomicStep core server (view core state (.advance index)) =
          some after ∧
        Refines core
          (state.finish index rpc feed
            (.appended feed
              (result.map fun _ =>
                appendResponse core (state.feeds feed)))) after := by
  have holds : rpc.phase.holds = some feed := by
    rw [isPhase]
    rfl
  obtain ⟨⟨id, isRequest⟩, accepts⟩ := refines.batch found isPhase
  obtain ⟨_, known⟩ := refines.inside found (Or.inr holds)
  rw [← refines.cores, isRequest] at known
  have isFeed :
      (server.cores rpc.session).lookup id = some feed :=
    known
  have whole := accepts.appendBlocks_append remaining
  rw [ends] at whole
  refine ⟨{ server with
    feeds := Function.update server.feeds feed (state.feeds feed) },
    ?_, ?_⟩
  · rw [view_advance found stepped rfl, isRequest]
    refine atomicStep_returned ?_
    cases result <;>
      simp [handle, SessionBatch.append, isFeed, whole, Except.map]
  · refine refines.finish found holds rfl
      (fun _ isLock => by cases isLock) rfl ?_ ?_
    · exact Function.update_self ..
    · intro other different
      exact Function.update_of_ne different ..

/-- A get reads what the atomic server has. -/
theorem Refines.get_returns
    (refines : Refines core state server)
    {index feed id seq : Nat}
    {rpc : Rpc}
    (found : state.rpcs[index]? = some rpc)
    (isPhase : rpc.phase = .getting feed)
    (isRequest : rpc.request = .get id seq)
    (stepped :
      step core state (.advance index) =
        some (state.finish index rpc feed
          (.got feed (core.get (state.feeds feed) seq)))) :
    atomicStep core server (view core state (.advance index)) =
        some server ∧
      Refines core
        (state.finish index rpc feed
          (.got feed (core.get (state.feeds feed) seq))) server := by
  have holds : rpc.phase.holds = some feed := by
    rw [isPhase]
    rfl
  have same := refines.reading found isPhase
  obtain ⟨_, known⟩ := refines.inside found (Or.inr holds)
  rw [← refines.cores, isRequest] at known
  have isFeed :
      (server.cores rpc.session).lookup id = some feed :=
    known
  constructor
  · rw [view_advance found stepped rfl, isRequest]
    refine atomicStep_returned ?_
    simp [handle, isFeed, same]
  · exact refines.finish found holds rfl
      (fun _ isLock => by cases isLock) rfl same (fun _ _ => rfl)

/-- Taking the lock of a map. -/
theorem Refines.takeCores
    (refines : Refines core state server)
    {index feed : Nat}
    {rpc : Rpc}
    (unlocked : state.coresLock rpc.session = none)
    (known :
      (state.cores rpc.session).lookup rpc.request.id = some feed) :
    Refines core
      { state.setPhase index rpc (.lockFeed feed) with
        coresLock :=
          Function.update state.coresLock rpc.session (some index) }
      server := by
  refine refines.moved rfl rfl rfl ?_ ?_ ?_ ?_ refines.free ?_
    (fun _ _ _ held => ⟨held, rfl, rfl⟩)
  · rintro other (isLock | holds)
    · cases isLock
      exact ⟨Function.update_self .., known⟩
    · cases holds
  · intro other holds
    cases holds
  · intro other first written remaining isPhase
    cases isPhase
  · intro other isPhase
    cases isPhase
  · intro session other _ held
    have different : session ≠ rpc.session := by
      rintro rfl
      rw [unlocked] at held
      cases held
    exact (Function.update_of_ne different ..).trans held

/-- Taking the lock of a feed. -/
theorem Refines.takeFeed
    (refines : Refines core state server)
    {index feed : Nat}
    {rpc : Rpc}
    (found : state.rpcs[index]? = some rpc)
    (isPhase : rpc.phase = .lockFeed feed)
    (unlocked : state.feedLock feed = none) :
    Refines core
      { state.setPhase index rpc
          (start core state.feeds feed rpc.request) with
        feedLock := Function.update state.feedLock feed (some index) }
      server := by
  have entered := refines.inside found (Or.inl isPhase)
  have same := refines.free feed unlocked
  obtain ⟨isHeld, _, _⟩ := start_fits core state.feeds feed rpc.request
  refine refines.moved rfl rfl rfl ?_ ?_ ?_ ?_ ?_
    (fun _ _ _ held => held) ?_
  · rintro other (isLock | holds)
    · rw [isLock] at isHeld
      cases isHeld
    · rw [isHeld] at holds
      cases holds
      exact entered
  · intro other holds
    rw [isHeld] at holds
    cases holds
    exact Function.update_self ..
  · intro other first written remaining isStart
    cases isRequest : rpc.request with
    | append id blocks =>
        rw [isRequest] at isStart
        cases isStart
        exact ⟨⟨id, rfl⟩, same.symm⟩
    | get id seq =>
        rw [isRequest] at isStart
        cases isStart
  · intro other isStart
    have isFeed : some feed = some other := by
      rw [← isHeld, isStart]
      rfl
    cases isFeed
    exact same
  · intro other isFree
    refine refines.free other ?_
    simp only [Function.update_apply] at isFree
    split at isFree
    · cases isFree
    · exact isFree
  · intro other place _ held
    have different : other ≠ feed := by
      rintro rfl
      rw [unlocked] at held
      cases held
    exact ⟨(Function.update_of_ne different ..).trans held, rfl, rfl⟩

/-- One block of a batch. -/
theorem Refines.append
    (refines : Refines core state server)
    {index feed first : Nat}
    {written remaining : List Bytes}
    {block : Bytes}
    {next : Feed}
    {rpc : Rpc}
    (found : state.rpcs[index]? = some rpc)
    (isPhase :
      rpc.phase = .appending feed first written (block :: remaining))
    (appended : core.append (state.feeds feed) block = .ok next) :
    Refines core
      { state.setPhase index rpc
          (.appending feed first (written ++ [block]) remaining) with
        feeds := Function.update state.feeds feed next }
      server := by
  have holds : rpc.phase.holds = some feed := by
    rw [isPhase]
    rfl
  have held := refines.locked found holds
  obtain ⟨⟨id, isRequest⟩, accepts⟩ := refines.batch found isPhase
  have notFeed :
      ∀ other, state.feedLock other ≠ some index → other ≠ feed := by
    rintro other different rfl
    exact different held
  refine refines.moved rfl rfl rfl ?_ ?_ ?_ ?_ ?_
    (fun _ _ _ isHeld => isHeld) ?_
  · rintro other (isLock | isHeld)
    · cases isLock
    · cases isHeld
      exact refines.inside found (Or.inr holds)
  · intro other isHeld
    cases isHeld
    exact held
  · intro other start before after isAppending
    cases isAppending
    refine ⟨⟨id, by rw [isRequest]; simp⟩, ?_⟩
    simp only [Function.update_self]
    exact accepts.snoc appended
  · intro other isGetting
    cases isGetting
  · intro other isFree
    have unlocked : state.feedLock other = none := isFree
    have different := notFeed other (by rw [unlocked]; simp)
    simp only [Function.update_of_ne different]
    exact refines.free other unlocked
  · intro other place different isHeld
    have differs := notFeed other (by
      rw [isHeld]
      exact fun same => different (Option.some.inj same))
    exact ⟨isHeld, Function.update_of_ne differs .., rfl⟩

/-- Every step of an RPC is matched by the atomic server. -/
theorem Refines.advance
    (refines : Refines core state server)
    {index : Nat}
    {rpc : Rpc}
    (found : state.rpcs[index]? = some rpc)
    (stepped : step core state (.advance index) = some later)
    (advances : Advances core state index rpc later) :
    ∃ after,
      atomicStep core server (view core state (.advance index)) =
          some after ∧
        Refines core later after := by
  cases advances with
  | refuse isPhase unlocked unknown =>
      exact ⟨server, refines.refuse found unknown stepped⟩
  | takeCores isPhase unlocked known =>
      refine ⟨server, ?_, refines.takeCores unlocked known⟩
      rw [view_advance found stepped rfl]
      rfl
  | takeFeed isPhase unlocked =>
      refine ⟨server, ?_, refines.takeFeed found isPhase unlocked⟩
      rw [view_advance found stepped rfl]
      cases rpc.request <;> rfl
  | append isPhase appended =>
      refine ⟨server, ?_, refines.append found isPhase appended⟩
      rw [view_advance found stepped rfl]
      rfl
  | @fail feed first written remaining block message isPhase failed =>
      refine refines.append_returns (.error message) found isPhase ?_
        stepped
      simp only [SessionBatch.appendBlocks, failed]
  | respond isPhase =>
      exact refines.append_returns (.ok ()) found isPhase rfl stepped
  | get isPhase isRequest =>
      exact ⟨server, refines.get_returns found isPhase isRequest stepped⟩

/-- Every step is matched by the atomic server. -/
theorem Refines.step
    (refines : Refines core state server)
    {action : Action}
    (stepped : SessionAppend.step core state action = some later) :
    ∃ after,
      atomicStep core server (view core state action) = some after ∧
        Refines core later after := by
  cases action with
  | request session request =>
      cases stepped
      refine ⟨server, rfl, ?_⟩
      have older :
          ∀ {index : Nat} {rpc : Rpc},
            (state.rpcs ++ [⟨session, request, .lockCores⟩])[index]? =
              some rpc →
            rpc.phase ≠ .lockCores →
            state.rpcs[index]? = some rpc := by
        intro index rpc found notNew
        rcases Machine.getElem?_concat_cases found with old | ⟨_, rfl⟩
        · exact old
        · exact absurd rfl notNew
      refine ⟨refines.cores, ?_, ?_, ?_, ?_, refines.free⟩
      · intro index feed rpc found isInside
        refine refines.inside (older found ?_) isInside
        intro isNew
        rw [isNew] at isInside
        rcases isInside with waits | holds
        · cases waits
        · cases holds
      · intro index feed rpc found holds
        refine refines.locked (older found ?_) holds
        intro isNew
        rw [isNew] at holds
        cases holds
      · intro index feed first written remaining rpc found isPhase
        refine refines.batch (older found ?_) isPhase
        rw [isPhase]
        simp
      · intro index feed rpc found isPhase
        refine refines.reading (older found ?_) isPhase
        rw [isPhase]
        simp
  | advance index =>
      cases found : state.rpcs[index]? with
      | none =>
          simp [SessionAppend.step, found] at stepped
      | some rpc =>
          have advanced :
              SessionAppend.advance core state index rpc =
                some later := by
            simpa [SessionAppend.step, found] using stepped
          exact refines.advance found stepped
            (advances_of_advance advanced)
  | bind session id feed =>
      simp only [SessionAppend.step] at stepped
      split at stepped
      · cases stepped
      · next unlocked =>
          cases stepped
          refine ⟨_, rfl, ?_, ?_, refines.locked, refines.batch,
            refines.reading, refines.free⟩
          · rw [refines.cores]
          · intro index other rpc found isInside
            obtain ⟨held, known⟩ := refines.inside found isInside
            refine ⟨held, ?_⟩
            have different : rpc.session ≠ session := by
              rintro rfl
              rw [unlocked] at held
              cases held
            simp only [Function.update_of_ne different]
            exact known

/-- A step enters the same calls of `open` on both sides. -/
theorem calls_atomicStep
    {action : Action}
    (matched :
      atomicStep core server (view core state action) = some after) :
    after.calls = server.calls ++ entered action := by
  cases action with
  | request session request =>
      cases matched
      simp [entered]
  | bind session id feed =>
      cases matched
      rfl
  | advance index =>
      simp only [entered, List.append_nil]
      cases seen : view core state (.advance index) with
      | none =>
          rw [seen] at matched
          cases matched
          rfl
      | some event =>
          obtain ⟨session, request, given, rfl⟩ :
              ∃ session request given,
                event = .returned session request given := by
            simp only [view, Option.bind_eq_some_iff,
              Option.map_eq_some_iff] at seen
            obtain ⟨_, _, rpc, _, given, _, isEvent⟩ := seen
            exact ⟨_, _, given, isEvent.symm⟩
          rw [seen] at matched
          simp only [atomicStep] at matched
          split at matched
          · cases matched
            cases request <;> rfl
          · cases matched

/-- No RPC has been made yet. -/
theorem refines_initial
    (feeds : Nat → Feed)
    (cores : Nat → Table Nat Nat) :
    Refines core (initial feeds cores) ⟨feeds, cores, []⟩ where
  cores := rfl
  inside := by simp [initial]
  locked := by simp [initial]
  batch := by simp [initial]
  reading := by simp [initial]
  free := fun _ _ => rfl

/-- The server that does one thing at a time has the same calls of `open`. -/
structure Follows
    (core : SessionFeed Feed)
    (sessions : Sessions Feed)
    (server : Server Feed) : Prop where
  refines : Refines core sessions.state server
  calls : server.calls = sessions.calls

/-- Every step of the sessions is matched by the atomic server. -/
theorem Follows.step
    {sessions next : Sessions Feed}
    (follows : Follows core sessions server)
    {action : Sessions.Action}
    (stepped : sessions.step core action = some next) :
    ∃ after,
      atomicStep core server (sessions.view core action) =
          some after ∧
        Follows core next after := by
  cases action with
  | rpc action =>
      obtain ⟨later, moved, rfl⟩ := Option.map_eq_some_iff.mp stepped
      obtain ⟨after, matched, refines⟩ := follows.refines.step moved
      refine ⟨after, matched, refines, ?_⟩
      rw [calls_atomicStep matched, follows.calls]
  | respond call =>
      simp only [Sessions.step] at stepped
      cases found : sessions.calls[call]? with
      | none =>
          simp [found] at stepped
      | some opening =>
          simp only [found] at stepped
          split at stepped
          · cases stepped
          · next notAnswered =>
              split at stepped
              · cases stepped
              · next unlocked =>
                  cases stepped
                  have same := follows.refines.free opening.feed unlocked
                  refine ⟨{ server with
                    calls :=
                      server.calls.set call
                        { opening with answered := true } },
                    ?_, ?_, ?_⟩
                  · simp [atomicStep, Sessions.view, found,
                      follows.calls, notAnswered, same]
                  · exact ⟨follows.refines.cores, follows.refines.inside,
                      follows.refines.locked, follows.refines.batch,
                      follows.refines.reading, follows.refines.free⟩
                  · simp only [follows.calls]

/--
What the callers of any number of sessions are answered, in any interleaving of
the steps of their RPCs, is in the order in which it is given what a server
answers that handles each `append` and each `get` in one step, and each `open`
that has found its feed in two, one that binds its id and a later one that reads
what it answers.  At the end both have the same maps and the same calls of
`open`, and the same feeds but for those that are locked.
-/
theorem answers_of_atomic_server
    {feeds : Nat → Feed}
    {cores : Nat → Table Nat Nat}
    {actions : List Sessions.Action}
    {final : Sessions Feed}
    (ran :
      Machine.run (Sessions.step core) ⟨initial feeds cores, []⟩
          actions =
        some final) :
    ∃ server,
      Machine.run (atomicStep core) ⟨feeds, cores, []⟩
          (Machine.observe (Sessions.step core) (Sessions.view core)
            ⟨initial feeds cores, []⟩ actions) =
          some server ∧
        server.cores = final.state.cores ∧
        server.calls = final.calls ∧
        ∀ feed,
          final.state.feedLock feed = none →
          server.feeds feed = final.state.feeds feed := by
  have simulates :
      ∀ {sessions : Sessions Feed} {action : Sessions.Action}
        {next : Sessions Feed} {server : Server Feed},
        Follows core sessions server →
        sessions.step core action = some next →
        ∃ after,
          atomicStep core server (sessions.view core action) =
              some after ∧
            Follows core next after :=
    fun follows stepped => follows.step stepped
  obtain ⟨server, atomicRan, follows⟩ :=
    Machine.simulation_run simulates
      (show Follows core ⟨initial feeds cores, []⟩ ⟨feeds, cores, []⟩
        from ⟨refines_initial feeds cores, rfl⟩)
      ran
  exact ⟨server, atomicRan, follows.refines.cores, follows.calls,
    follows.refines.free⟩

end

/--
A session opens a feed and appends to it before its `open` has answered; then a
second one gets the block.
-/
def appendsWhileOpening : List Sessions.Action :=
  [.rpc (.bind 0 1 0), .rpc (.bind 1 1 0), .respond 1,
    .rpc (.request 0 (.append 1 [[7]])), .rpc (.advance 0),
    .rpc (.advance 0), .rpc (.advance 0), .rpc (.advance 0), .respond 0,
    .rpc (.request 1 (.get 1 0)), .rpc (.advance 1),
    .rpc (.advance 1), .rpc (.advance 1)]

/-- The atomic server gives the same answers and has the same block. -/
theorem answers_of_atomic_server_whileOpening :
    ∃ final server,
      Machine.run (Sessions.step blockFeed)
          ⟨initial (fun _ => []) (fun _ => ∅), []⟩
          appendsWhileOpening =
          some final ∧
        (Machine.observe (Sessions.step blockFeed)
          (Sessions.view blockFeed)
          ⟨initial (fun _ => []) (fun _ => ∅), []⟩
          appendsWhileOpening).reduceOption =
          [.bound 0 1 0, .bound 1 1 0,
            .opened 1 ⟨sampleFoo.publicKey.bytes, 0, 0, true⟩,
            .returned 0 (.append 1 [[7]]) (.append (.ok ⟨1, 1⟩)),
            .opened 0 ⟨sampleFoo.publicKey.bytes, 1, 1, true⟩,
            .returned 1 (.get 1 0) (.get (.ok (some [7])))] ∧
        Machine.run (atomicStep blockFeed)
          ⟨fun _ => [], fun _ => ∅, []⟩
          (Machine.observe (Sessions.step blockFeed)
            (Sessions.view blockFeed)
            ⟨initial (fun _ => []) (fun _ => ∅), []⟩
            appendsWhileOpening) =
          some server ∧
        server.feeds 0 = final.state.feeds 0 := by
  obtain ⟨final, ran, seen, unlocked⟩ :
      ∃ final,
        Machine.run (Sessions.step blockFeed)
            ⟨initial (fun _ => []) (fun _ => ∅), []⟩
            appendsWhileOpening =
            some final ∧
          (Machine.observe (Sessions.step blockFeed)
            (Sessions.view blockFeed)
            ⟨initial (fun _ => []) (fun _ => ∅), []⟩
            appendsWhileOpening).reduceOption =
            [.bound 0 1 0, .bound 1 1 0,
              .opened 1 ⟨sampleFoo.publicKey.bytes, 0, 0, true⟩,
              .returned 0 (.append 1 [[7]]) (.append (.ok ⟨1, 1⟩)),
              .opened 0 ⟨sampleFoo.publicKey.bytes, 1, 1, true⟩,
              .returned 1 (.get 1 0) (.get (.ok (some [7])))] ∧
          final.state.feedLock 0 = none :=
    ⟨_, rfl, rfl, rfl⟩
  obtain ⟨server, atomicRan, _, _, same⟩ := answers_of_atomic_server ran
  exact ⟨final, server, ran, seen, atomicRan, same 0 unlocked⟩

end SessionLinear

end Hyperspace
