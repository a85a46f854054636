import Hyperspace.Machine
import Mathlib.Logic.Function.Basic

namespace Hyperspace.ServerSocket

/-!
# The socket of the server

`accept` of `server/src/rpc/socket.rs` binds a socket at a path.  Binding fails
if there is a file, alive or left over from a server that was killed; then
`accept` removes whatever is there and tries once more.  `open_corestore` of the
client connects to the same path.

Any number of servers may start, race and die on one path.  A server that
starts takes the path from a server that is running, and of servers that start
together some fail.  When a server ends, its listener is closed with it, and the
connections that it has not yet accepted are lost.  This module shows what
clients see of it.
-/

/-- The constant `SOCKET_NAME`. -/
def socketName : String := "hyperspace"

/-- The method `Path::join`. -/
def join (base name : String) : String :=
  if name.startsWith "/" then
    name
  else if base.isEmpty || base.endsWith "/" then
    base ++ name
  else
    base ++ "/" ++ name

/-- The function `socket_path`, for the directory `temp_dir`. -/
def socketPath (tempDir : String) (host : Option String) : String :=
  join tempDir (host.getD socketName ++ ".sock")

/-- What is at a path; listeners are numbered in the order they bind. -/
inductive File where
  /-- A file that was there before. -/
  | stale
  | socket (listener : Nat)
  deriving Repr, DecidableEq

/-- How a call of `accept` ends. -/
inductive Outcome where
  | finished
  | bindFailed
  | removeFailed
  | incomingFailed
  | panicked
  /-- The process is killed. -/
  | killed
  deriving Repr, DecidableEq

/-- Where a call of `accept` is. -/
inductive Phase where
  | starting
  /-- The first `bind` has failed. -/
  | removing
  /-- The file is removed. -/
  | rebinding
  | listening (listener : Nat)
  | ended (outcome : Outcome)
  deriving Repr, DecidableEq

/-- What `incoming` yields. -/
inductive Incoming where
  | stream
  | error
  /-- The end of the stream. -/
  | done
  deriving Repr, DecidableEq

/-- A connection that a client has made. -/
structure Connection (Client : Type) where
  path : String
  listener : Nat
  client : Client
  deriving Repr, DecidableEq

/-- The file system, the servers and their connections. -/
structure State (Server Client : Type) where
  files : String → Option File
  /-- The server of each listener. -/
  binds : List Server
  phases : Server → Phase
  /-- The connections that a listener has not yet yielded. -/
  backlogs : Nat → List Client
  /-- The connections that were waiting when their listener was closed. -/
  lost : Nat → List Client
  /-- The calls of `onconnection` by each server. -/
  accepted : Server → List Client
  /-- The connections that clients have made, in order. -/
  reached : List (Connection Client)

/-- What can happen; `denied` stands for failures of other kinds. -/
inductive Action (Server Client : Type) where
  | bind (server : Server) (denied : Bool)
  | remove (server : Server) (denied : Bool)
  | incoming (server : Server) (item : Incoming)
  | kill (server : Server)
  | connect (client : Client) (host : Option String)

/-- No server has started; there may be files from before. -/
def initial
    {Server Client : Type}
    (files : String → Bool) : State Server Client where
  files := fun path => if files path then some .stale else none
  binds := []
  phases := fun _ => .starting
  backlogs := fun _ => []
  lost := fun _ => []
  accepted := fun _ => []
  reached := []

namespace State

variable
  {Server Client : Type}
  [DecidableEq Server]

/-- A server comes to another point of `accept`. -/
def goto
    (state : State Server Client)
    (server : Server)
    (phase : Phase) : State Server Client :=
  { state with phases := Function.update state.phases server phase }

/-- A call of `accept` ends, and closes the listener that it has. -/
def leave
    (state : State Server Client)
    (server : Server)
    (outcome : Outcome) : State Server Client :=
  match state.phases server with
  | .listening listener =>
      { state.goto server (.ended outcome) with
        backlogs := Function.update state.backlogs listener []
        lost := Function.update state.lost listener
          (state.backlogs listener) }
  | _ => state.goto server (.ended outcome)

/-- The file at a path is removed. -/
def unlink
    (state : State Server Client)
    (path : String) : State Server Client :=
  { state with files := Function.update state.files path none }

/-- A server has bound a new listener. -/
def listen
    (state : State Server Client)
    (server : Server)
    (path : String) : State Server Client :=
  { state with
    files := Function.update state.files path
      (some (.socket state.binds.length))
    binds := state.binds ++ [server]
    phases := Function.update state.phases server
      (.listening state.binds.length) }

/-- Whether the server of a listener is still listening. -/
def serves (state : State Server Client) (listener : Nat) : Bool :=
  match state.binds[listener]? with
  | some server => decide (state.phases server = .listening listener)
  | none => false

/-- The call of `connect` in `open_corestore`; an error changes nothing. -/
def connect
    (state : State Server Client)
    (client : Client)
    (path : String) : State Server Client :=
  match state.files path with
  | some (.socket listener) =>
      if state.serves listener then
        { state with
          backlogs := Function.update state.backlogs listener
            (state.backlogs listener ++ [client])
          reached := state.reached ++ [⟨path, listener, client⟩] }
      else
        state
  | _ => state

end State

section

variable
  {Server Client : Type}
  [DecidableEq Server]
  (tempDir : String)
  (host : Server → Option String)

/-- The path at which a server listens. -/
def pathOf (server : Server) : String :=
  socketPath tempDir (host server)

/-- One step of one server or client. -/
def step (state : State Server Client) :
    Action Server Client → Option (State Server Client)
  | .bind server denied =>
      let path := pathOf tempDir host server
      let free := !denied && (state.files path).isNone
      match state.phases server with
      | .starting =>
          if free then
            some (state.listen server path)
          else
            some (state.goto server .removing)
      | .rebinding =>
          if free then
            some (state.listen server path)
          else
            some (state.goto server (.ended .bindFailed))
      | _ => none
  | .remove server denied =>
      let path := pathOf tempDir host server
      match state.phases server with
      | .removing =>
          if !denied && (state.files path).isSome then
            some ((state.unlink path).goto server .rebinding)
          else
            some (state.goto server (.ended .removeFailed))
      | _ => none
  | .incoming server item =>
      let path := pathOf tempDir host server
      match state.phases server with
      | .listening listener =>
          match item with
          | .stream =>
              match state.backlogs listener with
              | [] => none
              | client :: rest =>
                  some
                    { state with
                      backlogs :=
                        Function.update state.backlogs listener rest
                      accepted := Function.update state.accepted server
                        (state.accepted server ++ [client]) }
          | .error => some (state.leave server .incomingFailed)
          | .done =>
              if (state.files path).isSome then
                some ((state.unlink path).leave server .finished)
              else
                some (state.leave server .panicked)
      | _ => none
  | .kill server => some (state.leave server .killed)
  | .connect client host =>
      some (state.connect client (socketPath tempDir host))

/--
What is assumed about a path.  Operations there are not denied, a server is not
killed between removing the file and binding again, and `incoming` does not end,
as its documentation says.
-/
def Calm
    (path : String)
    (state : State Server Client) : Action Server Client → Prop
  | .bind server denied =>
      pathOf tempDir host server = path → denied = false
  | .remove server denied =>
      pathOf tempDir host server = path → denied = false
  | .incoming server item =>
      pathOf tempDir host server = path → item ≠ .done
  | .kill server =>
      pathOf tempDir host server = path →
      state.phases server ≠ .rebinding
  | .connect _ _ => True

/-- What a server does at its path. -/
inductive Changes
    (path : String)
    (state : State Server Client)
    (server : Server) : State Server Client → Prop where
  | occupied
      (starting : state.phases server = .starting)
      (isFile : state.files path ≠ none) :
      Changes path state server (state.goto server .removing)
  | bound
      (isFree : state.files path = none) :
      Changes path state server (state.listen server path)
  | beaten
      (rebinding : state.phases server = .rebinding)
      (isFile : state.files path ≠ none) :
      Changes path state server
        (state.goto server (.ended .bindFailed))
  | removed
      (isFile : state.files path ≠ none) :
      Changes path state server
        ((state.unlink path).goto server .rebinding)
  | missed
      (removing : state.phases server = .removing)
      (isFree : state.files path = none) :
      Changes path state server
        (state.goto server (.ended .removeFailed))
  | broken
      {listener : Nat}
      (listening : state.phases server = .listening listener) :
      Changes path state server (state.leave server .incomingFailed)
  | killed
      (notRebinding : state.phases server ≠ .rebinding) :
      Changes path state server (state.leave server .killed)

/-- A step that does not matter at a path. -/
structure Elsewhere
    (path : String)
    (state next : State Server Client) : Prop where
  files : next.files path = state.files path
  phases :
    ∀ server,
      pathOf tempDir host server = path →
      next.phases server = state.phases server
  binds :
    next.binds = state.binds ∨
      ∃ server,
        pathOf tempDir host server ≠ path ∧
          next.binds = state.binds ++ [server]
  reached : next.reached = state.reached

/-- The invariant of a path. -/
structure Orderly
    (path : String)
    (state : State Server Client) : Prop where
  /-- The socket is that of the last listener there. -/
  newest :
    ∀ listener,
      state.files path = some (.socket listener) →
      (∃ server,
        state.binds[listener]? = some server ∧
          pathOf tempDir host server = path) ∧
        ∀ other server,
          state.binds[other]? = some server →
          pathOf tempDir host server = path →
          other ≤ listener
  /-- A file from before is there until a server removes it. -/
  untouched :
    state.files path = some .stale →
    ∀ server,
      pathOf tempDir host server = path →
      server ∉ state.binds ∧ state.phases server ≠ .rebinding
  /-- If there is no file, a server is about to bind, or none has tried. -/
  absent :
    state.files path = none →
    (∃ server,
      pathOf tempDir host server = path ∧
        state.phases server = .rebinding) ∨
      ∀ server,
        pathOf tempDir host server = path →
        server ∉ state.binds ∧
          (state.phases server = .starting ∨
            state.phases server = .ended .killed)
  /-- A server that has failed was beaten by another one. -/
  came :
    ∀ server,
      pathOf tempDir host server = path →
      state.phases server ≠ .starting →
      state.phases server ≠ .removing →
      state.phases server ≠ .ended .killed →
      (∃ other,
        pathOf tempDir host other = path ∧
          state.phases other = .rebinding) ∨
        ∃ other ∈ state.binds, pathOf tempDir host other = path
  logged :
    ∀ connection ∈ state.reached,
      connection.path = path →
      ∃ server,
        state.binds[connection.listener]? = some server ∧
          pathOf tempDir host server = path
  ordered :
    state.reached.Pairwise fun first second =>
      first.path = path →
      second.path = path →
      first.listener ≤ second.listener

end

section

variable
  {Server Client : Type}
  {tempDir : String}
  {host : Server → Option String}
  {path : String}
  {state next : State Server Client}

/-! ## What a step does -/

variable [DecidableEq Server]

/-- A server changes nothing at other paths. -/
theorem elsewhere_of_ne
    {server : Server}
    {phase : Phase}
    (isOther : pathOf tempDir host server ≠ path)
    (files :
      ∀ other,
        other ≠ pathOf tempDir host server →
        next.files other = state.files other)
    (phases :
      next.phases = Function.update state.phases server phase)
    (binds :
      next.binds = state.binds ∨
        next.binds = state.binds ++ [server])
    (reached : next.reached = state.reached) :
    Elsewhere tempDir host path state next := by
  refine ⟨files path (Ne.symm isOther), ?_, ?_, reached⟩
  · intro here isHere
    have different : here ≠ server := by
      rintro rfl
      exact isOther isHere
    rw [phases]
    exact Function.update_of_ne different _ _
  · exact binds.imp id fun isBound => ⟨server, isOther, isBound⟩

/-- A server comes to another point, at its own path only. -/
theorem elsewhere_goto
    {server : Server}
    {phase : Phase}
    (isOther : pathOf tempDir host server ≠ path) :
    Elsewhere tempDir host path state (state.goto server phase) :=
  elsewhere_of_ne isOther (fun _ _ => rfl) rfl (Or.inl rfl) rfl

/-- A server binds at its own path only. -/
theorem elsewhere_listen
    {server : Server}
    (isOther : pathOf tempDir host server ≠ path) :
    Elsewhere tempDir host path state
      (state.listen server (pathOf tempDir host server)) :=
  elsewhere_of_ne isOther
    (fun _ different => Function.update_of_ne different _ _) rfl
    (Or.inr rfl) rfl

/-- A server removes the file at its own path only. -/
theorem elsewhere_unlink
    {server : Server}
    {phase : Phase}
    (isOther : pathOf tempDir host server ≠ path) :
    Elsewhere tempDir host path state
      ((state.unlink (pathOf tempDir host server)).goto server phase) :=
  elsewhere_of_ne isOther
    (fun _ different => Function.update_of_ne different _ _) rfl
    (Or.inl rfl) rfl

/-- Beside the connections, ending is coming to another point. -/
theorem leave_eq
    (state : State Server Client)
    (server : Server)
    (outcome : Outcome) :
    ∃ backlogs lost,
      state.leave server outcome =
        { state.goto server (.ended outcome) with
          backlogs := backlogs
          lost := lost } := by
  rw [State.leave]
  split
  · exact ⟨_, _, rfl⟩
  · exact ⟨_, _, rfl⟩

/-- A server ends, which does not matter at other paths. -/
theorem Elsewhere.leave
    {server : Server}
    {outcome : Outcome}
    (elsewhere :
      Elsewhere tempDir host path state
        (next.goto server (.ended outcome))) :
    Elsewhere tempDir host path state (next.leave server outcome) := by
  obtain ⟨backlogs, lost, isLeft⟩ := leave_eq next server outcome
  rw [isLeft]
  exact ⟨elsewhere.files, elsewhere.phases, elsewhere.binds,
    elsewhere.reached⟩

/-- What a step at a path, or elsewhere, is. -/
theorem step_cases
    {action : Action Server Client}
    (calm : Calm tempDir host path state action)
    (stepped : step tempDir host state action = some next) :
    (∃ server,
      pathOf tempDir host server = path ∧
        Changes path state server next) ∨
      Elsewhere tempDir host path state next ∨
      ∃ client host,
        next = state.connect client (socketPath tempDir host) := by
  cases action with
  | connect client host =>
      cases stepped
      exact Or.inr (Or.inr ⟨client, host, rfl⟩)
  | kill server =>
      cases stepped
      by_cases isHere : pathOf tempDir host server = path
      · exact Or.inl ⟨server, isHere, .killed (calm isHere)⟩
      · exact Or.inr (Or.inl (elsewhere_goto isHere).leave)
  | bind server denied =>
      by_cases isHere : pathOf tempDir host server = path
      · have allowed := calm isHere
        subst denied
        refine Or.inl ⟨server, isHere, ?_⟩
        simp only [step, isHere, Bool.not_false, Bool.true_and,
          Option.isNone_iff_eq_none] at stepped
        split at stepped
        · next starting =>
            split at stepped
            · next isFree =>
                cases stepped
                exact .bound isFree
            · next isFile =>
                cases stepped
                exact .occupied starting isFile
        · next rebinding =>
            split at stepped
            · next isFree =>
                cases stepped
                exact .bound isFree
            · next isFile =>
                cases stepped
                exact .beaten rebinding isFile
        · cases stepped
      · refine Or.inr (Or.inl ?_)
        simp only [step] at stepped
        split at stepped
        · split at stepped
          · cases stepped
            exact elsewhere_listen isHere
          · cases stepped
            exact elsewhere_goto isHere
        · split at stepped
          · cases stepped
            exact elsewhere_listen isHere
          · cases stepped
            exact elsewhere_goto isHere
        · cases stepped
  | remove server denied =>
      by_cases isHere : pathOf tempDir host server = path
      · have allowed := calm isHere
        subst denied
        refine Or.inl ⟨server, isHere, ?_⟩
        simp only [step, isHere, Bool.not_false, Bool.true_and]
          at stepped
        split at stepped
        · next removing =>
            split at stepped
            · next isFile =>
                cases stepped
                exact .removed
                  (Option.isSome_iff_ne_none.mp isFile)
            · next isFree =>
                cases stepped
                exact .missed removing (by simpa using isFree)
        · cases stepped
      · refine Or.inr (Or.inl ?_)
        simp only [step] at stepped
        split at stepped
        · split at stepped
          · cases stepped
            exact elsewhere_unlink isHere
          · cases stepped
            exact elsewhere_goto isHere
        · cases stepped
  | incoming server item =>
      simp only [step] at stepped
      split at stepped
      · next listener listening =>
          split at stepped
          · split at stepped
            · cases stepped
            · cases stepped
              exact Or.inr (Or.inl
                ⟨rfl, fun _ _ => rfl, Or.inl rfl, rfl⟩)
          · cases stepped
            by_cases isHere : pathOf tempDir host server = path
            · exact Or.inl ⟨server, isHere, .broken listening⟩
            · exact Or.inr (Or.inl (elsewhere_goto isHere).leave)
          · have isOther : pathOf tempDir host server ≠ path :=
              fun isHere => calm isHere rfl
            refine Or.inr (Or.inl ?_)
            split at stepped
            · cases stepped
              exact (elsewhere_unlink isOther).leave
            · cases stepped
              exact (elsewhere_goto isOther).leave
      · cases stepped

end

section

variable
  {Server Client : Type}
  {tempDir : String}
  {host : Server → Option String}
  {path : String}
  {state next : State Server Client}

/-! ## The invariant is kept -/

/-- No server has started. -/
theorem orderly_initial (files : String → Bool) :
    Orderly tempDir host path
      (initial files : State Server Client) := by
  refine ⟨?_, ?_, ?_, ?_, ?_, .nil⟩
  · intro listener isSocket
    simp only [initial] at isSocket
    split at isSocket <;> cases isSocket
  · intro _ server _
    simp [initial]
  · intro _
    refine Or.inr fun server _ => ?_
    simp [initial]
  · intro server _ started
    exact absurd rfl started
  · intro connection member
    cases member

/-- A step elsewhere keeps the invariant. -/
theorem Orderly.elsewhere
    (orderly : Orderly tempDir host path state)
    (elsewhere : Elsewhere tempDir host path state next) :
    Orderly tempDir host path next := by
  obtain ⟨files, phases, binds, reached⟩ := elsewhere
  have kept :
      ∀ {listener : Nat} {server : Server},
        state.binds[listener]? = some server →
        next.binds[listener]? = some server := by
    intro listener server found
    rcases binds with same | ⟨other, _, isBound⟩
    · rw [same]
      exact found
    · rw [isBound]
      exact Machine.getElem?_concat_of_some found
  have here :
      ∀ {listener : Nat} {server : Server},
        pathOf tempDir host server = path →
        next.binds[listener]? = some server →
        state.binds[listener]? = some server := by
    intro listener server isHere found
    rcases binds with same | ⟨other, isOther, isBound⟩
    · rwa [same] at found
    · rw [isBound] at found
      rcases Machine.getElem?_concat_cases found with before | ⟨_, rfl⟩
      · exact before
      · exact absurd isHere isOther
  have member :
      ∀ {server},
        pathOf tempDir host server = path →
        (server ∈ next.binds ↔ server ∈ state.binds) := by
    intro server isHere
    simp only [List.mem_iff_getElem?]
    exact ⟨fun ⟨listener, found⟩ => ⟨listener, here isHere found⟩,
      fun ⟨listener, found⟩ => ⟨listener, kept found⟩⟩
  refine ⟨?_, ?_, ?_, ?_, ?_, ?_⟩
  · intro listener isSocket
    rw [files] at isSocket
    obtain ⟨⟨server, found, isHere⟩, last⟩ :=
      orderly.newest listener isSocket
    exact ⟨⟨server, kept found, isHere⟩, fun other holder isOther held =>
      last other holder (here held isOther) held⟩
  · intro isStale server isHere
    rw [files] at isStale
    rw [member isHere, phases server isHere]
    exact orderly.untouched isStale server isHere
  · intro isAbsent
    rw [files] at isAbsent
    rcases orderly.absent isAbsent with ⟨server, isHere, waits⟩ | none
    · exact Or.inl ⟨server, isHere, by rw [phases server isHere, waits]⟩
    · refine Or.inr fun server isHere => ?_
      rw [member isHere, phases server isHere]
      exact none server isHere
  · intro server isHere
    rw [phases server isHere]
    intro started removed killed
    rcases orderly.came server isHere started removed killed with
      ⟨other, isOther, waits⟩ | ⟨other, isBound, isOther⟩
    · exact Or.inl ⟨other, isOther, by rw [phases other isOther, waits]⟩
    · exact Or.inr ⟨other, (member isOther).mpr isBound, isOther⟩
  · intro connection isReached toHere
    rw [reached] at isReached
    obtain ⟨server, found, isHere⟩ :=
      orderly.logged connection isReached toHere
    exact ⟨server, kept found, isHere⟩
  · rw [reached]
    exact orderly.ordered

/-- A client that connects reaches the last listener. -/
theorem Orderly.connect
    (orderly : Orderly tempDir host path state)
    (client : Client)
    (place : String) :
    Orderly tempDir host path (state.connect client place) := by
  rw [State.connect]
  split
  · next listener isSocket =>
      split
      · refine ⟨orderly.newest, orderly.untouched, orderly.absent,
          orderly.came, ?_, ?_⟩
        · intro connection member toHere
          rcases List.mem_append.mp member with before | isNew
          · exact orderly.logged connection before toHere
          · cases List.mem_singleton.mp isNew
            cases toHere
            exact (orderly.newest listener isSocket).1
        · refine List.pairwise_append.mpr
            ⟨orderly.ordered, List.pairwise_singleton _ _, ?_⟩
          intro first isFirst second isSecond firstHere secondHere
          cases List.mem_singleton.mp isSecond
          cases secondHere
          obtain ⟨server, found, isHere⟩ :=
            orderly.logged first isFirst firstHere
          exact (orderly.newest listener isSocket).2 _ server found
            isHere
      · exact orderly
  · exact orderly

variable {server : Server}

/-- Where no file is, one that has come further knows who is about to bind. -/
theorem Orderly.rebinding_of_absent
    (orderly : Orderly tempDir host path state)
    (isAbsent : state.files path = none)
    (isHere : pathOf tempDir host server = path)
    (started : state.phases server ≠ .starting)
    (alive : state.phases server ≠ .ended .killed) :
    ∃ other,
      pathOf tempDir host other = path ∧
        state.phases other = .rebinding := by
  rcases orderly.absent isAbsent with waits | none
  · exact waits
  · rcases (none server isHere).2 with starting | killed
    · exact absurd starting started
    · exact absurd killed alive

variable [DecidableEq Server]

/-- A server comes to another point without touching the file. -/
theorem Orderly.goto
    (orderly : Orderly tempDir host path state)
    {phase : Phase}
    (notRebinding : phase ≠ .rebinding)
    (stays :
      state.phases server = .rebinding →
      state.files path ≠ none ∧
        ∃ other ∈ state.binds, pathOf tempDir host other = path)
    (early :
      state.files path = none →
      phase = .ended .killed ∨
        ∃ other,
          pathOf tempDir host other = path ∧
            state.phases other = .rebinding)
    (reason :
      phase ≠ .removing →
      phase ≠ .ended .killed →
      (∃ other,
        pathOf tempDir host other = path ∧
          state.phases other = .rebinding) ∨
        ∃ other ∈ state.binds, pathOf tempDir host other = path) :
    Orderly tempDir host path (state.goto server phase) := by
  have others :
      ∀ {other},
        other ≠ server →
        (state.goto server phase).phases other = state.phases other := by
    intro other different
    exact Function.update_of_ne different _ _
  have itself : (state.goto server phase).phases server = phase :=
    Function.update_self _ _ _
  have waiting :
      ∀ {other},
        pathOf tempDir host other = path →
        state.phases other = .rebinding →
        (∃ other,
          pathOf tempDir host other = path ∧
            (state.goto server phase).phases other = .rebinding) ∨
          ∃ other ∈ state.binds, pathOf tempDir host other = path := by
    intro other isHere waits
    by_cases same : other = server
    · subst other
      exact Or.inr (stays waits).2
    · exact Or.inl ⟨other, isHere, (others same).trans waits⟩
  refine ⟨orderly.newest, ?_, ?_, ?_, orderly.logged, orderly.ordered⟩
  · intro isStale other isHere
    have before := orderly.untouched isStale other isHere
    refine ⟨before.1, ?_⟩
    by_cases same : other = server
    · rw [same, itself]
      exact notRebinding
    · rw [others same]
      exact before.2
  · intro isAbsent
    have notServer : state.phases server ≠ .rebinding :=
      fun waits => (stays waits).1 isAbsent
    have still :
        ∀ other,
          pathOf tempDir host other = path →
          state.phases other = .rebinding →
          ∃ other,
            pathOf tempDir host other = path ∧
              (state.goto server phase).phases other = .rebinding := by
      intro other isHere waits
      have different : other ≠ server := by
        rintro rfl
        exact notServer waits
      exact ⟨other, isHere, (others different).trans waits⟩
    rcases orderly.absent isAbsent with ⟨other, isHere, waits⟩ | none
    · exact Or.inl (still other isHere waits)
    · rcases early isAbsent with isKilled | ⟨other, isHere, waits⟩
      · refine Or.inr fun other isHere => ?_
        refine ⟨(none other isHere).1, ?_⟩
        by_cases same : other = server
        · rw [same, itself]
          exact Or.inr isKilled
        · rw [others same]
          exact (none other isHere).2
      · exact Or.inl (still other isHere waits)
  · intro other isHere started removed killed
    have known :
        (∃ other,
          pathOf tempDir host other = path ∧
            state.phases other = .rebinding) ∨
          ∃ other ∈ state.binds, pathOf tempDir host other = path := by
      by_cases same : other = server
      · subst other
        rw [itself] at removed killed
        exact reason removed killed
      · rw [others same] at started removed killed
        exact orderly.came other isHere started removed killed
    rcases known with ⟨holder, isHolder, waits⟩ | isBound
    · exact waiting isHolder waits
    · exact Or.inr isBound

/-- A server ends. -/
theorem Orderly.leave
    {outcome : Outcome}
    (orderly :
      Orderly tempDir host path (state.goto server (.ended outcome))) :
    Orderly tempDir host path (state.leave server outcome) := by
  obtain ⟨backlogs, lost, isLeft⟩ := leave_eq state server outcome
  rw [isLeft]
  exact ⟨orderly.newest, orderly.untouched, orderly.absent, orderly.came,
    orderly.logged, orderly.ordered⟩

/-- A server binds where no file is. -/
theorem Orderly.listen
    (orderly : Orderly tempDir host path state)
    (isHere : pathOf tempDir host server = path) :
    Orderly tempDir host path (state.listen server path) := by
  have isFile :
      (state.listen server path).files path =
        some (.socket state.binds.length) :=
    Function.update_self _ _ _
  have isMember : server ∈ (state.listen server path).binds :=
    List.mem_append_right _ (List.mem_singleton.mpr rfl)
  refine ⟨?_, ?_, ?_, ?_, ?_, orderly.ordered⟩
  · intro listener isSocket
    rw [isFile] at isSocket
    cases isSocket
    refine ⟨⟨server, List.getElem?_concat_length, isHere⟩, ?_⟩
    intro other holder found _
    have below := (List.getElem?_eq_some_iff.mp found).1
    simp only [State.listen, List.length_append, List.length_singleton]
      at below
    omega
  · intro isStale
    rw [isFile] at isStale
    cases isStale
  · intro isAbsent
    rw [isFile] at isAbsent
    cases isAbsent
  · intro _ _ _ _ _
    exact Or.inr ⟨server, isMember, isHere⟩
  · intro connection isReached toHere
    obtain ⟨holder, found, isHolder⟩ :=
      orderly.logged connection isReached toHere
    exact ⟨holder, Machine.getElem?_concat_of_some found, isHolder⟩

/-- A server removes the file. -/
theorem Orderly.remove
    (orderly : Orderly tempDir host path state)
    (isHere : pathOf tempDir host server = path) :
    Orderly tempDir host path
      ((state.unlink path).goto server .rebinding) := by
  have isFree :
      ((state.unlink path).goto server .rebinding).files path = none :=
    Function.update_self _ _ _
  have waits :
      ((state.unlink path).goto server .rebinding).phases server =
        .rebinding :=
    Function.update_self _ _ _
  refine ⟨?_, ?_, ?_, ?_, orderly.logged, orderly.ordered⟩
  · intro listener isSocket
    rw [isFree] at isSocket
    cases isSocket
  · intro isStale
    rw [isFree] at isStale
    cases isStale
  · intro _
    exact Or.inl ⟨server, isHere, waits⟩
  · intro _ _ _ _ _
    exact Or.inl ⟨server, isHere, waits⟩

/-- What a server does at its path keeps the invariant. -/
theorem Orderly.changes
    (orderly : Orderly tempDir host path state)
    (isHere : pathOf tempDir host server = path)
    (changes : Changes path state server next) :
    Orderly tempDir host path next := by
  cases changes with
  | occupied starting isFile =>
      refine orderly.goto (by simp) ?_ (fun isFree => absurd isFree isFile)
        (fun removing _ => absurd rfl removing)
      rw [starting]
      intro waits
      cases waits
  | bound isFree =>
      exact orderly.listen isHere
  | beaten rebinding isFile =>
      have isBound :
          ∃ other ∈ state.binds, pathOf tempDir host other = path := by
        cases found : state.files path with
        | none => exact absurd found isFile
        | some file =>
            cases file with
            | stale =>
                exact absurd rebinding
                  (orderly.untouched found server isHere).2
            | socket listener =>
                obtain ⟨other, isOther, otherHere⟩ :=
                  (orderly.newest listener found).1
                exact ⟨other, List.mem_of_getElem? isOther, otherHere⟩
      exact orderly.goto (by simp) (fun _ => ⟨isFile, isBound⟩)
        (fun isFree => absurd isFree isFile) (fun _ _ => Or.inr isBound)
  | removed isFile =>
      exact orderly.remove isHere
  | missed removing isFree =>
      have waits :=
        orderly.rebinding_of_absent isFree isHere (by simp [removing])
          (by simp [removing])
      refine orderly.goto (by simp) ?_ (fun _ => Or.inr waits)
        (fun _ _ => Or.inl waits)
      rw [removing]
      intro rebinding
      cases rebinding
  | broken listening =>
      refine (orderly.goto (by simp) ?_ ?_ ?_).leave
      · rw [listening]
        intro rebinding
        cases rebinding
      · intro isFree
        exact Or.inr
          (orderly.rebinding_of_absent isFree isHere (by simp [listening])
            (by simp [listening]))
      · intro _ _
        exact orderly.came server isHere (by simp [listening])
          (by simp [listening]) (by simp [listening])
  | killed notRebinding =>
      exact (orderly.goto (by simp)
        (fun rebinding => absurd rebinding notRebinding)
        (fun _ => Or.inl rfl) (fun _ killed => absurd rfl killed)).leave

/-- Every step keeps the invariant. -/
theorem Orderly.of_step
    (orderly : Orderly tempDir host path state)
    {action : Action Server Client}
    (calm : Calm tempDir host path state action)
    (stepped : step tempDir host state action = some next) :
    Orderly tempDir host path next := by
  rcases step_cases calm stepped with
    ⟨server, isHere, changes⟩ | elsewhere | ⟨client, name, rfl⟩
  · exact orderly.changes isHere changes
  · exact orderly.elsewhere elsewhere
  · exact orderly.connect client _

/-! ## Connections are handed over -/

/-- The clients that have reached a listener. -/
def clientsOf
    (listener : Nat)
    (reached : List (Connection Client)) : List Client :=
  (reached.filter fun connection =>
    connection.listener = listener).map Connection.client

/-- A server that has not bound. -/
def Phase.Early : Phase → Prop
  | .starting => True
  | .removing => True
  | .rebinding => True
  | _ => False

/--
Every connection is at its server or waits there, and those that wait are lost
when the server ends.
-/
structure Delivered (state : State Server Client) : Prop where
  early :
    ∀ server,
      (state.phases server).Early → server ∉ state.binds
  listens :
    ∀ server listener,
      state.phases server = .listening listener →
      state.binds[listener]? = some server
  once : state.binds.Nodup
  unused :
    ∀ listener,
      state.binds.length ≤ listener →
      state.backlogs listener = [] ∧
        state.lost listener = [] ∧
        clientsOf listener state.reached = []
  nothing :
    ∀ server, server ∉ state.binds → state.accepted server = []
  queued :
    ∀ listener server,
      state.binds[listener]? = some server →
      state.accepted server ++
          (state.lost listener ++ state.backlogs listener) =
        clientsOf listener state.reached
  kept :
    ∀ listener server,
      state.binds[listener]? = some server →
      state.phases server = .listening listener →
      state.lost listener = []
  closed :
    ∀ listener server,
      state.binds[listener]? = some server →
      state.phases server ≠ .listening listener →
      state.backlogs listener = []

end

section

variable
  {Server Client : Type}
  {tempDir : String}
  {host : Server → Option String}
  {state next : State Server Client}

/-- No server has started. -/
theorem delivered_initial (files : String → Bool) :
    Delivered (initial files : State Server Client) := by
  refine ⟨?_, ?_, List.nodup_nil, ?_, ?_, ?_, ?_, ?_⟩
  · intro server _
    simp [initial]
  · intro server listener listening
    cases listening
  · intro listener _
    exact ⟨rfl, rfl, rfl⟩
  · intro server _
    rfl
  · intro listener server found
    cases found
  · intro listener server found
    cases found
  · intro listener server found
    cases found

/-- A listener belongs to one server, which has no other. -/
theorem Delivered.listener_eq
    (delivered : Delivered state)
    {server : Server}
    {first second : Nat}
    (isFirst : state.binds[first]? = some server)
    (isSecond : state.binds[second]? = some server) :
    first = second := by
  have below := (List.getElem?_eq_some_iff.mp isFirst).1
  exact (List.getElem?_inj below delivered.once).mp
    (isFirst.trans isSecond.symm)

/-- Removing a file closes no connection. -/
theorem Delivered.unlink
    (delivered : Delivered state)
    (path : String) :
    Delivered (state.unlink path) :=
  ⟨delivered.early, delivered.listens, delivered.once, delivered.unused,
    delivered.nothing, delivered.queued, delivered.kept,
    delivered.closed⟩

/-- A client that connects waits at the listener. -/
theorem Delivered.connect
    (delivered : Delivered state)
    [DecidableEq Server]
    (client : Client)
    (path : String) :
    Delivered (state.connect client path) := by
  rw [State.connect]
  split
  · next reached isSocket =>
      split
      · next serves =>
          obtain ⟨owner, isOwner, listening⟩ :
              ∃ owner,
                state.binds[reached]? = some owner ∧
                  state.phases owner = .listening reached := by
            rw [State.serves] at serves
            split at serves
            · next owner isOwner =>
                exact ⟨owner, isOwner, of_decide_eq_true serves⟩
            · cases serves
          have isBound := (List.getElem?_eq_some_iff.mp isOwner).1
          refine ⟨delivered.early, delivered.listens, delivered.once, ?_,
            delivered.nothing, ?_, delivered.kept, ?_⟩
          · intro listener outside
            have different : listener ≠ reached := by
              simp only at outside
              omega
            have before := delivered.unused listener outside
            refine ⟨?_, before.2.1, ?_⟩
            · exact (Function.update_of_ne different _ _).trans before.1
            · simpa [clientsOf, Ne.symm different] using before.2.2
          · intro listener server found
            have before := delivered.queued listener server found
            by_cases same : listener = reached
            · subst listener
              simp only [Function.update_self, clientsOf,
                List.filter_append, List.map_append]
              rw [← List.append_assoc, ← List.append_assoc,
                List.append_assoc (state.accepted server), before]
              simp [clientsOf]
            · simp only [Function.update_of_ne same, before]
              simp [clientsOf, Ne.symm same]
          · intro listener server found notListening
            by_cases same : listener = reached
            · subst listener
              cases Option.some.inj (found.symm.trans isOwner)
              exact absurd listening notListening
            · exact (Function.update_of_ne same _ _).trans
                (delivered.closed listener server found notListening)
      · exact delivered
  · exact delivered

variable [DecidableEq Server]

/-- A server comes to another point. -/
theorem Delivered.goto
    (delivered : Delivered state)
    {server : Server}
    {phase : Phase}
    (wasNot : ∀ listener, state.phases server ≠ .listening listener)
    (notListening : ∀ listener, phase ≠ .listening listener)
    (stillEarly : phase.Early → (state.phases server).Early) :
    Delivered (state.goto server phase) := by
  have listened :
      ∀ {other listener},
        (state.goto server phase).phases other = .listening listener ↔
          state.phases other = .listening listener := by
    intro other listener
    by_cases same : other = server
    · subst other
      simp only [State.goto, Function.update_self]
      exact ⟨fun listens => absurd listens (notListening listener),
        fun listens => absurd listens (wasNot listener)⟩
    · simp only [State.goto, Function.update_of_ne same]
  refine ⟨?_, ?_, delivered.once, delivered.unused, delivered.nothing,
    delivered.queued, ?_, ?_⟩
  · intro other isEarly
    by_cases same : other = server
    · subst other
      simp only [State.goto, Function.update_self] at isEarly
      exact delivered.early server (stillEarly isEarly)
    · simp only [State.goto, Function.update_of_ne same] at isEarly
      exact delivered.early other isEarly
  · intro other listener listening
    exact delivered.listens other listener (listened.mp listening)
  · intro listener other found listening
    exact delivered.kept listener other found (listened.mp listening)
  · intro listener other found notListens
    exact delivered.closed listener other found
      (fun listens => notListens (listened.mpr listens))

/-- A server ends, and what was waiting at its listener is lost. -/
theorem Delivered.leave
    (delivered : Delivered state)
    (server : Server)
    (outcome : Outcome) :
    Delivered (state.leave server outcome) := by
  rw [State.leave]
  split
  · next held listening =>
      have isHeld := delivered.listens server held listening
      have isBound := (List.getElem?_eq_some_iff.mp isHeld).1
      have itself :
          (state.goto server (.ended outcome)).phases server =
            .ended outcome :=
        Function.update_self _ _ _
      have others :
          ∀ {other},
            other ≠ server →
            (state.goto server (.ended outcome)).phases other =
              state.phases other := by
        intro other different
        exact Function.update_of_ne different _ _
      refine ⟨?_, ?_, delivered.once, ?_, delivered.nothing, ?_, ?_, ?_⟩
      · intro other isEarly
        by_cases same : other = server
        · subst other
          simp only [itself] at isEarly
          exact isEarly.elim
        · simp only [others same] at isEarly
          exact delivered.early other isEarly
      · intro other listener listens
        by_cases same : other = server
        · subst other
          simp only [itself] at listens
          cases listens
        · simp only [others same] at listens
          exact delivered.listens other listener listens
      · intro listener outside
        have different : listener ≠ held := by
          simp only [State.goto] at outside
          omega
        have before := delivered.unused listener outside
        refine ⟨?_, ?_, before.2.2⟩
        · exact (Function.update_of_ne different _ _).trans before.1
        · exact (Function.update_of_ne different _ _).trans before.2.1
      · intro listener holder found
        have before := delivered.queued listener holder found
        by_cases same : listener = held
        · subst listener
          cases Option.some.inj (found.symm.trans isHeld)
          rw [delivered.kept held server isHeld listening] at before
          simpa [State.goto] using before
        · simp only [Function.update_of_ne same]
          exact before
      · intro listener holder found listens
        by_cases isServer : holder = server
        · subst holder
          simp only [itself] at listens
          cases listens
        · simp only [others isServer] at listens
          have different : listener ≠ held := by
            rintro rfl
            exact isServer (Option.some.inj (found.symm.trans isHeld))
          exact (Function.update_of_ne different _ _).trans
            (delivered.kept listener holder found listens)
      · intro listener holder found notListens
        by_cases same : listener = held
        · subst listener
          exact Function.update_self _ _ _
        · have isOther : holder ≠ server := by
            rintro rfl
            exact same (delivered.listener_eq found isHeld)
          simp only [others isOther] at notListens
          exact (Function.update_of_ne same _ _).trans
            (delivered.closed listener holder found notListens)
  · next notListening =>
      exact delivered.goto notListening (by simp) (by simp [Phase.Early])

/-- A server binds. -/
theorem Delivered.listen
    (delivered : Delivered state)
    {server : Server}
    (isEarly : (state.phases server).Early)
    (path : String) :
    Delivered (state.listen server path) := by
  have isNew := delivered.early server isEarly
  have isLast :
      (state.listen server path).binds[state.binds.length]? =
        some server :=
    List.getElem?_concat_length
  have others :
      ∀ {other},
        other ≠ server →
        (state.listen server path).phases other =
          state.phases other := by
    intro other different
    exact Function.update_of_ne different _ _
  have isOther :
      ∀ {listener : Nat} {holder : Server},
        state.binds[listener]? = some holder → holder ≠ server := by
    rintro listener holder found rfl
    exact isNew (List.mem_of_getElem? found)
  have unused := delivered.unused _ (Nat.le_refl _)
  refine ⟨?_, ?_, ?_, ?_, ?_, ?_, ?_, ?_⟩
  · intro other otherEarly
    by_cases same : other = server
    · subst other
      simp only [State.listen, Function.update_self] at otherEarly
      exact otherEarly.elim
    · rw [others same] at otherEarly
      intro member
      rcases List.mem_append.mp member with before | isServer
      · exact delivered.early other otherEarly before
      · exact same (List.mem_singleton.mp isServer)
  · intro other listener listening
    by_cases same : other = server
    · subst other
      simp only [State.listen, Function.update_self] at listening
      cases listening
      exact isLast
    · rw [others same] at listening
      exact Machine.getElem?_concat_of_some
        (delivered.listens other listener listening)
  · refine List.nodup_append.mpr
      ⟨delivered.once, List.pairwise_singleton _ _, ?_⟩
    rintro other isOld _ isServer rfl
    rw [List.mem_singleton.mp isServer] at isOld
    exact isNew isOld
  · intro listener outside
    refine delivered.unused listener ?_
    simp only [State.listen, List.length_append, List.length_singleton]
      at outside
    omega
  · intro other notMember
    refine delivered.nothing other fun member => ?_
    exact notMember (List.mem_append_left _ member)
  · intro listener holder found
    rcases Machine.getElem?_concat_cases found with before | ⟨rfl, rfl⟩
    · exact delivered.queued listener holder before
    · simp only [State.listen]
      rw [delivered.nothing _ isNew, unused.1, unused.2.1, unused.2.2]
      rfl
  · intro listener holder found listening
    rcases Machine.getElem?_concat_cases found with before | ⟨rfl, rfl⟩
    · rw [others (isOther before)] at listening
      exact delivered.kept listener holder before listening
    · exact unused.2.1
  · intro listener holder found notListens
    rcases Machine.getElem?_concat_cases found with before | ⟨rfl, rfl⟩
    · rw [others (isOther before)] at notListens
      exact delivered.closed listener holder before notListens
    · exact absurd (Function.update_self _ _ _) notListens

/-- A server takes a connection. -/
theorem Delivered.take
    (delivered : Delivered state)
    {server : Server}
    {taken : Nat}
    {client : Client}
    {rest : List Client}
    (listening : state.phases server = .listening taken)
    (waiting : state.backlogs taken = client :: rest) :
    Delivered
      { state with
        backlogs := Function.update state.backlogs taken rest
        accepted := Function.update state.accepted server
          (state.accepted server ++ [client]) } := by
  have isTaken := delivered.listens server taken listening
  have isBound := (List.getElem?_eq_some_iff.mp isTaken).1
  refine ⟨delivered.early, delivered.listens, delivered.once, ?_, ?_, ?_,
    delivered.kept, ?_⟩
  · intro listener outside
    have different : listener ≠ taken := by
      simp only at outside
      omega
    refine ⟨?_, (delivered.unused listener outside).2⟩
    exact (Function.update_of_ne different _ _).trans
      (delivered.unused listener outside).1
  · intro other notMember
    have different : other ≠ server := by
      rintro rfl
      exact notMember (List.mem_of_getElem? isTaken)
    exact (Function.update_of_ne different _ _).trans
      (delivered.nothing other notMember)
  · intro listener holder found
    have before := delivered.queued listener holder found
    by_cases same : listener = taken
    · subst listener
      have isServer : holder = server :=
        Option.some.inj (found.symm.trans isTaken)
      subst holder
      have nothingLost := delivered.kept taken server found listening
      rw [waiting, nothingLost] at before
      simp only [Function.update_self, nothingLost]
      rw [← before]
      simp
    · have different : holder ≠ server := by
        rintro rfl
        exact same (delivered.listener_eq found isTaken)
      simp only [Function.update_of_ne same,
        Function.update_of_ne different]
      exact before
  · intro listener holder found notListens
    by_cases same : listener = taken
    · subst listener
      cases Option.some.inj (found.symm.trans isTaken)
      exact absurd listening notListens
    · exact (Function.update_of_ne same _ _).trans
        (delivered.closed listener holder found notListens)

/-- Every step keeps count of all connections. -/
theorem Delivered.of_step
    (delivered : Delivered state)
    {action : Action Server Client}
    (stepped : step tempDir host state action = some next) :
    Delivered next := by
  cases action with
  | bind server denied =>
      simp only [step] at stepped
      split at stepped
      · next starting =>
          split at stepped
          · cases stepped
            exact delivered.listen (by simp [starting, Phase.Early]) _
          · cases stepped
            exact delivered.goto (by simp [starting]) (by simp)
              (by simp [starting, Phase.Early])
      · next rebinding =>
          split at stepped
          · cases stepped
            exact delivered.listen (by simp [rebinding, Phase.Early]) _
          · cases stepped
            exact delivered.goto (by simp [rebinding]) (by simp)
              (by simp [Phase.Early])
      · cases stepped
  | remove server denied =>
      simp only [step] at stepped
      split at stepped
      · next removing =>
          split at stepped
          · cases stepped
            exact (delivered.unlink _).goto
              (by simp [State.unlink, removing]) (by simp)
              (by simp [State.unlink, removing, Phase.Early])
          · cases stepped
            exact delivered.goto (by simp [removing]) (by simp)
              (by simp [Phase.Early])
      · cases stepped
  | incoming server item =>
      simp only [step] at stepped
      split at stepped
      · next listener listening =>
          split at stepped
          · split at stepped
            · cases stepped
            · next client rest waiting =>
                cases stepped
                exact delivered.take listening waiting
          · cases stepped
            exact delivered.leave server _
          · split at stepped
            · cases stepped
              exact (delivered.unlink _).leave server _
            · cases stepped
              exact delivered.leave server _
      · cases stepped
  | kill server =>
      cases stepped
      exact delivered.leave server _
  | connect client name =>
      cases stepped
      exact delivered.connect client _

/--
On every path clients reach listeners in the order in which these have bound.  A
server has accepted its connections in the order in which they were made, none
twice; those behind wait while it is listening, and are lost when it ends.  When
no server is about to remove the file or to bind again, and some server has come
so far without being killed, then a server has bound there; a client that
connects reaches the last that did, as long as this one is listening, and
otherwise nobody.
-/
theorem clients_reach_last_server
    {path : String}
    {files : String → Bool}
    {actions : List (Action Server Client)}
    {final : State Server Client}
    (calm :
      Machine.Along (step tempDir host) (Calm tempDir host path)
        (initial files) actions)
    (ran :
      Machine.run (step tempDir host) (initial files) actions =
        some final) :
    (final.reached.Pairwise fun first second =>
      first.path = path →
      second.path = path →
      first.listener ≤ second.listener) ∧
      (∀ listener server,
        final.binds[listener]? = some server →
        final.accepted server ++
              (final.lost listener ++ final.backlogs listener) =
            clientsOf listener final.reached ∧
          (final.phases server = .listening listener →
            final.lost listener = []) ∧
          (final.phases server ≠ .listening listener →
            final.backlogs listener = [])) ∧
      ((∀ server,
          pathOf tempDir host server = path →
          final.phases server ≠ .removing ∧
            final.phases server ≠ .rebinding) →
        (∃ server,
          pathOf tempDir host server = path ∧
            final.phases server ≠ .starting ∧
            final.phases server ≠ .ended .killed) →
        ∃ listener server,
          final.binds[listener]? = some server ∧
            pathOf tempDir host server = path ∧
            (∀ other rival,
              final.binds[other]? = some rival →
              pathOf tempDir host rival = path →
              other ≤ listener) ∧
            ∀ client name next,
              socketPath tempDir name = path →
              step tempDir host final (.connect client name) =
                some next →
              (final.phases server = .listening listener →
                next.backlogs listener =
                  final.backlogs listener ++ [client]) ∧
                (final.phases server ≠ .listening listener →
                  next = final)) := by
  have orderly : Orderly tempDir host path final :=
    Machine.invariant_run_along _
      (fun orderly isCalm stepped => orderly.of_step isCalm stepped)
      (orderly_initial files) calm ran
  have delivered : Delivered final :=
    Machine.invariant_run Delivered
      (fun delivered stepped => delivered.of_step stepped)
      (delivered_initial files) ran
  refine ⟨orderly.ordered, fun listener server found =>
    ⟨delivered.queued listener server found,
      delivered.kept listener server found,
      delivered.closed listener server found⟩, ?_⟩
  rintro rests ⟨server, isHere, started, alive⟩
  cases found : final.files path with
  | none =>
      obtain ⟨other, otherHere, waits⟩ :=
        orderly.rebinding_of_absent found isHere started alive
      exact absurd waits (rests other otherHere).2
  | some file =>
      cases file with
      | stale =>
          rcases orderly.came server isHere started
              (rests server isHere).1 alive with
            ⟨other, otherHere, waits⟩ | ⟨other, isBound, otherHere⟩
          · exact absurd waits (rests other otherHere).2
          · exact absurd isBound
              (orderly.untouched found other otherHere).1
      | socket listener =>
          obtain ⟨⟨holder, isHolder, holderHere⟩, last⟩ :=
            orderly.newest listener found
          refine ⟨listener, holder, isHolder, holderHere, last, ?_⟩
          rintro client name next rfl stepped
          cases stepped
          rw [State.connect, found]
          simp only [State.serves, isHolder]
          constructor
          · intro listening
            simp [listening]
          · intro notListening
            simp [notListening]

end

/-! ## An example -/

/-- Two servers with the same options. -/
inductive Daemon where
  | old
  | new
  deriving DecidableEq

/--
Both servers find a file from before.  The old one replaces it and gets a
client; then the new one removes the socket of the old one.
-/
def takeOver : List (Action Daemon Nat) :=
  [.bind .old false, .bind .new false, .remove .old false,
    .bind .old false, .connect 1 none, .remove .new false,
    .bind .new false, .connect 2 none, .incoming .new .stream]

/-- Where the servers are then, and the clients. -/
theorem run_takeOver :
    (Machine.run (step "/tmp" fun _ : Daemon => none)
        (initial fun _ => true) takeOver).map
        (fun final =>
          (final.phases .old, final.phases .new, final.backlogs 1,
            final.binds)) =
      some (.listening 0, .listening 1, [], [.old, .new]) := by
  simp [Machine.run, takeOver, step, pathOf, initial, State.listen,
    State.goto, State.unlink, State.connect, State.serves]

/-- Both are listening, and a third client reaches the new one. -/
theorem clients_reach_last_server_takeOver :
    ∃ final next,
      Machine.run (step "/tmp" fun _ : Daemon => none)
          (initial fun _ => true) takeOver =
          some final ∧
        step "/tmp" (fun _ => none) final (.connect 3 none) =
          some next ∧
        next.backlogs 1 = [3] := by
  obtain ⟨final, ran, isFinal⟩ :=
    Option.map_eq_some_iff.mp run_takeOver
  simp only [Prod.mk.injEq] at isFinal
  obtain ⟨isOld, isNew, noneWait, binds⟩ := isFinal
  have calm :
      Machine.Along (step "/tmp" fun _ : Daemon => none)
        (Calm "/tmp" (fun _ => none) (socketPath "/tmp" none))
        (initial fun _ => true) takeOver := by
    have along :
        Machine.Along (step "/tmp" fun _ : Daemon => none)
          (fun _ action => action ∈ takeOver) (initial fun _ => true)
          takeOver :=
      Machine.along_of_mem fun _ member => member
    refine Machine.along_imp (fun _ => True) (fun _ _ _ => trivial) ?_
      trivial along
    intro state action _ member
    simp only [takeOver, List.mem_cons, List.not_mem_nil, or_false]
      at member
    rcases member with
      rfl | rfl | rfl | rfl | rfl | rfl | rfl | rfl | rfl <;>
      simp [Calm]
  obtain ⟨_, _, serves⟩ := clients_reach_last_server calm ran
  obtain ⟨listener, server, found, _, last, reaches⟩ :=
    serves
      (by
        intro server _
        cases server <;> simp [isOld, isNew])
      ⟨.new, rfl, by simp [isNew], by simp [isNew]⟩
  have isLast := last 1 .new (by rw [binds]; rfl) rfl
  have isBound := (List.getElem?_eq_some_iff.mp found).1
  rw [binds] at found isBound
  have isSecond : listener = 1 := by
    simp only [List.length_cons, List.length_nil] at isBound
    omega
  subst listener
  cases found
  refine ⟨final, _, ran, rfl, ?_⟩
  have reached := (reaches 3 none _ rfl rfl).1 isNew
  rw [noneWait] at reached
  exact reached

end Hyperspace.ServerSocket
