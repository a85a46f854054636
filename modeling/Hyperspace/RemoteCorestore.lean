import Hyperspace.Machine
import Hyperspace.NamedMap
import Hyperspace.RemoteHypercore
import Mathlib.Data.Set.Basic

namespace Hyperspace

/-!
# The client's session table

`RemoteCorestore` of `client/src/session.rs` keeps one `NamedMap` of sessions.
The names in it are of two kinds, names given to `open_by_name` and the
hexadecimal text of keys, and both live in one table of strings.  This module
models the two open methods and determines for which keys and names every
opened core is the one that was asked for.
-/

/--
The client's memory: the sessions, and the records that the handles in it
share.  A handle is the number of its record.
-/
structure RemoteCorestore where
  sessions : NamedMap String Nat
  cores : Nat → InnerHypercore
  allocated : Nat

namespace RemoteCorestore

/-- The function `new`. -/
def new : RemoteCorestore where
  sessions := .new
  cores := fun _ => .new none none
  allocated := 0

/-- Replace the record behind one handle. -/
def updateCore
    (store : RemoteCorestore)
    (core : Nat)
    (inner : InnerHypercore) : RemoteCorestore :=
  { store with cores := Function.update store.cores core inner }

/-- What the server replies to an open request. -/
abbrev Answer := OpenRequest → Except IoError OpenResponse

/-- The method `RemoteHypercore::open`. -/
def openCore
    (store : RemoteCorestore)
    (answer : Answer)
    (core : Nat) :
    RemoteCorestore × Except IoError Unit :=
  if (store.cores core).opened then
    (store, .ok ())
  else
    match answer (store.cores core).openRequest with
    | .error message => (store, .error message)
    | .ok response =>
        (store.updateCore core
          ((store.cores core).onOpenResponse response), .ok ())

/--
The part common to both open methods: allocate a record, publish it in the
sessions under a name, and set its id.
-/
def publish
    (store : RemoteCorestore)
    (inner : InnerHypercore)
    (name : String) : RemoteCorestore × Nat :=
  let core := store.allocated
  let (sessions, id) := store.sessions.insertWithName core name
  ({ sessions := sessions
     cores := Function.update store.cores core (inner.setId id)
     allocated := core + 1 }, id)

section

variable [Hex]

/-- The method `open_by_key`. -/
def openByKey
    (store : RemoteCorestore)
    (answer : Answer)
    (key : Bytes) :
    RemoteCorestore × Except IoError Nat :=
  let hkey := Hex.encode key
  match store.sessions.getByName hkey with
  | some core =>
      let (opened, result) := store.openCore answer core
      (opened, result.map fun _ => core)
  | none =>
      let core := store.allocated
      let (published, _) :=
        store.publish (.new (some key) none) hkey
      let (opened, result) := published.openCore answer core
      (opened, result.map fun _ => core)

/-- The method `open_by_name`. -/
def openByName
    (store : RemoteCorestore)
    (answer : Answer)
    (name : String) :
    RemoteCorestore × Except IoError Nat :=
  match store.sessions.getByName name with
  | some core =>
      let (opened, result) := store.openCore answer core
      (opened, result.map fun _ => core)
  | none =>
      let core := store.allocated
      let (published, id) :=
        store.publish (.new none (some name)) name
      match published.openCore answer core with
      | (opened, .error message) => (opened, .error message)
      | (opened, .ok ()) =>
          match (opened.cores core).key with
          | some key =>
              ({ opened with
                 sessions :=
                   opened.sessions.setName id (Hex.encode key) },
                .ok core)
          | none => (opened, .ok core)

/-- The argument of one open call. -/
inductive Asked where
  | byKey (key : Bytes)
  | byName (name : String)
  deriving Repr, DecidableEq

/-- The session name under which a call looks first. -/
def Asked.sessionName : Asked → String
  | .byKey key => Hex.encode key
  | .byName name => name

/-- One open call, with the server's replies while it runs. -/
structure Call where
  asked : Asked
  answer : Answer

/-- Run one open call. -/
def call
    (store : RemoteCorestore)
    (request : Call) :
    RemoteCorestore × Except IoError Nat :=
  match request.asked with
  | .byKey key => store.openByKey request.answer key
  | .byName name => store.openByName request.answer name

/-- Open calls as the steps of a machine. -/
def step
    (store : RemoteCorestore)
    (request : Call) : Option RemoteCorestore :=
  some (store.call request).1

/-! ## A server that answers every open with the feed asked for -/

/--
The feed a request asks for.  As in the server's `open`, a name takes
precedence over a key.
-/
def requestedKey
    (serverKey : String → Bytes)
    (request : OpenRequest) : Option Bytes :=
  match request.name with
  | some name => some (serverKey name)
  | none => request.key

/-- Every request that asks for a feed is answered with that feed's key. -/
def Honest
    (serverKey : String → Bytes)
    (answer : Answer) : Prop :=
  ∀ request key,
    requestedKey serverKey request = some key →
    ∃ response, answer request = .ok response ∧ response.key = key

/-- The key that a call asks for. -/
def Asked.feedKey (serverKey : String → Bytes) : Asked → Bytes
  | .byKey key => key
  | .byName name => serverKey name

/-- A call whose argument is taken from the given keys and names. -/
def Asked.From (keys : Set Bytes) (names : Set String) : Asked → Prop
  | .byKey key => key ∈ keys
  | .byName name => name ∈ names

/-- If the call returns a core, that core has the key asked for. -/
def ReturnsAsked
    (serverKey : String → Bytes)
    (store : RemoteCorestore)
    (request : Call) : Prop :=
  ∀ core,
    (store.call request).2 = .ok core →
    ((store.call request).1.cores core).key =
      some (request.asked.feedKey serverKey)

/-- Keys that occur: opened by key, or the server's key for an opened name. -/
def Used
    (serverKey : String → Bytes)
    (keys : Set Bytes)
    (names : Set String)
    (key : Bytes) : Prop :=
  key ∈ keys ∨ ∃ name ∈ names, serverKey name = key

/--
No name is the hexadecimal text of a key that occurs, unless that key is the
one the server gives to the name itself.
-/
def NamesAvoidKeys
    (serverKey : String → Bytes)
    (keys : Set Bytes)
    (names : Set String) : Prop :=
  ∀ name ∈ names, ∀ key,
    Used serverKey keys names key →
    name = Hex.encode key →
    serverKey name = key

/-- What a session name may stand for. -/
def Denotes
    (serverKey : String → Bytes)
    (keys : Set Bytes)
    (names : Set String)
    (name : String)
    (key : Bytes) : Prop :=
  (name = Hex.encode key ∧ Used serverKey keys names key) ∨
    (name ∈ names ∧ serverKey name = key)

/-- Every session name leads to an opened core that the name may stand for. -/
structure Attributed
    (serverKey : String → Bytes)
    (keys : Set Bytes)
    (names : Set String)
    (store : RemoteCorestore) : Prop where
  wellFormed :
    store.sessions.WellFormed
  sessionOpened :
    ∀ {name core},
      store.sessions.getByName name = some core →
      core < store.allocated ∧
        (store.cores core).opened = true ∧
          ∃ key,
            (store.cores core).key = some key ∧
              Denotes serverKey keys names name key

end

section

variable
  {serverKey : String → Bytes}
  {keys : Set Bytes}
  {names : Set String}
  {store : RemoteCorestore}
  {answer : Answer}

/-- Opening an open core does nothing. -/
theorem openCore_of_opened
    {core : Nat}
    (opened : (store.cores core).opened = true) :
    store.openCore answer core = (store, .ok ()) := by
  simp [openCore, opened]

/-- Publishing and opening a record for a feed the server knows. -/
theorem openCore_publish
    (store : RemoteCorestore)
    (name : String)
    (honest : Honest serverKey answer)
    (inner : InnerHypercore)
    {key : Bytes}
    (unopened : inner.opened = false)
    (requested :
      requestedKey serverKey inner.openRequest = some key) :
    ∃ record : InnerHypercore,
      record.opened = true ∧ record.key = some key ∧
        (store.publish inner name).1.openCore answer store.allocated =
          ({ sessions :=
               (store.sessions.insertWithName store.allocated name).1
             cores :=
               Function.update store.cores store.allocated record
             allocated := store.allocated + 1 }, .ok ()) := by
  obtain ⟨response, answered, sameKey⟩ :=
    honest
      (inner.setId
        (store.sessions.insertWithName store.allocated name).2).openRequest
      key requested
  refine
    ⟨(inner.setId
        (store.sessions.insertWithName store.allocated name).2).onOpenResponse
          response, rfl, ?_, ?_⟩
  · simp [InnerHypercore.onOpenResponse, sameKey]
  · simp [openCore, RemoteCorestore.publish, updateCore, answered,
      unopened]

variable [Hex]

/-- A new client has no sessions. -/
theorem attributed_new :
    Attributed serverKey keys names new where
  wellFormed := NamedMap.wellFormed_new
  sessionOpened := by
    intro name core found
    simp [new, NamedMap.new, NamedMap.getByName] at found

/-- Adding an opened record under a name it may have keeps the invariant. -/
theorem Attributed.publish
    (attributed : Attributed serverKey keys names store)
    {name : String}
    {key : Bytes}
    {record : InnerHypercore}
    (opened : record.opened = true)
    (hasKey : record.key = some key)
    (denotes : Denotes serverKey keys names name key) :
    Attributed serverKey keys names
      { sessions :=
          (store.sessions.insertWithName store.allocated name).1
        cores := Function.update store.cores store.allocated record
        allocated := store.allocated + 1 } where
  wellFormed :=
    attributed.wellFormed.insertWithName store.allocated name
  sessionOpened := by
    intro other core found
    simp only [
      attributed.wellFormed.getByName_insertWithName] at found
    split at found
    · next sameName =>
        simp only [Option.some.injEq] at found
        subst other
        subst core
        simp only [Function.update_self]
        exact ⟨Nat.lt_succ_self _, opened, key, hasKey, denotes⟩
    · have before := attributed.sessionOpened found
      have different : core ≠ store.allocated :=
        Nat.ne_of_lt before.1
      simp only [Function.update_of_ne different]
      exact ⟨Nat.lt_succ_of_lt before.1, before.2⟩

/-- Adding the key's text as a further name keeps the invariant. -/
theorem Attributed.addName
    (attributed : Attributed serverKey keys names store)
    (core : Nat)
    {id : Nat}
    {key : Bytes}
    (session : store.sessions.get id = some core)
    (allocated : core < store.allocated)
    (opened : (store.cores core).opened = true)
    (hasKey : (store.cores core).key = some key)
    (used : Used serverKey keys names key) :
    Attributed serverKey keys names
      { store with
        sessions := store.sessions.setName id (Hex.encode key) } where
  wellFormed :=
    attributed.wellFormed.setName (by simp [session]) _
  sessionOpened := by
    intro other otherCore found
    simp only [NamedMap.getByName_setName, session] at found
    split at found
    · next sameName =>
        simp only [Option.some.injEq] at found
        subst otherCore
        exact ⟨allocated, opened, key, hasKey,
          Or.inl ⟨sameName, used⟩⟩
    · exact attributed.sessionOpened found

/-- A key session stands for the key asked for. -/
theorem Denotes.eq_of_encode
    (avoid : NamesAvoidKeys serverKey keys names)
    {key other : Bytes}
    (asked : key ∈ keys)
    (denotes :
      Denotes serverKey keys names (Hex.encode key) other) :
    other = key := by
  rcases denotes with ⟨sameText, _⟩ | ⟨isName, given⟩
  · exact (Hex.encode_injective sameText).symm
  · rw [← given]
    exact avoid _ isName key (Or.inl asked) rfl

/-- A name session stands for the key the server gives to the name. -/
theorem Denotes.eq_serverKey
    (avoid : NamesAvoidKeys serverKey keys names)
    {name : String}
    {other : Bytes}
    (asked : name ∈ names)
    (denotes : Denotes serverKey keys names name other) :
    other = serverKey name := by
  rcases denotes with ⟨sameText, used⟩ | ⟨_, given⟩
  · exact (avoid name asked other used sameText).symm
  · exact given.symm

/-- `open_by_key` when no session has the key's text as a name. -/
theorem openByKey_fresh
    (store : RemoteCorestore)
    (key : Bytes)
    (honest : Honest serverKey answer)
    (absent : store.sessions.getByName (Hex.encode key) = none) :
    ∃ record : InnerHypercore,
      record.opened = true ∧ record.key = some key ∧
        store.openByKey answer key =
          ({ sessions :=
               (store.sessions.insertWithName store.allocated
                 (Hex.encode key)).1
             cores :=
               Function.update store.cores store.allocated record
             allocated := store.allocated + 1 },
            .ok store.allocated) := by
  obtain ⟨record, opened, hasKey, openedStore⟩ :=
    openCore_publish store (Hex.encode key) honest
      (.new (some key) none) rfl rfl
  refine ⟨record, opened, hasKey, ?_⟩
  simp [openByKey, absent, openedStore, Except.map]

/-- `open_by_name` when no session has the name. -/
theorem openByName_fresh
    (store : RemoteCorestore)
    (name : String)
    (honest : Honest serverKey answer)
    (absent : store.sessions.getByName name = none) :
    ∃ record : InnerHypercore,
      record.opened = true ∧ record.key = some (serverKey name) ∧
        store.openByName answer name =
          ({ sessions :=
               (store.sessions.insertWithName store.allocated
                 name).1.setName
                  (store.sessions.insertWithName store.allocated name).2
                  (Hex.encode (serverKey name))
             cores :=
               Function.update store.cores store.allocated record
             allocated := store.allocated + 1 },
            .ok store.allocated) := by
  obtain ⟨record, opened, hasKey, openedStore⟩ :=
    openCore_publish store name honest (.new none (some name)) rfl rfl
  refine ⟨record, opened, hasKey, ?_⟩
  simp only [openByName, absent, openedStore, Function.update_self,
    hasKey]
  rfl

/-- An existing session answers a call without changing the client. -/
theorem call_of_session
    (attributed : Attributed serverKey keys names store)
    {asked : Asked}
    {core : Nat}
    (found :
      store.sessions.getByName asked.sessionName = some core) :
    store.call ⟨asked, answer⟩ = (store, .ok core) := by
  obtain ⟨_, opened, _⟩ := attributed.sessionOpened found
  cases asked with
  | byKey key =>
      simp only [Asked.sessionName] at found
      simp [call, openByKey, found, openCore_of_opened opened,
        Except.map]
  | byName name =>
      simp only [Asked.sessionName] at found
      simp [call, openByName, found, openCore_of_opened opened,
        Except.map]

/-- The session that answers a call stands for the feed asked for. -/
theorem returnsAsked_of_session
    (attributed : Attributed serverKey keys names store)
    (avoid : NamesAvoidKeys serverKey keys names)
    {asked : Asked}
    {core : Nat}
    (fromSets : asked.From keys names)
    (found :
      store.sessions.getByName asked.sessionName = some core) :
    (store.cores core).key = some (asked.feedKey serverKey) := by
  obtain ⟨_, _, key, hasKey, denotes⟩ :=
    attributed.sessionOpened found
  rw [hasKey]
  cases asked with
  | byKey requested =>
      exact congrArg some (denotes.eq_of_encode avoid fromSets)
  | byName name =>
      exact congrArg some (denotes.eq_serverKey avoid fromSets)

/--
One call: the invariant is kept, and where no name collides with a key the
core returned is the one asked for.
-/
theorem Attributed.call
    (attributed : Attributed serverKey keys names store)
    (avoid : NamesAvoidKeys serverKey keys names)
    {request : Call}
    (fromSets : request.asked.From keys names)
    (honest : Honest serverKey request.answer) :
    Attributed serverKey keys names (store.call request).1 ∧
      ReturnsAsked serverKey store request := by
  obtain ⟨asked, answer⟩ := request
  cases found :
      store.sessions.getByName asked.sessionName with
  | some core =>
      have kept : store.call ⟨asked, answer⟩ = (store, .ok core) :=
        call_of_session attributed found
      refine ⟨by rw [kept]; exact attributed, ?_⟩
      intro returned result
      rw [kept] at result ⊢
      cases result
      exact returnsAsked_of_session attributed avoid fromSets found
  | none =>
      cases asked with
      | byKey key =>
          simp only [Asked.sessionName] at found
          obtain ⟨record, opened, hasKey, after⟩ :=
            openByKey_fresh store key honest found
          refine ⟨?_, ?_⟩
          · simp only [RemoteCorestore.call, after]
            exact attributed.publish opened hasKey
              (Or.inl ⟨rfl, Or.inl fromSets⟩)
          · intro returned result
            simp only [RemoteCorestore.call, after] at result ⊢
            cases result
            simpa [Asked.feedKey] using hasKey
      | byName name =>
          simp only [Asked.sessionName] at found
          obtain ⟨record, opened, hasKey, after⟩ :=
            openByName_fresh store name honest found
          refine ⟨?_, ?_⟩
          · simp only [RemoteCorestore.call, after]
            have published :=
              attributed.publish opened hasKey
                (Or.inr ⟨fromSets, rfl⟩)
            refine published.addName store.allocated
              ?_ (Nat.lt_succ_self _) ?_ ?_
              (Or.inr ⟨name, fromSets, rfl⟩)
            · simp [attributed.wellFormed.get_insertWithName]
            · simpa using opened
            · simpa using hasKey
          · intro returned result
            simp only [RemoteCorestore.call, after] at result ⊢
            cases result
            simpa [Asked.feedKey] using hasKey

end

/-- The answer of a server that knows nothing but the keys. -/
def answerKey (serverKey : String → Bytes) : Answer :=
  fun request =>
    match requestedKey serverKey request with
    | some key =>
        .ok { key := key, length := 0, byteLength := 0, writable := false }
    | none => .error "Invalid parameters"

theorem honest_answerKey (serverKey : String → Bytes) :
    Honest serverKey (answerKey serverKey) := by
  intro request key requested
  simp [answerKey, requested]

section

variable [Hex]

/--
A session already published under a name's text answers `open_by_name`, even
when it belongs to another feed.
-/
theorem not_returnsAsked_of_other_session
    {serverKey : String → Bytes}
    {store : RemoteCorestore}
    {name : String}
    (core : Nat)
    (key : Bytes)
    (found : store.sessions.getByName name = some core)
    (opened : (store.cores core).opened = true)
    (hasKey : (store.cores core).key = some key)
    (other : serverKey name ≠ key) :
    ¬ ReturnsAsked serverKey store
      ⟨.byName name, answerKey serverKey⟩ := by
  intro returns
  have kept :
      store.call ⟨.byName name, answerKey serverKey⟩ =
        (store, .ok core) := by
    simp [call, openByName, found, openCore_of_opened opened,
      Except.map]
  have wrong := returns core (by rw [kept])
  rw [kept, hasKey] at wrong
  exact other (Option.some.inj wrong).symm

/-- After opening a key, the name with the same text returns that key's core. -/
theorem openByKey_captures_name
    (serverKey : String → Bytes)
    (key : Bytes)
    (other : serverKey (Hex.encode key) ≠ key) :
    ¬ ReturnsAsked serverKey
      (new.call ⟨.byKey key, answerKey serverKey⟩).1
      ⟨.byName (Hex.encode key), answerKey serverKey⟩ := by
  obtain ⟨record, opened, hasKey, after⟩ :=
    openByKey_fresh new key (honest_answerKey serverKey) rfl
  have wellFormed : new.sessions.WellFormed :=
    NamedMap.wellFormed_new
  refine
    not_returnsAsked_of_other_session new.allocated key ?_ ?_ ?_ other
  · simp [call, after, wellFormed.getByName_insertWithName]
  · simpa [call, after] using opened
  · simpa [call, after] using hasKey

/-- After opening a name, the text of its key returns that name's core. -/
theorem openByName_captures_name
    {serverKey : String → Bytes}
    {name : String}
    (other :
      serverKey (Hex.encode (serverKey name)) ≠ serverKey name) :
    ¬ ReturnsAsked serverKey
      (new.call ⟨.byName name, answerKey serverKey⟩).1
      ⟨.byName (Hex.encode (serverKey name)),
        answerKey serverKey⟩ := by
  obtain ⟨record, opened, hasKey, after⟩ :=
    openByName_fresh new name (honest_answerKey serverKey) rfl
  have wellFormed : new.sessions.WellFormed :=
    NamedMap.wellFormed_new
  refine
    not_returnsAsked_of_other_session new.allocated (serverKey name)
      ?_ ?_ ?_ other
  · simp [call, after, NamedMap.getByName_setName,
      wellFormed.get_insertWithName]
  · simpa [call, after] using opened
  · simpa [call, after] using hasKey

/--
Every core returned is the core asked for, over all sequences of calls with
arguments from the given keys and names, exactly when no name is the text of
another feed's key among them.
-/
theorem open_returns_asked_iff
    (serverKey : String → Bytes)
    (keys : Set Bytes)
    (names : Set String) :
    (∀ calls store request,
      (∀ earlier ∈ calls,
        earlier.asked.From keys names ∧
          Honest serverKey earlier.answer) →
      Machine.run step new calls = some store →
      request.asked.From keys names →
      Honest serverKey request.answer →
      ReturnsAsked serverKey store request) ↔
    NamesAvoidKeys serverKey keys names := by
  constructor
  · intro always name isName key used sameText
    by_contra other
    subst sameText
    rcases used with isKey | ⟨giver, isGiver, given⟩
    · exact openByKey_captures_name serverKey key other
        (always [⟨.byKey key, answerKey serverKey⟩] _
          ⟨.byName (Hex.encode key), answerKey serverKey⟩
          (by
            simpa [Asked.From, isKey] using
              honest_answerKey serverKey)
          rfl isName (honest_answerKey serverKey))
    · subst given
      exact openByName_captures_name other
        (always [⟨.byName giver, answerKey serverKey⟩] _
          ⟨.byName (Hex.encode (serverKey giver)),
            answerKey serverKey⟩
          (by
            simpa [Asked.From, isGiver] using
              honest_answerKey serverKey)
          rfl isName (honest_answerKey serverKey))
  · intro avoid calls store request earlier ran fromSets honest
    suffices attributed : Attributed serverKey keys names store from
      (attributed.call avoid fromSets honest).2
    have along :
        Machine.Along step
          (fun _ call =>
            call.asked.From keys names ∧ Honest serverKey call.answer)
          new calls :=
      Machine.along_of_mem earlier
    refine
      Machine.invariant_run_along (Attributed serverKey keys names)
        ?_ attributed_new along ran
    intro before call after holds conditions stepped
    simp only [step, Option.some.injEq] at stepped
    rw [← stepped]
    exact (holds.call avoid conditions.1 conditions.2).1

end

attribute [local instance] Hex.lowerCase in
/--
A name that is the text of an opened key returns the core of that key, while
the server gives the name a key of its own.
-/
theorem open_by_name_returns_core_of_key :
    ¬ (∀ (serverKey : String → Bytes) calls store request,
      (∀ earlier ∈ calls, Honest serverKey earlier.answer) →
      Machine.run step new calls = some store →
      Honest serverKey request.answer →
      ReturnsAsked serverKey store request) := by
  intro always
  let opened : Bytes := (Key.constant 0).bytes
  let given : String → Bytes := fun _ => (Key.constant 1).bytes
  exact openByKey_captures_name given opened (by decide)
    (always given [⟨.byKey opened, answerKey given⟩] _
      ⟨.byName (Hex.encode opened), answerKey given⟩
      (by simpa using honest_answerKey given)
      rfl (honest_answerKey given))

end RemoteCorestore

end Hyperspace
