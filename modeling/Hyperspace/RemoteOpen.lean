import Hyperspace.RemoteCorestore
import Mathlib.Data.List.Basic

namespace Hyperspace

/-!
# Concurrent open calls

`RemoteCorestore` may be cloned, and its clones share one session map.  An open
call of `client/src/session.rs` takes each lock separately: it looks a name up,
inserts a record, sets the record's id, reads the open flag, builds the request,
awaits the response and stores it.  Other calls run between any two of these
steps, and they find a record as soon as it is inserted.

This module interleaves any number of such calls with a server that binds the
id of a request to the feed asked for.  Ids agree on both sides in every run in
which no request is built for a record whose id is not set yet.
-/

namespace RemoteOpen

open RemoteCorestore (Asked requestedKey)

/--
Where an open call stands, named by what it does next.  A call that inserted a
record remembers the id it got; `open_by_name` names that id afterwards.
-/
inductive Progress where
  | lookUp
  | insert
  | setId (core id : Nat)
  | checkOpen (core : Nat) (inserted : Option Nat)
  | buildRequest (core : Nat) (inserted : Option Nat)
  | awaitResponse
      (core : Nat) (inserted : Option Nat) (request : OpenRequest)
  | storeResponse
      (core : Nat) (inserted : Option Nat) (response : OpenResponse)
  | readKey (core id : Nat)
  | setName (core id : Nat) (key : Bytes)
  | returned (core : Nat)
  | failed (message : IoError)
  deriving Repr, DecidableEq

/-- The record that a call allocates when it finds no session. -/
def newCore : Asked → InnerHypercore
  | .byKey key => .new (some key) none
  | .byName name => .new none (some name)

/-- What a call does after `RemoteHypercore::open` has returned. -/
def afterOpen (asked : Asked) (core : Nat) : Option Nat → Progress
  | none => .returned core
  | some id =>
      match asked with
      | .byKey _ => .returned core
      | .byName _ => .readKey core id

/-- The next step of a call on the client. -/
def advance
    [Hex]
    (store : RemoteCorestore)
    (asked : Asked) :
    Progress → Option (RemoteCorestore × Progress)
  | .lookUp =>
      match store.sessions.getByName asked.sessionName with
      | some core => some (store, .checkOpen core none)
      | none => some (store, .insert)
  | .insert =>
      let core := store.allocated
      let (sessions, id) :=
        store.sessions.insertWithName core asked.sessionName
      some
        ({ sessions := sessions
           cores := Function.update store.cores core (newCore asked)
           allocated := core + 1 }, .setId core id)
  | .setId core id =>
      some
        (store.updateCore core ((store.cores core).setId id),
          .checkOpen core (some id))
  | .checkOpen core inserted =>
      if (store.cores core).opened then
        some (store, afterOpen asked core inserted)
      else
        some (store, .buildRequest core inserted)
  | .buildRequest core inserted =>
      some
        (store,
          .awaitResponse core inserted (store.cores core).openRequest)
  | .awaitResponse _ _ _ => none
  | .storeResponse core inserted response =>
      some
        (store.updateCore core
          ((store.cores core).onOpenResponse response),
          afterOpen asked core inserted)
  | .readKey core id =>
      match (store.cores core).key with
      | some key => some (store, .setName core id key)
      | none => some (store, .returned core)
  | .setName core id key =>
      some
        ({ store with
           sessions := store.sessions.setName id (Hex.encode key) },
          .returned core)
  | .returned _ => none
  | .failed _ => none

/-- One open call. -/
structure Call where
  asked : Asked
  progress : Progress
  deriving Repr, DecidableEq

/--
The client's memory, its calls, and the keys of the feeds in the map `cores` of
the server's session.
-/
structure State where
  store : RemoteCorestore
  calls : List Call
  bound : Nat → Option Bytes

/-- A new client and a new server session. -/
def initial : State where
  store := .new
  calls := []
  bound := fun _ => none

/-- Record how far a call has come. -/
def State.setProgress
    (state : State)
    (index : Nat)
    (asked : Asked)
    (progress : Progress) : State :=
  { state with calls := state.calls.set index ⟨asked, progress⟩ }

/-- What can happen next. -/
inductive Action where
  | call (asked : Asked)
  | advance (call : Nat)
  /-- The server opens the feed of a request and answers. -/
  | serve (call length byteLength : Nat) (writable : Bool)
  /-- The server answers a request with an error of its corestore. -/
  | refuse (call : Nat) (message : IoError)
  deriving Repr, DecidableEq

/-- The server's answer to the request of a call. -/
def serve
    (serverKey : String → Bytes)
    (state : State)
    (index : Nat)
    (asked : Asked)
    (extent : Nat × Nat)
    (writable : Bool) :
    Progress → Option State
  | .awaitResponse core inserted request =>
      match requestedKey serverKey request with
      | none =>
          some (state.setProgress index asked
            (.failed "Invalid parameters"))
      | some key =>
          some { state.setProgress index asked
              (.storeResponse core inserted
                ⟨key, extent.1, extent.2, writable⟩) with
            bound := Function.update state.bound request.id (some key) }
  | _ => none

/-- One step of a call or of the server. -/
def step
    [Hex]
    (serverKey : String → Bytes)
    (state : State) : Action → Option State
  | .call asked =>
      some { state with calls := state.calls ++ [⟨asked, .lookUp⟩] }
  | .advance index =>
      match state.calls[index]? with
      | none => none
      | some call =>
          match advance state.store call.asked call.progress with
          | none => none
          | some (store, progress) =>
              some { state.setProgress index call.asked progress with
                store := store }
  | .serve index length byteLength writable =>
      match state.calls[index]? with
      | none => none
      | some call =>
          serve serverKey state index call.asked (length, byteLength)
            writable call.progress
  | .refuse index message =>
      match state.calls[index]? with
      | some ⟨asked, .awaitResponse _ _ _⟩ =>
          some (state.setProgress index asked (.failed message))
      | _ => none

/--
Both sides agree on the id of every open session: it is the record's id, and
the server binds it to the feed of the record's key.
-/
def Agreed (state : State) : Prop :=
  ∀ id core,
    state.store.sessions.get id = some core →
    (state.store.cores core).opened = true →
    (state.store.cores core).id = id ∧
      ∃ key,
        (state.store.cores core).key = some key ∧
          state.bound (id % 2 ^ 32) = some key

/-- A call about to build its request does so for a record with an id. -/
def HasId (store : RemoteCorestore) : Progress → Prop
  | .buildRequest core _ => (store.cores core).id ≠ 0
  | _ => True

instance (store : RemoteCorestore) :
    (progress : Progress) → Decidable (HasId store progress)
  | .buildRequest core _ =>
      inferInstanceAs (Decidable ((store.cores core).id ≠ 0))
  | .lookUp | .insert | .setId _ _ | .checkOpen _ _
  | .awaitResponse _ _ _ | .storeResponse _ _ _ | .readKey _ _
  | .setName _ _ _ | .returned _ | .failed _ =>
      inferInstanceAs (Decidable True)

/-- A request is built only for a record whose id has been set. -/
def BuildsWithId (state : State) : Action → Prop
  | .advance index =>
      ∀ call ∈ state.calls[index]?, HasId state.store call.progress
  | _ => True

instance (state : State) :
    (action : Action) → Decidable (BuildsWithId state action)
  | .advance index =>
      inferInstanceAs (Decidable (∀ call ∈ state.calls[index]?, _))
  | .call _ | .serve _ _ _ _ | .refuse _ _ =>
      inferInstanceAs (Decidable True)

/--
A session whose record has its id, asks for the feed of a key, and is bound to
that feed on the server.
-/
structure Serves
    (serverKey : String → Bytes)
    (store : RemoteCorestore)
    (bound : Nat → Option Bytes)
    (id core : Nat)
    (key : Bytes) : Prop where
  session :
    store.sessions.get id = some core
  sameId :
    (store.cores core).id = id
  asks :
    requestedKey serverKey (store.cores core).openRequest = some key
  isBound :
    bound (id % 2 ^ 32) = some key

/-- A request that asks for the feed of a record, under the record's id. -/
structure Requests
    (serverKey : String → Bytes)
    (store : RemoteCorestore)
    (core : Nat)
    (request : OpenRequest) : Prop where
  session :
    store.sessions.get (store.cores core).id = some core
  sameId :
    request.id = (store.cores core).id % 2 ^ 32
  sameFeed :
    requestedKey serverKey request =
      requestedKey serverKey (store.cores core).openRequest

/-- The id that a call remembers is the session of its record. -/
def Remembers
    (store : RemoteCorestore)
    (core : Nat)
    (inserted : Option Nat) : Prop :=
  (∃ id, store.sessions.get id = some core) ∧
    ∀ id ∈ inserted, store.sessions.get id = some core

/-- What a call in progress can rely on. -/
def Known
    (serverKey : String → Bytes)
    (store : RemoteCorestore)
    (bound : Nat → Option Bytes) : Progress → Prop
  | .lookUp => True
  | .insert => True
  | .setId core id => store.sessions.get id = some core
  | .checkOpen core inserted => Remembers store core inserted
  | .buildRequest core inserted => Remembers store core inserted
  | .awaitResponse core inserted request =>
      Remembers store core inserted ∧
        Requests serverKey store core request
  | .storeResponse core inserted response =>
      Remembers store core inserted ∧
        ∃ id, Serves serverKey store bound id core response.key
  | .readKey core id => store.sessions.get id = some core
  | .setName core id _ => store.sessions.get id = some core
  | .returned _ => True
  | .failed _ => True

/-- The invariant of the session map and the server's map. -/
structure Consistent
    (serverKey : String → Bytes)
    (store : RemoteCorestore)
    (bound : Nat → Option Bytes) : Prop where
  wellFormed :
    store.sessions.WellFormed
  isAllocated :
    ∀ {id core},
      store.sessions.get id = some core → core < store.allocated
  oneSession :
    ∀ {id other core},
      store.sessions.get id = some core →
      store.sessions.get other = some core →
      id = other
  unsetOrId :
    ∀ {id core},
      store.sessions.get id = some core →
      (store.cores core).id = 0 ∨ (store.cores core).id = id
  served :
    ∀ {id core},
      store.sessions.get id = some core →
      (store.cores core).opened = true →
      ∃ key,
        (store.cores core).key = some key ∧
          Serves serverKey store bound id core key

/-- What every step leaves as it is for the calls in progress. -/
structure Extends
    (serverKey : String → Bytes)
    (store : RemoteCorestore)
    (bound : Nat → Option Bytes)
    (later : RemoteCorestore)
    (laterBound : Nat → Option Bytes) : Prop where
  session :
    ∀ {id core},
      store.sessions.get id = some core →
      later.sessions.get id = some core
  sameFeed :
    ∀ {id core},
      store.sessions.get id = some core →
      requestedKey serverKey (later.cores core).openRequest =
        requestedKey serverKey (store.cores core).openRequest
  keepsId :
    ∀ {core},
      store.sessions.get (store.cores core).id = some core →
      (later.cores core).id = (store.cores core).id
  serves :
    ∀ {id core key},
      Serves serverKey store bound id core key →
      laterBound (id % 2 ^ 32) = some key

section

variable
  {serverKey : String → Bytes}
  {store later : RemoteCorestore}
  {bound laterBound : Nat → Option Bytes}

/-- A step that leaves both maps alone extends them. -/
theorem Extends.refl :
    Extends serverKey store bound store bound where
  session := id
  sameFeed := fun _ => rfl
  keepsId := fun _ => rfl
  serves := fun holds => holds.isBound

namespace Extends

variable
  (extended : Extends serverKey store bound later laterBound)

include extended

/-- A session served before is served afterwards. -/
theorem serves_mono
    {id core : Nat}
    {key : Bytes}
    (holds : Serves serverKey store bound id core key) :
    Serves serverKey later laterBound id core key where
  session := extended.session holds.session
  sameId := by
    have published :
        store.sessions.get (store.cores core).id = some core := by
      rw [holds.sameId]
      exact holds.session
    rw [extended.keepsId published, holds.sameId]
  asks := by rw [extended.sameFeed holds.session, holds.asks]
  isBound := extended.serves holds

/-- A remembered session stays one. -/
theorem remembers_mono
    {core : Nat}
    {inserted : Option Nat}
    (holds : Remembers store core inserted) :
    Remembers later core inserted := by
  obtain ⟨⟨id, session⟩, remembered⟩ := holds
  refine ⟨⟨id, extended.session session⟩, ?_⟩
  intro other member
  exact extended.session (remembered other member)

/-- A request on its way keeps asking for the record's feed. -/
theorem requests_mono
    {core : Nat}
    {request : OpenRequest}
    (holds : Requests serverKey store core request) :
    Requests serverKey later core request := by
  have sameId := extended.keepsId holds.session
  refine ⟨?_, ?_, ?_⟩
  · rw [sameId]
    exact extended.session holds.session
  · rw [sameId]
    exact holds.sameId
  · rw [holds.sameFeed, extended.sameFeed holds.session]

/-- What the other calls rely on survives a step. -/
theorem known_mono
    {progress : Progress}
    (known : Known serverKey store bound progress) :
    Known serverKey later laterBound progress := by
  cases progress with
  | lookUp =>
      trivial
  | insert =>
      trivial
  | setId core id =>
      exact extended.session known
  | checkOpen core inserted =>
      exact extended.remembers_mono known
  | buildRequest core inserted =>
      exact extended.remembers_mono known
  | awaitResponse core inserted request =>
      exact ⟨extended.remembers_mono known.1,
        extended.requests_mono known.2⟩
  | storeResponse core inserted response =>
      obtain ⟨remembered, id, served⟩ := known
      exact ⟨extended.remembers_mono remembered,
        id, extended.serves_mono served⟩
  | readKey core id =>
      exact extended.session known
  | setName core id key =>
      exact extended.session known
  | returned core =>
      trivial
  | failed message =>
      trivial

end Extends

/-- The record of an unpublished number belongs to no session. -/
theorem Consistent.ne_allocated
    (consistent : Consistent serverKey store bound)
    {id core : Nat}
    (session : store.sessions.get id = some core) :
    core ≠ store.allocated :=
  Nat.ne_of_lt (consistent.isAllocated session)

/-- A new client has no sessions. -/
theorem consistent_new :
    Consistent serverKey .new fun _ => none where
  wellFormed := NamedMap.wellFormed_new
  isAllocated := by simp [RemoteCorestore.new, NamedMap.new, NamedMap.get]
  oneSession := by simp [RemoteCorestore.new, NamedMap.new, NamedMap.get]
  unsetOrId := by simp [RemoteCorestore.new, NamedMap.new, NamedMap.get]
  served := by simp [RemoteCorestore.new, NamedMap.new, NamedMap.get]

/-- The store after `insert_with_name` of a new record. -/
def inserted
    [Hex]
    (store : RemoteCorestore)
    (asked : Asked) : RemoteCorestore where
  sessions :=
    (store.sessions.insertWithName store.allocated asked.sessionName).1
  cores := Function.update store.cores store.allocated (newCore asked)
  allocated := store.allocated + 1

/-- Sessions after `insert_with_name` of a new record. -/
theorem Consistent.get_inserted
    [Hex]
    (consistent : Consistent serverKey store bound)
    (asked : Asked)
    (id : Nat) :
    (inserted store asked).sessions.get id =
      if id = store.sessions.map.size + 1 then
        some store.allocated
      else
        store.sessions.get id := by
  have sameId :
      (store.sessions.insertWithName store.allocated
        asked.sessionName).2 = store.sessions.map.size + 1 := by
    rw [consistent.wellFormed.insertWithName_eq]
  rw [← sameId]
  exact consistent.wellFormed.get_insertWithName _ _ _

/-- Inserting a record leaves the others alone. -/
theorem Consistent.extends_inserted
    [Hex]
    (consistent : Consistent serverKey store bound)
    (asked : Asked) :
    Extends serverKey store bound (inserted store asked) bound where
  session := by
    intro id core session
    have inRange :=
      (consistent.wellFormed.idRange id).mp (by simp [session])
    rw [consistent.get_inserted, if_neg (by omega), session]
  sameFeed := by
    intro id core session
    simp [inserted,
      Function.update_of_ne (consistent.ne_allocated session)]
  keepsId := by
    intro core session
    simp [inserted,
      Function.update_of_ne (consistent.ne_allocated session)]
  serves := fun holds => holds.isBound

/-- A new record is not open, and its session is new. -/
theorem Consistent.insert
    [Hex]
    (consistent : Consistent serverKey store bound)
    (asked : Asked) :
    Consistent serverKey (inserted store asked) bound := by
  have extended := consistent.extends_inserted asked
  have before :
      ∀ {id core},
        (inserted store asked).sessions.get id = some core →
        (id = store.sessions.map.size + 1 ∧
            core = store.allocated) ∨
          store.sessions.get id = some core := by
    intro id core session
    rw [consistent.get_inserted] at session
    split at session
    · next isNew =>
        exact Or.inl ⟨isNew, (Option.some.inj session).symm⟩
    · exact Or.inr session
  refine ⟨consistent.wellFormed.insertWithName _ _, ?_, ?_, ?_, ?_⟩
  · intro id core session
    rcases before session with ⟨_, rfl⟩ | old
    · exact Nat.lt_succ_self _
    · exact Nat.lt_succ_of_lt (consistent.isAllocated old)
  · intro id other core session otherSession
    rcases before session with ⟨isNew, sameCore⟩ | old
    · rcases before otherSession with ⟨otherNew, _⟩ | otherOld
      · rw [isNew, otherNew]
      · exact absurd sameCore (consistent.ne_allocated otherOld)
    · rcases before otherSession with ⟨_, sameCore⟩ | otherOld
      · exact absurd sameCore (consistent.ne_allocated old)
      · exact consistent.oneSession old otherOld
  · intro id core session
    rcases before session with ⟨_, rfl⟩ | old
    · left
      cases asked <;> simp [inserted, newCore, InnerHypercore.new]
    · have sameCore := consistent.ne_allocated old
      simpa [inserted, Function.update_of_ne sameCore] using
        consistent.unsetOrId old
  · intro id core session opened
    rcases before session with ⟨_, rfl⟩ | old
    · cases asked <;>
        simp [inserted, newCore, InnerHypercore.new] at opened
    · have sameCore :
          (inserted store asked).cores core = store.cores core :=
        Function.update_of_ne (consistent.ne_allocated old) _ _
      rw [sameCore] at opened ⊢
      obtain ⟨key, hasKey, served⟩ := consistent.served old opened
      exact ⟨key, hasKey, extended.serves_mono served⟩

/-- A write to one record that leaves its id and its feed alone. -/
theorem Consistent.extends_updateCore
    (consistent : Consistent serverKey store bound)
    {id core : Nat}
    {inner : InnerHypercore}
    (session : store.sessions.get id = some core)
    (sameFeed :
      requestedKey serverKey inner.openRequest =
        requestedKey serverKey (store.cores core).openRequest)
    (keepsId : (store.cores core).id = id → inner.id = id) :
    Extends serverKey store bound
      (store.updateCore core inner) bound where
  session := fun other => other
  sameFeed := by
    intro otherId other _
    by_cases same : other = core
    · subst other
      simpa [RemoteCorestore.updateCore] using sameFeed
    · simp [RemoteCorestore.updateCore, Function.update_of_ne same]
  keepsId := by
    intro other otherSession
    by_cases same : other = core
    · subst other
      have sameId := consistent.oneSession otherSession session
      simp [RemoteCorestore.updateCore, keepsId sameId, sameId]
    · simp [RemoteCorestore.updateCore, Function.update_of_ne same]
  serves := fun holds => holds.isBound

/-- Such a write keeps the invariant if an open record stays served. -/
theorem Consistent.updateCore
    (consistent : Consistent serverKey store bound)
    {id core : Nat}
    {inner : InnerHypercore}
    (session : store.sessions.get id = some core)
    (extended :
      Extends serverKey store bound (store.updateCore core inner) bound)
    (unsetOrId : inner.id = 0 ∨ inner.id = id)
    (served :
      inner.opened = true →
      ∃ key,
        inner.key = some key ∧
          Serves serverKey (store.updateCore core inner) bound
            id core key) :
    Consistent serverKey (store.updateCore core inner) bound := by
  refine ⟨consistent.wellFormed, consistent.isAllocated,
    consistent.oneSession, ?_, ?_⟩
  · intro otherId other otherSession
    by_cases same : other = core
    · subst other
      have sameId := consistent.oneSession otherSession session
      simpa [RemoteCorestore.updateCore, sameId] using unsetOrId
    · simpa [RemoteCorestore.updateCore,
        Function.update_of_ne same] using
          consistent.unsetOrId otherSession
  · intro otherId other otherSession opened
    by_cases same : other = core
    · subst other
      have sameId := consistent.oneSession otherSession session
      subst otherId
      simp only [RemoteCorestore.updateCore,
        Function.update_self] at opened ⊢
      exact served opened
    · have sameCore :
          (store.updateCore core inner).cores other =
            store.cores other :=
        Function.update_of_ne same _ _
      rw [sameCore] at opened ⊢
      obtain ⟨key, hasKey, before⟩ :=
        consistent.served otherSession opened
      exact ⟨key, hasKey, extended.serves_mono before⟩

/-- The method `set_id` on the record of a session. -/
theorem Consistent.setId
    (consistent : Consistent serverKey store bound)
    {id core : Nat}
    (session : store.sessions.get id = some core) :
    Extends serverKey store bound
        (store.updateCore core ((store.cores core).setId id)) bound ∧
      Consistent serverKey
        (store.updateCore core ((store.cores core).setId id)) bound := by
  have extended :
      Extends serverKey store bound
        (store.updateCore core ((store.cores core).setId id)) bound :=
    consistent.extends_updateCore session rfl (fun _ => rfl)
  refine ⟨extended,
    consistent.updateCore session extended (Or.inr rfl) ?_⟩
  intro opened
  obtain ⟨key, hasKey, served⟩ := consistent.served session opened
  exact ⟨key, hasKey, extended.serves_mono served⟩

/-- A record that asks for a feed asks for it with that feed's key as well. -/
theorem requestedKey_onOpenResponse
    {inner : InnerHypercore}
    {response : OpenResponse}
    (asks :
      requestedKey serverKey inner.openRequest = some response.key) :
    requestedKey serverKey (inner.onOpenResponse response).openRequest =
      some response.key := by
  cases named : inner.name with
  | none =>
      simp [requestedKey, InnerHypercore.openRequest,
        InnerHypercore.onOpenResponse, named]
  | some name =>
      simpa [requestedKey, InnerHypercore.openRequest,
        InnerHypercore.onOpenResponse, named] using asks

/-- The write of `open` for a record that the server binds. -/
theorem Consistent.storeResponse
    (consistent : Consistent serverKey store bound)
    {id core : Nat}
    {response : OpenResponse}
    (served : Serves serverKey store bound id core response.key) :
    Extends serverKey store bound
        (store.updateCore core
          ((store.cores core).onOpenResponse response)) bound ∧
      Consistent serverKey
        (store.updateCore core
          ((store.cores core).onOpenResponse response)) bound := by
  have extended :
      Extends serverKey store bound
        (store.updateCore core
          ((store.cores core).onOpenResponse response)) bound := by
    refine consistent.extends_updateCore served.session ?_ (fun same => same)
    rw [requestedKey_onOpenResponse served.asks, served.asks]
  refine ⟨extended,
    consistent.updateCore served.session extended
      (Or.inr served.sameId) ?_⟩
  intro _
  exact ⟨response.key, rfl, extended.serves_mono served⟩

/-- A further name for a session changes neither map of records. -/
theorem Consistent.setName
    (consistent : Consistent serverKey store bound)
    {id core : Nat}
    (session : store.sessions.get id = some core)
    (name : String) :
    Extends serverKey store bound
        { store with sessions := store.sessions.setName id name } bound ∧
      Consistent serverKey
        { store with sessions := store.sessions.setName id name }
        bound := by
  have extended :
      Extends serverKey store bound
        { store with sessions := store.sessions.setName id name }
        bound :=
    ⟨fun other => other, fun _ => rfl, fun _ => rfl,
      fun holds => holds.isBound⟩
  refine ⟨extended,
    consistent.wellFormed.setName (by simp [session]) name,
    consistent.isAllocated, consistent.oneSession,
    consistent.unsetOrId, ?_⟩
  intro otherId other otherSession opened
  obtain ⟨key, hasKey, before⟩ :=
    consistent.served otherSession opened
  exact ⟨key, hasKey, extended.serves_mono before⟩

/-- What a call relies on after `RemoteHypercore::open` has returned. -/
theorem known_afterOpen
    {asked : Asked}
    {core : Nat}
    {inserted : Option Nat}
    (remembered : Remembers store core inserted) :
    Known serverKey store bound (afterOpen asked core inserted) := by
  cases inserted with
  | none =>
      trivial
  | some id =>
      cases asked with
      | byKey key =>
          trivial
      | byName name =>
          exact remembered.2 id rfl

/-- A session found by name is a session. -/
theorem exists_session_of_getByName
    [Hex]
    {name : String}
    {core : Nat}
    (found : store.sessions.getByName name = some core) :
    ∃ id, store.sessions.get id = some core := by
  simp only [NamedMap.getByName] at found
  split at found
  · cases found
  · next id _ =>
      exact ⟨id, found⟩

/-- One step of a call keeps the invariant and what all calls rely on. -/
theorem Consistent.advance
    [Hex]
    (consistent : Consistent serverKey store bound)
    {asked : Asked}
    {progress next : Progress}
    (known : Known serverKey store bound progress)
    (hasId : HasId store progress)
    (stepped :
      RemoteOpen.advance store asked progress = some (later, next)) :
    Extends serverKey store bound later bound ∧
      Consistent serverKey later bound ∧
        Known serverKey later bound next := by
  cases progress with
  | lookUp =>
      simp only [RemoteOpen.advance] at stepped
      split at stepped
      · next core found =>
          cases stepped
          refine ⟨Extends.refl, consistent, ?_⟩
          exact ⟨exists_session_of_getByName found, by simp⟩
      · cases stepped
        exact ⟨Extends.refl, consistent, trivial⟩
  | insert =>
      simp only [RemoteOpen.advance, Option.some.injEq,
        Prod.mk.injEq] at stepped
      obtain ⟨rfl, rfl⟩ := stepped
      refine ⟨consistent.extends_inserted asked,
        consistent.insert asked, ?_⟩
      rw [Known, consistent.wellFormed.get_insertWithName, if_pos rfl]
  | setId core id =>
      simp only [RemoteOpen.advance, Option.some.injEq,
        Prod.mk.injEq] at stepped
      obtain ⟨rfl, rfl⟩ := stepped
      obtain ⟨extended, kept⟩ := consistent.setId known
      refine ⟨extended, kept, ⟨id, known⟩, ?_⟩
      intro other same
      cases same
      exact known
  | checkOpen core inserted =>
      simp only [RemoteOpen.advance] at stepped
      split at stepped
      · cases stepped
        exact ⟨Extends.refl, consistent, known_afterOpen known⟩
      · cases stepped
        exact ⟨Extends.refl, consistent, known⟩
  | buildRequest core inserted =>
      simp only [RemoteOpen.advance, Option.some.injEq,
        Prod.mk.injEq] at stepped
      obtain ⟨rfl, rfl⟩ := stepped
      refine ⟨Extends.refl, consistent, known, ?_⟩
      obtain ⟨id, session⟩ := known.1
      have sameId : (store.cores core).id = id :=
        (consistent.unsetOrId session).resolve_left hasId
      exact ⟨by rw [sameId]; exact session, rfl, rfl⟩
  | awaitResponse core inserted request =>
      cases stepped
  | storeResponse core inserted response =>
      simp only [RemoteOpen.advance, Option.some.injEq,
        Prod.mk.injEq] at stepped
      obtain ⟨rfl, rfl⟩ := stepped
      obtain ⟨remembered, id, served⟩ := known
      obtain ⟨extended, kept⟩ := consistent.storeResponse served
      exact ⟨extended, kept,
        known_afterOpen (extended.remembers_mono remembered)⟩
  | readKey core id =>
      simp only [RemoteOpen.advance] at stepped
      split at stepped
      · cases stepped
        exact ⟨Extends.refl, consistent, known⟩
      · cases stepped
        exact ⟨Extends.refl, consistent, trivial⟩
  | setName core id key =>
      simp only [RemoteOpen.advance, Option.some.injEq,
        Prod.mk.injEq] at stepped
      obtain ⟨rfl, rfl⟩ := stepped
      obtain ⟨extended, kept⟩ :=
        consistent.setName known (Hex.encode key)
      exact ⟨extended, kept, trivial⟩
  | returned core =>
      cases stepped
  | failed message =>
      cases stepped

/-- Below the range of `u32` the cast tells ids of sessions apart. -/
theorem Consistent.id_mod
    (consistent : Consistent serverKey store bound)
    (few : store.sessions.map.size < 2 ^ 32)
    {id core : Nat}
    (session : store.sessions.get id = some core) :
    id % 2 ^ 32 = id := by
  have inRange :=
    (consistent.wellFormed.idRange id).mp (by simp [session])
  exact Nat.mod_eq_of_lt (by omega)

/-- Binding the id of a request to its feed serves the request's record. -/
theorem Consistent.serve
    (consistent : Consistent serverKey store bound)
    (few : store.sessions.map.size < 2 ^ 32)
    {core : Nat}
    {request : OpenRequest}
    {key : Bytes}
    (requests : Requests serverKey store core request)
    (requested : requestedKey serverKey request = some key) :
    Extends serverKey store bound store
        (Function.update bound request.id (some key)) ∧
      Consistent serverKey store
        (Function.update bound request.id (some key)) ∧
      Serves serverKey store
        (Function.update bound request.id (some key))
        (store.cores core).id core key := by
  have asks :
      requestedKey serverKey (store.cores core).openRequest =
        some key := by
    rw [← requests.sameFeed, requested]
  have extended :
      Extends serverKey store bound store
        (Function.update bound request.id (some key)) := by
    refine ⟨fun other => other, fun _ => rfl, fun _ => rfl, ?_⟩
    intro id other otherKey served
    by_cases same : id % 2 ^ 32 = request.id
    · have sameId : id = (store.cores core).id := by
        rw [requests.sameId, consistent.id_mod few served.session,
          consistent.id_mod few requests.session] at same
        exact same
      have sameCore : other = core := by
        have session := served.session
        rw [sameId, requests.session] at session
        exact (Option.some.inj session).symm
      subst other
      rw [same, Function.update_self, ← asks, served.asks]
    · rw [Function.update_of_ne same, served.isBound]
  refine ⟨extended, ?_, ?_⟩
  · refine ⟨consistent.wellFormed, consistent.isAllocated,
      consistent.oneSession, consistent.unsetOrId, ?_⟩
    intro id other session opened
    obtain ⟨otherKey, hasKey, served⟩ :=
      consistent.served session opened
    exact ⟨otherKey, hasKey, extended.serves_mono served⟩
  · refine ⟨requests.session, rfl, asks, ?_⟩
    rw [← requests.sameId, Function.update_self]

end

/-- The invariant of runs that build requests for records with an id. -/
structure Invariant
    (serverKey : String → Bytes)
    (state : State) : Prop where
  consistent :
    Consistent serverKey state.store state.bound
  known :
    ∀ call ∈ state.calls,
      Known serverKey state.store state.bound call.progress

section

variable
  {serverKey : String → Bytes}
  {state next : State}

/-- The invariant starts with no sessions and no calls. -/
theorem invariant_initial : Invariant serverKey initial where
  consistent := consistent_new
  known := by simp [initial]

/-- One call has moved on and the maps have grown. -/
theorem Invariant.moved
    (invariant : Invariant serverKey state)
    {later : RemoteCorestore}
    {laterBound : Nat → Option Bytes}
    (extended :
      Extends serverKey state.store state.bound later laterBound)
    (consistent : Consistent serverKey later laterBound)
    (index : Nat)
    (asked : Asked)
    {progress : Progress}
    (known : Known serverKey later laterBound progress) :
    Invariant serverKey
      { store := later
        calls := state.calls.set index ⟨asked, progress⟩
        bound := laterBound } where
  consistent := consistent
  known := by
    intro call member
    rcases List.mem_or_eq_of_mem_set member with old | rfl
    · exact extended.known_mono (invariant.known call old)
    · exact known

/-- The server's answer keeps the invariant. -/
theorem Invariant.serve
    (invariant : Invariant serverKey state)
    (few : state.store.sessions.map.size < 2 ^ 32)
    {index : Nat}
    {asked : Asked}
    {extent : Nat × Nat}
    {writable : Bool}
    {progress : Progress}
    (known : Known serverKey state.store state.bound progress)
    (stepped :
      RemoteOpen.serve serverKey state index asked extent writable
        progress = some next) :
    Invariant serverKey next := by
  cases progress with
  | awaitResponse core inserted request =>
      obtain ⟨remembered, requests⟩ := known
      simp only [RemoteOpen.serve] at stepped
      split at stepped
      · cases stepped
        exact invariant.moved Extends.refl invariant.consistent
          index asked trivial
      · next key requested =>
          cases stepped
          obtain ⟨extended, kept, served⟩ :=
            invariant.consistent.serve few requests requested
          exact invariant.moved extended kept index asked
            ⟨remembered, _, served⟩
  | _ =>
      cases stepped

/-- One step keeps the invariant. -/
theorem Invariant.step
    [Hex]
    (invariant : Invariant serverKey state)
    {action : Action}
    (few : state.store.sessions.map.size < 2 ^ 32)
    (hasId : BuildsWithId state action)
    (stepped : RemoteOpen.step serverKey state action = some next) :
    Invariant serverKey next := by
  cases action with
  | call asked =>
      simp only [RemoteOpen.step, Option.some.injEq] at stepped
      subst next
      refine ⟨invariant.consistent, ?_⟩
      intro call member
      rcases List.mem_append.mp member with old | isNew
      · exact invariant.known call old
      · rw [List.mem_singleton.mp isNew]
        trivial
  | advance index =>
      simp only [RemoteOpen.step] at stepped
      split at stepped
      · cases stepped
      · next call found =>
          split at stepped
          · cases stepped
          · next later progress advanced =>
              cases stepped
              have member := List.mem_of_getElem? found
              obtain ⟨extended, kept, known⟩ :=
                invariant.consistent.advance
                  (invariant.known call member)
                  (hasId call found) advanced
              exact invariant.moved extended kept index
                call.asked known
  | serve index length byteLength writable =>
      simp only [RemoteOpen.step] at stepped
      split at stepped
      · cases stepped
      · next call found =>
          have member := List.mem_of_getElem? found
          exact invariant.serve few (invariant.known call member)
            stepped
  | refuse index message =>
      simp only [RemoteOpen.step] at stepped
      split at stepped
      · cases stepped
        exact invariant.moved Extends.refl invariant.consistent
          index _ trivial
      · cases stepped

/-- Sessions are never removed. -/
theorem advance_size_le
    [Hex]
    {store later : RemoteCorestore}
    {asked : Asked}
    {progress moved : Progress}
    (stepped :
      advance store asked progress = some (later, moved)) :
    store.sessions.map.size ≤ later.sessions.map.size := by
  cases progress with
  | insert =>
      cases stepped
      exact Table.size_le_size_insert _ _ _
  | lookUp =>
      simp only [advance] at stepped
      split at stepped <;> cases stepped <;> exact le_refl _
  | checkOpen core inserted =>
      simp only [advance] at stepped
      split at stepped <;> cases stepped <;> exact le_refl _
  | readKey core id =>
      simp only [advance] at stepped
      split at stepped <;> cases stepped <;> exact le_refl _
  | _ =>
      cases stepped <;> exact le_refl _

/-- No step removes a session. -/
theorem step_size_le
    [Hex]
    {action : Action}
    (stepped : step serverKey state action = some next) :
    state.store.sessions.map.size ≤ next.store.sessions.map.size := by
  cases action with
  | call asked =>
      cases stepped
      exact le_refl _
  | advance index =>
      simp only [step] at stepped
      split at stepped
      · cases stepped
      · split at stepped
        · cases stepped
        · next later progress advanced =>
            cases stepped
            exact advance_size_le advanced
  | serve index length byteLength writable =>
      simp only [step] at stepped
      split at stepped
      · cases stepped
      · next call found =>
          cases hasProgress : call.progress with
          | awaitResponse core inserted request =>
              simp only [hasProgress, serve] at stepped
              split at stepped <;> cases stepped <;> exact le_refl _
          | _ =>
              simp only [hasProgress, serve] at stepped
              cases stepped
  | refuse index message =>
      simp only [step] at stepped
      split at stepped
      · cases stepped
        exact le_refl _
      · cases stepped

/-- The invariant says that both sides agree. -/
theorem Invariant.agreed
    (invariant : Invariant serverKey state) :
    Agreed state := by
  intro id core session opened
  obtain ⟨key, hasKey, served⟩ :=
    invariant.consistent.served session opened
  exact ⟨served.sameId, key, hasKey, served.isBound⟩

end

/--
In every run of fewer than 2^32 sessions in which each request is built for a
record whose id is set, client and server agree on the id of every open
session.
-/
theorem open_ids_agree
    [Hex]
    {serverKey : String → Bytes}
    {actions : List Action}
    {state : State}
    (hasIds :
      Machine.Along (step serverKey) BuildsWithId initial actions)
    (ran : Machine.run (step serverKey) initial actions = some state)
    (few : state.store.sessions.map.size < 2 ^ 32) :
    Agreed state := by
  suffices kept :
      state.store.sessions.map.size < 2 ^ 32 →
        Invariant serverKey state from
    (kept few).agreed
  refine
    Machine.invariant_run_along
      (fun reached =>
        reached.store.sessions.map.size < 2 ^ 32 →
          Invariant serverKey reached)
      ?_ (fun _ => invariant_initial) hasIds ran
  intro before action after kept hasId stepped fewAfter
  have fewBefore := lt_of_le_of_lt (step_size_le stepped) fewAfter
  exact (kept fewBefore).step fewBefore hasId stepped

/-! ## Examples -/

section

attribute [local instance] Hex.lowerCase

/-- The keys that the server of the examples gives to its names. -/
def sampleServerKey (name : String) : Bytes :=
  if name = "foo" then
    sampleFoo.publicKey.bytes
  else
    sampleEmpty.publicKey.bytes

/-- Two calls for one name, the second after the first has set the id. -/
def idSetFirst : List Action :=
  [.call (.byName "foo"), .call (.byName "foo"),
    .advance 0, .advance 0, .advance 0,
    .advance 1, .advance 1, .advance 1, .serve 1 0 0 true, .advance 1,
    .advance 0, .advance 0, .advance 0]

/-- Both calls end with one session under the id 1 on both sides. -/
theorem open_ids_agree_idSetFirst :
    ∃ state,
      Machine.run (step sampleServerKey) initial idSetFirst =
          some state ∧
        state.calls.map Call.progress = [.returned 0, .returned 0] ∧
          (state.store.cores 0).opened = true ∧ Agreed state := by
  have hasIds :
      Machine.Along (step sampleServerKey) BuildsWithId initial
        idSetFirst := by
    decide
  refine ⟨_, rfl, by decide, rfl, ?_⟩
  exact open_ids_agree hasIds rfl (by decide)

/-- Two calls for one name, the second before the first has set the id. -/
def foundUnset : List Action :=
  [.call (.byName "foo"), .call (.byName "foo"),
    .advance 0, .advance 0,
    .advance 1, .advance 1, .advance 1, .serve 1 0 0 true, .advance 1,
    .advance 0, .advance 0, .advance 0, .advance 0]

/--
A call that finds a record before its id is set opens it under the id 0.  The
call that inserted the record then finds it open and never opens its id 1.
-/
theorem found_before_id_set_disagrees :
    ¬ (∀ (serverKey : String → Bytes) actions state,
      Machine.run (step serverKey) initial actions = some state →
      state.store.sessions.map.size < 2 ^ 32 →
      Agreed state) := by
  intro always
  obtain ⟨_, key, _, isBound⟩ :=
    always sampleServerKey foundUnset _ rfl (by decide) 1 0 rfl rfl
  cases isBound

end

end RemoteOpen

end Hyperspace
