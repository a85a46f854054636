import Hyperspace.Machine
import Hyperspace.Peer
import Hyperspace.RemoteHypercore

namespace Hyperspace

/-!
# The server's RPC session

`Session` of `server/src/rpc/session.rs` serves one client.  Opening a feed
spawns the task `notify_loop`, enters the feed into the session's map `cores`
under the id that the client chose, and returns a snapshot of the feed.  The
task subscribes to the feed and tells the client of each of its events.

This module holds what a session uses of a feed, the messages, and the two
pieces of code that run as tasks of their own: the handler of `Open` and the
loop.  Each is split at its awaits.  A send that fails ends the loop together
with the connection, so runs are followed up to that point only.
-/

/-- What a session uses of a feed; errors are the texts of `anyhow::Error`. -/
structure SessionFeed (Feed : Type) where
  len : Feed → Nat
  byteLen : Feed → Nat
  append : Feed → Bytes → Except String Feed
  get : Feed → Nat → Except String (Option Bytes)
  publicKey : Feed → Bytes
  /-- Whether `secret_key` is present. -/
  hasSecretKey : Feed → Bool

namespace SessionFeed

variable {Feed : Type} (core : SessionFeed Feed)

/-- The length and the byte length of a feed. -/
def extent (feed : Feed) : Nat × Nat :=
  (core.len feed, core.byteLen feed)

/-- The response of `open`. -/
def openResponse (feed : Feed) : OpenResponse where
  key := core.publicKey feed
  length := core.len feed
  byteLength := core.byteLen feed
  writable := core.hasSecretKey feed

/-- What a session relies on in a feed that is appended to. -/
structure AppendOnly : Prop where
  longer :
    ∀ {feed next : Feed} {block : Bytes},
      core.append feed block = .ok next →
      core.len next = core.len feed + 1
  stores :
    ∀ {feed next : Feed} {block : Bytes},
      core.append feed block = .ok next →
      core.get next (core.len feed) = .ok (some block)
  keeps :
    ∀ {feed next : Feed} {block stored : Bytes} {index : Nat},
      core.append feed block = .ok next →
      core.get feed index = .ok (some stored) →
      core.get next index = .ok (some stored)

end SessionFeed

/-- A writable feed for examples, by its blocks. -/
def blockFeed : SessionFeed (List Bytes) where
  len feed := feed.length
  byteLen feed := feed.flatten.length
  append feed block := .ok (feed ++ [block])
  get feed index := .ok feed[index]?
  publicKey _ := sampleFoo.publicKey.bytes
  hasSecretKey _ := true

/-- An append to such a feed stores its block behind the others. -/
theorem appendOnly_blockFeed : blockFeed.AppendOnly where
  longer := by
    intro feed next block appended
    cases appended
    simp [blockFeed]
  stores := by
    intro feed next block appended
    cases appended
    simp [blockFeed]
  keeps := by
    intro feed next block stored index appended found
    cases appended
    simp only [blockFeed, Except.ok.injEq] at found ⊢
    rw [List.getElem?_append_left (List.getElem?_eq_some_iff.mp found).1]
    exact found

namespace Session

/-- The message of `bad_id`. -/
def badId : IoError := "Bad ID"

/--
The feed that `open` looks up: a name takes precedence over a key, and a key
must have 32 bytes.
-/
def findFeed
    {Handle : Type}
    (getByName : String → Except IoError Handle)
    (getByKey : Key → Except IoError Handle)
    (request : OpenRequest) : Except IoError Handle :=
  match request.name with
  | some name => getByName name
  | none =>
      match request.key with
      | some bytes =>
          match Key.ofBytes? bytes with
          | some key => getByKey key
          | none => .error "Invalid key length"
      | none => .error "Invalid parameters"

/-- What the handler of `Open` does next, once it has its feed. -/
inductive OpenPhase where
  | spawn
  | insert
  | respond
  | responded
  deriving Repr, DecidableEq

end Session

/-- The message `AppendEvent`. -/
structure AppendEvent where
  id : Nat
  length : Nat
  byteLength : Nat
  deriving Repr, DecidableEq

/-- The message `DownloadEvent`. -/
structure DownloadEvent where
  id : Nat
  seq : Nat
  byteLength : Option Nat
  deriving Repr, DecidableEq

/-- What `notify_loop` sends to the client. -/
inductive Notification where
  | append (event : AppendEvent)
  | download (event : DownloadEvent)
  deriving Repr, DecidableEq

namespace Notification

/-- The id that a notification carries. -/
def id : Notification → Nat
  | .append event => event.id
  | .download event => event.id

/-- The length and byte length that a notification carries, if it has both. -/
def extent : Notification → Option (Nat × Nat)
  | .append event => some (event.length, event.byteLength)
  | .download _ => none

/-- The notification of a feed event, for the feed as it is when it is read. -/
def ofEvent (id : Nat) (extent : Nat × Nat) : FeedEvent → Notification
  | .append => .append ⟨id, extent.1, extent.2⟩
  | .download seq => .download ⟨id, seq, some extent.2⟩

@[simp] theorem id_ofEvent
    (id : Nat)
    (extent : Nat × Nat)
    (event : FeedEvent) :
    (ofEvent id extent event).id = id := by
  cases event <;> rfl

end Notification

/--
Where `notify_loop` stands.  Each event has a cause, by which proofs tell the
events of a feed apart; the source has no such thing.
-/
inductive NotifyPhase (Cause : Type) where
  /-- Spawned, not subscribed to the feed yet. -/
  | starting
  | waiting
  /-- An event has been taken, the feed not been locked yet. -/
  | reading (event : FeedEvent) (cause : Cause)
  | sending (notification : Notification) (cause : Cause)
  deriving Repr, DecidableEq

/-- One task `notify_loop`, with the events queued in its receiver. -/
structure NotifyTask (Cause : Type) where
  id : Nat
  phase : NotifyPhase Cause
  queue : List (FeedEvent × Cause)
  deriving Repr, DecidableEq

namespace NotifyTask

variable {Cause : Type}

/-- A task that has just been spawned. -/
def spawn (id : Nat) : NotifyTask Cause where
  id := id
  phase := .starting
  queue := []

/-- The task has subscribed to its feed. -/
def Subscribed (task : NotifyTask Cause) : Prop :=
  task.phase ≠ .starting

instance [DecidableEq Cause] (task : NotifyTask Cause) :
    Decidable task.Subscribed :=
  inferInstanceAs (Decidable (task.phase ≠ .starting))

/-- The feed emits an event; it reaches the task if that has subscribed. -/
def emit
    (task : NotifyTask Cause)
    (event : FeedEvent)
    (cause : Cause) : NotifyTask Cause :=
  match task.phase with
  | .starting => task
  | _ => { task with queue := task.queue ++ [(event, cause)] }

/--
The next step of the loop, for the extent of the feed at that moment, and the
notification that the client has received with it.
-/
def advance
    (extent : Nat × Nat)
    (task : NotifyTask Cause) :
    Option (NotifyTask Cause × Option (Notification × Cause)) :=
  match task.phase with
  | .starting => some ({ task with phase := .waiting }, none)
  | .waiting =>
      match task.queue with
      | [] => none
      | (event, cause) :: rest =>
          some
            ({ task with phase := .reading event cause, queue := rest },
              none)
  | .reading event cause =>
      some
        ({ task with
           phase :=
             .sending (.ofEvent task.id extent event) cause }, none)
  | .sending notification cause =>
      some
        ({ task with phase := .waiting }, some (notification, cause))

/-- The loop waits for an event and none is queued. -/
def Idle (task : NotifyTask Cause) : Prop :=
  task.phase = .waiting ∧ task.queue = []

/-- What one step of the loop can be. -/
theorem advance_cases
    {extent : Nat × Nat}
    {task next : NotifyTask Cause}
    {sent : Option (Notification × Cause)}
    (stepped : task.advance extent = some (next, sent)) :
    (task.phase = .starting ∧
        next = { task with phase := .waiting } ∧ sent = none) ∨
      (∃ event cause rest,
        task.phase = .waiting ∧ task.queue = (event, cause) :: rest ∧
          next =
            { task with
              phase := .reading event cause, queue := rest } ∧
            sent = none) ∨
      (∃ event cause,
        task.phase = .reading event cause ∧
          next =
            { task with
              phase :=
                .sending (.ofEvent task.id extent event) cause } ∧
            sent = none) ∨
      ∃ notification cause,
        task.phase = .sending notification cause ∧
          next = { task with phase := .waiting } ∧
            sent = some (notification, cause) := by
  rw [advance] at stepped
  split at stepped
  · next isStarting =>
      cases stepped
      exact Or.inl ⟨isStarting, rfl, rfl⟩
  · next isWaiting =>
      split at stepped
      · cases stepped
      · next event cause rest queued =>
          cases stepped
          exact Or.inr (Or.inl
            ⟨event, cause, rest, isWaiting, queued, rfl, rfl⟩)
  · next event cause isReading =>
      cases stepped
      exact Or.inr (Or.inr (Or.inl
        ⟨event, cause, isReading, rfl, rfl⟩))
  · next notification cause isSending =>
      cases stepped
      exact Or.inr (Or.inr (Or.inr
        ⟨notification, cause, isSending, rfl, rfl⟩))

/-- A feed event and a task that has not subscribed. -/
theorem emit_of_starting
    {task : NotifyTask Cause}
    (isStarting : task.phase = .starting)
    (event : FeedEvent)
    (cause : Cause) :
    task.emit event cause = task := by
  simp [emit, isStarting]

/-- A feed event and a task that has subscribed. -/
theorem Subscribed.emit_eq
    {task : NotifyTask Cause}
    (subscribed : task.Subscribed)
    (event : FeedEvent)
    (cause : Cause) :
    task.emit event cause =
      { task with queue := task.queue ++ [(event, cause)] } := by
  rw [emit]
  split
  · next isStarting =>
      exact absurd isStarting subscribed
  · rfl

/-- A feed event does not move the loop. -/
@[simp] theorem emit_phase
    (task : NotifyTask Cause)
    (event : FeedEvent)
    (cause : Cause) :
    (task.emit event cause).phase = task.phase := by
  rw [emit]
  split <;> rfl

@[simp] theorem emit_id
    (task : NotifyTask Cause)
    (event : FeedEvent)
    (cause : Cause) :
    (task.emit event cause).id = task.id := by
  rw [emit]
  split <;> rfl

end NotifyTask

end Hyperspace
