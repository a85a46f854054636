import Mathlib.Data.List.Basic

namespace Hyperspace

/-!
# One sender and many receivers

Several components keep a list of senders, one for each subscriber, and send
every event to all of them.  A receiver is represented here by the number of
events that were sent before it subscribed, the events that its owner has taken
and those that are queued.  This module says how the three relate to the list of
all events sent.  It names nothing of any particular component.
-/

namespace Broadcast

variable {Event : Type}

/-- One subscription, as its receiver has seen it so far. -/
structure Receiver (Event : Type) where
  /-- Whether the receiver has not been dropped. -/
  alive : Bool
  /-- The number of events sent before the subscription. -/
  since : Nat
  taken : List Event
  queue : List Event
  deriving Repr, DecidableEq

namespace Receiver

/-- The receiver of a new subscription. -/
def new (log : List Event) : Receiver Event where
  alive := true
  since := log.length
  taken := []
  queue := []

/-- An event is sent; a receiver that was dropped gets nothing. -/
def send (event : Event) (receiver : Receiver Event) : Receiver Event :=
  if receiver.alive then
    { receiver with queue := receiver.queue ++ [event] }
  else
    receiver

/-- The owner takes the first event of the queue. -/
def take (receiver : Receiver Event) : Option (Receiver Event) :=
  match receiver.alive, receiver.queue with
  | true, event :: rest =>
      some { receiver with
        taken := receiver.taken ++ [event]
        queue := rest }
  | _, _ => none

/-- The owner drops the receiver. -/
def close (receiver : Receiver Event) : Receiver Event :=
  { receiver with alive := false }

/-- The events that have come to the receiver. -/
def received (receiver : Receiver Event) : List Event :=
  receiver.taken ++ receiver.queue

/--
The receiver has got every event since its subscription once and in order; a
dropped one has taken the first of them.
-/
structure Follows (log : List Event) (receiver : Receiver Event) : Prop where
  since : receiver.since ≤ log.length
  taken : receiver.taken <+: log.drop receiver.since
  received :
    receiver.alive = true →
    receiver.received = log.drop receiver.since

section

variable
  {log : List Event}
  {receiver next : Receiver Event}

/-- A new receiver has got nothing. -/
theorem follows_new (log : List Event) : Follows log (new log) where
  since := Nat.le_refl _
  taken := List.nil_prefix
  received := by simp [Receiver.received, new]

/-- An event that is sent comes after all others. -/
theorem Follows.send
    (follows : Follows log receiver)
    (event : Event) :
    Follows (log ++ [event]) (receiver.send event) := by
  have dropped :
      (log ++ [event]).drop receiver.since =
        log.drop receiver.since ++ [event] :=
    List.drop_append_of_le_length follows.since
  rw [Receiver.send]
  split
  · next isAlive =>
      refine ⟨?_, ?_, ?_⟩
      · simpa using Nat.le_succ_of_le follows.since
      · rw [dropped]
        exact follows.taken.trans (List.prefix_append _ _)
      · intro _
        rw [dropped, ← follows.received isAlive]
        simp [Receiver.received]
  · next isDropped =>
      refine ⟨?_, ?_, ?_⟩
      · simpa using Nat.le_succ_of_le follows.since
      · rw [dropped]
        exact follows.taken.trans (List.prefix_append _ _)
      · intro isAlive
        exact absurd isAlive isDropped

/-- An event that is taken was the first of the queue. -/
theorem take_eq_some
    (taken : receiver.take = some next) :
    receiver.alive = true ∧
      ∃ event rest,
        receiver.queue = event :: rest ∧
          next =
            { receiver with
              taken := receiver.taken ++ [event]
              queue := rest } := by
  rw [Receiver.take] at taken
  split at taken
  · next event rest isAlive isQueue =>
      cases taken
      exact ⟨isAlive, event, rest, isQueue, rfl⟩
  · cases taken

/-- Taking an event changes nothing about what has come. -/
theorem Follows.take
    (follows : Follows log receiver)
    (taken : receiver.take = some next) :
    Follows log next := by
  obtain ⟨isAlive, event, rest, isQueue, rfl⟩ := take_eq_some taken
  have received := follows.received isAlive
  rw [Receiver.received, isQueue] at received
  refine ⟨follows.since, ?_, ?_⟩
  · rw [← received]
    exact ⟨rest, by simp⟩
  · intro _
    rw [← received]
    simp [Receiver.received]

/-- A receiver that is dropped keeps what it has taken. -/
theorem Follows.close
    (follows : Follows log receiver) :
    Follows log receiver.close where
  since := follows.since
  taken := follows.taken
  received := by simp [Receiver.close]

end

end Receiver

end Broadcast

end Hyperspace
