import Hyperspace.Machine
import Hyperspace.RemoteHypercore
import Mathlib.Data.List.Pairwise
import Mathlib.Order.Nat

namespace Hyperspace

/-!
# The cached length of a remote feed

A `RemoteHypercore` caches the length and byte length of its feed.  Three
writers overwrite the cache: an `append` call when it resumes, an `open` call
when it resumes, and the handler of `AppendEvent`, which runs when the event
arrives.  Messages arrive in the order the server sent them, but a call may
resume long after its response arrived.  This module models one handle with any
number of calls in progress and shows when the cache ends at the value of the
last message.
-/

namespace RemoteLength

/-- A length together with a byte length, ordered componentwise. -/
abbrev Extent := Nat × Nat

/-- The cached pair. -/
def cached (inner : InnerHypercore) : Extent :=
  (inner.length, inner.byteLength)

/-- Calls that await a response. -/
inductive Request where
  | openFeed
  | append
  deriving Repr, DecidableEq

/-- Messages of the server; a response names the call it answers. -/
inductive Message where
  | openResponse (call : Nat) (response : OpenResponse)
  | appendResponse (call : Nat) (response : AppendResponse)
  | appendEvent (length byteLength : Nat)
  deriving Repr, DecidableEq

namespace Message

/-- The pair a message carries. -/
def extent : Message → Extent
  | .openResponse _ response => (response.length, response.byteLength)
  | .appendResponse _ response => (response.length, response.byteLength)
  | .appendEvent length byteLength => (length, byteLength)

/-- The call a message answers, if it is a response. -/
def answers : Message → Option (Nat × Request)
  | .openResponse call _ => some (call, .openFeed)
  | .appendResponse call _ => some (call, .append)
  | .appendEvent _ _ => none

/-- The write a message makes when its handler or its call runs. -/
def write (inner : InnerHypercore) : Message → InnerHypercore
  | .openResponse _ response => inner.onOpenResponse response
  | .appendResponse _ response => inner.onAppendResponse response
  | .appendEvent length byteLength => inner.onAppend length byteLength

/-- Whoever runs last decides the cache: a write stores its message's pair. -/
@[simp] theorem cached_write
    (inner : InnerHypercore)
    (message : Message) :
    cached (message.write inner) = message.extent := by
  cases message <;> rfl

end Message

/-- One handle, its calls in progress and the connection to the server. -/
structure State where
  inner : InnerHypercore
  /-- Calls whose request the server has not answered yet. -/
  awaiting : List (Nat × Request)
  /-- Messages sent by the server and not yet delivered, oldest first. -/
  inFlight : List Message
  /-- Responses that have arrived at calls that have not resumed yet. -/
  arrived : List Message
  /-- The pair of the message sent last. -/
  sent : Extent
  deriving Repr, DecidableEq

/-- A new handle, before any call. -/
def initial (key : Option Bytes) (name : Option String) : State where
  inner := .new key name
  awaiting := []
  inFlight := []
  arrived := []
  sent := (0, 0)

/-- What can happen next. -/
inductive Action where
  | callOpen (call : Nat)
  | callAppend (call : Nat)
  | send (message : Message)
  | deliver
  | resume (message : Message)
  deriving Repr, DecidableEq

/--
The server may send a message whose pair is not below the last one sent; a
response only to a call that awaits it.
-/
def MaySend (state : State) (message : Message) : Prop :=
  state.sent ≤ message.extent ∧
    ∀ request ∈ message.answers, request ∈ state.awaiting

instance (state : State) (message : Message) :
    Decidable (MaySend state message) :=
  inferInstanceAs (Decidable (_ ∧ _))

/-- Requests still unanswered after a message has been sent. -/
def unanswered
    (awaiting : List (Nat × Request))
    (message : Message) : List (Nat × Request) :=
  match message.answers with
  | some request => awaiting.erase request
  | none => awaiting

/-- One step of the handle, one of its calls, or the server. -/
def step (state : State) : Action → Option State
  | .callOpen call =>
      if state.inner.opened then
        some state
      else
        some { state with
          awaiting := state.awaiting ++ [(call, .openFeed)] }
  | .callAppend call =>
      some { state with
        awaiting := state.awaiting ++ [(call, .append)] }
  | .send message =>
      if MaySend state message then
        some { state with
          awaiting := unanswered state.awaiting message
          inFlight := state.inFlight ++ [message]
          sent := message.extent }
      else
        none
  | .deliver =>
      match state.inFlight with
      | [] => none
      | message :: rest =>
          match message.answers with
          | none =>
              some { state with
                inner := message.write state.inner
                inFlight := rest }
          | some _ =>
              some { state with
                inFlight := rest
                arrived := state.arrived ++ [message] }
  | .resume message =>
      if message ∈ state.arrived then
        some { state with
          inner := message.write state.inner
          arrived := state.arrived.erase message }
      else
        none

/-- Everything has been delivered and every call has resumed. -/
def Complete (state : State) : Prop :=
  state.awaiting = [] ∧ state.inFlight = [] ∧ state.arrived = []

instance (state : State) : Decidable (Complete state) :=
  inferInstanceAs (Decidable (_ ∧ _))

/-- A resuming call does not write a pair below the cached one. -/
def KeepsUp (state : State) : Action → Prop
  | .resume message => cached state.inner ≤ message.extent
  | _ => True

instance (state : State) (action : Action) :
    Decidable (KeepsUp state action) :=
  match action with
  | .resume message =>
      inferInstanceAs (Decidable (cached state.inner ≤ message.extent))
  | .callOpen _ => inferInstanceAs (Decidable True)
  | .callAppend _ => inferInstanceAs (Decidable True)
  | .send _ => inferInstanceAs (Decidable True)
  | .deliver => inferInstanceAs (Decidable True)

/--
The invariant of runs in which every call keeps up.  The cache is below every
message still on its way, messages are on their way in the order of their
pairs, and the last pair sent is cached already or still on its way.
-/
structure Ordered (state : State) : Prop where
  cachedBelow :
    cached state.inner ≤ state.sent
  cachedBelowInFlight :
    ∀ message ∈ state.inFlight,
      cached state.inner ≤ message.extent
  arrivedBelow :
    ∀ message ∈ state.arrived, message.extent ≤ state.sent
  arrivedBelowInFlight :
    ∀ message ∈ state.arrived,
      ∀ later ∈ state.inFlight, message.extent ≤ later.extent
  inFlightBelow :
    ∀ message ∈ state.inFlight, message.extent ≤ state.sent
  inFlightOrdered :
    state.inFlight.Pairwise fun earlier later =>
      earlier.extent ≤ later.extent
  lastOnItsWay :
    state.sent ≤ cached state.inner ∨
      ∃ message,
        (message ∈ state.inFlight ∨ message ∈ state.arrived) ∧
          message.extent = state.sent

/-- A new handle caches the empty feed. -/
theorem ordered_initial
    (key : Option Bytes)
    (name : Option String) :
    Ordered (initial key name) where
  cachedBelow := le_refl _
  cachedBelowInFlight := by simp [initial]
  arrivedBelow := by simp [initial]
  arrivedBelowInFlight := by simp [initial]
  inFlightBelow := by simp [initial]
  inFlightOrdered := by simp [initial]
  lastOnItsWay := Or.inl (le_refl _)

namespace Ordered

variable {state : State} (ordered : Ordered state)

include ordered

/-- Which requests are unanswered does not matter. -/
theorem withAwaiting (awaiting : List (Nat × Request)) :
    Ordered { state with awaiting := awaiting } :=
  ⟨ordered.cachedBelow, ordered.cachedBelowInFlight,
    ordered.arrivedBelow, ordered.arrivedBelowInFlight,
    ordered.inFlightBelow, ordered.inFlightOrdered,
    ordered.lastOnItsWay⟩

/-- A message with a larger pair joins the end of the connection. -/
theorem send
    {message : Message}
    (above : state.sent ≤ message.extent) :
    Ordered { state with
      inFlight := state.inFlight ++ [message]
      sent := message.extent } where
  cachedBelow := ordered.cachedBelow.trans above
  cachedBelowInFlight := by
    intro other member
    rcases List.mem_append.mp member with before | isNew
    · exact ordered.cachedBelowInFlight other before
    · rw [List.mem_singleton.mp isNew]
      exact ordered.cachedBelow.trans above
  arrivedBelow := by
    intro other member
    exact (ordered.arrivedBelow other member).trans above
  arrivedBelowInFlight := by
    intro other member later laterMember
    rcases List.mem_append.mp laterMember with before | isNew
    · exact ordered.arrivedBelowInFlight other member later before
    · rw [List.mem_singleton.mp isNew]
      exact (ordered.arrivedBelow other member).trans above
  inFlightBelow := by
    intro other member
    rcases List.mem_append.mp member with before | isNew
    · exact (ordered.inFlightBelow other before).trans above
    · rw [List.mem_singleton.mp isNew]
  inFlightOrdered := by
    refine List.pairwise_append.mpr
      ⟨ordered.inFlightOrdered, List.pairwise_singleton _ _, ?_⟩
    intro other member later isNew
    rw [List.mem_singleton.mp isNew]
    exact (ordered.inFlightBelow other member).trans above
  lastOnItsWay :=
    Or.inr ⟨message, Or.inl (by simp), rfl⟩

/-- A write that does not go back keeps the invariant. -/
theorem write
    {message : Message}
    {inFlight arrived : List Message}
    (keepsUp : cached state.inner ≤ message.extent)
    (below : message.extent ≤ state.sent)
    (belowInFlight :
      ∀ later ∈ inFlight, message.extent ≤ later.extent)
    (remaining : inFlight.Sublist state.inFlight)
    (waiting : arrived.Sublist state.arrived)
    (accounted :
      ∀ other,
        other ∈ state.inFlight ∨ other ∈ state.arrived →
        other = message ∨ other ∈ inFlight ∨ other ∈ arrived) :
    Ordered { state with
      inner := message.write state.inner
      inFlight := inFlight
      arrived := arrived } where
  cachedBelow := by simpa using below
  cachedBelowInFlight := by simpa using belowInFlight
  arrivedBelow := by
    intro other member
    exact ordered.arrivedBelow other (waiting.subset member)
  arrivedBelowInFlight := by
    intro other member later laterMember
    exact ordered.arrivedBelowInFlight other
      (waiting.subset member) later (remaining.subset laterMember)
  inFlightBelow := by
    intro other member
    exact ordered.inFlightBelow other (remaining.subset member)
  inFlightOrdered := ordered.inFlightOrdered.sublist remaining
  lastOnItsWay := by
    simp only [Message.cached_write]
    rcases ordered.lastOnItsWay with written | ⟨last, onItsWay, isLast⟩
    · exact Or.inl (written.trans keepsUp)
    · rcases accounted last onItsWay with same | still
      · subst last
        exact Or.inl isLast.ge
      · exact Or.inr ⟨last, still, isLast⟩

/-- The response at the head of the connection arrives at its call. -/
theorem arrive
    {message : Message}
    {rest : List Message}
    (head : state.inFlight = message :: rest) :
    Ordered { state with
      inFlight := rest
      arrived := state.arrived ++ [message] } where
  cachedBelow := ordered.cachedBelow
  cachedBelowInFlight := by
    intro other member
    exact ordered.cachedBelowInFlight other (by simp [head, member])
  arrivedBelow := by
    intro other member
    rcases List.mem_append.mp member with before | isNew
    · exact ordered.arrivedBelow other before
    · rw [List.mem_singleton.mp isNew]
      exact ordered.inFlightBelow message (by simp [head])
  arrivedBelowInFlight := by
    intro other member later laterMember
    rcases List.mem_append.mp member with before | isNew
    · exact ordered.arrivedBelowInFlight other before later
        (by simp [head, laterMember])
    · rw [List.mem_singleton.mp isNew]
      have order := ordered.inFlightOrdered
      rw [head] at order
      exact (List.pairwise_cons.mp order).1 later laterMember
  inFlightBelow := by
    intro other member
    exact ordered.inFlightBelow other (by simp [head, member])
  inFlightOrdered := by
    have order := ordered.inFlightOrdered
    rw [head] at order
    exact (List.pairwise_cons.mp order).2
  lastOnItsWay := by
    rcases ordered.lastOnItsWay with written | ⟨last, onItsWay, isLast⟩
    · exact Or.inl written
    · refine Or.inr ⟨last, ?_, isLast⟩
      rw [head] at onItsWay
      simp only [List.mem_cons, List.mem_append] at onItsWay ⊢
      tauto

/-- Every step in which a resuming call keeps up preserves the invariant. -/
theorem step
    {action : Action}
    {next : State}
    (keepsUp : KeepsUp state action)
    (stepped : RemoteLength.step state action = some next) :
    Ordered next := by
  cases action with
  | callOpen call =>
      simp only [RemoteLength.step] at stepped
      split at stepped <;> cases stepped
      · exact ordered
      · exact ordered.withAwaiting _
  | callAppend call =>
      simp only [RemoteLength.step, Option.some.injEq] at stepped
      subst next
      exact ordered.withAwaiting _
  | send message =>
      simp only [RemoteLength.step] at stepped
      split at stepped
      · next maySend =>
          cases stepped
          exact (ordered.withAwaiting
            (unanswered state.awaiting message)).send maySend.1
      · cases stepped
  | deliver =>
      simp only [RemoteLength.step] at stepped
      split at stepped
      · cases stepped
      · next message rest head =>
          split at stepped <;> cases stepped
          · have order := ordered.inFlightOrdered
            rw [head] at order
            refine ordered.write
              (ordered.cachedBelowInFlight message (by simp [head]))
              (ordered.inFlightBelow message (by simp [head]))
              (List.pairwise_cons.mp order).1
              (by simp [head]) (List.Sublist.refl _) ?_
            intro other member
            rw [head, List.mem_cons] at member
            tauto
          · exact ordered.arrive head
  | resume message =>
      simp only [RemoteLength.step] at stepped
      split at stepped
      · next member =>
          cases stepped
          refine ordered.write keepsUp
            (ordered.arrivedBelow message member)
            (ordered.arrivedBelowInFlight message member)
            (List.Sublist.refl _) List.erase_sublist ?_
          intro other otherMember
          rcases otherMember with inFlight | arrived
          · exact Or.inr (Or.inl inFlight)
          · by_cases same : other = message
            · exact Or.inl same
            · exact Or.inr (Or.inr
                ((List.mem_erase_of_ne same).mpr arrived))
      · cases stepped

/-- When nothing is on its way any more, the cache is the last pair sent. -/
theorem cached_eq_sent (complete : Complete state) :
    cached state.inner = state.sent := by
  obtain ⟨_, noneInFlight, noneArrived⟩ := complete
  have written : state.sent ≤ cached state.inner := by
    simpa [noneInFlight, noneArrived] using ordered.lastOnItsWay
  exact le_antisymm ordered.cachedBelow written

end Ordered

/--
In every run in which no call resumes with a pair below the cached one, the
cache ends at the pair of the last message sent.
-/
theorem cached_converges
    (key : Option Bytes)
    (name : Option String)
    {actions : List Action}
    {final : State}
    (ran : Machine.run step (initial key name) actions = some final)
    (keepsUp :
      Machine.Along step KeepsUp (initial key name) actions)
    (complete : Complete final) :
    cached final.inner = final.sent :=
  (Machine.invariant_run_along Ordered
    (fun ordered condition stepped => ordered.step condition stepped)
    (ordered_initial key name) keepsUp ran).cached_eq_sent complete

/-- Open a feed of two blocks and append a third, each call resuming in time. -/
def promptSchedule : List Action :=
  let opened := Message.openResponse 0 ⟨(Key.constant 7).bytes, 2, 10, true⟩
  let appended := Message.appendResponse 1 ⟨3, 15⟩
  [.callOpen 0, .send opened, .deliver, .resume opened,
    .callAppend 1, .send (.appendEvent 3 15), .send appended,
    .deliver, .deliver, .resume appended]

/-- The prompt schedule ends with three blocks in the cache. -/
theorem cached_converges_promptSchedule :
    ∃ final,
      Machine.run step (initial none (some "feed")) promptSchedule =
          some final ∧
        cached final.inner = (3, 15) := by
  have finishes :
      ∃ final,
        Machine.run step (initial none (some "feed")) promptSchedule =
            some final ∧
          Complete final ∧ final.sent = (3, 15) :=
    ⟨_, rfl, by decide, by decide⟩
  obtain ⟨final, ran, complete, sent⟩ := finishes
  refine ⟨final, ran, ?_⟩
  rw [← sent]
  exact cached_converges none (some "feed") ran (by decide) complete

/--
The response to an append arrives, the event of another client's append is
handled, and only then the call resumes.
-/
def lateSchedule : List Action :=
  let opened := Message.openResponse 0 ⟨(Key.constant 7).bytes, 0, 0, true⟩
  let appended := Message.appendResponse 1 ⟨1, 5⟩
  [.callOpen 0, .send opened, .deliver, .resume opened,
    .callAppend 1, .send appended, .send (.appendEvent 2 10),
    .deliver, .deliver, .resume appended]

/-- A call that resumes late leaves the cache behind the last message. -/
theorem late_resume_leaves_cache_behind :
    ∃ final,
      Machine.run step (initial none (some "feed")) lateSchedule =
          some final ∧
        Complete final ∧
        cached final.inner = (1, 5) ∧ final.sent = (2, 10) := by
  exact ⟨_, rfl, by decide, by decide, by decide⟩

end RemoteLength

end Hyperspace
