import Hyperspace.Broadcast
import Hyperspace.Machine
import Hyperspace.RemoteHypercore

namespace Hyperspace

/-!
# The listeners of a remote feed

`on_append` and `on_download` of a `RemoteHypercore` take the write lock on its
record, change it and send an event to every listener.  The channels are
bounded, and the lock is held until every channel that is not closed has room
again; whoever wants to read the length of the feed waits meanwhile.

This module runs the handlers, the listeners and the users of the lock.  Every
listener gets every event since its subscription once and in order.  The lock is
held for long only by listeners that have let a whole channel fill up, and then
until they take an event or go away.
-/

namespace ClientEvents

open Broadcast (Receiver)

/-- The number given to `mpsc::channel`. -/
def capacity : Nat := 100

/-- The record of a feed, the receivers of its listeners, and the lock. -/
structure State where
  inner : InnerHypercore
  receivers : List (Receiver HypercoreEvent)
  /-- Whether a handler holds the write lock. -/
  held : Bool
  /-- Every event that has been sent. -/
  log : List HypercoreEvent

/-- A feed without listeners. -/
def initial (inner : InnerHypercore) : State where
  inner := { inner with listeners := [] }
  receivers := []
  held := false
  log := []

/-- What can happen. -/
inductive Action where
  | onAppend (length byteLength : Nat)
  | onDownload (seq : Nat) (byteLength : Option Nat)
  /-- The handler has sent its event and releases the lock. -/
  | finish
  | subscribe
  /-- Another use of the lock, as by `len`. -/
  | useLock
  /-- The owner of a receiver takes an event. -/
  | take (index : Nat)
  /-- The owner of a receiver drops it. -/
  | close (index : Nat)
  deriving DecidableEq

/-- A handler sends an event. -/
def State.emitted
    (state : State)
    (inner : InnerHypercore)
    (event : HypercoreEvent) : State where
  inner := inner
  receivers := state.receivers.map (Receiver.send event)
  held := true
  log := state.log ++ [event]

/-- Whether a sender waits for its channel to have room. -/
def waits
    (receiver : Receiver HypercoreEvent)
    (queue : List HypercoreEvent) : Bool :=
  receiver.alive && capacity < queue.length

/-- One step. -/
def step (state : State) : Action → Option State
  | .onAppend length byteLength =>
      if state.held then
        none
      else
        some (state.emitted (state.inner.onAppend length byteLength)
          .append)
  | .onDownload seq byteLength =>
      if state.held then
        none
      else
        some (state.emitted (state.inner.onDownload seq byteLength)
          (.download seq))
  | .finish =>
      if state.held &&
          !(List.zipWith waits state.receivers
            state.inner.listeners).any id then
        some { state with held := false }
      else
        none
  | .subscribe =>
      if state.held then
        none
      else
        some { state with
          inner := state.inner.subscribe
          receivers := state.receivers ++ [.new state.log] }
  | .useLock => if state.held then none else some state
  | .take index =>
      match state.receivers[index]?.bind Receiver.take with
      | none => none
      | some receiver =>
          some { state with
            inner :=
              { state.inner with
                listeners :=
                  state.inner.listeners.modify index List.tail }
            receivers := state.receivers.set index receiver }
  | .close index =>
      some { state with
        receivers := state.receivers.modify index Receiver.close }

/-- What holds in every state. -/
structure Sound (state : State) : Prop where
  lengths : state.inner.listeners.length = state.receivers.length
  queues :
    ∀ (index : Nat) (receiver : Receiver HypercoreEvent),
      state.receivers[index]? = some receiver →
      receiver.alive = true →
      state.inner.listeners[index]? = some receiver.queue
  follows : ∀ receiver ∈ state.receivers, receiver.Follows state.log
  bounded :
    ∀ receiver ∈ state.receivers,
      receiver.alive = true →
      receiver.queue.length ≤
        capacity + if state.held then 1 else 0

section

variable {state next : State}

/-- A feed without listeners is sound. -/
theorem sound_initial (inner : InnerHypercore) :
    Sound (initial inner) where
  lengths := rfl
  queues := by simp [initial]
  follows := by simp [initial]
  bounded := by simp [initial]

/-- A handler that sends an event keeps the listeners sound. -/
theorem Sound.emitted
    (sound : Sound state)
    (free : state.held = false)
    {inner : InnerHypercore}
    {event : HypercoreEvent}
    (listeners :
      inner.listeners =
        state.inner.listeners.map fun queue => queue ++ [event]) :
    Sound (state.emitted inner event) where
  lengths := by
    simp [State.emitted, listeners, sound.lengths]
  queues := by
    intro index receiver isReceiver isAlive
    simp only [State.emitted, List.getElem?_map,
      Option.map_eq_some_iff] at isReceiver
    obtain ⟨before, isBefore, rfl⟩ := isReceiver
    rw [Receiver.send] at isAlive ⊢
    split at isAlive
    · next wasAlive =>
        simp [State.emitted, listeners,
          sound.queues index before isBefore wasAlive, wasAlive]
    · next wasDropped =>
        exact absurd isAlive wasDropped
  follows := by
    intro receiver member
    obtain ⟨before, wasMember, rfl⟩ := List.mem_map.mp member
    exact (sound.follows before wasMember).send event
  bounded := by
    intro receiver member isAlive
    obtain ⟨before, wasMember, rfl⟩ := List.mem_map.mp member
    have bounded := sound.bounded before wasMember
    rw [free] at bounded
    rw [Receiver.send] at isAlive ⊢
    split at isAlive
    · next wasAlive =>
        have few := bounded wasAlive
        simp only [Bool.false_eq_true, ↓reduceIte] at few
        simp [State.emitted, wasAlive]
        omega
    · next wasDropped =>
        exact absurd isAlive wasDropped

/-- Nobody waits for a channel of a listener that is there. -/
theorem Sound.finish_iff
    (sound : Sound state) :
    (List.zipWith waits state.receivers
        state.inner.listeners).any id = false ↔
      ∀ receiver ∈ state.receivers,
        receiver.alive = true → receiver.queue.length ≤ capacity := by
  rw [List.any_eq_false]
  constructor
  · intro noneWaits receiver member isAlive
    obtain ⟨index, isReceiver⟩ := List.mem_iff_getElem?.mp member
    have isQueue := sound.queues index receiver isReceiver isAlive
    have zipped :
        (List.zipWith waits state.receivers
          state.inner.listeners)[index]? =
          some (waits receiver receiver.queue) := by
      simp [List.getElem?_zipWith, isReceiver, isQueue]
    have goesOn := noneWaits _ (List.mem_of_getElem? zipped)
    simp only [waits, isAlive, Bool.true_and, id_eq,
      decide_eq_true_eq, Nat.not_lt] at goesOn
    exact goesOn
  · intro room isWaiting member
    obtain ⟨index, zipped⟩ := List.mem_iff_getElem?.mp member
    rw [List.getElem?_zipWith] at zipped
    split at zipped
    · next receiver queue isReceiver isQueue =>
        cases zipped
        cases isAlive : receiver.alive with
        | false =>
            simp [waits, isAlive]
        | true =>
            rw [sound.queues index receiver isReceiver isAlive]
              at isQueue
            cases isQueue
            have few :=
              room receiver (List.mem_of_getElem? isReceiver) isAlive
            simp [waits, isAlive, few]
    · cases zipped

/-- Taking an event keeps the listeners sound. -/
theorem Sound.take
    (sound : Sound state)
    {index : Nat}
    {before after : Receiver HypercoreEvent}
    (isReceiver : state.receivers[index]? = some before)
    (taken : before.take = some after) :
    Sound
      { state with
        inner :=
          { state.inner with
            listeners :=
              state.inner.listeners.modify index List.tail }
        receivers := state.receivers.set index after } := by
  have follows :=
    (sound.follows before (List.mem_of_getElem? isReceiver)).take taken
  have bounded :=
    sound.bounded before (List.mem_of_getElem? isReceiver)
  obtain ⟨isAlive, event, rest, isQueue, isAfter⟩ :=
    Receiver.take_eq_some taken
  have isListener := sound.queues index before isReceiver isAlive
  rw [isQueue] at isListener
  have inside : index < state.receivers.length :=
    (List.getElem?_eq_some_iff.mp isReceiver).1
  refine ⟨by simp [sound.lengths], ?_, ?_, ?_⟩
  · intro other receiver isOther otherAlive
    by_cases same : index = other
    · subst same
      rw [List.getElem?_set_self inside] at isOther
      cases isOther
      simp [isListener, isAfter]
    · rw [List.getElem?_set_ne same] at isOther
      simpa [List.getElem?_modify, same] using
        sound.queues other receiver isOther otherAlive
  · intro receiver member
    rcases List.mem_or_eq_of_mem_set member with earlier | rfl
    · exact sound.follows receiver earlier
    · exact follows
  · intro receiver member receiverAlive
    rcases List.mem_or_eq_of_mem_set member with earlier | rfl
    · exact sound.bounded receiver earlier receiverAlive
    · have few := bounded isAlive
      rw [isQueue, List.length_cons] at few
      rw [isAfter]
      exact Nat.le_of_succ_le few

/-- The receivers after one of them has been dropped. -/
theorem getElem?_modify_close
    {receivers : List (Receiver HypercoreEvent)}
    {index other : Nat}
    {receiver : Receiver HypercoreEvent}
    (isReceiver :
      (receivers.modify index Receiver.close)[other]? =
        some receiver) :
    ∃ before,
      receivers[other]? = some before ∧
        (receiver = before ∨
          (index = other ∧ receiver = before.close)) := by
  rw [List.getElem?_modify, Option.map_eq_map,
    Option.map_eq_some_iff] at isReceiver
  obtain ⟨before, isBefore, rfl⟩ := isReceiver
  refine ⟨before, isBefore, ?_⟩
  split
  · next same => exact Or.inr ⟨same, rfl⟩
  · exact Or.inl rfl

/-- Dropping a receiver keeps the listeners sound. -/
theorem Sound.close
    (sound : Sound state)
    (index : Nat) :
    Sound
      { state with
        receivers := state.receivers.modify index Receiver.close } where
  lengths := by simp [sound.lengths]
  queues := by
    intro other receiver isReceiver isAlive
    obtain ⟨before, isBefore, rfl | ⟨_, rfl⟩⟩ :=
      getElem?_modify_close isReceiver
    · exact sound.queues other receiver isBefore isAlive
    · cases isAlive
  follows := by
    intro receiver member
    obtain ⟨other, isReceiver⟩ := List.mem_iff_getElem?.mp member
    obtain ⟨before, isBefore, closed⟩ :=
      getElem?_modify_close isReceiver
    have follows := sound.follows before (List.mem_of_getElem? isBefore)
    rcases closed with rfl | ⟨_, rfl⟩
    · exact follows
    · exact follows.close
  bounded := by
    intro receiver member isAlive
    obtain ⟨other, isReceiver⟩ := List.mem_iff_getElem?.mp member
    obtain ⟨before, isBefore, rfl | ⟨_, rfl⟩⟩ :=
      getElem?_modify_close isReceiver
    · exact sound.bounded receiver (List.mem_of_getElem? isBefore)
        isAlive
    · cases isAlive

/-- A new listener keeps the listeners sound. -/
theorem Sound.subscribe
    (sound : Sound state) :
    Sound
      { state with
        inner := state.inner.subscribe
        receivers := state.receivers ++ [.new state.log] } where
  lengths := by simp [InnerHypercore.subscribe, sound.lengths]
  queues := by
    intro index receiver isReceiver isAlive
    simp only [InnerHypercore.subscribe]
    rw [List.getElem?_append] at isReceiver ⊢
    rw [sound.lengths]
    split at isReceiver
    · next inside =>
        rw [if_pos inside]
        exact sound.queues index receiver isReceiver isAlive
    · next outside =>
        rw [if_neg outside]
        rw [List.getElem?_singleton] at isReceiver ⊢
        split at isReceiver
        · next isLast =>
            cases isReceiver
            rw [if_pos isLast]
            rfl
        · cases isReceiver
  follows := by
    intro receiver member
    rcases List.mem_append.mp member with earlier | isNew
    · exact sound.follows receiver earlier
    · rw [List.mem_singleton.mp isNew]
      exact Receiver.follows_new state.log
  bounded := by
    intro receiver member isAlive
    rcases List.mem_append.mp member with earlier | isNew
    · exact sound.bounded receiver earlier isAlive
    · rw [List.mem_singleton.mp isNew]
      exact Nat.zero_le _

/-- What taking an event needs and does. -/
theorem step_take
    {index : Nat}
    (stepped : step state (.take index) = some next) :
    ∃ before after,
      state.receivers[index]? = some before ∧
        before.take = some after ∧
        next =
          { state with
            inner :=
              { state.inner with
                listeners :=
                  state.inner.listeners.modify index List.tail }
            receivers := state.receivers.set index after } := by
  simp only [step] at stepped
  split at stepped
  · cases stepped
  · next after taken =>
      cases stepped
      obtain ⟨before, isBefore, isTaken⟩ :=
        Option.bind_eq_some_iff.mp taken
      exact ⟨before, after, isBefore, isTaken, rfl⟩

/-- Every step keeps the listeners sound. -/
theorem Sound.step
    (sound : Sound state)
    {action : Action}
    (stepped : step state action = some next) :
    Sound next := by
  cases action with
  | onAppend length byteLength =>
      simp only [ClientEvents.step] at stepped
      split at stepped
      · cases stepped
      · next free =>
          cases stepped
          exact sound.emitted (by simpa using free)
            (InnerHypercore.onAppend_listeners _ _ _)
  | onDownload seq byteLength =>
      simp only [ClientEvents.step] at stepped
      split at stepped
      · cases stepped
      · next free =>
          cases stepped
          exact sound.emitted (by simpa using free)
            (InnerHypercore.onDownload_listeners _ _ _)
  | finish =>
      simp only [ClientEvents.step] at stepped
      split at stepped
      · next finishes =>
          cases stepped
          simp only [Bool.and_eq_true, Bool.not_eq_eq_eq_not,
            Bool.not_true] at finishes
          exact ⟨sound.lengths, sound.queues, sound.follows,
            sound.finish_iff.mp finishes.2⟩
      · cases stepped
  | subscribe =>
      simp only [ClientEvents.step] at stepped
      split at stepped
      · cases stepped
      · cases stepped
        exact sound.subscribe
  | useLock =>
      simp only [ClientEvents.step] at stepped
      split at stepped
      · cases stepped
      · cases stepped
        exact sound
  | take index =>
      obtain ⟨before, after, isBefore, taken, rfl⟩ := step_take stepped
      exact sound.take isBefore taken
  | close index =>
      cases stepped
      exact sound.close index

/-! ## Who holds up the handler -/

/-- The listener is there, and its channel has no room. -/
def Full (receiver : Receiver HypercoreEvent) : Bool :=
  receiver.alive && capacity < receiver.queue.length

/-- The listener at an index is full. -/
def FullAt (state : State) (index : Nat) : Prop :=
  ∃ receiver,
    state.receivers[index]? = some receiver ∧ Full receiver = true

/-- The owner of a receiver does something about it. -/
def Action.Serves (index : Nat) : Action → Prop
  | .take other => other = index
  | .close other => other = index
  | _ => False

/-- While a full listener does nothing, the lock stays held. -/
theorem held_step
    (sound : Sound state)
    {index : Nat}
    (isFull : FullAt state index)
    (isHeld : state.held = true)
    {action : Action}
    (idle : ¬ action.Serves index)
    (stepped : step state action = some next) :
    FullAt next index ∧ next.held = true := by
  obtain ⟨receiver, isReceiver, noRoom⟩ := isFull
  cases action with
  | onAppend length byteLength => simp [step, isHeld] at stepped
  | onDownload seq byteLength => simp [step, isHeld] at stepped
  | subscribe => simp [step, isHeld] at stepped
  | useLock => simp [step, isHeld] at stepped
  | finish =>
      simp only [step] at stepped
      split at stepped
      · next finishes =>
          simp only [Bool.and_eq_true, Bool.not_eq_eq_eq_not,
            Bool.not_true] at finishes
          simp only [Full, Bool.and_eq_true,
            decide_eq_true_eq] at noRoom
          have room :=
            sound.finish_iff.mp finishes.2 receiver
              (List.mem_of_getElem? isReceiver) noRoom.1
          exact absurd noRoom.2 (Nat.not_lt.mpr room)
      · cases stepped
  | take other =>
      obtain ⟨before, after, _, _, rfl⟩ := step_take stepped
      refine ⟨⟨receiver, ?_, noRoom⟩, isHeld⟩
      rw [List.getElem?_set_ne idle]
      exact isReceiver
  | close other =>
      cases stepped
      refine ⟨⟨receiver, ?_, noRoom⟩, isHeld⟩
      have different : ¬ other = index := idle
      simp [different, isReceiver]

/-- A full listener can take an event, and is then full no more. -/
theorem step_take_of_full
    {index : Nat}
    {receiver : Receiver HypercoreEvent}
    (sound : Sound state)
    (isReceiver : state.receivers[index]? = some receiver)
    (isFull : Full receiver = true) :
    ∃ next after,
      step state (.take index) = some next ∧
        next.held = state.held ∧
        next.receivers = state.receivers.set index after ∧
        Full after = false := by
  simp only [Full, Bool.and_eq_true, decide_eq_true_eq] at isFull
  have few :=
    sound.bounded receiver (List.mem_of_getElem? isReceiver) isFull.1
  cases isQueue : receiver.queue with
  | nil =>
      rw [isQueue] at isFull
      simp at isFull
  | cons event rest =>
      let after : Receiver HypercoreEvent :=
        { receiver with
          taken := receiver.taken ++ [event]
          queue := rest }
      have taken : receiver.take = some after := by
        simp [Receiver.take, isFull.1, isQueue, after]
      have isTaken :
          state.receivers[index]?.bind Receiver.take = some after := by
        rw [isReceiver]
        exact taken
      have room : rest.length ≤ capacity := by
        rw [isQueue, List.length_cons] at few
        split at few <;> omega
      refine ⟨
        { state with
          inner :=
            { state.inner with
              listeners :=
                state.inner.listeners.modify index List.tail }
          receivers := state.receivers.set index after },
        after, ?_, rfl, rfl, ?_⟩
      · rw [step, isTaken]
      · simp [Full, after, room]

/-- The handler goes on when the full listeners have taken an event each. -/
theorem exists_release
    (sound : Sound state)
    (isHeld : state.held = true) :
    ∃ (indices : List Nat) (released : State),
      indices.Nodup ∧
        (∀ index ∈ indices, FullAt state index) ∧
        Machine.run step state
            (indices.map Action.take ++ [.finish]) =
          some released ∧
        released.held = false := by
  induction full : state.receivers.countP Full generalizing state with
  | zero =>
      rw [List.countP_eq_zero] at full
      have room :
          ∀ receiver ∈ state.receivers,
            receiver.alive = true →
            receiver.queue.length ≤ capacity := by
        intro receiver member isAlive
        simpa [Full, isAlive] using full receiver member
      have goesOn := sound.finish_iff.mpr room
      refine ⟨[], { state with held := false }, List.nodup_nil, by simp,
        ?_, rfl⟩
      simp [Machine.run, step, isHeld, goesOn]
  | succ count inductionHypothesis =>
      obtain ⟨receiver, member, isFull⟩ :
          ∃ receiver ∈ state.receivers, Full receiver = true := by
        rw [← List.countP_pos_iff]
        omega
      obtain ⟨index, isReceiver⟩ := List.mem_iff_getElem?.mp member
      obtain ⟨inside, isElement⟩ :=
        List.getElem?_eq_some_iff.mp isReceiver
      obtain ⟨next, after, stepped, sameLock, receivers, notFull⟩ :=
        step_take_of_full sound isReceiver isFull
      have fewer : next.receivers.countP Full = count := by
        rw [receivers, List.countP_set inside, isElement]
        simp only [isFull, notFull, ↓reduceIte, Bool.false_eq_true]
        omega
      obtain ⟨indices, released, distinct, areFull, ran, isReleased⟩ :=
        inductionHypothesis (sound.step stepped)
          (sameLock.trans isHeld) fewer
      have isNew : index ∉ indices := by
        intro again
        obtain ⟨found, isFound, foundFull⟩ := areFull index again
        rw [receivers, List.getElem?_set_self inside] at isFound
        cases isFound
        rw [notFull] at foundFull
        cases foundFull
      refine ⟨index :: indices, released,
        List.nodup_cons.mpr ⟨isNew, distinct⟩, ?_,
        Machine.run_cons.mpr ⟨next, stepped, ran⟩, isReleased⟩
      intro other isOther
      rcases List.mem_cons.mp isOther with rfl | later
      · exact ⟨receiver, isReceiver, isFull⟩
      · obtain ⟨found, isFound, foundFull⟩ := areFull other later
        rw [receivers] at isFound
        by_cases same : index = other
        · subst same
          exact ⟨receiver, isReceiver, isFull⟩
        · rw [List.getElem?_set_ne same] at isFound
          exact ⟨found, isFound, foundFull⟩

/--
In every run of handlers, listeners and other users of a feed's record: every
listener gets every event since it subscribed, once and in order; no more than
one event beyond its capacity is queued in a channel; if a handler holds the
lock, it can release it once each full listener has taken one event, and no
listener more than one; and as long as a full listener neither takes one nor
goes away, nobody gets the lock.
-/
theorem listeners_follow_and_hold_up
    {inner : InnerHypercore}
    {actions : List Action}
    {final : State}
    (ran : Machine.run step (initial inner) actions = some final) :
    (∀ receiver ∈ final.receivers, receiver.Follows final.log) ∧
      (∀ (index : Nat) (receiver : Receiver HypercoreEvent),
        final.receivers[index]? = some receiver →
        receiver.alive = true →
        final.inner.listeners[index]? = some receiver.queue ∧
          receiver.queue.length ≤ capacity + 1) ∧
      (final.held = true →
        ∃ (indices : List Nat) (released : State),
          indices.Nodup ∧
            (∀ index ∈ indices, FullAt final index) ∧
            Machine.run step final
                (indices.map Action.take ++ [.finish]) =
              some released ∧
            released.held = false) ∧
      (final.held = true →
        ∀ index,
          FullAt final index →
          ∀ later after,
            (∀ action ∈ later, ¬ action.Serves index) →
            Machine.run step final later = some after →
            after.held = true) := by
  have sound : Sound final :=
    Machine.invariant_run Sound
      (fun sound stepped => sound.step stepped)
      (sound_initial inner) ran
  refine ⟨sound.follows, ?_, exists_release sound, ?_⟩
  · intro index receiver isReceiver isAlive
    refine ⟨sound.queues index receiver isReceiver isAlive, ?_⟩
    have few :=
      sound.bounded receiver (List.mem_of_getElem? isReceiver) isAlive
    split at few <;> omega
  · intro isHeld index isFull later after idle ranLater
    have alongIdle :
        Machine.Along step
          (fun _ action => ¬ Action.Serves index action) final
          later :=
      Machine.along_of_mem idle
    exact (Machine.invariant_run_along
      (fun state =>
        Sound state ∧ FullAt state index ∧ state.held = true)
      (fun holds idle stepped =>
        ⟨holds.1.step stepped,
          held_step holds.1 holds.2.1 holds.2.2 idle stepped⟩)
      ⟨sound, isFull, isHeld⟩ alongIdle ranLater).2.2

end

/-- A listener subscribes, and takes nothing while its channel fills up. -/
def neverTakes : List Action :=
  .subscribe ::
    (List.replicate capacity [.onAppend 1 1, .finish]).flatten ++
    [.onDownload 4 none]

set_option maxRecDepth 20000 in
/-- The next handler keeps the lock until the listener does something. -/
theorem listeners_follow_and_hold_up_neverTakes :
    ∃ final,
      Machine.run step (initial (InnerHypercore.new none none))
          neverTakes =
          some final ∧
        final.log =
          List.replicate capacity .append ++ [.download 4] ∧
        (∀ later after,
          (∀ action ∈ later, ¬ action.Serves 0) →
          Machine.run step final later = some after →
          after.held = true) := by
  obtain ⟨final, ran, isHeld, isLog, isFull⟩ :
      ∃ final,
        Machine.run step (initial (InnerHypercore.new none none))
            neverTakes =
            some final ∧
          final.held = true ∧
          final.log =
            List.replicate capacity .append ++ [.download 4] ∧
          FullAt final 0 :=
    ⟨_, rfl, rfl, rfl, _, rfl, rfl⟩
  obtain ⟨_, _, _, holdsUp⟩ := listeners_follow_and_hold_up ran
  exact ⟨final, ran, isLog, holdsUp isHeld 0 isFull⟩

end ClientEvents

end Hyperspace
