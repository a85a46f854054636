import Hyperspace.Key
import Mathlib.Algebra.BigOperators.Group.List.Basic
import Mathlib.Algebra.Ring.Int.Defs
import Mathlib.Algebra.Order.Ring.Int

namespace Hyperspace

/-!
# The client's handle on one feed

`RemoteHypercore` of `client/src/session.rs` is a shared pointer to the record
`InnerHypercore`.  This module holds that record, the RPC messages that read or
write it, and the methods as functions on the record.  A method that awaits a
response is split at the await: the request it builds, and the write it makes
when it resumes.
-/

/-- The message of an `io::Error` of kind `Other`. -/
abbrev IoError := String

/-- The message `OpenRequest`; the client never sets `weak`. -/
structure OpenRequest where
  id : Nat
  key : Option Bytes
  name : Option String
  deriving Repr, DecidableEq

/-- The message `AppendRequest`. -/
structure AppendRequest where
  id : Nat
  blocks : List Bytes
  deriving Repr, DecidableEq

/--
The message `GetRequest`; the client never sets `wait`, `if_available` and
`on_wait_id`.
-/
structure GetRequest where
  id : Nat
  seq : Nat
  resourceId : Nat
  deriving Repr, DecidableEq

/--
The message `SeekRequest`; the client never sets `start`, `end`, `wait` and
`if_available`.
-/
structure SeekRequest where
  id : Nat
  byteOffset : Nat
  deriving Repr, DecidableEq

/-- The requests that a `RemoteHypercore` sends. -/
inductive HypercoreRequest where
  | open (request : OpenRequest)
  | append (request : AppendRequest)
  | get (request : GetRequest)
  | seek (request : SeekRequest)
  deriving Repr, DecidableEq

/-- The id in a request, by which the server finds the session. -/
def HypercoreRequest.id : HypercoreRequest → Nat
  | .open request => request.id
  | .append request => request.id
  | .get request => request.id
  | .seek request => request.id

/--
The methods of a `RemoteHypercore` that send a request.  The resource id of a
`get` comes from a counter that all handles share.
-/
inductive HypercoreCall where
  | open
  | append (blocks : List Bytes)
  | get (seq resourceId : Nat)
  | seek (byteOffset : Nat)
  deriving Repr, DecidableEq

/-- The fields of `OpenResponse` that the client reads. -/
structure OpenResponse where
  key : Bytes
  length : Nat
  byteLength : Nat
  writable : Bool
  deriving Repr, DecidableEq

/-- The fields of `AppendResponse` that the client reads. -/
structure AppendResponse where
  length : Nat
  byteLength : Nat
  deriving Repr, DecidableEq

/-- Events that a `RemoteHypercore` sends to its listeners. -/
inductive HypercoreEvent where
  | append
  | download (seq : Nat)
  deriving Repr, DecidableEq

/--
The record behind a `RemoteHypercore`.  A listener is represented by the events
queued in its receiver.
-/
structure InnerHypercore where
  id : Nat
  name : Option String
  key : Option Bytes
  length : Nat
  byteLength : Nat
  writable : Bool
  opened : Bool
  listeners : List (List HypercoreEvent)
  deriving Repr, DecidableEq

namespace InnerHypercore

/-- The record that `RemoteHypercore::new` allocates. -/
def new
    (key : Option Bytes)
    (name : Option String) : InnerHypercore where
  id := 0
  name := name
  key := key
  length := 0
  byteLength := 0
  writable := false
  opened := false
  listeners := []

/-- The method `set_id`. -/
def setId (inner : InnerHypercore) (id : Nat) : InnerHypercore :=
  { inner with id := id }

@[simp] theorem setId_opened (inner : InnerHypercore) (id : Nat) :
    (inner.setId id).opened = inner.opened :=
  rfl

/-- The method `subscribe`: a new listener with an empty queue. -/
def subscribe (inner : InnerHypercore) : InnerHypercore :=
  { inner with listeners := inner.listeners ++ [[]] }

/-- The method `emit`: queue the event at every listener. -/
def emit
    (inner : InnerHypercore)
    (event : HypercoreEvent) : InnerHypercore :=
  { inner with
    listeners := inner.listeners.map fun queue => queue ++ [event] }

/-- The request that `open` sends; the id is cast to `u32`. -/
def openRequest (inner : InnerHypercore) : OpenRequest where
  id := inner.id % 2 ^ 32
  key := inner.key
  name := inner.name

/-- The request that a method sends; every one casts the id to `u32`. -/
def request (inner : InnerHypercore) : HypercoreCall → HypercoreRequest
  | .open => .open inner.openRequest
  | .append blocks =>
      .append { id := inner.id % 2 ^ 32, blocks := blocks }
  | .get seq resourceId =>
      .get
        { id := inner.id % 2 ^ 32, seq := seq, resourceId := resourceId }
  | .seek byteOffset =>
      .seek { id := inner.id % 2 ^ 32, byteOffset := byteOffset }

/-- Whatever the method, the request has the id of the record, cast. -/
theorem request_id (inner : InnerHypercore) (call : HypercoreCall) :
    (inner.request call).id = inner.id % 2 ^ 32 := by
  cases call <;> rfl

/-- The write of `open` after its response has arrived. -/
def onOpenResponse
    (inner : InnerHypercore)
    (response : OpenResponse) : InnerHypercore :=
  { inner with
    key := some response.key
    opened := true
    length := response.length
    byteLength := response.byteLength
    writable := response.writable }

/-- The write of `append` after its response has arrived. -/
def onAppendResponse
    (inner : InnerHypercore)
    (response : AppendResponse) : InnerHypercore :=
  { inner with
    length := response.length
    byteLength := response.byteLength }

/-- The method `on_append`. -/
def onAppend
    (inner : InnerHypercore)
    (length byteLength : Nat) : InnerHypercore :=
  emit { inner with length := length, byteLength := byteLength } .append

/-- The method `on_download`. -/
def onDownload
    (inner : InnerHypercore)
    (seq : Nat)
    (byteLength : Option Nat) : InnerHypercore :=
  let counted :=
    match byteLength with
    | some byteLength => { inner with byteLength := byteLength }
    | none => inner
  let grown :=
    if counted.length ≤ seq then
      { counted with length := seq + 1 }
    else
      counted
  grown.emit (.download seq)

/-! ## What the event handlers write -/

section

variable (inner : InnerHypercore)

/-- The cached length after an append. -/
@[simp] theorem onAppend_length (length byteLength : Nat) :
    (inner.onAppend length byteLength).length = length :=
  rfl

/-- The cached byte length after an append. -/
@[simp] theorem onAppend_byteLength (length byteLength : Nat) :
    (inner.onAppend length byteLength).byteLength = byteLength :=
  rfl

/-- An append reaches every listener. -/
theorem onAppend_listeners (length byteLength : Nat) :
    (inner.onAppend length byteLength).listeners =
      inner.listeners.map fun queue => queue ++ [.append] :=
  rfl

/-- The cached length after a download reaches the block at least. -/
@[simp] theorem onDownload_length
    (seq : Nat)
    (byteLength : Option Nat) :
    (inner.onDownload seq byteLength).length =
      max inner.length (seq + 1) := by
  by_cases past : inner.length ≤ seq
  · have longer : inner.length ≤ seq + 1 := Nat.le_succ_of_le past
    cases byteLength <;> simp [onDownload, emit, past, longer]
  · have within : seq + 1 ≤ inner.length := by omega
    cases byteLength <;> simp [onDownload, emit, past, within]

/-- The cached byte length after a download that carries one. -/
@[simp] theorem onDownload_byteLength (seq byteLength : Nat) :
    (inner.onDownload seq (some byteLength)).byteLength =
      byteLength := by
  simp only [onDownload, emit]
  split <;> rfl

/-- A download reaches every listener. -/
theorem onDownload_listeners
    (seq : Nat)
    (byteLength : Option Nat) :
    (inner.onDownload seq byteLength).listeners =
      inner.listeners.map fun queue => queue ++ [.download seq] := by
  cases byteLength <;>
    simp only [onDownload, emit] <;>
    split <;> rfl

end

end InnerHypercore

end Hyperspace
