import Hyperspace.Replicator
import Mathlib.Algebra.Ring.Nat

namespace Hyperspace

/-!
# The peer loop

`Peer` of `replicator/src/peer.rs` replicates one feed over one channel.  Its
loop handles the messages of the channel and the events of the feed, and every
handler sends messages on the channel.

The feed itself is the dependency `hypercore`; what the loop uses of it, and of
the bitfield encoding, is the structure `Hypercore`, over an arbitrary type of
feeds.  A handler is a function from the state of the loop to a `Turn`: the
next state, the messages sent, and how the handler returned.
-/

/-- A node of a proof. -/
structure Node where
  index : Nat
  hash : Bytes
  size : Nat
  deriving Repr, DecidableEq

/-- The structure `Proof`. -/
structure Proof (Signature : Type) where
  index : Nat
  nodes : List Node
  signature : Option Signature
  deriving Repr, DecidableEq

/-- What the loop uses of its dependencies; `none` stands for an error. -/
structure Hypercore (Feed Signature : Type) where
  len : Feed → Nat
  has : Feed → Nat → Bool
  append : Feed → Bytes → Option Feed
  get : Feed → Nat → Option (Option Bytes)
  proof : Feed → Nat → Option (Proof Signature)
  /-- `Feed::put`, and whether it queues a `Download` event. -/
  put : Feed → Nat → Option Bytes → Proof Signature → Option (Feed × Bool)
  /-- `compress` of the feed's bitfield, from a start and for a length. -/
  compress : Feed → Nat → Nat → Option Bytes
  /-- `bitfield_rle::decode`. -/
  decode : Bytes → Option Bytes
  signatureToBytes : Signature → Bytes
  signatureOfBytes : Bytes → Option Signature

/-- What `Feed::put` stores is at most the block that it is given. -/
structure Hypercore.PutsOnly
    {Feed Signature : Type}
    (core : Hypercore Feed Signature) : Prop where
  putAdds :
    ∀ {feed next index value proof queued other},
      core.put feed index value proof = some (next, queued) →
      core.has next other = true →
      core.has feed other = true ∨ other = index

/-- The messages of the channel that the loop sends or does not ignore. -/
inductive Message where
  | openChannel
  | want (start : Nat) (length : Option Nat)
  | announce (start : Nat) (length : Option Nat)
      (bitfield : Option Bytes) (ack : Option Bool)
  | request (index : Nat)
  | data (index : Nat) (value : Option Bytes) (nodes : List Node)
      (signature : Option Bytes)
  | ignored
  deriving Repr, DecidableEq

/-- The events of a feed that the loop does not ignore. -/
inductive FeedEvent where
  | append
  | download (index : Nat)
  deriving Repr, DecidableEq

/-- How a loop ends other than by the end of the channel. -/
inductive PeerError where
  | compress
  | signature
  | put
  | get
  | proof
  /-- A failed decoding, or an arithmetic overflow that is checked. -/
  | panicked
  deriving Repr, DecidableEq

/-- The structure `Peer`, with the feed and the events queued for the loop. -/
structure Peer (Feed : Type) where
  feed : Feed
  feedEvents : List FeedEvent
  remoteWant : Bool
  remoteAck : Bool
  wantBitfield : List Nat
  stats : Replicator.Stats

/-- What a handler does. -/
structure Turn (Feed : Type) where
  peer : Peer Feed
  sent : List Message
  result : Except PeerError Unit

/-- Where a loop is. -/
inductive LoopPhase where
  /-- It has subscribed to the feed, and not yet executed `on_open`. -/
  | starting
  | looping
  /-- It has ended with an error. -/
  | ended
  deriving Repr, DecidableEq

/-- Where the loop is after a handler. -/
def Turn.phase {Feed : Type} (turn : Turn Feed) : LoopPhase :=
  match turn.result with
  | .ok _ => .looping
  | .error _ => .ended

/-- The bits of a byte, in the order of `sparse_bitfield`. -/
def bitsOfByte (byte : UInt8) : List Bool :=
  (List.range 8).map fun offset =>
    byte.toNat.testBit (7 - offset)

/-- The number of blocks that a `Want` is about. -/
def windowLength : Nat := 1024 * 1024

namespace Peer

variable {Feed Signature : Type}

/-- The function `new`, for a feed to which the loop has subscribed. -/
def new (feed : Feed) (stats : Replicator.Stats) : Peer Feed where
  feed := feed
  feedEvents := []
  remoteWant := false
  remoteAck := false
  wantBitfield := []
  stats := stats

/-- A handler that returns normally. -/
def done (peer : Peer Feed) (sent : List Message) : Turn Feed :=
  ⟨peer, sent, .ok ()⟩

/-- A handler that returns an error or panics. -/
def failed
    (peer : Peer Feed)
    (sent : List Message)
    (error : PeerError) : Turn Feed :=
  ⟨peer, sent, .error error⟩

/-- The method `send_have`. -/
def sendHave
    (peer : Peer Feed)
    (start : Nat)
    (length : Option Nat) : Turn Feed :=
  peer.done [.announce start length none none]

/-- The method `send_wants`. -/
def sendWants (peer : Peer Feed) (index : Nat) : Turn Feed :=
  let window := index / windowLength
  { peer with wantBitfield := peer.wantBitfield ++ [window] }.done
    [.want (window * windowLength) (some windowLength)]

/-- The method `on_open`. -/
def onOpen (peer : Peer Feed) : Turn Feed :=
  peer.sendWants 0

variable (core : Hypercore Feed Signature) (overflowChecks : Bool)

/-- The bits that `parse_bitfield` yields, from the first on. -/
def parseBitfield (bitfield : Bytes) : Option (List Bool) :=
  (core.decode bitfield).map fun bytes => bytes.flatMap bitsOfByte

/-- The indices that `on_have` goes through. -/
def announcedIndices
    (start : Nat)
    (length : Option Nat)
    (bitfield : Option Bytes) : Option (List Nat) :=
  match bitfield with
  | some bitfield =>
      (parseBitfield core bitfield).map fun bits =>
        (List.range bits.length).filter fun index =>
          bits.getD index false
  | none =>
      (addU64 overflowChecks start (length.getD 1)).map fun stop =>
        List.range' start (stop - start)

/-- A bitfield announces the indices of its set bits. -/
theorem mem_setBits
    {bits : List Bool}
    {index : Nat} :
    (index ∈ (List.range bits.length).filter fun index =>
        bits.getD index false) ↔
      bits.getD index false = true := by
  simp only [List.mem_filter, List.mem_range, and_iff_right_iff_imp]
  intro isSet
  by_contra outside
  rw [List.getD_eq_getElem?_getD,
    List.getElem?_eq_none (Nat.not_lt.mp outside)] at isSet
  cases isSet

/-- The method `on_have`. -/
def onHave
    (peer : Peer Feed)
    (start : Nat)
    (length : Option Nat)
    (bitfield : Option Bytes) : Turn Feed :=
  match announcedIndices core overflowChecks start length bitfield with
  | none => peer.failed [] .panicked
  | some indices =>
      let wants := indices.filter fun index => !core.has peer.feed index
      peer.done (wants.map .request)

/-- The method `on_want`. -/
def onWant
    (peer : Peer Feed)
    (start : Nat)
    (length : Option Nat) : Turn Feed :=
  let len := core.len peer.feed
  let first :=
    if !peer.remoteWant && decide (0 < len) then
      [Message.announce (len - 1) none none none]
    else
      []
  let peer := { peer with remoteWant := true }
  let length := length.getD len
  match core.compress peer.feed start length with
  | none => peer.failed first .compress
  | some rle =>
      peer.done (first ++ [.announce start (some length) (some rle) none])

/-- The conversion of a signature in `on_data`. -/
def readSignature
    (signature : Option Bytes) : Option (Option Signature) :=
  match signature with
  | some bytes => (core.signatureOfBytes bytes).map some
  | none => some none

/-- The feed after `put`, with the event it queues. -/
def stored
    (peer : Peer Feed)
    (index : Nat)
    (feed : Feed)
    (queued : Bool) : Peer Feed :=
  { peer with
    feed := feed
    feedEvents :=
      if queued then
        peer.feedEvents ++ [.download index]
      else
        peer.feedEvents }

/-- The method `on_data`. -/
def onData
    (peer : Peer Feed)
    (index : Nat)
    (value : Option Bytes)
    (nodes : List Node)
    (signature : Option Bytes) : Turn Feed :=
  match readSignature core signature with
  | none => peer.failed [] .signature
  | some signature =>
      let proof : Proof Signature := ⟨index, nodes, signature⟩
      match core.put peer.feed index value proof with
      | none => peer.failed [] .put
      | some (feed, queued) =>
          let size := (value.map List.length).getD 0
          let peer := peer.stored index feed queued
          let peer :=
            { peer with stats := peer.stats.addDownloaded 1 size }
          peer.done
            (if peer.remoteAck then
              [.announce index (some 1) none (some true)]
            else
              [])

/-- The method `on_request`. -/
def onRequest (peer : Peer Feed) (index : Nat) : Turn Feed :=
  match core.get peer.feed index with
  | none => peer.failed [] .get
  | some value =>
      match core.proof peer.feed index with
      | none => peer.failed [] .proof
      | some proof =>
          let size := (value.map List.length).getD 0
          { peer with stats := peer.stats.addUploaded 1 size }.done
            [.data index value proof.nodes
              (proof.signature.map core.signatureToBytes)]

/-- One message of the channel, as `run` dispatches it. -/
def onMessage (peer : Peer Feed) : Message → Turn Feed
  | .openChannel => peer.onOpen
  | .want start length => peer.onWant core start length
  | .announce start length bitfield _ =>
      peer.onHave core overflowChecks start length bitfield
  | .request index => peer.onRequest core index
  | .data index value nodes signature =>
      peer.onData core index value nodes signature
  | .ignored => peer.done []

/-- One event of the feed, as `run` dispatches it. -/
def onFeedEvent (peer : Peer Feed) : FeedEvent → Turn Feed
  | .download index => peer.sendHave index none
  | .append =>
      match predU64 overflowChecks (core.len peer.feed) with
      | none => peer.failed [] .panicked
      | some last => peer.sendHave last none

/-! ## What handlers change and send -/

/-- Answering a `Want` only notes that the remote wants something. -/
theorem onWant_peer
    (peer : Peer Feed)
    (start : Nat)
    (length : Option Nat) :
    (peer.onWant core start length).peer =
      { peer with remoteWant := true } := by
  simp only [onWant]
  split <;> rfl

/-- Handling a `Have` changes nothing. -/
theorem onHave_peer
    (peer : Peer Feed)
    (start : Nat)
    (length : Option Nat)
    (bitfield : Option Bytes) :
    (peer.onHave core overflowChecks start length bitfield).peer =
      peer := by
  simp only [onHave]
  split <;> rfl

/-- Serving a request only counts it. -/
theorem onRequest_peer (peer : Peer Feed) (index : Nat) :
    ∃ stats,
      (peer.onRequest core index).peer = { peer with stats := stats } := by
  simp only [onRequest]
  split
  · exact ⟨_, rfl⟩
  · split <;> exact ⟨_, rfl⟩

/-- An event of the feed changes nothing but the queue it was taken from. -/
theorem onFeedEvent_peer (peer : Peer Feed) (event : FeedEvent) :
    (peer.onFeedEvent core overflowChecks event).peer = peer := by
  cases event with
  | download index =>
      rfl
  | append =>
      simp only [onFeedEvent]
      split <;> rfl

/-- A `Want` is answered with the last block, at first, and a bitfield. -/
theorem mem_onWant_sent
    {peer : Peer Feed}
    {start : Nat}
    {length : Option Nat}
    {message : Message}
    (member : message ∈ (peer.onWant core start length).sent) :
    (message = .announce (core.len peer.feed - 1) none none none ∧
        peer.remoteWant = false ∧ 0 < core.len peer.feed) ∨
      ∃ rle,
        core.compress peer.feed start
            (length.getD (core.len peer.feed)) = some rle ∧
          message =
            .announce start (some (length.getD (core.len peer.feed)))
              (some rle) none := by
  have isFirst :
      message ∈
          (if !peer.remoteWant && decide (0 < core.len peer.feed) then
            [Message.announce (core.len peer.feed - 1) none none none]
          else
            []) →
        message = .announce (core.len peer.feed - 1) none none none ∧
          peer.remoteWant = false ∧ 0 < core.len peer.feed := by
    intro inFirst
    split at inFirst
    · next condition =>
        simp only [Bool.and_eq_true, Bool.not_eq_true',
          decide_eq_true_eq] at condition
        exact ⟨List.mem_singleton.mp inFirst, condition⟩
    · cases inFirst
  simp only [onWant] at member
  split at member
  · exact Or.inl (isFirst member)
  · next rle compressed =>
      rcases List.mem_append.mp member with inFirst | inBitfield
      · exact Or.inl (isFirst inFirst)
      · exact Or.inr
          ⟨rle, compressed, List.mem_singleton.mp inBitfield⟩

/-- A `Have` is answered with requests. -/
theorem mem_onHave_sent
    {peer : Peer Feed}
    {start : Nat}
    {length : Option Nat}
    {bitfield : Option Bytes}
    {message : Message}
    (member :
      message ∈
        (peer.onHave core overflowChecks start length bitfield).sent) :
    ∃ index, message = .request index := by
  simp only [onHave] at member
  split at member
  · cases member
  · obtain ⟨index, _, isRequest⟩ := List.mem_map.mp member
    exact ⟨index, isRequest.symm⟩

/-- A request is answered with the data. -/
theorem mem_onRequest_sent
    {peer : Peer Feed}
    {index : Nat}
    {message : Message}
    (member : message ∈ (peer.onRequest core index).sent) :
    ∃ value nodes signature,
      message = .data index value nodes signature := by
  simp only [onRequest] at member
  split at member
  · cases member
  · split at member
    · cases member
    · exact ⟨_, _, _, List.mem_singleton.mp member⟩

/-- Handling a `Data` message stores a block, or fails. -/
theorem onData_cases
    (peer : Peer Feed)
    (index : Nat)
    (value : Option Bytes)
    (nodes : List Node)
    (signature : Option Bytes) :
    (peer.onData core index value nodes signature).peer = peer ∨
      ∃ read feed queued,
        readSignature core signature = some read ∧
          core.put peer.feed index value ⟨index, nodes, read⟩ =
            some (feed, queued) ∧
          (peer.onData core index value nodes signature).peer.feed =
            feed ∧
          (peer.onData core index value nodes
              signature).peer.feedEvents =
            (peer.stored index feed queued).feedEvents := by
  simp only [onData]
  split
  · exact Or.inl rfl
  · next read isRead =>
      split
      · exact Or.inl rfl
      · next feed queued put =>
          exact Or.inr ⟨read, feed, queued, isRead, put, rfl, rfl⟩

/-- No other message changes the feed or its events. -/
theorem onMessage_cases
    (peer : Peer Feed)
    (message : Message) :
    ((peer.onMessage core overflowChecks message).peer.feed =
        peer.feed ∧
      (peer.onMessage core overflowChecks message).peer.feedEvents =
        peer.feedEvents) ∨
      ∃ index value nodes signature read feed queued,
        message = .data index value nodes signature ∧
          readSignature core signature = some read ∧
          core.put peer.feed index value ⟨index, nodes, read⟩ =
            some (feed, queued) ∧
          (peer.onMessage core overflowChecks message).peer.feed =
            feed ∧
          (peer.onMessage core overflowChecks
              message).peer.feedEvents =
            (peer.stored index feed queued).feedEvents := by
  cases message with
  | openChannel =>
      exact Or.inl ⟨rfl, rfl⟩
  | want start length =>
      apply Or.inl
      rw [onMessage, onWant_peer]
      exact ⟨rfl, rfl⟩
  | announce start length bitfield ack =>
      apply Or.inl
      rw [onMessage, onHave_peer]
      exact ⟨rfl, rfl⟩
  | request index =>
      apply Or.inl
      obtain ⟨stats, counted⟩ := peer.onRequest_peer core index
      rw [onMessage, counted]
      exact ⟨rfl, rfl⟩
  | data index value nodes signature =>
      rcases peer.onData_cases core index value nodes signature with
        same | ⟨read, feed, queued, isRead, put, isFeed, events⟩
      · apply Or.inl
        simp only [onMessage]
        rw [same]
        exact ⟨rfl, rfl⟩
      · exact Or.inr ⟨index, value, nodes, signature, read, feed,
          queued, rfl, isRead, put, isFeed, events⟩
  | ignored =>
      exact Or.inl ⟨rfl, rfl⟩

end Peer

/-! ## An example -/

/-- The byte whose bits are the first eight values of a function. -/
def packByte (bits : Nat → Bool) : UInt8 :=
  UInt8.ofNat
    (((List.range 8).map bits).foldl
      (fun byte bit => 2 * byte + bit.toNat) 0)

set_option maxRecDepth 4096 in
/-- A byte is read back bit by bit. -/
theorem bitsOfByte_packByte (bits : Nat → Bool) :
    bitsOfByte (packByte bits) = (List.range 8).map bits := by
  have eachByte :
      ∀ first second third fourth fifth sixth seventh eighth : Bool,
        bitsOfByte
            (UInt8.ofNat
              ([first, second, third, fourth, fifth, sixth, seventh,
                eighth].foldl
                (fun byte bit => 2 * byte + bit.toNat) 0)) =
          [first, second, third, fourth, fifth, sixth, seventh,
            eighth] := by
    decide +kernel
  exact eachByte (bits 0) (bits 1) (bits 2) (bits 3) (bits 4) (bits 5)
    (bits 6) (bits 7)

/--
A feed for examples, of which any of the first eight blocks may be held.  Its
length is the greatest that a stored proof was signed for.
-/
structure SparseFeed where
  length : Nat
  byteLength : Nat
  blocks : List (Nat × Bytes)
  deriving Repr, DecidableEq

namespace SparseFeed

/-- A feed without blocks. -/
def empty : SparseFeed := ⟨0, 0, []⟩

/-- Whether a block is held. -/
def has (feed : SparseFeed) (index : Nat) : Bool :=
  decide (index < 8) && (feed.blocks.lookup index).isSome

/-- Raise the length to one that a proof is signed for. -/
def raise (feed : SparseFeed) : Option (Nat × Nat) → SparseFeed
  | some (length, byteLength) =>
      if feed.length < length then
        { feed with length := length, byteLength := byteLength }
      else
        feed
  | none => feed

/-- Store a block. -/
def write (feed : SparseFeed) (index : Nat) (block : Bytes) :
    SparseFeed :=
  { feed with blocks := (index, block) :: feed.blocks }

/-- Raising the length adds no block. -/
@[simp] theorem has_raise
    (feed : SparseFeed)
    (signature : Option (Nat × Nat)) :
    (feed.raise signature).has = feed.has := by
  funext index
  cases signature with
  | none =>
      rfl
  | some signed =>
      simp only [raise]
      split <;> rfl

/-- The blocks held after one was stored. -/
theorem has_write
    (feed : SparseFeed)
    (stored : Nat)
    (block : Bytes)
    (index : Nat) :
    (feed.write stored block).has index =
      (decide (index < 8 ∧ index = stored) || feed.has index) := by
  by_cases isStored : index = stored
  · subst index
    by_cases inByte : stored < 8
    · simp [has, write, inByte]
    · simp [has, inByte]
  · have differs : (index == stored) = false := by
      simpa using isStored
    simp [has, write, List.lookup_cons, differs, isStored]

end SparseFeed

/--
Such feeds as `hypercore` keeps them.  A signature is the length and the byte
length that it was made for, in one byte each, and a bitfield is one byte in
the encoding of `bitfield_rle`.
-/
def sparseCore : Hypercore SparseFeed (Nat × Nat) where
  len := SparseFeed.length
  has := SparseFeed.has
  append feed block :=
    if feed.length < 8 then
      some
        ((feed.raise
          (some (feed.length + 1, feed.byteLength + block.length))).write
          feed.length block)
    else
      none
  get feed index := some (feed.blocks.lookup index)
  proof feed index :=
    some ⟨index, [], some (feed.length, feed.byteLength)⟩
  put feed index value proof :=
    if index < 8 then
      match value with
      | none => some (feed.raise proof.signature, false)
      | some block =>
          some ((feed.raise proof.signature).write index block,
            !feed.has index)
    else
      none
  compress feed start length :=
    some
      [2, packByte fun offset =>
        decide (offset < length) && feed.has (start + offset)]
  decode bitfield :=
    match bitfield with
    | [2, byte] => some [byte]
    | _ => none
  signatureToBytes signature :=
    [UInt8.ofNat signature.1, UInt8.ofNat signature.2]
  signatureOfBytes bytes :=
    match bytes with
    | [length, byteLength] => some (length.toNat, byteLength.toNat)
    | _ => none

/-- The blocks held after a `put`, and whether it queues an event. -/
theorem sparseCore_put
    {feed next : SparseFeed}
    {index : Nat}
    {value : Option Bytes}
    {proof : Proof (Nat × Nat)}
    {queued : Bool}
    (put :
      sparseCore.put feed index value proof = some (next, queued)) :
    (∀ other,
        sparseCore.has next other =
          ((decide (other = index) && value.isSome) ||
            sparseCore.has feed other)) ∧
      queued = (value.isSome && !sparseCore.has feed index) := by
  simp only [sparseCore] at put ⊢
  split at put
  · next inByte =>
      cases value with
      | none =>
          cases put
          simp
      | some block =>
          cases put
          refine ⟨?_, rfl⟩
          intro other
          rw [SparseFeed.has_write, SparseFeed.has_raise]
          congr 1
          by_cases same : other = index
          · simp [same, inByte]
          · simp [same]
  · cases put

/-- The blocks held after an `append`. -/
theorem sparseCore_append
    {feed next : SparseFeed}
    {block : Bytes}
    (appended : sparseCore.append feed block = some next)
    (other : Nat) :
    sparseCore.has next other =
      (decide (other = sparseCore.len feed) ||
        sparseCore.has feed other) := by
  simp only [sparseCore] at appended ⊢
  split at appended
  · next inByte =>
      cases appended
      rw [SparseFeed.has_write, SparseFeed.has_raise]
      congr 1
      by_cases same : other = feed.length
      · simp [same, inByte]
      · simp [same]
  · cases appended

end Hyperspace
