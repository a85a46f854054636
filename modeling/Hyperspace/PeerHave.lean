import Hyperspace.Peer

namespace Hyperspace.PeerHave

/-!
# What a `Have` announces and what is requested

A `Have` message announces blocks in one of two ways: as a range, or as a
bitfield whose first bit stands for the block at the message's start.  `on_want`
answers in the second way.  `on_have` numbers the bits from zero, whatever the
start is, and ends its task on a bitfield that does not decode.

This module compares the blocks that `on_have` requests with those that the
message announces, for every feed and every message.
-/

variable {Feed Signature : Type}

/-- The blocks that a `Have` message announces. -/
def Announces
    (core : Hypercore Feed Signature)
    (start : Nat)
    (length : Option Nat)
    (bitfield : Option Bytes)
    (index : Nat) : Prop :=
  match bitfield with
  | none =>
      start ≤ index ∧ index < start + length.getD 1 ∧ index < 2 ^ 64
  | some bitfield =>
      ∃ bits offset,
        Peer.parseBitfield core bitfield = some bits ∧
          bits.getD offset false = true ∧
          index = start + offset

/--
What a handler has sent are requests, each for one of the announced blocks that
the feed lacks, in ascending order and none left out.
-/
def RequestsMissing
    (core : Hypercore Feed Signature)
    (feed : Feed)
    (start : Nat)
    (length : Option Nat)
    (bitfield : Option Bytes)
    (sent : List Message) : Prop :=
  ∃ indices : List Nat,
    sent = indices.map .request ∧
      indices.Pairwise (· < ·) ∧
      ∀ index,
        index ∈ indices ↔
          Announces core start length bitfield index ∧
            core.has feed index = false

/--
`on_have` requests what is announced and missing, or it returns an error
without having requested anything; it does not panic.
-/
def RequestsExactly
    (core : Hypercore Feed Signature)
    (overflowChecks : Bool)
    (peer : Peer Feed)
    (start : Nat)
    (length : Option Nat)
    (bitfield : Option Bytes) : Prop :=
  let turn := peer.onHave core overflowChecks start length bitfield
  match turn.result with
  | .ok _ =>
      RequestsMissing core peer.feed start length bitfield turn.sent
  | .error error =>
      error ≠ .panicked ∧ ∀ index, .request index ∉ turn.sent

/--
The messages that are handled well.  The end of a range is a `u64`, or it wraps
around and nothing of the range is missing; a bitfield decodes, and for every
block that the feed lacks, the bit with the block's number is the bit that
stands for the block.
-/
def ReadsAsMeant
    (core : Hypercore Feed Signature)
    (overflowChecks : Bool)
    (feed : Feed)
    (start : Nat)
    (length : Option Nat)
    (bitfield : Option Bytes) : Prop :=
  match bitfield with
  | none =>
      start + length.getD 1 < 2 ^ 64 ∨
        (overflowChecks = false ∧
          ∀ index,
            start ≤ index → index < 2 ^ 64 → core.has feed index = true)
  | some bitfield =>
      ∃ bits,
        Peer.parseBitfield core bitfield = some bits ∧
          ∀ index,
            core.has feed index = false →
            bits.getD index false =
              (decide (start ≤ index) && bits.getD (index - start) false)

section

variable
  {core : Hypercore Feed Signature}
  {overflowChecks : Bool}
  {peer : Peer Feed}
  {start : Nat}
  {length : Option Nat}

/-- `on_have` requests the missing ones of the blocks that it goes through. -/
theorem requestsExactly_iff_of_indices
    {bitfield : Option Bytes}
    {indices : List Nat}
    (goesThrough :
      Peer.announcedIndices core overflowChecks start length bitfield =
        some indices)
    (ascending : indices.Pairwise (· < ·)) :
    RequestsExactly core overflowChecks peer start length bitfield ↔
      ∀ index,
        core.has peer.feed index = false →
        (index ∈ indices ↔
          Announces core start length bitfield index) := by
  have requested :
      peer.onHave core overflowChecks start length bitfield =
        peer.done
          ((indices.filter fun index =>
            !core.has peer.feed index).map .request) := by
    simp only [Peer.onHave, goesThrough]
  simp only [RequestsExactly, requested, Peer.done]
  constructor
  · rintro ⟨others, sameRequests, _, isOther⟩ index missing
    have sameIndices :
        indices.filter (fun index => !core.has peer.feed index) =
          others := by
      refine List.map_injective_iff.mpr ?_ sameRequests
      intro first second same
      cases same
      rfl
    have isRequested := isOther index
    rw [← sameIndices] at isRequested
    simpa [missing] using isRequested
  · intro agree
    refine ⟨_, rfl, ascending.filter _, ?_⟩
    intro index
    simp only [List.mem_filter, Bool.not_eq_true']
    constructor
    · rintro ⟨member, missing⟩
      exact ⟨(agree index missing).mp member, missing⟩
    · rintro ⟨announced, missing⟩
      exact ⟨(agree index missing).mpr announced, missing⟩

/-- A message that `on_have` panics on is not handled well. -/
theorem not_requestsExactly_of_panic
    {bitfield : Option Bytes}
    (panics :
      Peer.announcedIndices core overflowChecks start length bitfield =
        none) :
    ¬ RequestsExactly core overflowChecks peer start length
      bitfield := by
  have panicked :
      peer.onHave core overflowChecks start length bitfield =
        peer.failed [] .panicked := by
    simp only [Peer.onHave, panics]
  simp only [RequestsExactly, panicked, Peer.failed]
  rintro ⟨notPanicked, _⟩
  exact notPanicked rfl

/-- The blocks of a range are requested as they are announced. -/
theorem requestsExactly_range_iff
    (startFits : start < 2 ^ 64)
    (lengthFits : length.getD 1 < 2 ^ 64) :
    RequestsExactly core overflowChecks peer start length none ↔
      ReadsAsMeant core overflowChecks peer.feed start length none := by
  by_cases fits : start + length.getD 1 < 2 ^ 64
  · have goesThrough :
        Peer.announcedIndices core overflowChecks start length none =
          some (List.range' start (length.getD 1)) := by
      simp only [Peer.announcedIndices, addU64, if_pos fits,
        Option.map_some, Nat.add_sub_cancel_left]
    rw [requestsExactly_iff_of_indices goesThrough
      List.pairwise_lt_range']
    refine iff_of_true ?_ (Or.inl fits)
    intro index missing
    simp only [List.mem_range'_1, Announces]
    omega
  · cases overflowChecks with
    | true =>
        have panics :
            Peer.announcedIndices core true start length none = none := by
          simp only [Peer.announcedIndices, addU64, if_neg fits,
            if_true, Option.map_none]
        refine iff_of_false (not_requestsExactly_of_panic panics) ?_
        rintro (noOverflow | ⟨unchecked, _⟩)
        · exact fits noOverflow
        · cases unchecked
    | false =>
        have wrapped :
            (start + length.getD 1) % 2 ^ 64 - start = 0 := by
          omega
        have goesThrough :
            Peer.announcedIndices core false start length none =
              some [] := by
          simp only [Peer.announcedIndices, addU64, if_neg fits,
            Bool.false_eq_true, if_false, Option.map_some, wrapped,
            List.range'_zero]
        rw [requestsExactly_iff_of_indices goesThrough
          List.Pairwise.nil]
        simp only [ReadsAsMeant, fits, false_or, true_and, Announces,
          List.not_mem_nil, false_iff]
        constructor
        · intro noneAnnounced index above below
          by_contra missing
          refine noneAnnounced index (by simpa using missing) ?_
          exact ⟨above, by omega, below⟩
        · rintro allHeld index missing ⟨above, _, below⟩
          rw [allHeld index above below] at missing
          cases missing

/-- A bitfield announces a block by the bit at its distance from the start. -/
theorem announces_bitfield_iff
    {bitfield : Bytes}
    {bits : List Bool}
    (parsed : Peer.parseBitfield core bitfield = some bits)
    {index : Nat} :
    Announces core start length (some bitfield) index ↔
      (decide (start ≤ index) &&
        bits.getD (index - start) false) = true := by
  simp only [Announces, parsed, Option.some.injEq, Bool.and_eq_true,
    decide_eq_true_eq]
  constructor
  · rintro ⟨_, offset, rfl, set, rfl⟩
    rw [Nat.add_sub_cancel_left]
    exact ⟨Nat.le_add_right _ _, set⟩
  · rintro ⟨above, set⟩
    exact ⟨bits, index - start, rfl, set, by omega⟩

/-- The blocks of a bitfield are requested as if it started at zero. -/
theorem requestsExactly_bitfield_iff
    {bitfield : Bytes} :
    RequestsExactly core overflowChecks peer start length
        (some bitfield) ↔
      ReadsAsMeant core overflowChecks peer.feed start length
        (some bitfield) := by
  cases parsed : Peer.parseBitfield core bitfield with
  | none =>
      have panics :
          Peer.announcedIndices core overflowChecks start length
            (some bitfield) = none := by
        simp [Peer.announcedIndices, parsed]
      refine iff_of_false (not_requestsExactly_of_panic panics) ?_
      simp [ReadsAsMeant, parsed]
  | some bits =>
      have goesThrough :
          Peer.announcedIndices core overflowChecks start length
              (some bitfield) =
            some ((List.range bits.length).filter fun index =>
              bits.getD index false) := by
        simp [Peer.announcedIndices, parsed]
      rw [requestsExactly_iff_of_indices goesThrough
        (List.pairwise_lt_range.filter _)]
      simp only [Peer.mem_setBits, announces_bitfield_iff parsed]
      constructor
      · intro agree
        refine ⟨bits, parsed, ?_⟩
        intro index missing
        exact Bool.eq_iff_iff.mpr (agree index missing)
      · rintro ⟨others, otherParsed, agree⟩ index missing
        rw [parsed] at otherParsed
        cases otherParsed
        exact Bool.eq_iff_iff.mp (agree index missing)

end

/--
For every feed and every `Have` message, `on_have` requests exactly the
announced blocks that the feed lacks if and only if the message is read as it is
meant: the end of its range does not overflow, or its bitfield decodes and
stands for the same missing blocks when it is taken to start at zero.
-/
theorem onHave_requests_exactly_iff
    (core : Hypercore Feed Signature)
    (overflowChecks : Bool)
    (peer : Peer Feed)
    {start : Nat}
    {length : Option Nat}
    (bitfield : Option Bytes)
    (startFits : start < 2 ^ 64)
    (lengthFits : length.getD 1 < 2 ^ 64) :
    RequestsExactly core overflowChecks peer start length bitfield ↔
      ReadsAsMeant core overflowChecks peer.feed start length
        bitfield := by
  cases bitfield with
  | none =>
      exact requestsExactly_range_iff startFits lengthFits
  | some bitfield =>
      exact requestsExactly_bitfield_iff

/-- A loop over a feed without blocks. -/
def emptyPeer : Peer SparseFeed :=
  Peer.new .empty { id := sampleFoo.publicKey }

/-- A bitfield of the first window, as the first `Want` is answered. -/
theorem onHave_requests_exactly_iff_firstWindow :
    RequestsExactly sparseCore true emptyPeer 0 (some windowLength)
      (some [2, 160]) := by
  refine
    (onHave_requests_exactly_iff sparseCore true emptyPeer
      (some [2, 160]) (by decide) (by decide)).mpr ?_
  refine ⟨_, rfl, ?_⟩
  intro index _
  simp

/-- A bitfield of the second window makes `on_have` request block 0. -/
theorem second_window_requests_first_block :
    ¬ RequestsExactly sparseCore true emptyPeer windowLength
      (some windowLength) (some [2, 128]) := by
  rintro ⟨indices, requested, _, isIndex⟩
  have first : Message.request 0 ∈ indices.map Message.request := by
    rw [← requested]
    decide
  obtain ⟨index, member, same⟩ := List.mem_map.mp first
  cases same
  obtain ⟨⟨bits, offset, _, _, isFirst⟩, _⟩ := (isIndex 0).mp member
  simp only [windowLength] at isFirst
  omega

end Hyperspace.PeerHave
