import Hyperspace.PeerDrain

namespace Hyperspace.PeerWindow

open PeerSync

/-!
# The window that a peer wants

A `Want` is about a window of `windowLength` blocks.  A loop sends one when it
starts and at every `Open` message, and each time for the first window; nothing
that a loop receives makes it want a further one.  Of the blocks beyond the
first window the learner hears of the last one only, from the announcement that
answers its first `Want`.

So in a session of a holder and a learner, every block of the holder comes to
the learner's knowledge if and only if at most one lies beyond the first window.
-/

/-- The indices that a `Want` is about; without a length it has no end. -/
def WantCovers (message : Message) (index : Nat) : Prop :=
  match message with
  | .want start none => start ≤ index
  | .want start (some length) => start ≤ index ∧ index < start + length
  | _ => False

/-- The range of a `Have`. -/
def HaveCovers (message : Message) (index : Nat) : Prop :=
  match message with
  | .announce start length _ _ =>
      start ≤ index ∧ index < start + length.getD 1
  | _ => False

/-- The learner has wanted an index, or been told of it. -/
def Told {Feed : Type} (session : Session Feed) (index : Nat) : Prop :=
  (∃ message ∈ session.learner.sent, WantCovers message index) ∨
    ∃ message ∈ session.holder.sent, HaveCovers message index

/-- What the two sides have said about their windows. -/
structure Windowed
    {Feed : Type}
    (limit : Nat)
    (session : Session Feed) : Prop where
  wants :
    ∀ start length,
      .want start length ∈ session.learner.sent →
      start = 0 ∧ length = some windowLength
  haves :
    ∀ start length bitfield ack,
      .announce start length bitfield ack ∈ session.holder.sent →
      start = limit - 1 ∧ length = none ∨
        start = 0 ∧ length = some windowLength
  wanted :
    session.learner.phase = .starting ∨
      .want 0 (some windowLength) ∈ session.learner.sent ∧
        (.want 0 (some windowLength) ∈ session.holder.inbox ∨
          session.holder.peer.remoteWant = true)
  first :
    session.holder.peer.remoteWant = true →
    0 < limit →
    .announce (limit - 1) none none none ∈ session.holder.sent

section

variable
  {Feed Signature : Type}
  {core : Hypercore Feed Signature}
  {overflowChecks : Bool}
  {source : Feed}
  {replica : Feed → Prop}
  {limit : Nat}
  {session next : Session Feed}

/-! ## What the holder announces -/

/-- The holder announces its last block and the first window. -/
theorem holder_haves
    (length : core.len source = limit)
    {peer : Peer Feed}
    (isHolder : HolderPeer source peer)
    {message : Message}
    (fromLearner : FromLearner core overflowChecks limit message)
    {start : Nat}
    {announced : Option Nat}
    {bitfield : Option Bytes}
    {ack : Option Bool}
    (member :
      .announce start announced bitfield ack ∈
        (peer.onMessage core overflowChecks message).sent) :
    start = limit - 1 ∧ announced = none ∨
      start = 0 ∧ announced = some windowLength := by
  cases message with
  | openChannel =>
      simp [Peer.onMessage, Peer.onOpen, Peer.sendWants,
        Peer.done] at member
  | want wanted wantedLength =>
      obtain ⟨rfl, rfl⟩ := fromLearner
      rcases Peer.mem_onWant_sent core member with
        ⟨isLast, _, _⟩ | ⟨rle, _, isBitfield⟩
      · cases isLast
        rw [isHolder.feed, length]
        exact Or.inl ⟨rfl, rfl⟩
      · cases isBitfield
        exact Or.inr ⟨rfl, rfl⟩
  | announce _ _ _ _ =>
      obtain ⟨_, isRequest⟩ := Peer.mem_onHave_sent core _ member
      cases isRequest
  | request index =>
      obtain ⟨_, _, _, isData⟩ := Peer.mem_onRequest_sent core member
      cases isData
  | data index value nodes signature =>
      exact fromLearner.elim
  | ignored =>
      exact fromLearner.elim

/-- The loop remembers that the remote wants something. -/
theorem remoteWant_onMessage
    (core : Hypercore Feed Signature)
    (overflowChecks : Bool)
    (peer : Peer Feed)
    (message : Message) :
    (peer.onMessage core overflowChecks message).peer.remoteWant =
      (peer.remoteWant ||
        match message with
        | .want _ _ => true
        | _ => false) := by
  cases message with
  | openChannel =>
      simp [Peer.onMessage, Peer.onOpen, Peer.sendWants, Peer.done]
  | want start length =>
      rw [Peer.onMessage, Peer.onWant_peer, Bool.or_true]
  | announce start length bitfield ack =>
      rw [Peer.onMessage, Peer.onHave_peer, Bool.or_false]
  | request index =>
      obtain ⟨stats, counted⟩ := peer.onRequest_peer core index
      rw [Peer.onMessage, counted, Bool.or_false]
  | data index value nodes signature =>
      simp only [Peer.onMessage, Peer.onData, Bool.or_false]
      split
      · rfl
      · split <;> rfl
  | ignored =>
      simp [Peer.onMessage, Peer.done]

/-- The first `Want` is answered with the last block. -/
theorem onWant_first
    (core : Hypercore Feed Signature)
    (peer : Peer Feed)
    (isFirst : peer.remoteWant = false)
    (nonempty : 0 < core.len peer.feed)
    (start : Nat)
    (length : Option Nat) :
    .announce (core.len peer.feed - 1) none none none ∈
      (peer.onWant core start length).sent := by
  simp only [Peer.onWant, isFirst, nonempty]
  split <;> simp [Peer.failed, Peer.done]

/-! ## The session -/

/-- The learner has run a handler. -/
theorem Windowed.afterLearner
    (windowed : Windowed limit session)
    {rest : List Message}
    {after : Peer Feed}
    {sent : List Message}
    (fromLearner :
      ∀ reply ∈ sent, FromLearner core overflowChecks limit reply)
    (started :
      session.learner.phase ≠ .starting ∨
        .want 0 (some windowLength) ∈ sent) :
    Windowed limit
      (session.after .learner rest (after.done sent)) where
  wants := by
    intro start length member
    rcases List.mem_append.mp member with before | isNew
    · exact windowed.wants start length before
    · exact fromLearner _ isNew
  haves := windowed.haves
  wanted := by
    apply Or.inr
    rcases started with looping | isNew
    · rcases windowed.wanted with starting | ⟨sentBefore, reaches⟩
      · exact absurd starting looping
      · refine ⟨List.mem_append_left _ sentBefore, ?_⟩
        exact reaches.imp_left (List.mem_append_left _)
    · exact ⟨List.mem_append_right _ isNew,
        Or.inl (List.mem_append_right _ isNew)⟩
  first := windowed.first

/-- The holder has handled a message of the learner. -/
theorem Windowed.holderHandles
    (length : core.len source = limit)
    (windowed : Windowed limit session)
    (exchanging :
      Exchanging core overflowChecks source replica limit session)
    {message : Message}
    {rest sent : List Message}
    {after : Peer Feed}
    (taken : session.holder.inbox = message :: rest)
    (handled :
      session.holder.peer.onMessage core overflowChecks message =
        after.done sent) :
    Windowed limit (session.after .holder rest (after.done sent)) := by
  have fromLearner :
      FromLearner core overflowChecks limit message :=
    exchanging.toHolder message (by simp [taken])
  have remembers :=
    remoteWant_onMessage core overflowChecks session.holder.peer
      message
  rw [handled] at remembers
  refine ⟨windowed.wants, ?_, ?_, ?_⟩
  · intro start announced bitfield ack member
    rcases List.mem_append.mp member with before | isNew
    · exact windowed.haves start announced bitfield ack before
    · apply holder_haves length exchanging.holder fromLearner
      rw [handled]
      exact isNew
  · rcases windowed.wanted with starting | ⟨sentBefore, reaches⟩
    · exact Or.inl starting
    · refine Or.inr ⟨sentBefore, ?_⟩
      rcases reaches with inFlight | remembered
      · rw [taken] at inFlight
        rcases List.mem_cons.mp inFlight with isNext | later
        · subst isNext
          exact Or.inr (remembers.trans (Bool.or_true _))
        · exact Or.inl later
      · refine Or.inr (remembers.trans ?_)
        rw [remembered, Bool.true_or]
  · intro remembered positive
    by_cases before : session.holder.peer.remoteWant = true
    · exact List.mem_append_left _ (windowed.first before positive)
    · have isFirst : session.holder.peer.remoteWant = false := by
        simpa using before
      have isWant : ∃ start wanted, message = .want start wanted := by
        have now : (after.done sent).peer.remoteWant = true :=
          remembered
        rw [remembers, isFirst] at now
        cases message with
        | want start wanted => exact ⟨start, wanted, rfl⟩
        | _ => cases now
      obtain ⟨start, wanted, rfl⟩ := isWant
      have announced :=
        onWant_first core session.holder.peer isFirst
          (by rw [exchanging.holder.feed]; omega) start wanted
      rw [exchanging.holder.feed, length] at announced
      apply List.mem_append_right
      rw [← handled]
      exact announced

/-- Every step keeps what the sides have said. -/
theorem Windowed.of_moves
    (length : core.len source = limit)
    (windowed : Windowed limit session)
    (exchanging :
      Exchanging core overflowChecks source replica limit session)
    (moves :
      Moves core overflowChecks source replica limit session next) :
    Windowed limit next := by
  cases moves with
  | post party =>
      cases party with
      | holder =>
          refine ⟨windowed.wants, windowed.haves, ?_, windowed.first⟩
          rcases windowed.wanted with starting | ⟨sent, reaches⟩
          · exact Or.inl starting
          · exact Or.inr
              ⟨sent, reaches.imp_left (List.mem_append_left _)⟩
      | learner =>
          exact ⟨windowed.wants, windowed.haves, windowed.wanted,
            windowed.first⟩
  | holderStarts =>
      refine ⟨windowed.wants, ?_, windowed.wanted, ?_⟩
      · intro start announced bitfield ack member
        rcases List.mem_append.mp member with before | isNew
        · exact windowed.haves start announced bitfield ack before
        · simp [Peer.onOpen, Peer.sendWants, Peer.done] at isNew
      · intro remembered positive
        exact List.mem_append_left _
          (windowed.first remembered positive)
  | holderHandles looping taken handled isHolder fromHolder answers =>
      exact windowed.holderHandles length exchanging taken handled
  | learnerStarts =>
      have fromLearner :
          ∀ reply ∈ session.learner.peer.onOpen.sent,
            FromLearner core overflowChecks limit reply := by
        simp [Peer.onOpen, Peer.sendWants, Peer.done, FromLearner,
          Common]
      exact windowed.afterLearner fromLearner (Or.inr (by simp))
  | learnerHandles looping taken handled isLearner fromLearner answers =>
      exact windowed.afterLearner fromLearner
        (Or.inl (by simp [looping]))
  | learnerAnnounces looping taken handled isLearner fromLearner =>
      exact windowed.afterLearner fromLearner
        (Or.inl (by simp [looping]))

/-- Loops that have just subscribed have said nothing. -/
theorem windowed_subscribed
    {target : Feed}
    {holderStats learnerStats : Replicator.Stats} :
    Windowed limit
      (Session.subscribed source target holderStats
        learnerStats) where
  wants := by simp [Session.subscribed, Side.subscribed]
  haves := by simp [Session.subscribed, Side.subscribed]
  wanted := Or.inl rfl
  first := by
    intro remembered
    cases remembered

/-- What the sides have said at the end of a run. -/
theorem windowed_run
    (serves : Serves core source replica)
    (fits : limit < 2 ^ 64)
    (full : ∀ index, core.has source index = decide (index < limit))
    (length : core.len source = limit)
    {target : Feed}
    (isReplica : replica target)
    (bounded : ∀ index, core.has target index → index < limit)
    (shorter : core.len target ≤ limit)
    {holderStats learnerStats : Replicator.Stats}
    {actions : List Action}
    {final : Session Feed}
    (ran :
      Machine.run (PeerSync.step core overflowChecks)
          (.subscribed source target holderStats learnerStats)
          actions =
        some final) :
    Exchanging core overflowChecks source replica limit final ∧
      Windowed limit final := by
  refine Machine.invariant_run
    (fun session =>
      Exchanging core overflowChecks source replica limit session ∧
        Windowed limit session) ?_
    ⟨exchanging_subscribed isReplica bounded shorter,
      windowed_subscribed⟩ ran
  rintro session action next ⟨exchanging, windowed⟩ stepped
  have moves := exchanging.moves serves fits full length stepped
  exact ⟨exchanging.of_moves moves,
    windowed.of_moves length exchanging moves⟩

/-- Of a longer feed, the first block of the second window is passed over. -/
theorem Windowed.not_told
    (windowed : Windowed limit session)
    (longer : windowLength + 1 < limit) :
    ¬ Told session windowLength := by
  rintro (⟨message, member, covers⟩ | ⟨message, member, covers⟩)
  · cases message with
    | want start wanted =>
        obtain ⟨rfl, rfl⟩ := windowed.wants start wanted member
        have outside := covers.2
        omega
    | _ => exact covers
  · cases message with
    | announce start announced bitfield ack =>
        obtain ⟨atLeast, below⟩ := covers
        rcases windowed.haves start announced bitfield ack member with
          ⟨rfl, rfl⟩ | ⟨rfl, rfl⟩
        · omega
        · simp only [Option.getD_some] at below
          omega
    | _ => exact covers

/-- With one block beyond the first window at most, none is passed over. -/
theorem Windowed.told
    (windowed : Windowed limit session)
    (quiescent : session.Quiescent)
    (short : limit ≤ windowLength + 1)
    {index : Nat}
    (below : index < limit) :
    Told session index := by
  obtain ⟨_, looping, noneToHolder, _, _, _⟩ := quiescent
  rcases windowed.wanted with starting | ⟨sent, reaches⟩
  · rw [looping] at starting
    cases starting
  · by_cases inWindow : index < windowLength
    · exact Or.inl ⟨_, sent, Nat.zero_le _, by omega⟩
    · rcases reaches with inFlight | remembered
      · rw [noneToHolder] at inFlight
        cases inFlight
      · refine Or.inr
          ⟨_, windowed.first remembered (by omega), ?_, ?_⟩
        · omega
        · simp only [Option.getD_none]
          omega

/--
In every run of a holder of all blocks below a limit and a learner, for every
interleaving: when both loops run with nothing in flight and nothing pending,
every block of the holder lies in a `Want` of the learner or in a `Have` of the
holder if and only if at most one block lies beyond the first window.
-/
theorem windows_cover_iff
    (serves : Serves core source replica)
    (fits : limit < 2 ^ 64)
    (full : ∀ index, core.has source index = decide (index < limit))
    (length : core.len source = limit)
    {target : Feed}
    (isReplica : replica target)
    (bounded : ∀ index, core.has target index → index < limit)
    (shorter : core.len target ≤ limit)
    {holderStats learnerStats : Replicator.Stats}
    {actions : List Action}
    {final : Session Feed}
    (ran :
      Machine.run (PeerSync.step core overflowChecks)
          (.subscribed source target holderStats learnerStats)
          actions =
        some final)
    (quiescent : final.Quiescent) :
    (∀ index < limit, Told final index) ↔
      limit ≤ windowLength + 1 := by
  obtain ⟨_, windowed⟩ :=
    windowed_run serves fits full length isReplica bounded shorter ran
  constructor
  · intro told
    by_contra longer
    exact windowed.not_told (by omega) (told windowLength (by omega))
  · intro short index below
    exact windowed.told quiescent short below

end

/-! ## Examples -/

/-- A feed of two blocks lies within the first window. -/
theorem windows_cover_iff_twoBlocks :
    ∃ final,
      Machine.run (PeerSync.step twoBlocksCore true)
          (.subscribed bothBlocks noBlocks
            { id := Key.constant 1 } { id := Key.constant 2 })
          sampleSync =
          some final ∧
        final.Quiescent ∧
        ∀ index < 2, Told final index := by
  have quiescent :
      ∃ final,
        Machine.run (PeerSync.step twoBlocksCore true)
            (.subscribed bothBlocks noBlocks
              { id := Key.constant 1 } { id := Key.constant 2 })
            sampleSync =
            some final ∧
          final.Quiescent :=
    ⟨_, rfl, rfl, rfl, rfl, rfl, rfl, rfl⟩
  have bounded :
      ∀ index, twoBlocksCore.has noBlocks index → index < 2 := by
    intro index has
    rw [has_noBlocks] at has
    cases has
  obtain ⟨final, ran, isQuiescent⟩ := quiescent
  refine ⟨final, ran, isQuiescent, ?_⟩
  exact (windows_cover_iff serves_twoBlocksCore (by decide)
    has_bothBlocks rfl (Nat.zero_le 2) bounded (Nat.zero_le 2) ran
    isQuiescent).mpr (by decide)

/-- A feed by its length and the blocks that it holds. -/
structure WindowFeed where
  length : Nat
  held : Nat → Bool

/-- The bytes of a bitfield. -/
def windowBytes (bits : Nat → Bool) (length : Nat) : Bytes :=
  (List.range ((length + 7) / 8)).map fun byte =>
    packByte fun bit => bits (8 * byte + bit)

/--
The header of bytes that `bitfield_rle` does not compress: twice their number,
here always as a varint of three bytes.
-/
def literalHeader (bytes : Bytes) : Bytes :=
  let header := 2 * bytes.length
  [UInt8.ofNat (128 + header % 128),
    UInt8.ofNat (128 + header / 128 % 128),
    UInt8.ofNat (header / 128 / 128)]

/-- Feeds of any length, whose bitfields are not compressed. -/
def windowCore : Hypercore WindowFeed Unit where
  len := WindowFeed.length
  has := WindowFeed.held
  append feed _ :=
    some
      { length := feed.length + 1
        held := fun index =>
          feed.held index || decide (index = feed.length) }
  get feed index := some (if feed.held index then some [0] else none)
  proof _ index := some ⟨index, [], some ()⟩
  put feed index value _ :=
    match value with
    | none => some (feed, false)
    | some _ =>
        some
          ({ length := max feed.length (index + 1)
             held := fun other =>
               feed.held other || decide (other = index) },
            !feed.held index)
  compress feed start length :=
    let bytes :=
      windowBytes
        (fun offset =>
          decide (offset < length) && feed.held (start + offset))
        length
    some (literalHeader bytes ++ bytes)
  decode bitfield :=
    match bitfield with
    | first :: second :: third :: bytes =>
        if literalHeader bytes = [first, second, third] then
          some bytes
        else
          none
    | _ => none
  signatureToBytes _ := List.replicate 64 0
  signatureOfBytes bytes := if bytes.length = 64 then some () else none

/-- All blocks below a limit. -/
def blocksBelow (limit : Nat) : WindowFeed :=
  ⟨limit, fun index => decide (index < limit)⟩

/-- The bits of whole bytes are read back in order. -/
theorem flatMap_packByte (bits : Nat → Bool) (count : Nat) :
    ((List.range count).map fun byte =>
        packByte fun bit => bits (8 * byte + bit)).flatMap bitsOfByte =
      (List.range (8 * count)).map bits := by
  induction count with
  | zero =>
      rfl
  | succ count inductionHypothesis =>
      rw [List.range_succ, List.map_append, List.flatMap_append,
        inductionHypothesis, Nat.mul_succ, List.range_add,
        List.map_append]
      simp [bitsOfByte_packByte, Function.comp_def]

/-- An uncompressed bitfield is read back. -/
theorem parseBitfield_windowCore (bits : Nat → Bool) (length : Nat) :
    Peer.parseBitfield windowCore
        (literalHeader (windowBytes bits length) ++
          windowBytes bits length) =
      some ((List.range (8 * ((length + 7) / 8))).map bits) := by
  rw [← flatMap_packByte]
  simp only [Peer.parseBitfield, windowCore, literalHeader,
    List.cons_append, List.nil_append, if_true, Option.map_some,
    windowBytes]

/-- The dependencies do what is assumed of them, for a feed of any length. -/
theorem serves_windowCore (limit : Nat) :
    Serves windowCore (blocksBelow limit) (fun _ => True) where
  isReplica := trivial
  roundTrip := by
    intro feed _
    refine ⟨_, _, rfl, parseBitfield_windowCore _ _, ?_⟩
    intro index
    rw [List.getD_eq_getElem?_getD, List.getElem?_map]
    by_cases inWindow : index < 8 * ((windowLength + 7) / 8)
    · rw [List.getElem?_range inWindow]
      simp [windowCore]
    · have outside : ¬ index < windowLength := by omega
      rw [List.getElem?_eq_none (by simpa using inWindow)]
      simp [outside]
  get := by
    intro index has
    refine ⟨[0], ?_⟩
    simp only [windowCore] at has ⊢
    rw [if_pos has]
  proof := fun index _ => ⟨_, rfl⟩
  signature := fun _ => rfl
  put := by
    intro feed index value proof _ has _ _
    refine ⟨_, _, rfl, trivial, fun other => rfl, ?_⟩
    simp only [windowCore, blocksBelow, decide_eq_true_eq] at has ⊢
    omega

/--
Two blocks lie beyond the first window, and at rest the learner has neither
wanted nor been told of the first of them.
-/
theorem second_window_never_wanted :
    ∃ actions final,
      Machine.run (PeerSync.step windowCore true)
          (.subscribed (blocksBelow (windowLength + 2)) (blocksBelow 0)
            { id := Key.constant 1 } { id := Key.constant 2 })
          actions =
          some final ∧
        final.Quiescent ∧
        ¬ ∀ index < windowLength + 2, Told final index := by
  have fits : windowLength + 2 < 2 ^ 64 := by decide
  have serves := serves_windowCore (windowLength + 2)
  have empty :
      ∀ index,
        windowCore.has (blocksBelow 0) index →
        index < windowLength + 2 := by
    intro index has
    simp [windowCore, blocksBelow] at has
  have starts :
      ∃ middle,
        Machine.run (PeerSync.step windowCore true)
            (.subscribed (blocksBelow (windowLength + 2))
              (blocksBelow 0) { id := Key.constant 1 }
              { id := Key.constant 2 })
            [.start .holder, .start .learner] =
            some middle ∧
          PeerDrain.BothLoop middle :=
    ⟨_, rfl, rfl, rfl⟩
  obtain ⟨middle, started, loops⟩ := starts
  obtain ⟨exchanging, _⟩ :=
    windowed_run serves fits (fun _ => rfl) rfl trivial empty
      (Nat.zero_le _) started
  obtain ⟨actions, final, drained, quiescent⟩ :=
    PeerDrain.exists_quiescent serves fits (fun _ => rfl) rfl
      exchanging loops
  have ran := Machine.run_append started drained
  obtain ⟨_, windowed⟩ :=
    windowed_run serves fits (fun _ => rfl) rfl trivial empty
      (Nat.zero_le _) ran
  refine ⟨_, final, ran, quiescent, ?_⟩
  intro told
  exact windowed.not_told (Nat.lt_succ_self _)
    (told windowLength (by omega))

end Hyperspace.PeerWindow
