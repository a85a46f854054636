import Hyperspace.PeerSync

namespace Hyperspace

/-!
# Blocks that are requested twice

`on_have` requests every announced block that the feed does not hold.  It does
not know which blocks it has requested and not yet received, so two
announcements of one block that arrive before its data lead to two requests, and
the counter of downloaded blocks is raised for both answers.

The loops are those of an initial sync, but either of them may request blocks,
and other tasks may append to their feeds or put blocks into them.  A ledger
records for each loop what was announced to it, which of its requests have not
been answered, and which blocks it has acquired from the other one.
-/

namespace PeerRequests

open PeerSync (Party Side Session)

/-- The other side. -/
def other : Party → Party
  | .holder => .learner
  | .learner => .holder

/-- What one loop was told, what it waits for, and what it has acquired. -/
structure Ledger where
  told : List Nat
  unanswered : List Nat
  acquired : List Nat
  deriving Repr, DecidableEq

/-- Two loops and their ledgers. -/
structure State (Feed : Type) where
  session : Session Feed
  ledger : Party → Ledger

/-- What can happen. -/
inductive Action (Signature : Type) where
  | sync (action : PeerSync.Action)
  /-- Another task appends to the feed of a loop. -/
  | append (party : Party) (block : Bytes)
  /-- Another task puts a block into the feed of a loop. -/
  | download (party : Party) (index : Nat) (value : Option Bytes)
      (proof : Proof Signature)

/-- The blocks that are requested in a list of messages. -/
def requested (messages : List Message) : List Nat :=
  messages.filterMap fun message =>
    match message with
    | .request index => some index
    | _ => none

/-- The blocks that are brought in a list of messages. -/
def brought (messages : List Message) : List Nat :=
  messages.filterMap fun message =>
    match message with
    | .data index _ _ _ => some index
    | _ => none

section

variable {Feed : Type}

/-- Two loops that have just subscribed to their feeds. -/
def initial
    (holderFeed learnerFeed : Feed)
    (holderId learnerId : Key) : State Feed where
  session :=
    .subscribed holderFeed learnerFeed { id := holderId }
      { id := learnerId }
  ledger := fun _ => ⟨[], [], []⟩

/-- Another task has changed what a loop sees of its feed. -/
def setPeer
    (session : Session Feed)
    (party : Party)
    (peer : Peer Feed) : Session Feed :=
  match party with
  | .holder =>
      { session with holder := { session.holder with peer := peer } }
  | .learner =>
      { session with learner := { session.learner with peer := peer } }

end

section

variable
  {Feed Signature : Type}
  (core : Hypercore Feed Signature)
  (overflowChecks : Bool)

/-- The blocks that a message announces. -/
def announced : Message → List Nat
  | .announce start length bitfield _ =>
      (Peer.announcedIndices core overflowChecks start length
        bitfield).getD []
  | _ => []

/-- The requests that are left after a message has arrived. -/
def answer (unanswered : List Nat) : Message → List Nat
  | .data index _ _ _ => unanswered.erase index
  | _ => unanswered

/-- The block that a message has added to a feed. -/
def newlyHeld (before after : Feed) : Message → List Nat
  | .data index _ _ _ =>
      if core.has before index = false ∧ core.has after index = true then
        [index]
      else
        []
  | _ => []

/-- The ledger of a loop that has handled a message. -/
def Ledger.after
    (ledger : Ledger)
    (before : Feed)
    (message : Message)
    (turn : Turn Feed) : Ledger where
  told := ledger.told ++ announced core overflowChecks message
  unanswered :=
    answer ledger.unanswered message ++ requested turn.sent
  acquired :=
    ledger.acquired ++ newlyHeld core before turn.peer.feed message

/-- The ledgers after a step of the two loops. -/
def ledgerAfter (state : State Feed) : PeerSync.Action → Party → Ledger
  | .deliver party =>
      match (state.session.side party).inbox with
      | message :: _ =>
          Function.update state.ledger party
            ((state.ledger party).after core overflowChecks
              (state.session.side party).peer.feed message
              ((state.session.side party).peer.onMessage core
                overflowChecks message))
      | [] => state.ledger
  | _ => state.ledger

/-- One step. -/
def step (state : State Feed) : Action Signature → Option (State Feed)
  | .sync action =>
      (PeerSync.step core overflowChecks state.session action).map
        fun session =>
          ⟨session, ledgerAfter core overflowChecks state action⟩
  | .append party block =>
      let peer := (state.session.side party).peer
      match core.append peer.feed block with
      | none => some state
      | some feed =>
          some { state with
            session :=
              setPeer state.session party
                { peer with
                  feed := feed
                  feedEvents := peer.feedEvents ++ [.append] } }
  | .download party index value proof =>
      let peer := (state.session.side party).peer
      match core.put peer.feed index value proof with
      | none => some state
      | some (feed, queued) =>
          some { state with
            session :=
              setPeer state.session party
                (peer.stored index feed queued) }

/-- No request is sent for a block while another one for it is unanswered. -/
def SendsOnce (state : State Feed) (action : Action Signature) : Prop :=
  ∀ next party,
    step core overflowChecks state action = some next →
    (requested ((next.session.side party).sent.drop
      (state.session.side party).sent.length)).Nodup ∧
      ∀ index ∈
          requested ((next.session.side party).sent.drop
            (state.session.side party).sent.length),
        index ∉ (state.ledger party).unanswered

/-- A loop has counted the blocks that it has acquired from the other one. -/
def CountsAcquired (state : State Feed) : Prop :=
  ∀ party,
    (state.ledger party).acquired.Nodup ∧
      (state.session.side party).peer.stats.downloadedBlocks =
        (state.ledger party).acquired.length

/-- A request is answered with data, and `put` accepts data. -/
def Settles (turn : Turn Feed) : Message → Prop
  | .request index =>
      ∃ value nodes signature,
        turn.sent = [.data index value nodes signature]
  | .data _ _ _ _ => turn.result = .ok ()
  | _ => True

/-- Every request is answered with data that `put` accepts. -/
def Served (state : State Feed) : Action Signature → Prop
  | .sync (.deliver party) =>
      ∀ message rest,
        (state.session.side party).phase = .looping →
        (state.session.side party).inbox = message :: rest →
        Settles
          ((state.session.side party).peer.onMessage core
            overflowChecks message)
          message
  | _ => True

/--
No block that a loop lacks is announced to it again by the message that it
handles next.
-/
def AnnouncedOnce
    (state : State Feed) : Action Signature → Prop
  | .sync (.deliver party) =>
      ∀ message rest,
        (state.session.side party).phase = .looping →
        (state.session.side party).inbox = message :: rest →
        ∀ index ∈ announced core overflowChecks message,
          core.has (state.session.side party).peer.feed index = false →
          index ∉ (state.ledger party).told
  | _ => True

/--
A loop that is asked for a block has it, and no other task stores a block that
was announced to a loop and that it lacks.
-/
def Supplied (state : State Feed) : Action Signature → Prop
  | .sync (.deliver party) =>
      ∀ index rest,
        (state.session.side party).phase = .looping →
        (state.session.side party).inbox = .request index :: rest →
        core.get (state.session.side party).peer.feed index ≠ some none
  | .sync _ => True
  | .append party block =>
      ∀ feed,
        core.append (state.session.side party).peer.feed block =
          some feed →
        ∀ index ∈ (state.ledger party).told,
          core.has feed index = true →
          core.has (state.session.side party).peer.feed index = true
  | .download party index value proof =>
      ∀ feed queued,
        core.put (state.session.side party).peer.feed index value
          proof = some (feed, queued) →
        ∀ index ∈ (state.ledger party).told,
          core.has feed index = true →
          core.has (state.session.side party).peer.feed index = true

/-- What is assumed of the feeds. -/
structure KeepsBlocks : Prop extends core.PutsOnly where
  putKeeps :
    ∀ {feed next index value proof queued other},
      core.put feed index value proof = some (next, queued) →
      core.has feed other = true →
      core.has next other = true
  /-- Without a block, nothing is stored. -/
  putNothing :
    ∀ {feed next index proof queued},
      core.put feed index none proof = some (next, queued) →
      core.has next index = true →
      core.has feed index = true
  /-- A block that is put is held. -/
  putStores :
    ∀ {feed next index block proof queued},
      core.put feed index (some block) proof = some (next, queued) →
      core.has next index = true
  appendKeeps :
    ∀ {feed next block other},
      core.append feed block = some next →
      core.has feed other = true →
      core.has next other = true

end

/-! ## Messages -/

@[simp] theorem requested_append (first second : List Message) :
    requested (first ++ second) =
      requested first ++ requested second :=
  List.filterMap_append

@[simp] theorem brought_append (first second : List Message) :
    brought (first ++ second) = brought first ++ brought second :=
  List.filterMap_append

/-- Requests request their blocks. -/
theorem requested_map_request (indices : List Nat) :
    requested (indices.map .request) = indices := by
  simp [requested, List.filterMap_map]

/-- Requests bring nothing. -/
theorem brought_map_request (indices : List Nat) :
    brought (indices.map .request) = [] := by
  simp [brought, List.filterMap_map]

/-- Messages that neither request nor bring a block. -/
def Notice : Message → Prop
  | .openChannel => True
  | .want _ _ => True
  | .announce _ _ _ _ => True
  | .ignored => True
  | .request _ => False
  | .data _ _ _ _ => False

/-- Notices request nothing. -/
theorem requested_of_notices
    {messages : List Message}
    (notices : ∀ message ∈ messages, Notice message) :
    requested messages = [] := by
  rw [requested, List.filterMap_eq_nil_iff]
  intro message member
  have notice := notices message member
  cases message <;> first | rfl | exact notice.elim

/-- Notices bring nothing. -/
theorem brought_of_notices
    {messages : List Message}
    (notices : ∀ message ∈ messages, Notice message) :
    brought messages = [] := by
  rw [brought, List.filterMap_eq_nil_iff]
  intro message member
  have notice := notices message member
  cases message <;> first | rfl | exact notice.elim

/-- Data without a block is among the messages. -/
def Blank (messages : List Message) : Prop :=
  ∃ index nodes signature,
    Message.data index none nodes signature ∈ messages

/-- Blank data among two lists of messages. -/
theorem blank_append {first second : List Message} :
    Blank (first ++ second) ↔ Blank first ∨ Blank second := by
  simp only [Blank, List.mem_append, exists_or]

/-- Messages that bring nothing hold no blank data. -/
theorem not_blank_of_brought_nil
    {messages : List Message}
    (nothing : brought messages = []) :
    ¬ Blank messages := by
  rintro ⟨index, nodes, signature, member⟩
  rw [brought, List.filterMap_eq_nil_iff] at nothing
  cases nothing _ member

section

variable
  {Feed Signature : Type}
  {core : Hypercore Feed Signature}
  {overflowChecks : Bool}

/-- No block is announced twice by one message. -/
theorem nodup_announced (message : Message) :
    (announced core overflowChecks message).Nodup := by
  cases message with
  | announce start length bitfield ack =>
      simp only [announced]
      cases bitfield with
      | none =>
          simp only [Peer.announcedIndices]
          cases addU64 overflowChecks start (length.getD 1) with
          | none =>
              simp
          | some stop =>
              exact List.nodup_range'
      | some bitfield =>
          simp only [Peer.announcedIndices]
          cases Peer.parseBitfield core bitfield with
          | none =>
              simp
          | some bits =>
              exact List.nodup_range.filter _
  | openChannel =>
      exact List.nodup_nil
  | want start length =>
      exact List.nodup_nil
  | request index =>
      exact List.nodup_nil
  | data index value nodes signature =>
      exact List.nodup_nil
  | ignored =>
      exact List.nodup_nil

/-- `on_have` requests what is announced and missing. -/
theorem onHave_sent_eq
    (peer : Peer Feed)
    (start : Nat)
    (length : Option Nat)
    (bitfield : Option Bytes)
    (ack : Option Bool) :
    (peer.onHave core overflowChecks start length bitfield).sent =
      ((announced core overflowChecks
          (.announce start length bitfield ack)).filter
        fun index => !core.has peer.feed index).map .request := by
  simp only [Peer.onHave, announced]
  cases Peer.announcedIndices core overflowChecks start length
      bitfield with
  | none =>
      rfl
  | some indices =>
      rfl

/-- Answering a `Want` sends notices. -/
theorem notice_onWant
    (core : Hypercore Feed Signature)
    (peer : Peer Feed)
    (start : Nat)
    (length : Option Nat) :
    ∀ message ∈ (peer.onWant core start length).sent,
      Notice message := by
  intro message member
  rcases Peer.mem_onWant_sent core member with
    ⟨rfl, -, -⟩ | ⟨rle, -, rfl⟩
  · trivial
  · trivial

/-- Handling data sends notices. -/
theorem notice_onData
    (core : Hypercore Feed Signature)
    (peer : Peer Feed)
    (index : Nat)
    (value : Option Bytes)
    (nodes : List Node)
    (signature : Option Bytes) :
    ∀ message ∈ (peer.onData core index value nodes signature).sent,
      Notice message := by
  intro message member
  simp only [Peer.onData] at member
  split at member
  · cases member
  · split at member
    · cases member
    · simp only [Peer.done] at member
      split at member
      · rw [List.mem_singleton.mp member]
        trivial
      · cases member

/-- An event of the feed sends notices. -/
theorem notice_onFeedEvent
    (core : Hypercore Feed Signature)
    (overflowChecks : Bool)
    (peer : Peer Feed)
    (event : FeedEvent) :
    ∀ message ∈ (peer.onFeedEvent core overflowChecks event).sent,
      Notice message := by
  intro message member
  cases event with
  | download index =>
      rw [List.mem_singleton.mp member]
      trivial
  | append =>
      simp only [Peer.onFeedEvent] at member
      split at member
      · cases member
      · rw [List.mem_singleton.mp member]
        trivial

/-- Data that `put` accepts is stored and counted. -/
theorem onData_of_ok
    {peer : Peer Feed}
    {index : Nat}
    {value : Option Bytes}
    {nodes : List Node}
    {signature : Option Bytes}
    (accepted :
      (peer.onData core index value nodes signature).result = .ok ()) :
    ∃ proof queued,
      core.put peer.feed index value proof =
          some
            ((peer.onData core index value nodes signature).peer.feed,
              queued) ∧
        (peer.onData core index value nodes
            signature).peer.stats.downloadedBlocks =
          peer.stats.downloadedBlocks + 1 := by
  cases isRead : Peer.readSignature core signature with
  | none =>
      simp [Peer.onData, isRead, Peer.failed] at accepted
  | some read =>
      cases put :
          core.put peer.feed index value ⟨index, nodes, read⟩ with
      | none =>
          simp [Peer.onData, isRead, put, Peer.failed] at accepted
      | some stored =>
          obtain ⟨feed, queued⟩ := stored
          refine ⟨⟨index, nodes, read⟩, queued, ?_, ?_⟩
          · simp [Peer.onData, isRead, put, Peer.done, Peer.stored]
          · simp [Peer.onData, isRead, put, Peer.done, Peer.stored,
              Replicator.Stats.addDownloaded]

/-- Other messages change neither the blocks held nor their count. -/
theorem onMessage_same
    (core : Hypercore Feed Signature)
    (overflowChecks : Bool)
    (peer : Peer Feed)
    {message : Message}
    (bringsNothing : brought [message] = []) :
    (peer.onMessage core overflowChecks message).peer.feed =
        peer.feed ∧
      (peer.onMessage core overflowChecks
          message).peer.stats.downloadedBlocks =
        peer.stats.downloadedBlocks := by
  cases message with
  | openChannel =>
      exact ⟨rfl, rfl⟩
  | want start length =>
      rw [Peer.onMessage, Peer.onWant_peer]
      exact ⟨rfl, rfl⟩
  | announce start length bitfield ack =>
      rw [Peer.onMessage, Peer.onHave_peer]
      exact ⟨rfl, rfl⟩
  | request index =>
      simp only [Peer.onMessage, Peer.onRequest]
      split
      · exact ⟨rfl, rfl⟩
      · split <;> exact ⟨rfl, rfl⟩
  | data index value nodes signature =>
      cases bringsNothing
  | ignored =>
      exact ⟨rfl, rfl⟩

end

/-! ## The ledger of a loop -/

section

variable
  {Feed Signature : Type}
  {core : Hypercore Feed Signature}
  {overflowChecks : Bool}

/--
The ledger of a loop fits its feed and the channels to and from the loop that
it asks: a request is unanswered while it or its answer is on its way.
-/
structure Fits
    (core : Hypercore Feed Signature)
    (side asked : Side Feed)
    (ledger : Ledger) : Prop where
  flight :
    (requested asked.inbox ++ brought side.inbox).Perm
      ledger.unanswered
  once : ledger.unanswered.Nodup
  told : ∀ index ∈ ledger.unanswered, index ∈ ledger.told
  covered :
    ∀ index ∈ ledger.told,
      core.has side.peer.feed index = true ∨
        index ∈ ledger.unanswered ∨
        ledger.acquired.length < side.peer.stats.downloadedBlocks
  held :
    ∀ index ∈ ledger.acquired, core.has side.peer.feed index = true
  acquiredOnce : ledger.acquired.Nodup
  counted :
    ledger.acquired.length ≤ side.peer.stats.downloadedBlocks

/--
The counter of a loop is too high, or it will be: data is on its way for a block
that the feed has, or data without a block is.
-/
def Spoiled
    (core : Hypercore Feed Signature)
    (side : Side Feed)
    (ledger : Ledger) : Prop :=
  ledger.acquired.length < side.peer.stats.downloadedBlocks ∨
    (∃ index ∈ ledger.unanswered,
      core.has side.peer.feed index = true) ∨
    Blank side.inbox

variable
  {side asked sideNext askedNext : Side Feed}
  {ledger : Ledger}

/-- Messages move, and neither the blocks held nor their count change. -/
theorem Fits.move
    (fits : Fits core side asked ledger)
    (flight :
      (requested askedNext.inbox ++ brought sideNext.inbox).Perm
        (requested asked.inbox ++ brought side.inbox))
    (sameFeed : sideNext.peer.feed = side.peer.feed)
    (sameCount :
      sideNext.peer.stats.downloadedBlocks =
        side.peer.stats.downloadedBlocks) :
    Fits core sideNext askedNext ledger where
  flight := flight.trans fits.flight
  once := fits.once
  told := fits.told
  covered := by
    rw [sameFeed, sameCount]
    exact fits.covered
  held := by
    rw [sameFeed]
    exact fits.held
  acquiredOnce := fits.acquiredOnce
  counted := by
    rw [sameCount]
    exact fits.counted

/-- Neither the blocks held nor their count nor blank data change. -/
theorem spoiled_congr
    (sameFeed : sideNext.peer.feed = side.peer.feed)
    (sameCount :
      sideNext.peer.stats.downloadedBlocks =
        side.peer.stats.downloadedBlocks)
    (sameBlank : Blank sideNext.inbox ↔ Blank side.inbox) :
    Spoiled core sideNext ledger ↔ Spoiled core side ledger := by
  rw [Spoiled, Spoiled, sameFeed, sameCount, sameBlank]

/-- Only blank data spoils the count of a loop that receives messages. -/
theorem spoiled_receive (messages : List Message) :
    Spoiled core (side.receive messages) ledger ↔
      Spoiled core side ledger ∨ Blank messages := by
  simp only [Spoiled, Side.receive, blank_append, or_assoc]

/-- A loop receives the answers of the one it asks. -/
theorem Fits.receives
    (fits : Fits core side asked ledger)
    {rest : List Message}
    {turn : Turn Feed}
    (answers :
      (requested rest ++ brought turn.sent).Perm
        (requested asked.inbox)) :
    Fits core (side.receive turn.sent) (asked.after rest turn)
      ledger := by
  refine fits.move ?_ rfl rfl
  simp only [Side.after, Side.receive, brought_append]
  refine (List.perm_append_comm.append_left _).trans ?_
  rw [← List.append_assoc]
  exact answers.append_right _

/-- A loop that sends no requests keeps what it holds. -/
theorem Fits.acts
    (fits : Fits core side asked ledger)
    {rest : List Message}
    {turn : Turn Feed}
    (noRequests : requested turn.sent = [])
    (sameBrought : brought rest = brought side.inbox)
    (sameFeed : turn.peer.feed = side.peer.feed)
    (sameCount :
      turn.peer.stats.downloadedBlocks =
        side.peer.stats.downloadedBlocks) :
    Fits core (side.after rest turn) (asked.receive turn.sent)
      ledger := by
  refine fits.move ?_ sameFeed sameCount
  simp [Side.after, Side.receive, noRequests, sameBrought]

/-- A loop that handles a message answers every request. -/
theorem answers_onMessage
    (peer : Peer Feed)
    (message : Message)
    (rest : List Message)
    (settles :
      Settles (peer.onMessage core overflowChecks message) message) :
    (requested rest ++
        brought (peer.onMessage core overflowChecks message).sent).Perm
      (requested (message :: rest)) := by
  cases message with
  | request index =>
      obtain ⟨value, nodes, signature, sent⟩ := settles
      rw [sent]
      exact List.perm_append_singleton index _
  | announce start length bitfield ack =>
      rw [Peer.onMessage, onHave_sent_eq _ _ _ _ ack,
        brought_map_request, List.append_nil]
      exact List.Perm.refl _
  | openChannel =>
      exact List.Perm.of_eq (List.append_nil _)
  | want start length =>
      rw [Peer.onMessage,
        brought_of_notices (notice_onWant core peer start length),
        List.append_nil]
      exact List.Perm.refl _
  | data index value nodes signature =>
      rw [Peer.onMessage,
        brought_of_notices
          (notice_onData core peer index value nodes signature),
        List.append_nil]
      exact List.Perm.refl _
  | ignored =>
      exact List.Perm.of_eq (List.append_nil _)

/-- Answers are blank exactly if the block is not there. -/
theorem blank_onMessage_iff
    (peer : Peer Feed)
    (message : Message)
    (settles :
      Settles (peer.onMessage core overflowChecks message) message) :
    Blank (peer.onMessage core overflowChecks message).sent ↔
      ∃ index,
        message = .request index ∧
          core.get peer.feed index = some none := by
  by_cases isRequest : ∃ index, message = .request index
  · obtain ⟨index, rfl⟩ := isRequest
    obtain ⟨value, nodes, signature, sent⟩ := settles
    have found : core.get peer.feed index = some value := by
      simp only [Peer.onMessage, Peer.onRequest] at sent
      split at sent
      · cases sent
      · next found =>
          split at sent
          · cases sent
          · simp only [Peer.done, List.cons.injEq,
              Message.data.injEq] at sent
            rw [found, sent.1.2.1]
    rw [sent]
    simp [Blank, found, eq_comm]
  · have notRequest := not_exists.mp isRequest
    have nothing :
        brought (peer.onMessage core overflowChecks message).sent =
          [] := by
      have answers := answers_onMessage peer message [] settles
      have noRequest : requested [message] = [] := by
        cases message <;>
          first | rfl | exact absurd rfl (notRequest _)
      rw [noRequest] at answers
      exact (List.append_eq_nil_iff.mp answers.eq_nil).2
    constructor
    · exact fun blank => (not_blank_of_brought_nil nothing blank).elim
    · rintro ⟨index, same, -⟩
      exact (notRequest index same).elim

/-- Messages that announce and bring nothing leave the ledger alone. -/
theorem Ledger.after_of_other
    (ledger : Ledger)
    (before : Feed)
    {message : Message}
    {turn : Turn Feed}
    (tellsNothing : announced core overflowChecks message = [])
    (bringsNothing : brought [message] = [])
    (noRequests : requested turn.sent = []) :
    ledger.after core overflowChecks before message turn = ledger := by
  cases message with
  | announce start length bitfield ack =>
      simp [Ledger.after, tellsNothing, answer, newlyHeld, noRequests]
  | data index value nodes signature =>
      cases bringsNothing
  | openChannel =>
      simp [Ledger.after, announced, answer, newlyHeld, noRequests]
  | want start length =>
      simp [Ledger.after, announced, answer, newlyHeld, noRequests]
  | request index =>
      simp [Ledger.after, announced, answer, newlyHeld, noRequests]
  | ignored =>
      simp [Ledger.after, announced, answer, newlyHeld, noRequests]

/-- The ledger of a loop that has handled an announcement. -/
theorem Ledger.after_announce
    (ledger : Ledger)
    (before : Feed)
    (start : Nat)
    (length : Option Nat)
    (bitfield : Option Bytes)
    (ack : Option Bool)
    (turn : Turn Feed) :
    ledger.after core overflowChecks before
        (.announce start length bitfield ack) turn =
      ⟨ledger.told ++
          announced core overflowChecks
            (.announce start length bitfield ack),
        ledger.unanswered ++ requested turn.sent,
        ledger.acquired⟩ := by
  simp [Ledger.after, answer, newlyHeld]

/-- The ledger of a loop that has handled data. -/
theorem Ledger.after_data
    (ledger : Ledger)
    (before : Feed)
    (index : Nat)
    (value : Option Bytes)
    (nodes : List Node)
    (signature : Option Bytes)
    {turn : Turn Feed}
    (noRequests : requested turn.sent = []) :
    ledger.after core overflowChecks before
        (.data index value nodes signature) turn =
      ⟨ledger.told,
        ledger.unanswered.erase index,
        ledger.acquired ++
          newlyHeld core before turn.peer.feed
            (.data index value nodes signature)⟩ := by
  simp [Ledger.after, announced, answer, noRequests]

/-- What is brought after a message that brings nothing. -/
theorem brought_cons
    {message : Message}
    (bringsNothing : brought [message] = [])
    (rest : List Message) :
    brought (message :: rest) = brought rest := by
  rw [← List.singleton_append, brought_append, bringsNothing,
    List.nil_append]

/-- A message that brings nothing is not blank. -/
theorem blank_cons
    {message : Message}
    (bringsNothing : brought [message] = [])
    (rest : List Message) :
    Blank (message :: rest) ↔ Blank rest := by
  rw [← List.singleton_append, blank_append,
    or_iff_right (not_blank_of_brought_nil bringsNothing)]

/-- A loop handles a message that announces and brings nothing. -/
theorem Fits.handlesOther
    (fits : Fits core side asked ledger)
    {message : Message}
    {rest : List Message}
    {turn : Turn Feed}
    (isTurn : turn = side.peer.onMessage core overflowChecks message)
    (taken : side.inbox = message :: rest)
    (tellsNothing : announced core overflowChecks message = [])
    (bringsNothing : brought [message] = [])
    (noRequests : requested turn.sent = []) :
    Fits core (side.after rest turn) (asked.receive turn.sent)
        (ledger.after core overflowChecks side.peer.feed message turn) ∧
      (Spoiled core (side.after rest turn)
          (ledger.after core overflowChecks side.peer.feed message
            turn) ↔
        Spoiled core side ledger) := by
  obtain ⟨sameFeed, sameCount⟩ :=
    onMessage_same core overflowChecks side.peer bringsNothing
  rw [← isTurn] at sameFeed sameCount
  rw [ledger.after_of_other side.peer.feed tellsNothing bringsNothing
    noRequests]
  constructor
  · refine fits.acts noRequests ?_ sameFeed sameCount
    rw [taken, brought_cons bringsNothing]
  · refine spoiled_congr sameFeed sameCount ?_
    rw [taken]
    exact (blank_cons bringsNothing rest).symm

/-- A loop requests what it is told of and lacks. -/
theorem requested_onMessage
    (peer : Peer Feed)
    (message : Message)
    (settles :
      Settles (peer.onMessage core overflowChecks message) message) :
    requested (peer.onMessage core overflowChecks message).sent =
      (announced core overflowChecks message).filter fun index =>
        !core.has peer.feed index := by
  cases message with
  | announce start length bitfield ack =>
      rw [Peer.onMessage, onHave_sent_eq _ _ _ _ ack,
        requested_map_request]
  | request index =>
      obtain ⟨value, nodes, signature, sent⟩ := settles
      rw [sent]
      rfl
  | openChannel =>
      rfl
  | want start length =>
      exact requested_of_notices (notice_onWant core peer start length)
  | data index value nodes signature =>
      exact requested_of_notices
        (notice_onData core peer index value nodes signature)
  | ignored =>
      rfl

/-- A block is requested if it is announced and not held. -/
theorem mem_requested_onMessage
    {peer : Peer Feed}
    {message : Message}
    (settles :
      Settles (peer.onMessage core overflowChecks message) message)
    (index : Nat) :
    index ∈
        requested (peer.onMessage core overflowChecks message).sent ↔
      index ∈ announced core overflowChecks message ∧
        core.has peer.feed index = false := by
  rw [requested_onMessage peer message settles, List.mem_filter,
    Bool.not_eq_true']

/-- No block is requested twice by one handler. -/
theorem nodup_requested_onMessage
    {peer : Peer Feed}
    {message : Message}
    (settles :
      Settles (peer.onMessage core overflowChecks message) message) :
    (requested
      (peer.onMessage core overflowChecks message).sent).Nodup := by
  rw [requested_onMessage peer message settles]
  exact (nodup_announced message).filter _

/-- A loop requests the blocks it is told of and lacks. -/
theorem Fits.asks
    (fits : Fits core side asked ledger)
    {indices : List Nat}
    {rest : List Message}
    {turn : Turn Feed}
    (sameBrought : brought rest = brought side.inbox)
    (samePeer : turn.peer = side.peer)
    (isRequested :
      ∀ index,
        index ∈ requested turn.sent ↔
          index ∈ indices ∧ core.has side.peer.feed index = false)
    (requestedOnce : (requested turn.sent).Nodup)
    (notAsked :
      ∀ index ∈ requested turn.sent, index ∉ ledger.unanswered) :
    Fits core (side.after rest turn) (asked.receive turn.sent)
      ⟨ledger.told ++ indices,
        ledger.unanswered ++ requested turn.sent,
        ledger.acquired⟩ where
  flight := by
    simp only [Side.after, Side.receive, requested_append, sameBrought]
    rw [List.append_assoc]
    refine (List.perm_append_comm.append_left _).trans ?_
    rw [← List.append_assoc]
    exact fits.flight.append_right _
  once := by
    refine fits.once.append requestedOnce ?_
    intro index waiting asking
    exact notAsked index asking waiting
  told := by
    intro index waiting
    rcases List.mem_append.mp waiting with old | new
    · exact List.mem_append_left _ (fits.told index old)
    · exact List.mem_append_right _ ((isRequested index).mp new).1
  covered := by
    intro index told
    simp only [Side.after, samePeer]
    rcases List.mem_append.mp told with old | new
    · rcases fits.covered index old with has | waiting | wasted
      · exact Or.inl has
      · exact Or.inr (Or.inl (List.mem_append_left _ waiting))
      · exact Or.inr (Or.inr wasted)
    · cases has : core.has side.peer.feed index with
      | true =>
          exact Or.inl rfl
      | false =>
          have asking := (isRequested index).mpr ⟨new, has⟩
          exact Or.inr (Or.inl (List.mem_append_right _ asking))
  held := by
    simp only [Side.after, samePeer]
    exact fits.held
  acquiredOnce := fits.acquiredOnce
  counted := by
    simp only [Side.after, samePeer]
    exact fits.counted

/-- Requests for blocks that are lacking do not spoil the count. -/
theorem spoiled_asks
    {told indices : List Nat}
    {rest : List Message}
    {turn : Turn Feed}
    (sameBlank : Blank rest ↔ Blank side.inbox)
    (samePeer : turn.peer = side.peer)
    (lacking :
      ∀ index ∈ indices, core.has side.peer.feed index = false) :
    Spoiled core (side.after rest turn)
        ⟨told, ledger.unanswered ++ indices, ledger.acquired⟩ ↔
      Spoiled core side ledger := by
  have sameHeld :
      (∃ index ∈ ledger.unanswered ++ indices,
          core.has side.peer.feed index = true) ↔
        ∃ index ∈ ledger.unanswered,
          core.has side.peer.feed index = true := by
    constructor
    · rintro ⟨index, waiting, has⟩
      rcases List.mem_append.mp waiting with old | new
      · exact ⟨index, old, has⟩
      · rw [lacking index new] at has
        cases has
    · rintro ⟨index, waiting, has⟩
      exact ⟨index, List.mem_append_left _ waiting, has⟩
  simp only [Spoiled, Side.after, samePeer, sameBlank, sameHeld]

/-- A loop handles an announcement of blocks that it does not wait for. -/
theorem Fits.handlesAnnounce
    (fits : Fits core side asked ledger)
    {start : Nat}
    {length : Option Nat}
    {bitfield : Option Bytes}
    {ack : Option Bool}
    {rest : List Message}
    {turn : Turn Feed}
    (isTurn :
      turn =
        side.peer.onMessage core overflowChecks
          (.announce start length bitfield ack))
    (taken :
      side.inbox = .announce start length bitfield ack :: rest)
    (notAsked :
      ∀ index ∈ requested turn.sent, index ∉ ledger.unanswered) :
    Fits core (side.after rest turn) (asked.receive turn.sent)
        (ledger.after core overflowChecks side.peer.feed
          (.announce start length bitfield ack) turn) ∧
      (Spoiled core (side.after rest turn)
          (ledger.after core overflowChecks side.peer.feed
            (.announce start length bitfield ack) turn) ↔
        Spoiled core side ledger) := by
  have bringsNothing :
      brought [.announce start length bitfield ack] = [] :=
    rfl
  have isRequested :
      ∀ index,
        index ∈ requested turn.sent ↔
          index ∈
              announced core overflowChecks
                (.announce start length bitfield ack) ∧
            core.has side.peer.feed index = false := by
    rw [isTurn]
    exact mem_requested_onMessage trivial
  have requestedOnce : (requested turn.sent).Nodup := by
    rw [isTurn]
    exact nodup_requested_onMessage trivial
  have samePeer : turn.peer = side.peer := by
    rw [isTurn]
    exact Peer.onHave_peer core overflowChecks side.peer start length
      bitfield
  rw [Ledger.after_announce]
  constructor
  · refine fits.asks ?_ samePeer isRequested requestedOnce notAsked
    rw [taken, brought_cons bringsNothing]
  · refine spoiled_asks ?_ samePeer ?_
    · rw [taken]
      exact (blank_cons bringsNothing rest).symm
    · exact fun index asking => ((isRequested index).mp asking).2

/-- The answer that a loop takes is one that it waits for. -/
theorem Fits.flight_data
    (fits : Fits core side asked ledger)
    {index : Nat}
    {value : Option Bytes}
    {nodes : List Node}
    {signature : Option Bytes}
    {rest : List Message}
    (taken : side.inbox = .data index value nodes signature :: rest) :
    index ∈ ledger.unanswered ∧
      (requested asked.inbox ++ brought rest).Perm
        (ledger.unanswered.erase index) := by
  have flight := fits.flight
  rw [taken] at flight
  have moved :
      (index :: (requested asked.inbox ++ brought rest)).Perm
        ledger.unanswered :=
    List.perm_middle.symm.trans flight
  exact List.cons_perm_iff_perm_erase.mp moved

/-- A block is acquired if it was not held and is. -/
theorem mem_newlyHeld_data
    {before after : Feed}
    {index other : Nat}
    {value : Option Bytes}
    {nodes : List Node}
    {signature : Option Bytes} :
    other ∈
        newlyHeld core before after
          (.data index value nodes signature) ↔
      other = index ∧ core.has before index = false ∧
        core.has after index = true := by
  simp only [newlyHeld]
  split <;> simp [*]

/-- Data adds at most one block. -/
theorem newlyHeld_data_le_one
    (core : Hypercore Feed Signature)
    (before after : Feed)
    (index : Nat)
    (value : Option Bytes)
    (nodes : List Node)
    (signature : Option Bytes) :
    (newlyHeld core before after
          (.data index value nodes signature)).length ≤ 1 ∧
      (newlyHeld core before after
        (.data index value nodes signature)).Nodup := by
  simp only [newlyHeld]
  split <;> simp

/-- Data adds nothing if its block was held or is not. -/
theorem newlyHeld_data_eq_nil
    (before after : Feed)
    {index : Nat}
    (value : Option Bytes)
    (nodes : List Node)
    (signature : Option Bytes)
    (same :
      core.has after index = true → core.has before index = true) :
    newlyHeld core before after (.data index value nodes signature) =
      [] := by
  simp only [newlyHeld]
  split
  · next gained =>
      rw [same gained.2] at gained
      cases gained.1
  · rfl

/-- The ledger of a loop that has put a block into its feed. -/
theorem Fits.gets
    (stores : KeepsBlocks core)
    (fits : Fits core side asked ledger)
    {index : Nat}
    {value : Option Bytes}
    {nodes : List Node}
    {signature : Option Bytes}
    {proof : Proof Signature}
    {queued : Bool}
    {rest : List Message}
    {turn : Turn Feed}
    (taken : side.inbox = .data index value nodes signature :: rest)
    (noRequests : requested turn.sent = [])
    (put :
      core.put side.peer.feed index value proof =
        some (turn.peer.feed, queued))
    (counts :
      turn.peer.stats.downloadedBlocks =
        side.peer.stats.downloadedBlocks + 1) :
    Fits core (side.after rest turn) (asked.receive turn.sent)
      ⟨ledger.told,
        ledger.unanswered.erase index,
        ledger.acquired ++
          newlyHeld core side.peer.feed turn.peer.feed
            (.data index value nodes signature)⟩ := by
  obtain ⟨waiting, flight⟩ := fits.flight_data taken
  have counted := fits.counted
  have kept :
      ∀ other,
        core.has side.peer.feed other = true →
        core.has turn.peer.feed other = true :=
    fun other => stores.putKeeps put
  obtain ⟨atMostOne, newOnce⟩ :=
    newlyHeld_data_le_one core side.peer.feed turn.peer.feed index value
      nodes signature
  refine ⟨?_, fits.once.erase index, ?_, ?_, ?_, ?_, ?_⟩
  · simpa [Side.after, Side.receive, noRequests] using flight
  · exact fun other old => fits.told other (List.mem_of_mem_erase old)
  · intro other told
    simp only [Side.after, counts, List.length_append]
    rcases fits.covered other told with has | old | wasted
    · exact Or.inl (kept other has)
    · by_cases same : other = index
      · subst other
        cases has : core.has turn.peer.feed index with
        | true =>
            exact Or.inl rfl
        | false =>
            have nothing :=
              newlyHeld_data_eq_nil side.peer.feed turn.peer.feed value
                nodes signature
                (fun holds => by rw [has] at holds; cases holds)
            refine Or.inr (Or.inr ?_)
            rw [nothing, List.length_nil]
            omega
      · exact Or.inr
          (Or.inl ((List.mem_erase_of_ne same).mpr old))
    · exact Or.inr (Or.inr (by omega))
  · intro other acquired
    rcases List.mem_append.mp acquired with old | new
    · exact kept other (fits.held other old)
    · obtain ⟨rfl, -, has⟩ := mem_newlyHeld_data.mp new
      exact has
  · refine fits.acquiredOnce.append newOnce ?_
    intro other old new
    obtain ⟨rfl, lacks, -⟩ := mem_newlyHeld_data.mp new
    rw [fits.held other old] at lacks
    cases lacks
  · simp only [Side.after, counts, List.length_append]
    omega

/-- Data that adds nothing is counted in vain. -/
theorem Fits.spoiled_of_nothing_new
    (fits : Fits core side asked ledger)
    {told unanswered : List Nat}
    {index : Nat}
    (value : Option Bytes)
    (nodes : List Node)
    (signature : Option Bytes)
    {rest : List Message}
    {turn : Turn Feed}
    (counts :
      turn.peer.stats.downloadedBlocks =
        side.peer.stats.downloadedBlocks + 1)
    (same :
      core.has turn.peer.feed index = true →
      core.has side.peer.feed index = true) :
    Spoiled core (side.after rest turn)
      ⟨told, unanswered,
        ledger.acquired ++
          newlyHeld core side.peer.feed turn.peer.feed
            (.data index value nodes signature)⟩ := by
  have counted := fits.counted
  apply Or.inl
  rw [newlyHeld_data_eq_nil side.peer.feed turn.peer.feed value nodes
    signature same, List.append_nil]
  simp only [Side.after, counts]
  omega

/-- A loop that has put a block counts as well as before. -/
theorem Fits.spoiled_gets
    (stores : KeepsBlocks core)
    (fits : Fits core side asked ledger)
    {index : Nat}
    {value : Option Bytes}
    {nodes : List Node}
    {signature : Option Bytes}
    {proof : Proof Signature}
    {queued : Bool}
    {rest : List Message}
    {turn : Turn Feed}
    (taken : side.inbox = .data index value nodes signature :: rest)
    (put :
      core.put side.peer.feed index value proof =
        some (turn.peer.feed, queued))
    (counts :
      turn.peer.stats.downloadedBlocks =
        side.peer.stats.downloadedBlocks + 1) :
    Spoiled core (side.after rest turn)
        ⟨ledger.told,
          ledger.unanswered.erase index,
          ledger.acquired ++
            newlyHeld core side.peer.feed turn.peer.feed
              (.data index value nodes signature)⟩ ↔
      Spoiled core side ledger := by
  obtain ⟨waiting, -⟩ := fits.flight_data taken
  have counted := fits.counted
  obtain ⟨atMostOne, -⟩ :=
    newlyHeld_data_le_one core side.peer.feed turn.peer.feed index value
      nodes signature
  constructor
  · intro spoiled
    by_contra sound
    simp only [Spoiled, not_or, not_exists, not_and, taken] at sound
    obtain ⟨exact, lacking, valued⟩ := sound
    have lacks : core.has side.peer.feed index = false := by
      simpa using lacking index waiting
    obtain ⟨block, rfl⟩ : ∃ block, value = some block := by
      cases value with
      | none =>
          exact absurd ⟨index, nodes, signature, .head _⟩ valued
      | some block =>
          exact ⟨block, rfl⟩
    have isNew :
        index ∈
          newlyHeld core side.peer.feed turn.peer.feed
            (.data index (some block) nodes signature) :=
      mem_newlyHeld_data.mpr ⟨rfl, lacks, stores.putStores put⟩
    have one := List.length_pos_of_mem isNew
    simp only [Spoiled, Side.after, counts, List.length_append]
      at spoiled
    rcases spoiled with wasted | ⟨other, old, has⟩ | blank
    · omega
    · have different : other ≠ index :=
        (fits.once.mem_erase_iff.mp old).1
      rcases stores.putAdds put has with before | same
      · exact lacking other (List.mem_of_mem_erase old) before
      · exact different same
    · obtain ⟨other, nodes, signature, member⟩ := blank
      exact valued ⟨other, nodes, signature, .tail _ member⟩
  · rintro (wasted | ⟨other, old, has⟩ | ⟨other, _, _, blank⟩)
    · apply Or.inl
      simp only [Side.after, counts, List.length_append]
      omega
    · by_cases same : other = index
      · subst other
        exact fits.spoiled_of_nothing_new value nodes signature counts
          fun _ => has
      · exact Or.inr (Or.inl
          ⟨other, (List.mem_erase_of_ne same).mpr old,
            stores.putKeeps put has⟩)
    · rw [taken] at blank
      cases blank with
      | head =>
          apply fits.spoiled_of_nothing_new none _ _ counts
          exact stores.putNothing put
      | tail _ later =>
          exact Or.inr (Or.inr ⟨other, _, _, later⟩)

/-- A loop handles a message. -/
theorem Fits.handles
    (stores : KeepsBlocks core)
    (fits : Fits core side asked ledger)
    {message : Message}
    {rest : List Message}
    {turn : Turn Feed}
    (isTurn : turn = side.peer.onMessage core overflowChecks message)
    (taken : side.inbox = message :: rest)
    (settles : Settles turn message)
    (notAsked :
      ∀ index ∈ requested turn.sent, index ∉ ledger.unanswered) :
    Fits core (side.after rest turn) (asked.receive turn.sent)
        (ledger.after core overflowChecks side.peer.feed message turn) ∧
      (Spoiled core (side.after rest turn)
          (ledger.after core overflowChecks side.peer.feed message
            turn) ↔
        Spoiled core side ledger) := by
  have isRequested :=
    requested_onMessage side.peer message
      (by rw [← isTurn]; exact settles)
  rw [← isTurn] at isRequested
  cases message with
  | announce start length bitfield ack =>
      exact fits.handlesAnnounce isTurn taken notAsked
  | data index value nodes signature =>
      rw [isTurn] at settles
      obtain ⟨proof, queued, put, counts⟩ := onData_of_ok settles
      rw [Peer.onMessage] at isTurn
      rw [← isTurn] at put counts
      rw [Ledger.after_data ledger side.peer.feed index value nodes
        signature isRequested]
      exact ⟨fits.gets stores taken isRequested put counts,
        fits.spoiled_gets stores taken put counts⟩
  | request index =>
      exact fits.handlesOther isTurn taken rfl rfl isRequested
  | openChannel =>
      exact fits.handlesOther isTurn taken rfl rfl isRequested
  | want start length =>
      exact fits.handlesOther isTurn taken rfl rfl isRequested
  | ignored =>
      exact fits.handlesOther isTurn taken rfl rfl isRequested

/-- Another task adds blocks to the feed of a loop. -/
theorem Fits.grows
    (fits : Fits core side asked ledger)
    {peer : Peer Feed}
    (kept :
      ∀ index,
        core.has side.peer.feed index = true →
        core.has peer.feed index = true)
    (sameStats : peer.stats = side.peer.stats) :
    Fits core { side with peer := peer } asked ledger where
  flight := fits.flight
  once := fits.once
  told := fits.told
  covered := by
    intro index told
    rw [sameStats]
    rcases fits.covered index told with has | other
    · exact Or.inl (kept index has)
    · exact Or.inr other
  held := fun index acquired => kept index (fits.held index acquired)
  acquiredOnce := fits.acquiredOnce
  counted := by
    rw [sameStats]
    exact fits.counted

/-- Another task spoils the count with a block that was announced. -/
theorem Fits.spoiled_grows
    (fits : Fits core side asked ledger)
    {peer : Peer Feed}
    (kept :
      ∀ index,
        core.has side.peer.feed index = true →
        core.has peer.feed index = true)
    (sameStats : peer.stats = side.peer.stats) :
    Spoiled core { side with peer := peer } ledger ↔
      Spoiled core side ledger ∨
        ¬ ∀ index ∈ ledger.told,
          core.has peer.feed index = true →
          core.has side.peer.feed index = true := by
  constructor
  · rintro (wasted | ⟨index, waiting, has⟩ | blank)
    · rw [sameStats] at wasted
      exact Or.inl (Or.inl wasted)
    · cases before : core.has side.peer.feed index with
      | true =>
          exact Or.inl (Or.inr (Or.inl ⟨index, waiting, before⟩))
      | false =>
          apply Or.inr
          intro same
          rw [same index (fits.told index waiting) has] at before
          cases before
    · exact Or.inl (Or.inr (Or.inr blank))
  · rintro ((wasted | ⟨index, waiting, has⟩ | blank) | grown)
    · apply Or.inl
      rw [sameStats]
      exact wasted
    · exact Or.inr (Or.inl ⟨index, waiting, kept index has⟩)
    · exact Or.inr (Or.inr blank)
    · simp only [not_forall] at grown
      obtain ⟨index, told, has, lacks⟩ := grown
      rcases fits.covered index told with before | waiting | wasted
      · exact (lacks before).elim
      · exact Or.inr (Or.inl ⟨index, waiting, has⟩)
      · apply Or.inl
        rw [sameStats]
        exact wasted

end

/-! ## Both loops -/

section

variable {Feed : Type}

/-- What holds of a party and of the other one holds of both. -/
theorem forall_party
    (party : Party)
    {holds : Party → Prop} :
    (∀ each, holds each) ↔ holds party ∧ holds (other party) := by
  constructor
  · exact fun both => ⟨both party, both (other party)⟩
  · rintro ⟨one, another⟩ each
    cases party <;> cases each <;> assumption

/-- What holds of some party holds of one or of the other one. -/
theorem exists_party
    (party : Party)
    {holds : Party → Prop} :
    (∃ each, holds each) ↔ holds party ∨ holds (other party) := by
  rw [← not_iff_not, not_exists, forall_party party, not_or]

@[simp] theorem other_other (party : Party) :
    other (other party) = party := by
  cases party <;> rfl

@[simp] theorem other_ne (party : Party) : other party ≠ party := by
  cases party <;> decide

@[simp] theorem side_after_self
    (session : Session Feed)
    (party : Party)
    (rest : List Message)
    (turn : Turn Feed) :
    (session.after party rest turn).side party =
      (session.side party).after rest turn := by
  cases party <;> rfl

@[simp] theorem side_after_other
    (session : Session Feed)
    (party : Party)
    (rest : List Message)
    (turn : Turn Feed) :
    (session.after party rest turn).side (other party) =
      (session.side (other party)).receive turn.sent := by
  cases party <;> rfl

@[simp] theorem side_post_self
    (session : Session Feed)
    (party : Party)
    (message : Message) :
    (session.post party message).side party =
      (session.side party).receive [message] := by
  cases party <;> rfl

@[simp] theorem side_post_other
    (session : Session Feed)
    (party : Party)
    (message : Message) :
    (session.post party message).side (other party) =
      session.side (other party) := by
  cases party <;> rfl

@[simp] theorem side_setPeer_self
    (session : Session Feed)
    (party : Party)
    (peer : Peer Feed) :
    (setPeer session party peer).side party =
      { session.side party with peer := peer } := by
  cases party <;> rfl

@[simp] theorem side_setPeer_other
    (session : Session Feed)
    (party : Party)
    (peer : Peer Feed) :
    (setPeer session party peer).side (other party) =
      session.side (other party) := by
  cases party <;> rfl

end

section

variable
  {Feed Signature : Type}
  {core : Hypercore Feed Signature}
  {overflowChecks : Bool}

/-- Both ledgers fit. -/
def Sound
    (core : Hypercore Feed Signature)
    (state : State Feed) : Prop :=
  ∀ party,
    Fits core (state.session.side party)
      (state.session.side (other party)) (state.ledger party)

/-- The count of a loop is spoiled. -/
def AnySpoiled
    (core : Hypercore Feed Signature)
    (state : State Feed) : Prop :=
  ∃ party,
    Spoiled core (state.session.side party) (state.ledger party)

/-- Two loops that have just subscribed count from zero. -/
theorem sound_initial
    (core : Hypercore Feed Signature)
    (holderFeed learnerFeed : Feed)
    (holderId learnerId : Key) :
    Sound core (initial holderFeed learnerFeed holderId learnerId) ∧
      ¬ AnySpoiled core
        (initial holderFeed learnerFeed holderId learnerId) := by
  constructor
  · intro party
    cases party <;>
      constructor <;> simp [initial, Session.side,
        PeerSync.Session.subscribed, Side.subscribed, other, requested,
        brought]
  · rintro ⟨party, spoiled⟩
    cases party <;>
      simp [Spoiled, Blank, initial, Session.side, Peer.new,
        PeerSync.Session.subscribed, Side.subscribed] at spoiled

variable {state next : State Feed}

/-- The two loops after one of them has acted. -/
theorem Sound.acted
    (party : Party)
    (ledgers : Party → Ledger)
    {rest : List Message}
    {turn : Turn Feed}
    (sound : Sound core state)
    (sameOther : ledgers (other party) = state.ledger (other party))
    (answers :
      (requested rest ++ brought turn.sent).Perm
        (requested (state.session.side party).inbox))
    (acts :
      Fits core ((state.session.side party).after rest turn)
          ((state.session.side (other party)).receive turn.sent)
          (ledgers party) ∧
        (Spoiled core ((state.session.side party).after rest turn)
            (ledgers party) ↔
          Spoiled core (state.session.side party)
            (state.ledger party))) :
    Sound core ⟨state.session.after party rest turn, ledgers⟩ ∧
      (AnySpoiled core ⟨state.session.after party rest turn, ledgers⟩ ↔
        AnySpoiled core state ∨ Blank turn.sent) := by
  have otherFits := sound (other party)
  rw [other_other] at otherFits
  constructor
  · rw [Sound, forall_party party]
    simp only [side_after_self, side_after_other, other_other, sameOther]
    exact ⟨acts.1, otherFits.receives answers⟩
  · rw [AnySpoiled, AnySpoiled, exists_party party, exists_party party]
    simp only [side_after_self, side_after_other, sameOther, acts.2,
      spoiled_receive, or_assoc]

/-- The two loops after one of them has sent notices. -/
theorem Sound.notified
    (party : Party)
    {turn : Turn Feed}
    (sound : Sound core state)
    (notices : ∀ message ∈ turn.sent, Notice message)
    (sameFeed :
      turn.peer.feed = (state.session.side party).peer.feed)
    (sameCount :
      turn.peer.stats.downloadedBlocks =
        (state.session.side party).peer.stats.downloadedBlocks) :
    Sound core
        ⟨state.session.after party (state.session.side party).inbox
            turn,
          state.ledger⟩ ∧
      (AnySpoiled core
          ⟨state.session.after party (state.session.side party).inbox
              turn,
            state.ledger⟩ ↔
        AnySpoiled core state) := by
  have nothing := brought_of_notices notices
  have acted :=
    sound.acted party state.ledger rfl
      (by rw [nothing, List.append_nil])
      ⟨(sound party).acts (requested_of_notices notices) rfl sameFeed
          sameCount,
        spoiled_congr sameFeed sameCount Iff.rfl⟩
  rwa [or_iff_left (not_blank_of_brought_nil nothing)] at acted

/-- What a step is. -/
inductive Moves
    (core : Hypercore Feed Signature)
    (overflowChecks : Bool)
    (state : State Feed) :
    Action Signature → State Feed → Prop where
  | starts (party : Party) :
      Moves core overflowChecks state (.sync (.start party))
        ⟨state.session.after party (state.session.side party).inbox
            (state.session.side party).peer.onOpen,
          state.ledger⟩
  | handles
      (party : Party)
      {message : Message}
      {rest : List Message}
      (looping : (state.session.side party).phase = .looping)
      (taken : (state.session.side party).inbox = message :: rest) :
      Moves core overflowChecks state (.sync (.deliver party))
        ⟨state.session.after party rest
            ((state.session.side party).peer.onMessage core
              overflowChecks message),
          Function.update state.ledger party
            ((state.ledger party).after core overflowChecks
              (state.session.side party).peer.feed message
              ((state.session.side party).peer.onMessage core
                overflowChecks message))⟩
  | announces
      (party : Party)
      (event : FeedEvent)
      (rest : List FeedEvent) :
      Moves core overflowChecks state (.sync (.feedEvent party))
        ⟨state.session.after party (state.session.side party).inbox
            (({ (state.session.side party).peer with
                feedEvents := rest } : Peer Feed).onFeedEvent core
              overflowChecks event),
          state.ledger⟩
  | reopens (party : Party) :
      Moves core overflowChecks state (.sync (.reopen party))
        ⟨state.session.post party .openChannel, state.ledger⟩
  /-- An `append` or a `put` of another task fails. -/
  | fails
      {action : Action Signature}
      (supplied : Supplied core state action)
      (announcedOnce : AnnouncedOnce core overflowChecks state action) :
      Moves core overflowChecks state action state
  | appends
      (party : Party)
      {block : Bytes}
      {feed : Feed}
      (appended :
        core.append (state.session.side party).peer.feed block =
          some feed) :
      Moves core overflowChecks state (.append party block)
        { state with
          session :=
            setPeer state.session party
              { (state.session.side party).peer with
                feed := feed
                feedEvents :=
                  (state.session.side party).peer.feedEvents ++
                    [.append] } }
  | downloads
      (party : Party)
      {index : Nat}
      {value : Option Bytes}
      {proof : Proof Signature}
      {feed : Feed}
      {queued : Bool}
      (put :
        core.put (state.session.side party).peer.feed index value
          proof = some (feed, queued)) :
      Moves core overflowChecks state
        (.download party index value proof)
        { state with
          session :=
            setPeer state.session party
              ((state.session.side party).peer.stored index feed
                queued) }

/-- Every step is one of these. -/
theorem moves_of_step
    {action : Action Signature}
    (stepped : step core overflowChecks state action = some next) :
    Moves core overflowChecks state action next := by
  cases action with
  | sync action =>
      simp only [step, Option.map_eq_some_iff] at stepped
      obtain ⟨session, synced, rfl⟩ := stepped
      cases action with
      | start party =>
          simp only [PeerSync.step] at synced
          split at synced
          · cases synced
            exact .starts party
          · cases synced
      | deliver party =>
          simp only [PeerSync.step] at synced
          split at synced
          · next looping taken =>
              cases synced
              simp only [ledgerAfter, taken]
              exact .handles party looping taken
          · cases synced
      | feedEvent party =>
          simp only [PeerSync.step] at synced
          split at synced
          · next event rest looping taken =>
              cases synced
              exact .announces party event rest
          · cases synced
      | reopen party =>
          simp only [PeerSync.step] at synced
          cases synced
          exact .reopens party
  | append party block =>
      simp only [step] at stepped
      split at stepped
      · next failed =>
          cases stepped
          refine .fails ?_ trivial
          intro feed appended
          rw [failed] at appended
          cases appended
      · next feed appended =>
          cases stepped
          exact .appends party appended
  | download party index value proof =>
      simp only [step] at stepped
      split at stepped
      · next failed =>
          cases stepped
          refine .fails ?_ trivial
          intro feed queued put
          rw [failed] at put
          cases put
      · next feed queued put =>
          cases stepped
          exact .downloads party put

/-- The requests that a step sends. -/
theorem sendsOnce_iff
    {action : Action Signature}
    (stepped : step core overflowChecks state action = some next) :
    SendsOnce core overflowChecks state action ↔
      ∀ party,
        (requested ((next.session.side party).sent.drop
          (state.session.side party).sent.length)).Nodup ∧
          ∀ index ∈
              requested ((next.session.side party).sent.drop
                (state.session.side party).sent.length),
            index ∉ (state.ledger party).unanswered := by
  constructor
  · exact fun once party => once next party stepped
  · intro once reached party reaches
    have isNext : reached = next :=
      Option.some.inj (reaches.symm.trans stepped)
    subst reached
    exact once party

/-- The requests of a loop that acts are those of its handler. -/
theorem sendsOnce_after
    {party : Party}
    {rest : List Message}
    {turn : Turn Feed}
    {action : Action Signature}
    {ledgers : Party → Ledger}
    (stepped :
      step core overflowChecks state action =
        some ⟨state.session.after party rest turn, ledgers⟩) :
    SendsOnce core overflowChecks state action ↔
      (requested turn.sent).Nodup ∧
        ∀ index ∈ requested turn.sent,
          index ∉ (state.ledger party).unanswered := by
  rw [sendsOnce_iff stepped, forall_party party]
  simp [Side.after, Side.receive, requested]

/-- A loop that sends notices requests nothing. -/
theorem sendsOnce_of_notices
    {party : Party}
    {rest : List Message}
    {turn : Turn Feed}
    {action : Action Signature}
    {ledgers : Party → Ledger}
    (notices : ∀ message ∈ turn.sent, Notice message)
    (stepped :
      step core overflowChecks state action =
        some ⟨state.session.after party rest turn, ledgers⟩) :
    SendsOnce core overflowChecks state action := by
  rw [sendsOnce_after stepped, requested_of_notices notices]
  simp

/-- A step that leaves what both loops have sent alone requests nothing. -/
theorem sendsOnce_of_same_sent
    {action : Action Signature}
    (same :
      ∀ party,
        (next.session.side party).sent =
          (state.session.side party).sent)
    (stepped : step core overflowChecks state action = some next) :
    SendsOnce core overflowChecks state action := by
  rw [sendsOnce_iff stepped]
  intro party
  rw [same party]
  simp [requested]

/--
A loop that is told nothing again does not ask again, for it asks for nothing
that it was not told.
-/
theorem Sound.sendsOnce
    {action : Action Signature}
    (sound : Sound core state)
    (served : Served core overflowChecks state action)
    (announcedOnce : AnnouncedOnce core overflowChecks state action) :
    SendsOnce core overflowChecks state action := by
  cases stepped : step core overflowChecks state action with
  | none =>
      intro next party reaches
      rw [stepped] at reaches
      cases reaches
  | some next =>
      cases moves_of_step stepped with
      | starts party =>
          exact sendsOnce_of_notices
            (by simp [Peer.onOpen, Peer.sendWants, Peer.done, Notice])
            stepped
      | @handles party message rest looping taken =>
          have settles := served message rest looping taken
          rw [sendsOnce_after stepped]
          refine ⟨nodup_requested_onMessage settles, ?_⟩
          intro index asking waiting
          obtain ⟨isAnnounced, lacks⟩ :=
            (mem_requested_onMessage settles index).mp asking
          exact announcedOnce message rest looping taken index
            isAnnounced lacks ((sound party).told index waiting)
      | announces party event rest =>
          exact sendsOnce_of_notices
            (notice_onFeedEvent core overflowChecks _ event) stepped
      | reopens party =>
          refine sendsOnce_of_same_sent ?_ stepped
          rw [forall_party party]
          simp [Side.receive]
      | fails supplied announcedOnce =>
          exact sendsOnce_of_same_sent (fun _ => rfl) stepped
      | appends party appended =>
          refine sendsOnce_of_same_sent ?_ stepped
          rw [forall_party party]
          simp
      | downloads party put =>
          refine sendsOnce_of_same_sent ?_ stepped
          rw [forall_party party]
          simp

/-- The two loops after an `Open` message was sent to one of them. -/
theorem Sound.reopened
    (party : Party)
    (sound : Sound core state) :
    Sound core
        ⟨state.session.post party .openChannel, state.ledger⟩ ∧
      (AnySpoiled core
          ⟨state.session.post party .openChannel, state.ledger⟩ ↔
        AnySpoiled core state) := by
  have otherFits := sound (other party)
  rw [other_other] at otherFits
  have notBlank : ¬ Blank [.openChannel] :=
    not_blank_of_brought_nil rfl
  constructor
  · rw [Sound, forall_party party]
    simp only [side_post_self, side_post_other, other_other]
    constructor
    · refine (sound party).move ?_ rfl rfl
      simp [Side.receive, brought]
    · refine otherFits.move ?_ rfl rfl
      simp [Side.receive, requested]
  · rw [AnySpoiled, AnySpoiled, exists_party party, exists_party party]
    simp only [side_post_self, side_post_other, spoiled_receive,
      or_iff_left notBlank]

/-- The two loops after another task has added blocks to a feed. -/
theorem Sound.grown
    (party : Party)
    {peer : Peer Feed}
    (sound : Sound core state)
    (kept :
      ∀ index,
        core.has (state.session.side party).peer.feed index = true →
        core.has peer.feed index = true)
    (sameStats : peer.stats = (state.session.side party).peer.stats) :
    Sound core
        { state with session := setPeer state.session party peer } ∧
      (AnySpoiled core
          { state with session := setPeer state.session party peer } ↔
        AnySpoiled core state ∨
          ¬ ∀ index ∈ (state.ledger party).told,
            core.has peer.feed index = true →
            core.has (state.session.side party).peer.feed index =
              true) := by
  have otherFits := sound (other party)
  rw [other_other] at otherFits
  constructor
  · rw [Sound, forall_party party]
    simp only [side_setPeer_self, side_setPeer_other, other_other]
    exact ⟨(sound party).grows kept sameStats,
      otherFits.move (List.Perm.refl _) rfl rfl⟩
  · rw [AnySpoiled, AnySpoiled, exists_party party, exists_party party]
    simp only [side_setPeer_self, side_setPeer_other]
    rw [(sound party).spoiled_grows kept sameStats, or_right_comm]

/-- The two loops after one of them has handled a message. -/
theorem Sound.handled
    (stores : KeepsBlocks core)
    (party : Party)
    {message : Message}
    {rest : List Message}
    {turn : Turn Feed}
    (sound : Sound core state)
    (served :
      Served core overflowChecks state (.sync (.deliver party)))
    (looping : (state.session.side party).phase = .looping)
    (taken : (state.session.side party).inbox = message :: rest)
    (isTurn :
      turn =
        (state.session.side party).peer.onMessage core overflowChecks
          message)
    (notAsked :
      ∀ index ∈ requested turn.sent,
        index ∉ (state.ledger party).unanswered) :
    Sound core
        ⟨state.session.after party rest turn,
          Function.update state.ledger party
            ((state.ledger party).after core overflowChecks
              (state.session.side party).peer.feed message turn)⟩ ∧
      (AnySpoiled core
          ⟨state.session.after party rest turn,
            Function.update state.ledger party
              ((state.ledger party).after core overflowChecks
                (state.session.side party).peer.feed message turn)⟩ ↔
        AnySpoiled core state ∨
          ∃ index,
            message = .request index ∧
              core.get (state.session.side party).peer.feed index =
                some none) := by
  have settles := served message rest looping taken
  have answers :=
    answers_onMessage (state.session.side party).peer message rest
      settles
  have isBlank :=
    blank_onMessage_iff (state.session.side party).peer message settles
  rw [← isTurn] at settles answers isBlank
  rw [← isBlank]
  apply sound.acted party
  · exact Function.update_of_ne (other_ne party) _ _
  · rw [taken]
    exact answers
  · rw [Function.update_self]
    exact (sound party).handles stores isTurn taken settles notAsked

/-- Which message the loop that is asked must be supplied for. -/
theorem supplied_deliver
    {party : Party}
    {message : Message}
    {rest : List Message}
    (looping : (state.session.side party).phase = .looping)
    (taken : (state.session.side party).inbox = message :: rest) :
    Supplied core state (.sync (.deliver party)) ↔
      ¬ ∃ index,
        message = .request index ∧
          core.get (state.session.side party).peer.feed index =
            some none := by
  constructor
  · rintro supplied ⟨index, rfl, blank⟩
    exact supplied index rest looping taken blank
  · intro supplied index others _ takes blank
    rw [taken, List.cons.injEq] at takes
    exact supplied ⟨index, takes.1, blank⟩

/-- What a step keeps, and what it spoils. -/
theorem Sound.after_step
    (stores : KeepsBlocks core)
    {action : Action Signature}
    (sound : Sound core state)
    (served : Served core overflowChecks state action)
    (sendsOnce : SendsOnce core overflowChecks state action)
    (stepped : step core overflowChecks state action = some next) :
    Sound core next ∧
      (AnySpoiled core next ↔
        AnySpoiled core state ∨ ¬ Supplied core state action) := by
  cases moves_of_step stepped with
  | starts party =>
      simp only [Supplied, not_true_eq_false, or_false]
      exact sound.notified party
        (by simp [Peer.onOpen, Peer.sendWants, Peer.done, Notice])
        rfl rfl
  | @handles party message rest looping taken =>
      rw [sendsOnce_after stepped] at sendsOnce
      rw [supplied_deliver looping taken, not_not]
      exact sound.handled stores party served looping taken rfl
        sendsOnce.2
  | announces party event rest =>
      have samePeer :=
        Peer.onFeedEvent_peer core overflowChecks
          { (state.session.side party).peer with feedEvents := rest }
          event
      simp only [Supplied, not_true_eq_false, or_false]
      exact sound.notified party
        (notice_onFeedEvent core overflowChecks _ event)
        (by rw [samePeer]) (by rw [samePeer])
  | reopens party =>
      simp only [Supplied, not_true_eq_false, or_false]
      exact sound.reopened party
  | fails supplied announcedOnce =>
      exact ⟨sound, by simp [supplied]⟩
  | @appends party block feed appended =>
      have isSupplied :
          Supplied core state (.append party block) ↔
            ∀ index ∈ (state.ledger party).told,
              core.has feed index = true →
              core.has (state.session.side party).peer.feed index =
                true := by
        simp only [Supplied, appended, Option.some.injEq, forall_eq']
      rw [isSupplied]
      exact sound.grown party (fun _ => stores.appendKeeps appended) rfl
  | @downloads party index value proof feed queued put =>
      have isSupplied :
          Supplied core state (.download party index value proof) ↔
            ∀ index ∈ (state.ledger party).told,
              core.has feed index = true →
              core.has (state.session.side party).peer.feed index =
                true := by
        simp only [Supplied, put, Option.some.injEq, Prod.mk.injEq,
          and_imp, forall_eq', forall_apply_eq_imp_iff]
      rw [isSupplied]
      exact sound.grown party (fun _ => stores.putKeeps put) rfl

/-- A loop that asks only once was told only once, or its count is spoiled. -/
theorem Sound.announcedOnce
    {action : Action Signature}
    (sound : Sound core state)
    (served : Served core overflowChecks state action)
    (sendsOnce : SendsOnce core overflowChecks state action)
    (stepped : step core overflowChecks state action = some next)
    (unspoiled : ¬ AnySpoiled core state) :
    AnnouncedOnce core overflowChecks state action := by
  cases moves_of_step stepped with
  | @handles party message rest looping taken =>
      have settles := served message rest looping taken
      rw [sendsOnce_after stepped] at sendsOnce
      intro head others _ takes index isAnnounced lacks told
      rw [taken, List.cons.injEq] at takes
      obtain ⟨rfl, -⟩ := takes
      have asking :=
        (mem_requested_onMessage settles index).mpr
          ⟨isAnnounced, lacks⟩
      rcases (sound party).covered index told with
        has | waiting | wasted
      · rw [lacks] at has
        cases has
      · exact sendsOnce.2 index asking waiting
      · exact unspoiled ⟨party, Or.inl wasted⟩
  | fails supplied announcedOnce =>
      exact announcedOnce
  | starts party =>
      trivial
  | announces party event rest =>
      trivial
  | reopens party =>
      trivial
  | appends party appended =>
      trivial
  | downloads party put =>
      trivial

/-- In a quiescent state a count that is not spoiled is right. -/
theorem Sound.countsAcquired_iff
    (sound : Sound core state)
    (quiescent : state.session.Quiescent) :
    CountsAcquired state ↔ ¬ AnySpoiled core state := by
  obtain ⟨-, -, holderEmpty, learnerEmpty, -, -⟩ := quiescent
  have empty : ∀ party, (state.session.side party).inbox = [] := by
    intro party
    cases party with
    | holder =>
        exact holderEmpty
    | learner =>
        exact learnerEmpty
  have settled : ∀ party, (state.ledger party).unanswered = [] := by
    intro party
    have flight := (sound party).flight
    rw [empty party, empty (other party)] at flight
    exact flight.symm.eq_nil
  simp only [CountsAcquired, AnySpoiled, Spoiled, not_exists]
  refine forall_congr' fun party => ?_
  have counted := (sound party).counted
  have notBlank : ¬ Blank [] := not_blank_of_brought_nil rfl
  rw [settled party, empty party]
  constructor
  · rintro ⟨-, counts⟩ (wasted | ⟨index, waiting, -⟩ | blank)
    · omega
    · cases waiting
    · exact notBlank blank
  · intro unspoiled
    refine ⟨(sound party).acquiredOnce, ?_⟩
    by_contra wasted
    exact unspoiled (Or.inl (by omega))

/-! ## Runs -/

variable
  {start final : State Feed}
  {actions : List (Action Signature)}

/-- Along a run that announces nothing twice nothing is requested twice. -/
theorem along_sendsOnce
    (stores : KeepsBlocks core)
    (sound : Sound core start)
    (served :
      Machine.Along (step core overflowChecks)
        (Served core overflowChecks) start actions)
    (announcedOnce :
      Machine.Along (step core overflowChecks)
        (AnnouncedOnce core overflowChecks) start actions) :
    Machine.Along (step core overflowChecks)
      (SendsOnce core overflowChecks) start actions := by
  refine Machine.along_imp (Sound core) ?_ ?_ sound
    (Machine.along_and served announcedOnce)
  · intro state action next holds condition stepped
    have once := holds.sendsOnce condition.1 condition.2
    exact (holds.after_step stores condition.1 once stepped).1
  · intro state action holds condition
    exact holds.sendsOnce condition.1 condition.2

/--
A run that requests nothing twice spoils a count exactly if some of its steps
announces a block twice or is not supplied.
-/
theorem unspoiled_iff
    (stores : KeepsBlocks core)
    (sound : Sound core start)
    (unspoiled : ¬ AnySpoiled core start)
    (served :
      Machine.Along (step core overflowChecks)
        (Served core overflowChecks) start actions)
    (sendsOnce :
      Machine.Along (step core overflowChecks)
        (SendsOnce core overflowChecks) start actions)
    (ran :
      Machine.run (step core overflowChecks) start actions =
        some final) :
    ¬ AnySpoiled core final ↔
      Machine.Along (step core overflowChecks)
        (fun state action =>
          AnnouncedOnce core overflowChecks state action ∧
            Supplied core state action)
        start actions := by
  have permitted := Machine.along_and served sendsOnce
  constructor
  · refine Machine.along_of_not_marked (Sound core) (AnySpoiled core)
      ?_ ?_ ?_ sound permitted ran
    · intro state action next holds condition stepped
      exact (holds.after_step stores condition.1 condition.2 stepped).1
    · intro state action next holds condition broken stepped
      have spoils :=
        (holds.after_step stores condition.1 condition.2 stepped).2
      rw [spoils]
      by_contra neither
      simp only [not_or, not_not] at neither
      exact broken
        ⟨holds.announcedOnce condition.1 condition.2 stepped neither.1,
          neither.2⟩
    · intro state action next holds condition spoiled stepped
      have spoils :=
        (holds.after_step stores condition.1 condition.2 stepped).2
      exact spoils.mpr (Or.inl spoiled)
  · intro condition
    have kept :
        Sound core final ∧ ¬ AnySpoiled core final :=
      Machine.invariant_run_along
        (fun state => Sound core state ∧ ¬ AnySpoiled core state)
        (fun holds meets stepped => by
          obtain ⟨sound, spoils⟩ :=
            holds.1.after_step stores meets.1.1 meets.1.2 stepped
          refine ⟨sound, fun spoiled => ?_⟩
          rcases spoils.mp spoiled with before | unsupplied
          · exact holds.2 before
          · exact unsupplied meets.2.2)
        ⟨sound, unspoiled⟩
        (Machine.along_and permitted condition) ran
    exact kept.2

/--
No block is requested twice.  In a run in which no block that a loop lacks is
announced to it twice, it sends no request for a block while another one for it
is unanswered.  If moreover a loop that is asked for a block has it, and no
other task stores a block that was announced, then in every quiescent state the
counter is the number of the blocks acquired.  Conversely a run to a quiescent
state in which all this is so meets these conditions.
-/
theorem requests_once_iff
    (stores : KeepsBlocks core)
    (holderFeed learnerFeed : Feed)
    (holderId learnerId : Key)
    {actions : List (Action Signature)}
    {final : State Feed}
    (served :
      Machine.Along (step core overflowChecks)
        (Served core overflowChecks)
        (initial holderFeed learnerFeed holderId learnerId) actions)
    (ran :
      Machine.run (step core overflowChecks)
          (initial holderFeed learnerFeed holderId learnerId) actions =
        some final) :
    (Machine.Along (step core overflowChecks)
          (AnnouncedOnce core overflowChecks)
          (initial holderFeed learnerFeed holderId learnerId) actions →
        Machine.Along (step core overflowChecks)
          (SendsOnce core overflowChecks)
          (initial holderFeed learnerFeed holderId learnerId)
          actions) ∧
      (final.session.Quiescent →
        ((Machine.Along (step core overflowChecks)
              (SendsOnce core overflowChecks)
              (initial holderFeed learnerFeed holderId learnerId)
              actions ∧
            CountsAcquired final) ↔
          Machine.Along (step core overflowChecks)
            (fun state action =>
              AnnouncedOnce core overflowChecks state action ∧
                Supplied core state action)
            (initial holderFeed learnerFeed holderId learnerId)
            actions)) := by
  obtain ⟨starts, unspoiled⟩ :=
    sound_initial core holderFeed learnerFeed holderId learnerId
  have asksOnce := along_sendsOnce stores starts served
  refine ⟨asksOnce, fun quiescent => ?_⟩
  have settles :
      Machine.Along (step core overflowChecks)
          (SendsOnce core overflowChecks)
          (initial holderFeed learnerFeed holderId learnerId)
          actions →
        (CountsAcquired final ↔
          Machine.Along (step core overflowChecks)
            (fun state action =>
              AnnouncedOnce core overflowChecks state action ∧
                Supplied core state action)
            (initial holderFeed learnerFeed holderId learnerId)
            actions) := by
    intro sendsOnce
    have sound : Sound core final :=
      Machine.invariant_run_along (Sound core)
        (fun holds meets stepped =>
          (holds.after_step stores meets.1 meets.2 stepped).1)
        starts (Machine.along_and served sendsOnce) ran
    rw [sound.countsAcquired_iff quiescent]
    exact unspoiled_iff stores starts unspoiled served sendsOnce ran
  constructor
  · rintro ⟨sendsOnce, counts⟩
    exact (settles sendsOnce).mp counts
  · intro condition
    have sendsOnce := asksOnce (Machine.along_left condition)
    exact ⟨sendsOnce, (settles sendsOnce).mpr condition⟩

end

/-! ## Examples -/

/-- What the feeds of the examples do. -/
theorem keepsBlocks_sparseCore : KeepsBlocks sparseCore where
  putKeeps := by
    intro feed next index value proof queued other put has
    rw [(sparseCore_put put).1, has, Bool.or_true]
  putAdds := by
    intro feed next index value proof queued other put has
    rw [(sparseCore_put put).1, Bool.or_eq_true, Bool.and_eq_true,
      decide_eq_true_eq] at has
    exact has.symm.imp_right And.left
  putNothing := by
    intro feed next index proof queued put has
    simpa [(sparseCore_put put).1] using has
  putStores := by
    intro feed next index block proof queued put
    simp [(sparseCore_put put).1]
  appendKeeps := by
    intro feed next block other appended has
    rw [sparseCore_append appended, has, Bool.or_true]

/-- A feed of two blocks. -/
def bothBlocks : SparseFeed := ⟨2, 2, [(0, [104]), (1, [119])]⟩

/-- The same feed, of which only the last block is held. -/
def lastBlock : SparseFeed := ⟨2, 2, [(1, [119])]⟩

/-- A learner that holds the last block fetches the first one. -/
def fetchFirst : List (Action (Nat × Nat)) :=
  [.sync (.start .learner), .sync (.start .holder),
    .sync (.deliver .holder), .sync (.deliver .learner),
    .sync (.deliver .learner), .sync (.deliver .learner),
    .sync (.deliver .holder), .sync (.deliver .holder),
    .sync (.deliver .holder), .sync (.deliver .learner),
    .sync (.feedEvent .learner), .sync (.deliver .holder)]

/-- A learner without blocks has been told of the last one. -/
def toldOfLast : List (Action (Nat × Nat)) :=
  [.sync (.start .learner), .sync (.start .holder),
    .sync (.deliver .holder), .sync (.deliver .learner),
    .sync (.deliver .learner)]

/-- It is told of both, and every request is answered. -/
def fetchBoth : List (Action (Nat × Nat)) :=
  [.sync (.deliver .learner), .sync (.deliver .holder),
    .sync (.deliver .holder), .sync (.deliver .holder),
    .sync (.deliver .holder), .sync (.deliver .learner),
    .sync (.deliver .learner), .sync (.deliver .learner),
    .sync (.feedEvent .learner), .sync (.feedEvent .learner),
    .sync (.deliver .holder), .sync (.deliver .holder)]

/-- A step is served if the message that is taken is settled. -/
theorem served_of_taken
    {Feed Signature : Type}
    {core : Hypercore Feed Signature}
    {overflowChecks : Bool}
    {state : State Feed}
    {party : Party}
    {message : Message}
    {rest : List Message}
    (taken : (state.session.side party).inbox = message :: rest)
    (settles :
      Settles
        ((state.session.side party).peer.onMessage core overflowChecks
          message)
        message) :
    Served core overflowChecks state (.sync (.deliver party)) := by
  intro head others _ takes
  rw [taken, List.cons.injEq] at takes
  rw [← takes.1]
  exact settles

/-- The requests of the first run are answered. -/
theorem served_fetchFirst :
    Machine.Along (step sparseCore true) (Served sparseCore true)
      (initial bothBlocks lastBlock (Key.constant 1) (Key.constant 2))
      fetchFirst :=
  ⟨trivial, trivial, served_of_taken rfl trivial,
    served_of_taken rfl trivial, served_of_taken rfl trivial,
    served_of_taken rfl trivial, served_of_taken rfl trivial,
    served_of_taken rfl trivial, served_of_taken rfl ⟨_, _, _, rfl⟩,
    served_of_taken rfl rfl, trivial, served_of_taken rfl trivial,
    trivial⟩

/-- The requests of the second run are answered. -/
theorem served_fetchBoth :
    Machine.Along (step sparseCore true) (Served sparseCore true)
      (initial bothBlocks .empty (Key.constant 1) (Key.constant 2))
      (toldOfLast ++ fetchBoth) :=
  ⟨trivial, trivial, served_of_taken rfl trivial,
    served_of_taken rfl trivial, served_of_taken rfl trivial,
    served_of_taken rfl trivial, served_of_taken rfl trivial,
    served_of_taken rfl ⟨_, _, _, rfl⟩,
    served_of_taken rfl ⟨_, _, _, rfl⟩,
    served_of_taken rfl ⟨_, _, _, rfl⟩,
    served_of_taken rfl rfl, served_of_taken rfl rfl,
    served_of_taken rfl rfl, trivial, trivial,
    served_of_taken rfl trivial, served_of_taken rfl trivial, trivial⟩

/-- A step meets the conditions if the message that is taken does. -/
theorem conditions_of_taken
    {Feed Signature : Type}
    {core : Hypercore Feed Signature}
    {overflowChecks : Bool}
    {state : State Feed}
    {party : Party}
    {message : Message}
    {rest : List Message}
    (taken : (state.session.side party).inbox = message :: rest)
    (untold :
      ∀ index ∈ announced core overflowChecks message,
        core.has (state.session.side party).peer.feed index = false →
        index ∉ (state.ledger party).told)
    (supplied :
      ∀ index ∈ requested [message],
        core.get (state.session.side party).peer.feed index ≠
          some none) :
    AnnouncedOnce core overflowChecks state (.sync (.deliver party)) ∧
      Supplied core state (.sync (.deliver party)) := by
  constructor
  · intro head others _ takes
    rw [taken, List.cons.injEq] at takes
    rw [← takes.1]
    exact untold
  · intro index others _ takes
    rw [taken, List.cons.injEq] at takes
    refine supplied index ?_
    rw [takes.1]
    exact List.mem_singleton.mpr rfl

/-- The block that is requested is requested once and counted once. -/
theorem requests_once_iff_fetchFirst :
    ∃ final,
      Machine.run (step sparseCore true)
          (initial bothBlocks lastBlock (Key.constant 1)
            (Key.constant 2))
          fetchFirst = some final ∧
        final.session.Quiescent ∧
        Machine.Along (step sparseCore true)
          (SendsOnce sparseCore true)
          (initial bothBlocks lastBlock (Key.constant 1)
            (Key.constant 2))
          fetchFirst ∧
        CountsAcquired final ∧
        (final.ledger .learner).acquired = [0] := by
  have quiescent :
      ∃ final,
        Machine.run (step sparseCore true)
            (initial bothBlocks lastBlock (Key.constant 1)
              (Key.constant 2))
            fetchFirst = some final ∧
          final.session.Quiescent ∧
          (final.ledger .learner).acquired = [0] :=
    ⟨_, rfl, ⟨rfl, rfl, rfl, rfl, rfl, rfl⟩, rfl⟩
  obtain ⟨final, ran, isQuiescent, acquired⟩ := quiescent
  have holds :=
    ((requests_once_iff keepsBlocks_sparseCore bothBlocks lastBlock
      (Key.constant 1) (Key.constant 2) served_fetchFirst
      ran).2 isQuiescent).mpr
      ⟨⟨trivial, trivial⟩, ⟨trivial, trivial⟩,
        conditions_of_taken rfl (by decide) (by decide),
        conditions_of_taken rfl (by decide) (by decide),
        conditions_of_taken rfl (by decide) (by decide),
        conditions_of_taken rfl (by decide) (by decide),
        conditions_of_taken rfl (by decide) (by decide),
        conditions_of_taken rfl (by decide) (by decide),
        conditions_of_taken rfl (by decide) (by decide),
        conditions_of_taken rfl (by decide) (by decide),
        ⟨trivial, trivial⟩,
        conditions_of_taken rfl (by decide) (by decide), trivial⟩
  exact ⟨final, ran, isQuiescent, holds.1, holds.2, acquired⟩

/--
The answer to the first `Want` announces the last block and then both.  The
learner, which has neither, requests the last one twice: the second request is
sent while the first is unanswered, and three downloads are counted for two
blocks.
-/
theorem last_block_requested_twice :
    ∃ middle final,
      Machine.Along (step sparseCore true) (Served sparseCore true)
          (initial bothBlocks .empty (Key.constant 1) (Key.constant 2))
          (toldOfLast ++ fetchBoth) ∧
        Machine.run (step sparseCore true)
            (initial bothBlocks .empty (Key.constant 1)
              (Key.constant 2))
            toldOfLast = some middle ∧
        (middle.ledger .learner).unanswered = [1] ∧
        ¬ SendsOnce sparseCore true middle
            (.sync (.deliver .learner)) ∧
        Machine.run (step sparseCore true) middle fetchBoth =
          some final ∧
        final.session.Quiescent ∧
        final.session.learner.peer.stats.downloadedBlocks = 3 ∧
        (final.ledger .learner).acquired = [1, 0] ∧
        ¬ CountsAcquired final := by
  refine ⟨_, _, served_fetchBoth, rfl, rfl, ?_, rfl,
    ⟨rfl, rfl, rfl, rfl, rfl, rfl⟩, rfl, rfl, ?_⟩
  · intro once
    exact (once _ .learner rfl).2 1 (by decide) (by decide)
  · intro counts
    have wrong := (counts .learner).2
    revert wrong
    decide

end PeerRequests

end Hyperspace
