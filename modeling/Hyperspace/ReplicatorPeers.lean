import Hyperspace.Replicator

namespace Hyperspace

/-!
# The peers of a feed that is added again

`add_feed` puts a new `PeeredFeed`, without peers, into the map of the
replicator.  If the map has one for the same discovery key, that one is dropped
together with the statistics and the handles of its peer tasks; the tasks keep
running, but `stats` and `join_all` no longer know of them.

This module follows the map through any sequence of `add_feed` calls and channel
events of any number of connections; both hold the lock on the map, so each is
one step.
-/

namespace Replicator

/-- The method `stats`. -/
def Feeds.reportStats (feeds : Feeds) : List (Key × List Stats) :=
  feeds.entries.map fun entry => (entry.1, entry.2.stats)

/-- The peer tasks for which `join_all` waits. -/
def Feeds.joinAll (feeds : Feeds) : List Nat :=
  feeds.values.flatMap PeeredFeed.tasks

end Replicator

namespace ReplicatorPeers

open Replicator

/-- A peer that was attached to a feed. -/
structure Attachment where
  dkey : Key
  id : Key
  task : Nat
  deriving Repr, DecidableEq

/-- The map of a replicator, and all peers attached so far. -/
structure State where
  feeds : Feeds
  attached : List Attachment
  /-- The number of peer tasks spawned. -/
  spawned : Nat

/-- A new replicator. -/
def initial : State where
  feeds := ∅
  attached := []
  spawned := 0

/-- What can happen next. -/
inductive Action where
  | addFeed (feed : ArcFeed)
  /-- A connection whose remote has the given key gets a channel. -/
  | channel (dkey remotePublicKey : Key)
  /-- A peer of a feed in the map counts what it has received. -/
  | downloaded (dkey : Key) (place blocks bytes : Nat)
  /-- A peer of a feed in the map counts what it has sent. -/
  | uploaded (dkey : Key) (place blocks bytes : Nat)

/-- A peer of a feed in the map updates its statistics. -/
def count
    (feeds : Feeds)
    (dkey : Key)
    (place : Nat)
    (update : Stats → Stats) : Feeds :=
  match feeds.lookup dkey with
  | some peered =>
      feeds.insert dkey
        { peered with stats := peered.stats.modify place update }
  | none => feeds

/-- One step. -/
def step
    (discoveryKey : Key → Key)
    (state : State) : Action → Option State
  | .addFeed feed =>
      some { state with
        feeds := state.feeds.addFeed discoveryKey feed }
  | .channel dkey remotePublicKey =>
      match state.feeds.lookup dkey with
      | some _ =>
          some
            { feeds :=
                state.feeds.addPeer dkey remotePublicKey state.spawned
              attached :=
                state.attached ++
                  [⟨dkey, remotePublicKey, state.spawned⟩]
              spawned := state.spawned + 1 }
      | none => some state
  | .downloaded dkey place blocks bytes =>
      some { state with
        feeds :=
          count state.feeds dkey place
            (fun stats => stats.addDownloaded blocks bytes) }
  | .uploaded dkey place blocks bytes =>
      some { state with
        feeds :=
          count state.feeds dkey place
            (fun stats => stats.addUploaded blocks bytes) }

/-- The peers attached to a discovery key. -/
def State.attachedTo (state : State) (dkey : Key) : List Attachment :=
  state.attached.filter fun attachment => attachment.dkey = dkey

/--
`stats` reports every discovery key once, with one entry for each peer attached
to it, and every peer is attached to a key that is reported.
-/
structure StatsExact (state : State) : Prop where
  once : (state.feeds.reportStats.map Prod.fst).Nodup
  entries :
    ∀ dkey stats,
      (dkey, stats) ∈ state.feeds.reportStats →
      stats.map Stats.id =
        (state.attachedTo dkey).map Attachment.id
  reported :
    ∀ attachment ∈ state.attached,
      attachment.dkey ∈ state.feeds.reportStats.map Prod.fst

/-- `join_all` waits once for every peer task, and for nothing else. -/
def JoinExact (state : State) : Prop :=
  state.feeds.joinAll.Nodup ∧
    ∀ task,
      task ∈ state.feeds.joinAll ↔
        ∃ attachment ∈ state.attached, attachment.task = task

/-- A step after which `stats` and `join_all` know all peers. -/
def Keeps
    (discoveryKey : Key → Key)
    (state : State)
    (action : Action) : Prop :=
  ∀ next,
    step discoveryKey state action = some next →
    StatsExact next ∧ JoinExact next

/-- A feed is added when no peer is attached to one with its discovery key. -/
def AddsUnpeered
    (discoveryKey : Key → Key)
    (state : State) : Action → Prop
  | .addFeed feed =>
      ∀ peered,
        state.feeds.lookup (discoveryKey feed.publicKey) =
            some peered →
        peered.tasks = []
  | _ => True

/-! ## What the map knows -/

/-- Each feed has the tasks and the statistics of the peers attached to it. -/
structure Sound (state : State) : Prop where
  peers :
    ∀ dkey peered,
      state.feeds.lookup dkey = some peered →
      peered.tasks = (state.attachedTo dkey).map Attachment.task ∧
        peered.stats.map Stats.id =
          (state.attachedTo dkey).map Attachment.id
  known :
    ∀ attachment ∈ state.attached,
      ∃ peered, state.feeds.lookup attachment.dkey = some peered
  fresh :
    ∀ attachment ∈ state.attached, attachment.task < state.spawned
  distinct : (state.attached.map Attachment.task).Nodup

/-- The entries that `stats` reports. -/
theorem mem_reportStats
    {feeds : Feeds}
    {dkey : Key}
    {stats : List Stats} :
    (dkey, stats) ∈ feeds.reportStats ↔
      ∃ peered,
        feeds.lookup dkey = some peered ∧ peered.stats = stats := by
  simp only [Feeds.reportStats, List.mem_map, Prod.mk.injEq]
  constructor
  · rintro ⟨⟨key, peered⟩, member, rfl, rfl⟩
    exact ⟨peered, AList.mem_lookup_iff.mpr member, rfl⟩
  · rintro ⟨peered, found, rfl⟩
    exact ⟨⟨dkey, peered⟩, AList.mem_lookup_iff.mp found, rfl, rfl⟩

section

variable
  {discoveryKey : Key → Key}
  {state next : State}

/-- An attached peer is one of those attached to its discovery key. -/
theorem mem_attachedTo
    {dkey : Key}
    {attachment : Attachment} :
    attachment ∈ state.attachedTo dkey ↔
      attachment ∈ state.attached ∧ attachment.dkey = dkey := by
  simp [State.attachedTo]

/-- Counting does not change whose statistics these are. -/
theorem map_id_modify
    (stats : List Stats)
    (place : Nat)
    {update : Stats → Stats}
    (sameId : ∀ entry, (update entry).id = entry.id) :
    (stats.modify place update).map Stats.id = stats.map Stats.id := by
  apply List.ext_getElem?
  intro index
  simp only [List.getElem?_map, List.getElem?_modify]
  cases stats[index]? with
  | none =>
      rfl
  | some entry =>
      by_cases isPlace : place = index
      · simp [isPlace, sameId]
      · simp [isPlace]

/-- `stats` reports all peers. -/
theorem Sound.statsExact (sound : Sound state) : StatsExact state where
  once := by
    simp only [Feeds.reportStats, List.map_map]
    exact state.feeds.nodupKeys
  entries := by
    intro dkey stats member
    obtain ⟨peered, found, rfl⟩ := mem_reportStats.mp member
    exact (sound.peers dkey peered found).2
  reported := by
    intro attachment member
    obtain ⟨peered, found⟩ := sound.known attachment member
    exact List.mem_map.mpr
      ⟨_, mem_reportStats.mpr ⟨peered, found, rfl⟩, rfl⟩

/-- Two peers with one task are the same. -/
theorem Sound.eq_of_task
    (sound : Sound state)
    {first second : Attachment}
    (isFirst : first ∈ state.attached)
    (isSecond : second ∈ state.attached)
    (sameTask : first.task = second.task) :
    first = second :=
  List.inj_on_of_nodup_map sound.distinct isFirst isSecond sameTask

/-- The feeds of the map have no tasks in common, and none twice. -/
theorem Sound.nodup_joinAll (sound : Sound state) :
    state.feeds.joinAll.Nodup := by
  have tasksOf :
      ∀ entry ∈ state.feeds.entries,
        entry.2.tasks =
          (state.attachedTo entry.1).map Attachment.task := by
    intro entry member
    exact (sound.peers entry.1 entry.2
      (AList.mem_lookup_iff.mpr member)).1
  simp only [Feeds.joinAll, Table.values, List.flatMap_map]
  rw [List.nodup_flatMap]
  refine ⟨?_, ?_⟩
  · intro entry member
    rw [tasksOf entry member]
    exact sound.distinct.sublist
      ((List.filter_sublist).map Attachment.task)
  · refine state.feeds.nodupKeys.pairwise_ne.imp_of_mem ?_
    intro first second isFirst isSecond different task inFirst inSecond
    simp only at inFirst inSecond
    rw [tasksOf first isFirst, List.mem_map] at inFirst
    rw [tasksOf second isSecond, List.mem_map] at inSecond
    obtain ⟨firstPeer, firstAttached, rfl⟩ := inFirst
    obtain ⟨secondPeer, secondAttached, sameTask⟩ := inSecond
    obtain ⟨isFirstPeer, firstKey⟩ := mem_attachedTo.mp firstAttached
    obtain ⟨isSecondPeer, secondKey⟩ :=
      mem_attachedTo.mp secondAttached
    have same := sound.eq_of_task isSecondPeer isFirstPeer sameTask
    rw [← firstKey, ← secondKey, same] at different
    exact different rfl

/-- `join_all` waits for all peers. -/
theorem Sound.joinExact (sound : Sound state) : JoinExact state := by
  refine ⟨sound.nodup_joinAll, ?_⟩
  intro task
  simp only [Feeds.joinAll, List.mem_flatMap, Table.mem_values]
  constructor
  · rintro ⟨peered, ⟨dkey, found⟩, member⟩
    rw [(sound.peers dkey peered found).1, List.mem_map] at member
    obtain ⟨attachment, isAttached, isTask⟩ := member
    exact ⟨attachment, (mem_attachedTo.mp isAttached).1, isTask⟩
  · rintro ⟨attachment, isAttached, rfl⟩
    obtain ⟨peered, found⟩ := sound.known attachment isAttached
    refine ⟨peered, ⟨attachment.dkey, found⟩, ?_⟩
    rw [(sound.peers _ peered found).1]
    exact List.mem_map.mpr
      ⟨attachment, mem_attachedTo.mpr ⟨isAttached, rfl⟩, rfl⟩

/-! ## What a step does -/

/-- Replacing the entry of a discovery key by one that knows its peers. -/
theorem Sound.insert
    (sound : Sound state)
    {dkey : Key}
    {peered : PeeredFeed}
    (tasks :
      peered.tasks = (state.attachedTo dkey).map Attachment.task)
    (stats :
      peered.stats.map Stats.id =
        (state.attachedTo dkey).map Attachment.id) :
    Sound { state with feeds := state.feeds.insert dkey peered } := by
  refine ⟨?_, ?_, sound.fresh, sound.distinct⟩
  · intro other found isFound
    rw [Table.lookup_insert_ite] at isFound
    split at isFound
    · next same =>
        subst same
        cases isFound
        exact ⟨tasks, stats⟩
    · exact sound.peers other found isFound
  · intro attachment member
    rw [Table.lookup_insert_ite]
    split
    · exact ⟨peered, rfl⟩
    · exact sound.known attachment member

/-- A feed is added to a discovery key without peers. -/
theorem Sound.addFeed
    (sound : Sound state)
    {feed : ArcFeed}
    (unpeered :
      AddsUnpeered discoveryKey state (.addFeed feed)) :
    Sound
      { state with
        feeds := state.feeds.addFeed discoveryKey feed } := by
  have noPeers :
      state.attachedTo (discoveryKey feed.publicKey) = [] := by
    rw [List.eq_nil_iff_forall_not_mem]
    intro attachment isAttached
    obtain ⟨member, hasKey⟩ := mem_attachedTo.mp isAttached
    obtain ⟨peered, found⟩ := sound.known attachment member
    rw [hasKey] at found
    have noTasks := unpeered peered found
    rw [(sound.peers _ peered found).1, List.map_eq_nil_iff] at noTasks
    rw [noTasks] at isAttached
    cases isAttached
  exact sound.insert (by rw [noPeers]; rfl) (by rw [noPeers]; rfl)

/-- A peer counts what it has sent or received. -/
theorem Sound.count
    (sound : Sound state)
    (dkey : Key)
    (place : Nat)
    {update : Stats → Stats}
    (sameId : ∀ stats, (update stats).id = stats.id) :
    Sound
      { state with
        feeds := count state.feeds dkey place update } := by
  rw [ReplicatorPeers.count]
  split
  · next peered found =>
      obtain ⟨tasks, stats⟩ := sound.peers dkey peered found
      refine sound.insert tasks ?_
      rw [← stats]
      exact map_id_modify peered.stats place sameId
  · exact sound

/-- A channel attaches a peer to a feed of the map. -/
theorem Sound.channel
    (sound : Sound state)
    {dkey : Key}
    {peered : PeeredFeed}
    (found : state.feeds.lookup dkey = some peered)
    (remotePublicKey : Key) :
    Sound
      { feeds := state.feeds.addPeer dkey remotePublicKey state.spawned
        attached :=
          state.attached ++ [⟨dkey, remotePublicKey, state.spawned⟩]
        spawned := state.spawned + 1 } := by
  obtain ⟨tasks, stats⟩ := sound.peers dkey peered found
  simp only [Feeds.addPeer, found]
  refine ⟨?_, ?_, ?_, ?_⟩
  · intro other entry isEntry
    rw [Table.lookup_insert_ite] at isEntry
    simp only [State.attachedTo, List.filter_append, List.map_append]
    split at isEntry
    · next same =>
        subst same
        cases isEntry
        simp only [PeeredFeed.addPeer, tasks, List.map_append, stats]
        simp [State.attachedTo]
    · next different =>
        have notNew : ¬ dkey = other :=
          fun same => different same.symm
        simpa [notNew, State.attachedTo] using
          sound.peers other entry isEntry
  · intro attachment member
    rw [Table.lookup_insert_ite]
    split
    · exact ⟨_, rfl⟩
    · next different =>
        rcases List.mem_append.mp member with old | new
        · exact sound.known attachment old
        · rw [List.mem_singleton.mp new] at different
          exact absurd rfl different
  · intro attachment member
    rcases List.mem_append.mp member with old | new
    · exact Nat.lt_succ_of_lt (sound.fresh attachment old)
    · rw [List.mem_singleton.mp new]
      exact Nat.lt_succ_self _
  · simp only [List.map_append, List.map_cons, List.map_nil]
    refine List.Nodup.append sound.distinct (by simp) ?_
    intro task old new
    obtain ⟨attachment, member, rfl⟩ := List.mem_map.mp old
    have below := sound.fresh attachment member
    rw [List.mem_singleton.mp new] at below
    exact Nat.lt_irrefl _ below

/-- A step that replaces no feed with peers keeps all peers. -/
theorem Sound.step
    (sound : Sound state)
    {action : Action}
    (unpeered : AddsUnpeered discoveryKey state action)
    (stepped :
      ReplicatorPeers.step discoveryKey state action = some next) :
    Sound next := by
  cases action with
  | addFeed feed =>
      cases stepped
      exact sound.addFeed unpeered
  | channel dkey remotePublicKey =>
      simp only [ReplicatorPeers.step] at stepped
      split at stepped
      · next peered found =>
          cases stepped
          exact sound.channel found remotePublicKey
      · cases stepped
        exact sound
  | downloaded dkey place blocks bytes =>
      cases stepped
      exact sound.count dkey place (fun _ => rfl)
  | uploaded dkey place blocks bytes =>
      cases stepped
      exact sound.count dkey place (fun _ => rfl)

/-- A step keeps all peers exactly when it replaces no feed with peers. -/
theorem Sound.keeps_iff
    (sound : Sound state)
    (action : Action) :
    Keeps discoveryKey state action ↔
      AddsUnpeered discoveryKey state action := by
  constructor
  · intro keeps
    cases action with
    | addFeed feed =>
        intro peered found
        obtain ⟨statsExact, -⟩ := keeps _ rfl
        have reported :
            (discoveryKey feed.publicKey, ([] : List Stats)) ∈
              Feeds.reportStats
                (state.feeds.addFeed discoveryKey feed) := by
          rw [mem_reportStats, Feeds.addFeed]
          exact ⟨PeeredFeed.new feed, by simp, rfl⟩
        have noPeers := statsExact.entries _ _ reported
        rw [List.map_nil, eq_comm, List.map_eq_nil_iff] at noPeers
        rw [(sound.peers _ peered found).1]
        exact List.map_eq_nil_iff.mpr noPeers
    | channel dkey remotePublicKey =>
        trivial
    | downloaded dkey place blocks bytes =>
        trivial
    | uploaded dkey place blocks bytes =>
        trivial
  · intro unpeered next stepped
    have later := sound.step unpeered stepped
    exact ⟨later.statsExact, later.joinExact⟩

end

/-- A new replicator has no peers. -/
theorem sound_initial : Sound initial where
  peers := by simp [initial]
  known := by simp [initial]
  fresh := by simp [initial]
  distinct := by simp [initial]

/--
For every sequence of `add_feed` calls and channel events: in every state,
`stats` reports for each discovery key one entry for each peer attached to it so
far, and `join_all` waits for all peer tasks, if and only if no feed is added
while the map has one with the same discovery key and with peers.
-/
theorem keeps_peers_iff
    (discoveryKey : Key → Key)
    (actions : List Action) :
    Machine.Along (step discoveryKey) (Keeps discoveryKey) initial
        actions ↔
      Machine.Along (step discoveryKey) (AddsUnpeered discoveryKey)
        initial actions := by
  constructor
  · intro keeps
    refine Machine.along_imp Sound ?_ ?_ sound_initial keeps
    · intro state action next sound kept stepped
      exact sound.step ((sound.keeps_iff action).mp kept) stepped
    · intro state action sound kept
      exact (sound.keeps_iff action).mp kept
  · intro unpeered
    refine Machine.along_imp Sound ?_ ?_ sound_initial unpeered
    · intro state action next sound free stepped
      exact sound.step free stepped
    · intro state action sound free
      exact (sound.keeps_iff action).mpr free

/--
A feed is added, a peer is attached to it, and the feed is added again: `stats`
reports no peer, and `join_all` waits for none.
-/
theorem added_again_loses_peer :
    ∃ final,
      Machine.run (step sampleDiscoveryKey) initial
          [.addFeed sampleFooArc,
            .channel (sampleDiscoveryKey sampleFoo.publicKey)
              (Key.constant 1),
            .addFeed sampleFooArc] = some final ∧
        final.attached.length = 1 ∧
        final.feeds.reportStats =
          [(sampleDiscoveryKey sampleFoo.publicKey, [])] ∧
        final.feeds.joinAll = [] ∧
        ¬ Machine.Along (step sampleDiscoveryKey)
            (Keeps sampleDiscoveryKey) initial
            [.addFeed sampleFooArc,
              .channel (sampleDiscoveryKey sampleFoo.publicKey)
                (Key.constant 1),
              .addFeed sampleFooArc] := by
  refine ⟨_, rfl, rfl, rfl, rfl, ?_⟩
  rintro ⟨-, -, keeps, -⟩
  obtain ⟨-, -, waitsFor⟩ := keeps _ rfl
  have missing := (waitsFor 0).mpr ⟨_, List.mem_singleton_self _, rfl⟩
  cases missing

end ReplicatorPeers

end Hyperspace
