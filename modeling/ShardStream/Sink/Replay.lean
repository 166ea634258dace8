import ShardStream.Engine.Replication

/-!
# Replaying a log to the durable sink

A durable sink takes the appends of a partition in order and keeps a checkpoint: the next placement
sequence and the next offset. `replay_sink` reads every partition back from its checkpoint and hands
the batches to the dispatcher; each of them has to follow the checkpoint that the previous one left.

The checkpoint moves one sequence at a time, while the fetch leaves out the batches of aborted
groups. So a log can be replayed exactly if the checkpoint is not behind the log start, no batch
ahead of it is aborted, and none is passed over on the way; then everything ahead is handed out
once, in order.
-/

namespace ShardStream

open PartitionCore List

variable {c : DurableSinkCheckpoint} {shards : List ShardStore} {st : PartitionState}
  {tp : TopicPartition} {s : SinkReplay}

/-! ### Checkpoints and appends -/

/-- `DurableSinkCheckpoint`. -/
structure DurableSinkCheckpoint where
  topicPartition : TopicPartition
  nextPlacementSequence : Nat
  nextOffset : Nat
  deriving DecidableEq

namespace DurableSinkCheckpoint

/-- `DurableSinkCheckpoint::initial`. -/
def initial (tp : TopicPartition) : DurableSinkCheckpoint := ⟨tp, 0, 0⟩

/-- `DurableSinkCheckpoint::after`. -/
def after (c : DurableSinkCheckpoint) (r : Reservation) :
    Except EngineError DurableSinkCheckpoint :=
  if c.topicPartition ≠ r.topicPartition ∨ c.nextPlacementSequence ≠ r.placement.sequence ∨
      c.nextOffset ≠ r.firstOffset then
    .error
    (.durableSinkCheckpoint (s!"append {r.batchId} at sequence {r.placement.sequence} and " ++
      s!"offset {r.firstOffset} does not follow checkpoint sequence {c.nextPlacementSequence} and "
      ++ s!"offset {c.nextOffset}"))
  else if 2 ^ 64 ≤ c.nextPlacementSequence + 1 then
    .error (.durableSinkCheckpoint "durable sink placement sequence exhausted")
  else if 2 ^ 64 ≤ r.lastOffset + 1 then
    .error (.durableSinkCheckpoint "durable sink logical offset exhausted")
  else .ok ⟨c.topicPartition, c.nextPlacementSequence + 1, r.lastOffset + 1⟩

theorem after_eq_ok_iff {c' : DurableSinkCheckpoint} {r : Reservation} : c.after r = .ok c' ↔
      c.topicPartition = r.topicPartition ∧ c.nextPlacementSequence = r.placement.sequence ∧
        c.nextOffset = r.firstOffset ∧ c.nextPlacementSequence + 1 < 2 ^ 64 ∧
        r.lastOffset + 1 < 2 ^ 64 ∧
        c' = ⟨c.topicPartition, c.nextPlacementSequence + 1, r.lastOffset + 1⟩ := by
  simp only [after, ite_error_eq_ok_iff, not_or, not_not, not_le, Except.ok.injEq, and_assoc,
    eq_comm (a := c')]

end DurableSinkCheckpoint

/-- `DurableAppendDelivery`. -/
inductive DurableAppendDelivery where
  | publish
  | stage
  deriving DecidableEq

/-- `DurableAppend`. Its `event_id` is a hash of topic, partition and batch id. -/
structure DurableAppend where
  physicalShardId : Nat
  reservation : Reservation
  producerEventId : Option Nat
  atomicGroup : Option AtomicGroupIdentity
  delivery : DurableAppendDelivery
  payload : Bytes
  transientContext : Option Bytes
  deriving DecidableEq

/-- `durable_append`. -/
def durableAppend (shardCount : Nat) (reservation : Reservation) (producerEventId : Option Nat)
    (atomicGroup : Option AtomicGroupIdentity) (payload : Bytes) (transientContext : Option Bytes) :
    DurableAppend where
  physicalShardId := physicalShardForLane shardCount reservation.placement.virtualLaneId
  reservation := reservation
  producerEventId := producerEventId
  atomicGroup := atomicGroup
  delivery := .publish
  payload := payload
  transientContext := transientContext

/-- `durable_append_from_stored`. -/
def durableAppendFromStored (shardCount : Nat) (batch : StoredBatch) : DurableAppend :=
  durableAppend shardCount batch.reservation (batch.producer.bind ProducerSequence.eventId)
    (batch.atomicGroup.map AtomicGroupSequence.identity) batch.payload none

/-- `DurableAtomicGroup`. -/
structure DurableAtomicGroup where
  topicPartition : TopicPartition
  transactionId : Nat
  deriving DecidableEq

/-- `DurableAtomicDecision`. -/
structure DurableAtomicDecision where
  group : DurableAtomicGroup
  outcome : AtomicGroupState
  deriving DecidableEq

/-! ### The replay -/

/-- `DurableSinkRecoveryMode`. -/
inductive DurableSinkRecoveryMode where
  | blocking
  | background
  deriving DecidableEq

/-- What the replay asks of the dispatcher and of the garbage collection, by the answers. -/
structure SinkDispatcher where
  checkpoint : TopicPartition → Except EngineError DurableSinkCheckpoint
  enqueueReplay : DurableAppend → Except EngineError Unit
  enqueueReplayDecision : DurableAtomicDecision → Except EngineError Unit
  recoveryMode : DurableSinkRecoveryMode
  waitFor : DurableSinkCheckpoint → Except EngineError Unit
  waitForDecision : DurableAtomicGroup → Except EngineError Unit
  pendingAtomicGroups : Except EngineError (List DurableAtomicGroup)
  collectGarbage : TopicPartition → Nat → Except EngineError Unit

/-- How far the replay of a partition is: its checkpoint, what was handed out, and the decisions on
the groups seen, of which there is one for a group. -/
structure SinkReplay where
  checkpoint : DurableSinkCheckpoint
  appends : List DurableAppend
  decisions : List DurableAtomicDecision

/-- `recovered_decisions.insert`. The order in which a hash map is visited is not that of the
insertions; nothing here depends on it. -/
def insertDecision (decisions : List DurableAtomicDecision) (decision : DurableAtomicDecision) :
    List DurableAtomicDecision :=
  decisions.filter (fun d ↦ decide (d.group ≠ decision.group)) ++ [decision]

/-- The decisions after a batch was handed out. -/
def recoverDecision (st : PartitionState) (tp : TopicPartition)
    (decisions : List DurableAtomicDecision) :
    Option AtomicGroupSequence → Except EngineError (List DurableAtomicDecision)
  | none => .ok decisions
  | some group => (inspectAtomicGroup st group.transactionId).map fun inspection ↦
    if inspection.state = .unresolved then decisions
    else insertDecision decisions ⟨⟨tp, group.transactionId⟩, inspection.state⟩

/-- The loop body of `replay_sink` for one batch. -/
def replayBatch (shardCount : Nat) (dispatcher : SinkDispatcher) (st : PartitionState)
    (tp : TopicPartition) (s : SinkReplay) (batch : StoredBatch) :
    Except EngineError SinkReplay := do
  let next ← s.checkpoint.after batch.reservation
  let append := durableAppendFromStored shardCount batch
  dispatcher.enqueueReplay append
  let decisions ← recoverDecision st tp s.decisions batch.atomicGroup
  .ok ⟨next, s.appends ++ [append], decisions⟩

/-- The loop of `replay_sink` over one partition. The inner loop ends at a batch at or behind the
target. -/
def replaySinkLoop (maxFetchBytes shardCount : Nat) (dispatcher : SinkDispatcher)
    (shards : List ShardStore) (maxBytes : Nat) (tp : TopicPartition) (st : PartitionState)
    (checkpoint : DurableSinkCheckpoint) : Except EngineError SinkReplay :=
  replayLoop (storedFetch maxFetchBytes st shards tp maxBytes) (fun o ↦ .corruptState
      s!"durable sink recovery found no batch at offset {o} for {tp.topicId}/{tp.partitionId}")
    (fun s batches ↦ (batches.takeWhile fun b ↦
      decide (b.reservation.firstOffset < st.contiguousLogEnd)).foldlM
        (replayBatch shardCount dispatcher st tp) s)
    (fun s ↦ s.checkpoint.nextOffset) st.contiguousLogEnd
    (st.contiguousLogEnd - checkpoint.nextOffset) ⟨checkpoint, [], []⟩

/-- What `replay_sink` does with a partition after its loop. -/
def settleReplay (dispatcher : SinkDispatcher) (tp : TopicPartition) (st : PartitionState)
    (s : SinkReplay) : Except EngineError SinkReplay := do
  let _ ← s.decisions.mapM dispatcher.enqueueReplayDecision
  if dispatcher.recoveryMode = .blocking then do
    dispatcher.waitFor s.checkpoint
    let _ ← s.decisions.mapM fun d ↦ dispatcher.waitForDecision d.group
    dispatcher.collectGarbage tp st.logStart
    .ok s
  else do
    dispatcher.collectGarbage tp st.logStart
    .ok s

/-- `replay_sink` for one partition. -/
def replaySinkPartition (maxFetchBytes shardCount : Nat) (dispatcher : SinkDispatcher)
    (states : Table TopicPartition PartitionState) (shards : List ShardStore) (maxBytes : Nat)
    (tp : TopicPartition) : Except EngineError SinkReplay := do
  let checkpoint ← dispatcher.checkpoint tp
  match states.get tp with
  | none => .error (.unknownPartition tp.topicId tp.partitionId)
  | some st =>
    if checkpoint.nextOffset < st.logStart then
      .error (.durableSinkCheckpoint
        (s!"checkpoint offset {checkpoint.nextOffset} for {tp.topicId}/{tp.partitionId} is behind "
          ++ s!"retained log start {st.logStart}"))
    else if st.contiguousLogEnd < checkpoint.nextOffset then
      .error (.durableSinkCheckpoint
        (s!"checkpoint offset {checkpoint.nextOffset} for {tp.topicId}/{tp.partitionId} is ahead "
          ++ s!"of durable log end {st.contiguousLogEnd}"))
    else do
      let s ← replaySinkLoop maxFetchBytes shardCount dispatcher shards maxBytes tp st checkpoint
      settleReplay dispatcher tp st s

/-- What `replay_sink` does with a group that the sink has staged: the group, if it is decided. -/
def reconcileGroup (dispatcher : SinkDispatcher) (states : Table TopicPartition PartitionState)
    (group : DurableAtomicGroup) : Except EngineError (Option DurableAtomicGroup) :=
  match states.get group.topicPartition with
  | none => .error (.unknownPartition group.topicPartition.topicId group.topicPartition.partitionId)
  | some st => do
    let inspection ← inspectAtomicGroup st group.transactionId
    if inspection.state = .unresolved then .ok none
    else do
      dispatcher.enqueueReplayDecision ⟨group, inspection.state⟩
      .ok (some group)

/-- `replay_sink`, on partitions and shards that do not change meanwhile. Returned is what was
handed out for each of the partitions. -/
def replaySink (maxFetchBytes shardCount : Nat) (dispatcher : SinkDispatcher)
    (states : Table TopicPartition PartitionState) (shards : List ShardStore)
    (partitions : List TopicPartition) (maxBytes : Nat) : Except EngineError (List SinkReplay) := do
  let replays ← partitions.mapM
    (replaySinkPartition maxFetchBytes shardCount dispatcher states shards maxBytes)
  let groups ← dispatcher.pendingAtomicGroups
  let decided ← (groups.filter fun g ↦ decide (g.topicPartition ∈ partitions)).mapM
    (reconcileGroup dispatcher states)
  if dispatcher.recoveryMode = .blocking then do
    let _ ← decided.reduceOption.mapM dispatcher.waitForDecision
    .ok replays
  else .ok replays

/-! ### What is to be replayed -/

/-- The dispatcher takes what it is given, and no wait runs out. -/
structure SinkDispatcher.Obliges (dispatcher : SinkDispatcher) : Prop where
  enqueueReplay : ∀ append, dispatcher.enqueueReplay append = .ok ()
  enqueueReplayDecision : ∀ decision, dispatcher.enqueueReplayDecision decision = .ok ()
  waitFor : ∀ checkpoint, dispatcher.waitFor checkpoint = .ok ()
  waitForDecision : ∀ group, dispatcher.waitForDecision group = .ok ()
  collectGarbage : ∀ tp logStart, dispatcher.collectGarbage tp logStart = .ok ()

/-- A checkpoint that a sink can have: the initial one, or the one behind a front part of the log,
of which batches may have been truncated. -/
inductive CheckpointOf (st : PartitionState) (tp : TopicPartition) : DurableSinkCheckpoint → Prop
  | initial : CheckpointOf st tp (.initial tp)
  | delivered {key : Nat} (hkey : st.batches.firstKey ≤ key) (hkey' : key ≤ st.batches.nextKey) :
      CheckpointOf st tp ⟨tp, key, st.offsetAt key⟩
  | truncated {key offset : Nat} (hkey : key < st.batches.firstKey)
      (hoffset : offset < st.logStart) : CheckpointOf st tp ⟨tp, key, offset⟩

/-- Every retained batch has an extent, which records its group. -/
def FullyStored (st : PartitionState) (tp : TopicPartition) (shards : List ShardStore) : Prop :=
  ∀ key b, st.batches.get key = some b → ∃ l ∈ extentsOf tp shards, l.reservation = b.reservation ∧
    l.atomicGroup.map AtomicGroupSequence.identity = b.atomicGroup

/-- A partition was replayed as a sink needs it: every committed or unresolved batch from the
checkpoint on, once and in the order of the placement sequences, and up to the end of the log. -/
structure ReplayedInFull (st : PartitionState) (tp : TopicPartition) (c : DurableSinkCheckpoint)
    (s : SinkReplay) : Prop where
  appends : s.appends.map DurableAppend.reservation =
    (ahead st c.nextOffset).filter fun r ↦ st.fetchable true r.batchId
  checkpoint : s.checkpoint = ⟨tp, st.batches.nextKey, st.contiguousLogEnd⟩

/-- What the replay of a partition needs. -/
structure Replayable (st : PartitionState) (tp : TopicPartition) (shards : List ShardStore)
    (maxBytes : Nat) (c : DurableSinkCheckpoint) : Prop where
  notBehind : st.logStart ≤ c.nextOffset
  noneAborted : NoneAborted st c.nextOffset
  passesNoneOver : PassesNoneOver st tp shards maxBytes c.nextOffset

/-! ### Groups of a recovered partition -/

/-- The groups of the retained batches are known, and known groups can be inspected. -/
structure KnowsGroups (st : PartitionState) : Prop where
  chunk : ∀ key b group, st.batches.get key = some b → b.atomicGroup = some group →
    st.atomicGroups.get group.transactionId ≠ none
  inspect : ∀ txn, st.atomicGroups.get txn ≠ none → ∃ i, inspectAtomicGroup st txn = .ok i

theorem inspectAtomicGroup_eq_ok_iff (h : KnowsGroups st) {txn : Nat} :
    (∃ i, inspectAtomicGroup st txn = .ok i) ↔ st.atomicGroups.get txn ≠ none := by
  refine ⟨fun ⟨i, hi⟩ hnone ↦ ?_, h.inspect txn⟩
  rw [inspectAtomicGroup, hnone] at hi
  cases hi

theorem Recovered.knowsGroups {ctx : RecoveryContext} {E : List ExtentCatalogEntry}
    (h : Recovered ctx E st) : KnowsGroups st := by
  refine ⟨fun key b group hb hgroup ↦ ?_, fun txn hsome ↦ ?_⟩
  · rcases h.get_cases hb with ⟨e, he, -, rfl⟩ | ⟨hplace, -⟩
    · have hmem : e ∈ chunksOf E group.transactionId := by
        obtain ⟨g, hg, rfl⟩ := Option.map_eq_some_iff.1 hgroup
        exact mem_filter.2
          ⟨he, by simp [ExtentCatalogEntry.inGroup, hg, AtomicGroupSequence.identity]⟩
      rw [h.groups, if_neg (ne_nil_of_mem hmem)]
      exact Option.some_ne_none _
    · rw [hplace] at hgroup
      cases hgroup
  · have hget := h.groups txn
    have hne : chunksOf E txn ≠ [] := fun hnil ↦ hsome (by rw [hget, if_pos hnil])
    rw [if_neg hne] at hget
    have hheld : ∀ e ∈ chunksOf E txn, st.batches.get e.reservation.batchId =
        some (recoveredBatch ctx.outcomes ctx.replicas e) := fun e he ↦
      h.entry e (mem_filter.1 he).1
    obtain ⟨first, hfirst⟩ := Option.isSome_iff_exists.1 (isSome_head?.2 hne)
    have hlast := getLast?_eq_some_getLast hne
    simp [inspectAtomicGroup, hget, groupOf, hfirst, hlast, hheld first (mem_of_mem_head? hfirst),
      hheld _ (getLast_mem hne)]

/-- **A log starts at offset zero exactly if its first batch is retained.** -/
theorem EngineReachable.firstKey_eq_zero_iff {config : EngineConfig} {rule : RunRule} {e : Engine}
    (h : EngineReachable config rule e) (hst : e.states.get tp = some st) :
    st.batches.firstKey = 0 ↔ st.logStart = 0 := by
  refine h.partition_invariant (P := fun _ st ↦ st.batches.firstKey = 0 ↔ st.logStart = 0)
    ?_ ?_ ?_ hst
  · intro tp shards sequencer policy _
    exact ⟨fun _ ↦ rfl, fun _ ↦ rfl⟩
  · intro e tp st answer c he hst hzero _ _
    have hs := (he.sound_and_tagged hst).1
    have hrange := (c.outcome hs answer).range hs
    rw [hrange.logStart_eq]
    rcases hrange.firstKey_le.eq_or_lt with heq | hlt
    · rw [← heq, offsetAt_firstKey]
      exact hzero
    · have := hs.layout.offsetAt_lt le_rfl hlt hrange.firstKey_le_nextKey
      omega
  · intro e s tp st st' hb hst hzero _ hr
    rw [hr.firstKey, hr.logStart]
    change st.batches.firstKey = 0 ↔ (s.truncation tp).logStart = 0
    rw [(hb.backed tp st hst).journaling.logStart]
    exact hzero

/-! ### Replaying one partition -/

section Partition

variable {checksum : ExtentChecksum} {maxFetchBytes maxBytes shardCount key : Nat}
  {dispatcher : SinkDispatcher} {s' : SinkReplay} {batches : List StoredBatch}

/-- From the start of a batch on, what is ahead are the batches from it on. -/
theorem ahead_offsetAt (hl : st.Layout) (hkey : st.batches.firstKey ≤ key)
    (hkey' : key ≤ st.batches.nextKey) :
    ahead st (st.offsetAt key) = st.reservations.drop (key - st.batches.firstKey) := by
  have hreach : ∀ {i : Nat} (hi : i < st.reservations.length),
      st.offsetAt key ≤ st.reservations[i].lastOffset ↔ key - st.batches.firstKey ≤ i := by
    intro i hi
    rw [offsetAt_le_lastOffset_iff hl ((mem_reservations_iff hl).1 (getElem_mem hi)) hkey hkey',
      (hl.laid.getElem (getElem?_eq_getElem hi)).2.1]
    omega
  rw [ahead]
  nth_rewrite 1 [← take_append_drop (key - st.batches.firstKey) st.reservations]
  rw [filter_append, filter_eq_nil_iff.2 fun r hr ↦ ?_, filter_eq_self.2 fun r hr ↦ ?_, nil_append]
  · obtain ⟨i, hi, rfl⟩ := mem_iff_getElem.1 hr
    rw [length_drop] at hi
    rw [getElem_drop, decide_eq_true_eq, hreach (by omega)]
    omega
  · obtain ⟨i, hi, rfl⟩ := mem_iff_getElem.1 hr
    rw [length_take] at hi
    rw [getElem_take, decide_eq_true_eq, hreach (by omega)]
    omega

/-- A checkpoint is behind the log start, or at a batch boundary. -/
theorem CheckpointOf.cases (h : CheckpointOf st tp c)
    (hzero : st.batches.firstKey = 0 ↔ st.logStart = 0) :
    c.nextOffset < st.logStart ∨ ∃ key, st.batches.firstKey ≤ key ∧ key ≤ st.batches.nextKey ∧
      c = ⟨tp, key, st.offsetAt key⟩ := by
  cases h with
  | initial =>
    by_cases hstart : st.logStart = 0
    · have hfirst := hzero.2 hstart
      refine .inr ⟨0, by omega, Nat.zero_le _, ?_⟩
      rw [DurableSinkCheckpoint.initial, ← hfirst, offsetAt_firstKey, hstart, hfirst]
    · exact .inl (by dsimp only [DurableSinkCheckpoint.initial]; omega)
  | delivered hkey hkey' => exact .inr ⟨_, hkey, hkey', rfl⟩
  | truncated _ hoffset => exact .inl hoffset

variable (hobliges : dispatcher.Obliges)

include hobliges

theorem replayBatch_eq_ok_iff {batch : StoredBatch} :
    replayBatch shardCount dispatcher st tp s batch = .ok s' ↔
      ∃ next decisions, s.checkpoint.after batch.reservation = .ok next ∧
        recoverDecision st tp s.decisions batch.atomicGroup = .ok decisions ∧
        s' = ⟨next, s.appends ++ [durableAppendFromStored shardCount batch], decisions⟩ := by
  simp only [replayBatch, bind_eq_ok_iff, hobliges.enqueueReplay, eq_comm (a := s')]
  simp

/-- What a run of batches leaves: they were handed out, and their sequences follow the
checkpoint. -/
theorem sequences_of_foldlM_replayBatch
    (h : batches.foldlM (replayBatch shardCount dispatcher st tp) s = .ok s') :
    batches.map (fun b ↦ b.reservation.placement.sequence) =
      range' s.checkpoint.nextPlacementSequence batches.length := by
  induction batches generalizing s with
  | nil => rfl
  | cons b batches ih =>
    rw [foldlM_cons, bind_eq_ok_iff] at h
    obtain ⟨s₁, hb, h⟩ := h
    obtain ⟨next, decisions, hnext, -, rfl⟩ := (replayBatch_eq_ok_iff hobliges).1 hb
    obtain ⟨-, hsequence, -, -, -, rfl⟩ := DurableSinkCheckpoint.after_eq_ok_iff.1 hnext
    rw [map_cons, length_cons, range'_succ, ih h, hsequence]

/-- Batches that lie end to end behind the checkpoint, and whose groups are known, are handed
out. -/
theorem exists_foldlM_replayBatch {offset : Nat} (hs : s.checkpoint = ⟨tp, key, offset⟩)
    (hlaid : Laid tp key offset (batches.map StoredBatch.reservation))
    (hsequence : key + batches.length < 2 ^ 64)
    (hoffset : ∀ b ∈ batches, b.reservation.lastOffset + 1 < 2 ^ 64)
    (hgroup : ∀ b ∈ batches, ∀ g ∈ b.atomicGroup, ∃ i, inspectAtomicGroup st g.transactionId =
      .ok i)
    (shardCount : Nat) :
    ∃ s', batches.foldlM (replayBatch shardCount dispatcher st tp) s = .ok s' ∧
      s'.checkpoint = ⟨tp, key + batches.length,
        endOffset offset (batches.map StoredBatch.reservation)⟩ ∧
      s'.appends = s.appends ++ batches.map (durableAppendFromStored shardCount) := by
  induction batches generalizing s key offset with
  | nil => exact ⟨s, rfl, hs, by simp⟩
  | cons b batches ih =>
    obtain ⟨hb, hoffset⟩ := forall_mem_cons.1 hoffset
    obtain ⟨hg, hgroup⟩ := forall_mem_cons.1 hgroup
    obtain ⟨htp, -, hseq, hfirst, -, hlaid⟩ := hlaid
    rw [length_cons] at hsequence
    have hnext : s.checkpoint.after b.reservation =
        .ok ⟨tp, key + 1, b.reservation.lastOffset + 1⟩ := by
      rw [hs]
      exact DurableSinkCheckpoint.after_eq_ok_iff.2
        ⟨htp.symm, hseq.symm, hfirst.symm, by dsimp only; omega, hb, rfl⟩
    obtain ⟨decisions, hdecisions⟩ : ∃ decisions,
        recoverDecision st tp s.decisions b.atomicGroup = .ok decisions := by
      cases hgr : b.atomicGroup with
      | none => exact ⟨_, rfl⟩
      | some g =>
        obtain ⟨i, hi⟩ := hg g hgr
        exact ⟨_, by rw [recoverDecision, hi]; rfl⟩
    have hstep : replayBatch shardCount dispatcher st tp s b = .ok
        ⟨⟨tp, key + 1, b.reservation.lastOffset + 1⟩,
          s.appends ++ [durableAppendFromStored shardCount b], decisions⟩ :=
      (replayBatch_eq_ok_iff hobliges).2 ⟨_, decisions, hnext, hdecisions, rfl⟩
    obtain ⟨s', hs', hcheckpoint, happends⟩ := ih (s := ⟨_, _, decisions⟩) rfl hlaid (by omega)
      hoffset hgroup
    refine ⟨s', by rw [foldlM_cons, hstep]; exact hs', ?_, ?_⟩
    · rw [hcheckpoint, length_cons]
      congr 1
      omega
    · rw [happends, append_assoc]
      rfl

namespace RecoveredLog

variable (h : RecoveredLog checksum maxFetchBytes maxBytes st tp shards)

include h

theorem replaySinkLoop_eq_ok_iff :
    replaySinkLoop maxFetchBytes shardCount dispatcher shards maxBytes tp st c = .ok s ↔
      ∃ batches, Reads (storedFetch maxFetchBytes st shards tp maxBytes) st.contiguousLogEnd
          c.nextOffset batches ∧
        batches.foldlM (replayBatch shardCount dispatcher st tp) ⟨c, [], []⟩ = .ok s := by
  have hstep : ∀ s b s', replayBatch shardCount dispatcher st tp s b = .ok s' →
      s'.checkpoint.nextOffset = b.reservation.lastOffset + 1 := fun s b s' hok ↦ by
    obtain ⟨next, _, hnext, -, rfl⟩ := (replayBatch_eq_ok_iff hobliges).1 hok
    obtain ⟨-, -, -, -, -, rfl⟩ := DurableSinkCheckpoint.after_eq_ok_iff.1 hnext
    rfl
  -- what is fetched lies below the target
  have htake : ∀ o batches s, storedFetch maxFetchBytes st shards tp maxBytes o = .ok batches →
      (batches.takeWhile fun b ↦ decide (b.reservation.firstOffset < st.contiguousLogEnd)).foldlM
        (replayBatch shardCount dispatcher st tp) s =
      batches.foldlM (replayBatch shardCount dispatcher st tp) s := fun o batches s hfetch ↦ by
    have hround := (h.round_of_eq_ok hfetch).2
    rw [takeWhile_eq_self_iff.2 fun b hb ↦ ?_]
    have := (readable_iff.1 (hround.readable hb)).1.2
    have := hround.firstOffset_le_lastOffset hb
    exact decide_eq_true (by omega)
  have hfuel : st.contiguousLogEnd ≤ (⟨c, [], []⟩ : SinkReplay).checkpoint.nextOffset +
      (st.contiguousLogEnd - c.nextOffset) := by
    dsimp only
    omega
  exact replayLoop_eq_ok_iff hstep h.le_lastOffset htake hfuel

/-- **A log that can be replayed is replayed in full.** -/
theorem exists_replaySinkLoop (hgroups : KnowsGroups st) (hstored : FullyStored st tp shards)
    (hzero : st.batches.firstKey = 0 ↔ st.logStart = 0) (hc : CheckpointOf st tp c)
    (hreplayable : Replayable st tp shards maxBytes c) (shardCount : Nat) :
    ∃ s, replaySinkLoop maxFetchBytes shardCount dispatcher shards maxBytes tp st c = .ok s ∧
      ReplayedInFull st tp c s := by
  obtain ⟨hbehind, hlive, hskips⟩ := hreplayable
  have hl := h.shardLayout.layout
  obtain ⟨key, hkey, hkey', rfl⟩ := (hc.cases hzero).resolve_left (by omega)
  obtain ⟨batches, hreads, hall⟩ := h.exists_reads hbehind hlive hskips
  have hdrop := hall.trans (ahead_offsetAt hl hkey hkey')
  have hlength : batches.length = st.batches.nextKey - key := by
    have := congrArg length hdrop
    rw [length_map, length_drop, length_reservations] at this
    unfold DenseOrderedMap.nextKey at hkey' ⊢
    omega
  have hle : key - st.batches.firstKey ≤ st.reservations.length := by
    rw [length_reservations]
    unfold DenseOrderedMap.nextKey at hkey'
    omega
  have hlaid : Laid tp key (st.offsetAt key) (batches.map StoredBatch.reservation) := by
    have := hl.laid.drop hle
    rw [← hdrop, h.topicPartition, Nat.add_sub_cancel' hkey] at this
    exact this
  have hsequence : key + batches.length < 2 ^ 64 := by
    have := hl.sequence_lt
    rw [hl.nextPlacementSequence, hl.nextBatchId] at this
    omega
  have hoffset : ∀ b ∈ batches, b.reservation.lastOffset + 1 < 2 ^ 64 := fun b hb ↦ by
    have := (hreads.retains h hb).range hl
    have := hl.offset_lt
    omega
  have hinspect : ∀ b ∈ batches, ∀ g ∈ b.atomicGroup,
      ∃ i, inspectAtomicGroup st g.transactionId = .ok i := fun b hb g hg ↦ by
    obtain ⟨l, hmem, hres, hgroup⟩ := hreads.atomicGroup h hb
    obtain ⟨held, hheld, heq⟩ := hreads.retains h hb
    obtain ⟨l', hmem', hres', hgroup'⟩ := hstored _ held hheld
    obtain ⟨shard, hshard, hmem⟩ := mem_flatMap.1 hmem
    obtain ⟨shard', hshard', hmem'⟩ := mem_flatMap.1 hmem'
    obtain ⟨-, rfl⟩ := h.shardLayout.eq_of_reservation hshard hshard' hmem hmem'
      (by rw [hres, hres', heq])
    rw [hgroup, Option.mem_def.1 hg] at hgroup'
    exact hgroups.inspect _ (hgroups.chunk _ held _ hheld hgroup'.symm)
  obtain ⟨s, hs, hcheckpoint, happends⟩ := exists_foldlM_replayBatch hobliges
    (s := ⟨⟨tp, key, st.offsetAt key⟩, [], []⟩) rfl hlaid hsequence hoffset hinspect shardCount
  refine ⟨s, (h.replaySinkLoop_eq_ok_iff hobliges).2 ⟨batches, hreads, hs⟩, ?_, ?_⟩
  · rw [happends, nil_append, map_map]
    change batches.map StoredBatch.reservation = _
    rw [hall]
    refine (filter_eq_self.2 fun r hr ↦ ?_).symm
    obtain ⟨b, hb, rfl⟩ := mem_map.1 (hall.symm ▸ hr)
    exact (readable_iff.1 (hreads.readable h hb)).2
  · have hend : endOffset (st.offsetAt key) (batches.map StoredBatch.reservation) =
        st.contiguousLogEnd := by
      rw [h.contiguousLogEnd, hl.nextOffset, hdrop, offsetAt, ← endOffset_append, take_append_drop]
    rw [hcheckpoint, hend, hlength, Nat.add_sub_cancel' hkey']

/-- **A log that is replayed could be replayed**: the checkpoint admits no gap. -/
theorem replayable_of_replaySinkLoop (hzero : st.batches.firstKey = 0 ↔ st.logStart = 0)
    (hc : CheckpointOf st tp c) (hbehind : st.logStart ≤ c.nextOffset)
    (hok : replaySinkLoop maxFetchBytes shardCount dispatcher shards maxBytes tp st c = .ok s) :
    Replayable st tp shards maxBytes c := by
  have hl := h.shardLayout.layout
  obtain ⟨key, hkey, hkey', rfl⟩ := (hc.cases hzero).resolve_left (by omega)
  obtain ⟨batches, hreads, hfold⟩ := (h.replaySinkLoop_eq_ok_iff hobliges).1 hok
  have hdense : batches.map (fun b ↦ b.reservation.batchId) = range' key batches.length := by
    rw [← sequences_of_foldlM_replayBatch hobliges hfold]
    refine map_congr_left fun b hb ↦ ?_
    obtain ⟨held, hheld, heq⟩ := hreads.retains h hb
    rw [← heq, (hl.get hheld).2.1, (hl.get hheld).2.2.1]
  have hall := hreads.eq_ahead h hkey hkey' rfl hdense
  refine ⟨hbehind, hreads.noneAborted h hall, hreads.passesNoneOver h fun c hc hreadable ↦ ?_⟩
  rw [hall]
  exact (mem_ahead_iff hl).2 ⟨h.shardLayout.retains hc hreadable, (readable_iff.1 hreadable).1.1⟩

end RecoveredLog

theorem settleReplay_eq_ok (s : SinkReplay) : settleReplay dispatcher tp st s = .ok s := by
  have hdecisions : s.decisions.mapM dispatcher.enqueueReplayDecision =
    .ok (s.decisions.map fun _ ↦ ()) :=
    mapM_eq_ok fun d _ ↦ hobliges.enqueueReplayDecision d
  have hwaits : (s.decisions.mapM fun d ↦ dispatcher.waitForDecision d.group) =
      .ok (s.decisions.map fun _ ↦ ()) :=
    mapM_eq_ok fun d _ ↦ hobliges.waitForDecision d.group
  rw [settleReplay, hdecisions, hwaits, hobliges.waitFor, hobliges.collectGarbage]
  split_ifs <;> rfl

section Engine

variable {states : Table TopicPartition PartitionState}

/-- **The replay of one partition** succeeds exactly if the log can be replayed, and then hands it
out in full. -/
theorem RecoveredLog.replaySinkPartition_spec
    (h : RecoveredLog checksum maxFetchBytes maxBytes st tp shards)
    (hgroups : KnowsGroups st) (hstored : FullyStored st tp shards)
    (hzero : st.batches.firstKey = 0 ↔ st.logStart = 0) (hst : states.get tp = some st)
    (hcheckpoint : dispatcher.checkpoint tp = .ok c) (hc : CheckpointOf st tp c)
    (shardCount : Nat) :
    ((∃ s, replaySinkPartition maxFetchBytes shardCount dispatcher states shards maxBytes tp =
        .ok s) ↔
      Replayable st tp shards maxBytes c) ∧
    ∀ s, replaySinkPartition maxFetchBytes shardCount dispatcher states shards maxBytes tp = .ok s →
      ReplayedInFull st tp c s := by
  have hl := h.shardLayout.layout
  have heq : replaySinkPartition maxFetchBytes shardCount dispatcher states shards maxBytes tp =
      if c.nextOffset < st.logStart then
        .error (.durableSinkCheckpoint
          (s!"checkpoint offset {c.nextOffset} for {tp.topicId}/{tp.partitionId} is behind " ++
            s!"retained log start {st.logStart}"))
      else replaySinkLoop maxFetchBytes shardCount dispatcher shards maxBytes tp st c := by
    rw [replaySinkPartition, hcheckpoint, hst]
    change (if c.nextOffset < st.logStart then _ else if st.contiguousLogEnd < c.nextOffset then _
      else _) = _
    by_cases hbehind : c.nextOffset < st.logStart
    · rw [if_pos hbehind, if_pos hbehind]
    · -- a checkpoint is never ahead of the end
      obtain ⟨key, hkey, hkey', rfl⟩ := (hc.cases hzero).resolve_left hbehind
      have hend := hl.offsetAt_le hkey' le_rfl
      rw [hl.offsetAt_nextKey, ← h.contiguousLogEnd] at hend
      rw [if_neg hbehind, if_neg hbehind, if_neg (by dsimp only; omega)]
      cases replaySinkLoop maxFetchBytes shardCount dispatcher shards maxBytes tp st
        ⟨tp, key, st.offsetAt key⟩ with
      | error e => rfl
      | ok s => exact settleReplay_eq_ok hobliges s
  rw [heq]
  by_cases hbehind : c.nextOffset < st.logStart
  · rw [if_pos hbehind]
    refine ⟨⟨fun ⟨s, hs⟩ ↦ (by cases hs), fun hr ↦ ?_⟩, fun s hs ↦ (by cases hs)⟩
    have := hr.notBehind
    omega
  · rw [if_neg hbehind]
    have hiff : ∀ s, replaySinkLoop maxFetchBytes shardCount dispatcher shards maxBytes tp st c =
      .ok s →
        Replayable st tp shards maxBytes c := fun s ↦
      h.replayable_of_replaySinkLoop hobliges hzero hc (by omega)
    refine ⟨⟨fun ⟨s, hs⟩ ↦ hiff s hs, fun hr ↦ ?_⟩, fun s hs ↦ ?_⟩
    · obtain ⟨s, hs, -⟩ := h.exists_replaySinkLoop hobliges hgroups hstored hzero hc hr shardCount
      exact ⟨s, hs⟩
    · obtain ⟨s', hs', hfull⟩ :=
        h.exists_replaySinkLoop hobliges hgroups hstored hzero hc (hiff s hs) shardCount
      rw [hs] at hs'
      cases hs'
      exact hfull

theorem exists_reconcileGroup_iff {group : DurableAtomicGroup}
    (hst : states.get group.topicPartition = some st) (hgroups : KnowsGroups st) :
    (∃ decided, reconcileGroup dispatcher states group = .ok decided) ↔
      st.atomicGroups.get group.transactionId ≠ none := by
  rw [← inspectAtomicGroup_eq_ok_iff hgroups, reconcileGroup, hst]
  dsimp only
  constructor
  · rintro ⟨decided, h⟩
    obtain ⟨i, hi, -⟩ := bind_eq_ok_iff.1 h
    exact ⟨i, hi⟩
  · rintro ⟨i, hi⟩
    by_cases hstate : i.state = .unresolved
    · exact ⟨none, bind_eq_ok_iff.2 ⟨i, hi, if_pos hstate⟩⟩
    · refine ⟨some group, bind_eq_ok_iff.2 ⟨i, hi, ?_⟩⟩
      rw [if_neg hstate, hobliges.enqueueReplayDecision]
      rfl

end Engine

end Partition

/-! ### All partitions -/

/-- **A recovered engine replays to its sink exactly if every checkpoint is within the retained log,
nothing ahead of it is aborted or passed over, and every group the sink has staged is known.** After
any run and any crash, for recovered partitions whose batches all have extents and checkpoints that
a sink can have. -/
theorem replaySink_complete_iff {checksum : ExtentChecksum} {config : EngineConfig}
    {s : ShardedEngine} {states : Table TopicPartition PartitionState} {shards : List ShardStore}
    {dispatcher : SinkDispatcher} {partitions : List TopicPartition}
    {groups : List DurableAtomicGroup} {maxFetchBytes maxBytes shardCount : Nat}
    (hs : ShardedReachable checksum config s) (hrec : s.engine.recover config 1 = .ok states)
    (hshards : List.Forall₂ (Survives checksum s.engine.extents) s.shards shards)
    (hobliges : dispatcher.Obliges) (hpending : dispatcher.pendingAtomicGroups = .ok groups)
    (hknown : ∀ tp ∈ partitions, ∃ st c, states.get tp = some st ∧ FullyStored st tp shards ∧
      dispatcher.checkpoint tp = .ok c ∧ CheckpointOf st tp c) (hpos : 0 < maxBytes)
    (hlt : maxBytes < 2 ^ 32) (hle : maxBytes ≤ maxFetchBytes) :
    (∃ replays, replaySink maxFetchBytes shardCount dispatcher states shards partitions maxBytes =
        .ok replays ∧
      List.Forall₂ (fun tp replay ↦ ∀ st c, states.get tp = some st → dispatcher.checkpoint tp =
          .ok c →
        ReplayedInFull st tp c replay) partitions replays) ↔
    (∀ tp ∈ partitions, ∀ st c, states.get tp = some st → dispatcher.checkpoint tp = .ok c →
      Replayable st tp shards maxBytes c) ∧
    ∀ g ∈ groups, g.topicPartition ∈ partitions → ∀ st, states.get g.topicPartition = some st →
      st.atomicGroups.get g.transactionId ≠ none := by
  have hlog : ∀ {tp st}, states.get tp = some st →
      RecoveredLog checksum maxFetchBytes maxBytes st tp shards := fun hst ↦
    hs.recoveredLog hrec hshards hst hpos hlt hle
  have hgroups : ∀ {tp st}, states.get tp = some st → KnowsGroups st := fun hst ↦ by
    obtain ⟨_, _, -, -, -, hr⟩ := hs.sound.reachable.recovered hrec hst
    exact hr.knowsGroups
  have hzero : ∀ {tp st}, states.get tp = some st →
      (st.batches.firstKey = 0 ↔ st.logStart = 0) := fun hst ↦
    (hs.restart hrec hshards).sound.reachable.firstKey_eq_zero_iff hst
  have hstored : ∀ tp ∈ partitions, ∀ st c, states.get tp = some st → dispatcher.checkpoint tp =
      .ok c → FullyStored st tp shards ∧ CheckpointOf st tp c := by
    intro tp htp st c hst hcheckpoint
    obtain ⟨st', c', hst', hstored, hcheckpoint', hc⟩ := hknown tp htp
    cases hst.symm.trans hst'
    cases hcheckpoint.symm.trans hcheckpoint'
    exact ⟨hstored, hc⟩
  have hspec (tp) (htp : tp ∈ partitions) (st c) (hst : states.get tp = some st)
      (hcheckpoint : dispatcher.checkpoint tp = .ok c) :=
    have hst' := hstored tp htp st c hst hcheckpoint
    (hlog hst).replaySinkPartition_spec hobliges (hgroups hst) hst'.1 (hzero hst) hst hcheckpoint
      hst'.2 shardCount
  have hreplays :
      (∃ replays, partitions.mapM (replaySinkPartition maxFetchBytes shardCount dispatcher
      states shards maxBytes) = .ok replays) ↔ ∀ tp ∈ partitions, ∀ st c, states.get tp = some st →
        dispatcher.checkpoint tp = .ok c → Replayable st tp shards maxBytes c := by
    rw [exists_mapM_eq_ok_iff]
    refine forall₂_congr fun tp htp ↦ ⟨fun hok st c hst hcheckpoint ↦
      (hspec tp htp st c hst hcheckpoint).1.1 hok, fun hall ↦ ?_⟩
    obtain ⟨st, c, hst, -, hcheckpoint, -⟩ := hknown tp htp
    exact (hspec tp htp st c hst hcheckpoint).1.2 (hall st c hst hcheckpoint)
  have hreconciled : (∃ decided, (groups.filter fun g ↦ decide (g.topicPartition ∈ partitions)).mapM
      (reconcileGroup dispatcher states) = .ok decided) ↔
        ∀ g ∈ groups, g.topicPartition ∈ partitions → ∀ st, states.get g.topicPartition = some st →
          st.atomicGroups.get g.transactionId ≠ none := by
    rw [exists_mapM_eq_ok_iff]
    constructor
    · intro hall g hg htp st hst
      exact (exists_reconcileGroup_iff hobliges hst (hgroups hst)).1
        (hall g (mem_filter.2 ⟨hg, decide_eq_true htp⟩))
    · intro hall g hg
      obtain ⟨hg, htp⟩ := mem_filter.1 hg
      obtain ⟨st, -, hst, -⟩ := hknown _ (of_decide_eq_true htp)
      exact (exists_reconcileGroup_iff hobliges hst (hgroups hst)).2
        (hall g hg (of_decide_eq_true htp) st hst)
  rw [← hreplays, ← hreconciled]
  constructor
  · rintro ⟨replays, hok, -⟩
    obtain ⟨replays', hpartitions, hok⟩ := bind_eq_ok_iff.1 hok
    obtain ⟨groups', hgroups', hok⟩ := bind_eq_ok_iff.1 hok
    rw [hpending] at hgroups'
    cases hgroups'
    obtain ⟨decided, hdecided, -⟩ := bind_eq_ok_iff.1 hok
    exact ⟨⟨replays', hpartitions⟩, decided, hdecided⟩
  · rintro ⟨⟨replays, hpartitions⟩, decided, hdecided⟩
    have hwaits : decided.reduceOption.mapM dispatcher.waitForDecision =
        .ok (decided.reduceOption.map fun _ ↦ ()) :=
      mapM_eq_ok fun g _ ↦ hobliges.waitForDecision g
    refine ⟨replays, ?_, ?_⟩
    · rw [replaySink, hpartitions, hpending]
      refine bind_eq_ok_iff.2
        ⟨_, rfl, bind_eq_ok_iff.2 ⟨_, rfl, bind_eq_ok_iff.2 ⟨_, hdecided, ?_⟩⟩⟩
      rw [hwaits]
      split_ifs <;> rfl
    · have hmem := mapM_eq_ok_iff.1 hpartitions
      refine forall₂_iff_get.2 ⟨hmem.length_eq, fun i hi hi' st c hst hcheckpoint ↦ ?_⟩
      exact (hspec _ (get_mem ..) st c hst hcheckpoint).2 _ (hmem.get hi hi')

/-- A dispatcher that takes everything, with a sink that has taken nothing. -/
def SinkDispatcher.fresh : SinkDispatcher where
  checkpoint tp := .ok (.initial tp)
  enqueueReplay _ := .ok ()
  enqueueReplayDecision _ := .ok ()
  recoveryMode := .blocking
  waitFor _ := .ok ()
  waitForDecision _ := .ok ()
  pendingAtomicGroups := .ok []
  collectGarbage _ _ := .ok ()

theorem SinkDispatcher.obliges_fresh : SinkDispatcher.fresh.Obliges :=
  ⟨fun _ ↦ rfl, fun _ ↦ rfl, fun _ ↦ rfl, fun _ ↦ rfl, fun _ _ ↦ rfl⟩

/-- The check of `FullyStored`. -/
def fullyStored (st : PartitionState) (tp : TopicPartition) (shards : List ShardStore) : Bool :=
  st.batches.values.all fun b ↦ (extentsOf tp shards).any fun l ↦
    decide (l.reservation = b.reservation) &&
      decide (l.atomicGroup.map AtomicGroupSequence.identity = b.atomicGroup)

theorem FullyStored.of_check (h : fullyStored st tp shards = true) : FullyStored st tp shards := by
  intro key b hb
  obtain ⟨l, hl, heq⟩ := any_eq_true.1 (all_eq_true.1 h b (DenseOrderedMap.mem_values_of_get hb))
  rw [Bool.and_eq_true, decide_eq_true_eq, decide_eq_true_eq] at heq
  exact ⟨l, hl, heq⟩

/-- The two batches on two shards are replayed to a sink that has taken nothing. -/
theorem two_shards_replayed_in_full : ∃ s states st replay,
    ShardedReachable lengthChecksum ⟨2, 1, 1⟩ s ∧ s.engine.recover ⟨2, 1, 1⟩ 1 = .ok states ∧
      states.get ⟨0, 0⟩ = some st ∧ st.reservations.length = 2 ∧
      replaySink 10 2 .fresh states s.shards [⟨0, 0⟩] 10 = .ok [replay] ∧
      ReplayedInFull st ⟨0, 0⟩ (.initial ⟨0, 0⟩) replay := by
  obtain ⟨s, states, st, hs, hrec, hsurvives, hst, hsingle, hlength, hstart, hstored, hlive⟩ :=
    ShardedEngine.exists_recovered_of_play ⟨2, 1, 1⟩ 2 onTwoShards
    (fun s _ st ↦ (∀ shard ∈ s.shards, (shard.ix.locations ⟨0, 0⟩).length ≤ 1) ∧
      st.reservations.length = 2 ∧ st.logStart = 0 ∧ fullyStored st ⟨0, 0⟩ s.shards ∧
      ∀ b ∈ st.batches.values, b.status ≠ .aborted)
    (by decide +kernel)
  obtain ⟨replays, hok, hfull⟩ : ∃ replays,
      replaySink 10 2 .fresh states s.shards [⟨0, 0⟩] 10 = .ok replays ∧
      List.Forall₂ (fun tp replay ↦ ∀ st c, states.get tp = some st →
        SinkDispatcher.fresh.checkpoint tp = .ok c → ReplayedInFull st tp c replay)
          [⟨0, 0⟩] replays := by
    refine (replaySink_complete_iff hs hrec hsurvives SinkDispatcher.obliges_fresh rfl
      (fun tp htp ↦ ?_) (by decide) (by decide) le_rfl).2
      ⟨fun tp htp st' c hst' hc ↦ ?_, fun g hg ↦ (by cases hg)⟩
    · cases mem_singleton.1 htp
      exact ⟨st, _, hst, .of_check hstored, rfl, .initial⟩
    · cases mem_singleton.1 htp
      rw [hst] at hst'
      cases hst'
      cases hc
      exact ⟨hstart.le, fun _ b hb _ ↦ hlive b (DenseOrderedMap.mem_values_of_get hb),
        passesNoneOver_of_single hsingle⟩
  obtain _ | ⟨hreplay, hrest⟩ := hfull
  cases hrest
  exact ⟨s, states, st, _, hs, hrec, hst, hlength, hok, hreplay st _ hst rfl⟩

/-- **A log is not always replayed.** A sink that has taken nothing is refused when the log was
truncated, and the replay fails behind the first batch when the second is of an aborted group; in
both cases every retained batch has an extent and the dispatcher takes everything. -/
theorem replay_refused : (∃ s states st, ShardedReachable lengthChecksum ⟨1, 1, 1⟩ s ∧
      s.engine.recover ⟨1, 1, 1⟩ 1 = .ok states ∧
      List.Forall₂ (Survives lengthChecksum s.engine.extents) s.shards s.shards ∧
      states.get ⟨0, 0⟩ = some st ∧ FullyStored st ⟨0, 0⟩ s.shards ∧
      (replaySink 10 1 .fresh states s.shards [⟨0, 0⟩] 10).toOption.isNone ∧ st.logStart = 1) ∧
    ∃ s states st, ShardedReachable lengthChecksum ⟨1, 1, 1⟩ s ∧
      s.engine.recover ⟨1, 1, 1⟩ 1 = .ok states ∧
      List.Forall₂ (Survives lengthChecksum s.engine.extents) s.shards s.shards ∧
      states.get ⟨0, 0⟩ = some st ∧ FullyStored st ⟨0, 0⟩ s.shards ∧
      (replaySink 10 1 .fresh states s.shards [⟨0, 0⟩] 10).toOption.isNone ∧ st.logStart = 0 := by
  constructor
  · obtain ⟨s, states, st, hs, hrec, hsurvives, hst, hstored, hfails⟩ :=
      ShardedEngine.exists_recovered_of_play ⟨1, 1, 1⟩ 1 truncatedFirst
      (fun s states st ↦ fullyStored st ⟨0, 0⟩ s.shards ∧
        (replaySink 10 1 .fresh states s.shards [⟨0, 0⟩] 10).toOption.isNone ∧ st.logStart = 1)
      (by decide +kernel)
    exact ⟨s, states, st, hs, hrec, hsurvives, hst, .of_check hstored, hfails⟩
  · obtain ⟨s, states, st, hs, hrec, hsurvives, hst, hstored, hfails⟩ :=
      ShardedEngine.exists_recovered_of_play ⟨1, 1, 1⟩ 1 abortedLast
      (fun s states st ↦ fullyStored st ⟨0, 0⟩ s.shards ∧
        (replaySink 10 1 .fresh states s.shards [⟨0, 0⟩] 10).toOption.isNone ∧ st.logStart = 0)
      (by decide +kernel)
    exact ⟨s, states, st, hs, hrec, hsurvives, hst, .of_check hstored, hfails⟩

end ShardStream
