import Mathlib.Data.List.Sort
import ShardStream.Engine.Control

/-!
# Recovery

A restart rebuilds every partition from two durable things: the control records of the journal,
replayed in order (`applyEvent`), and the catalog of extents, visited in offset order
(`recoverEntry`). A batch without an extent between two extents, or between the retention floor and
the first extent, is rebuilt as an aborted batch; how the missing offsets were divided among the
missing batches is not recorded, and they are divided evenly (`appendRecoveredAborts`).

The variant of the reducer with a deadline adds clock checks only; it is not modelled.
-/

namespace ShardStream

/-- `ExtentCatalogEntry`, without the number of the pack that holds the extent. -/
structure ExtentCatalogEntry where
  reservation : Reservation
  producer : Option ProducerSequence
  atomicGroup : Option AtomicGroupSequence
  payloadBytes : Nat
  objectDurable : Bool
  deriving DecidableEq

/-- The partition an extent belongs to. -/
def ExtentCatalogEntry.topicPartition (e : ExtentCatalogEntry) : TopicPartition :=
  e.reservation.topicPartition

/-- The key of an extent in the catalog. -/
def ExtentCatalogEntry.key (e : ExtentCatalogEntry) : TopicPartition × Nat :=
  (e.topicPartition, e.reservation.batchId)

/-! ### Replaying the journal -/

/-- `RecoveredTruncation`. -/
structure RecoveredTruncation where
  logStart : Nat
  /-- Next batch id, next offset, next placement sequence. -/
  sequencerFloor : Option (Nat × Nat × Nat)
  deriving DecidableEq

/-- The ring history of a partition: ring epochs in increasing order, each with its ring. -/
abbrev RingHistory := List (Nat × PlacementRing)

/-- What the journal replay has collected so far. `configured` lists the partitions that have a
ring history, in order of appearance. -/
structure ReplayState where
  configured : List TopicPartition
  rings : Table TopicPartition RingHistory
  replicationPolicies : Table TopicPartition PartitionReplicationPolicy
  truncations : Table TopicPartition RecoveredTruncation
  groupOutcomes : Table (TopicPartition × Nat) AtomicGroupState

/-- The replay of the empty journal. -/
def ReplayState.initial : ReplayState := ⟨[], .empty, .empty, .empty, .empty⟩

/-- `validate_ring`, returning the lanes in the form it has validated. -/
def checkedRing (config : EngineConfig) (shards : List Nat) : Except EngineError PlacementRing :=
  match h : validateRing config shards with
  | .error e => .error e
  | .ok () =>
    .ok ⟨shards, (validateRing_eq_ok_iff.1 h).1, (validateRing_eq_ok_iff.1 h).2.2⟩

/-- Texts of corruption errors name the partition as `topic/partition`. -/
def corruptAt (message : String) (tp : TopicPartition) : EngineError :=
  .corruptState s!"{message} {tp.topicId}/{tp.partitionId}"

/-- The ring history of `tp` gains a ring. -/
def ReplayState.addRing (s : ReplayState) (tp : TopicPartition) (epoch : Nat)
    (ring : PlacementRing) : ReplayState :=
  { s with
    configured := if s.rings.contains tp then s.configured else s.configured ++ [tp]
    rings := s.rings.insert tp ((s.rings.get tp).getD [] ++ [(epoch, ring)]) }

/-- The log start recorded for `tp` so far. -/
def ReplayState.logStart (s : ReplayState) (tp : TopicPartition) : Nat :=
  ((s.truncations.get tp).map (·.logStart)).getD 0

/-- `record_recovered_group_outcome`. -/
def recordGroupOutcome (s : ReplayState) (tp : TopicPartition) (txn : Nat)
    (outcome : AtomicGroupState) : Except EngineError ReplayState :=
  if ¬ s.rings.contains tp then
    .error (corruptAt "atomic group marker for unconfigured partition" tp)
  else
    match s.groupOutcomes.get (tp, txn) with
    | some previous =>
      if previous ≠ outcome then
        .error (.corruptState s!"atomic group {txn} has conflicting commit and abort markers")
      else .ok { s with groupOutcomes := s.groupOutcomes.insert (tp, txn) outcome }
    | none => .ok { s with groupOutcomes := s.groupOutcomes.insert (tp, txn) outcome }

/-- One control record: `apply_recovered_catalog_event` for the configuration records, and the
reducer's own branches for retention and group decisions. -/
def applyEvent (config : EngineConfig) (s : ReplayState) :
    JournalEvent → Except EngineError ReplayState
  | .configure tp ringEpoch shards => do
    let ring ← checkedRing config shards
    let current := ((s.rings.get tp).getD []).getLast?
    refuseIf (∃ last ∈ current, ringEpoch ≤ last.1) (corruptAt "non-increasing ring epoch for" tp)
    let s := s.addRing tp ringEpoch ring
    pure { s with
      replicationPolicies := s.replicationPolicies.insert tp
        ((s.replicationPolicies.get tp).getD config.defaultReplicationPolicy) }
  | .createPartition tp ringEpoch shards policyGeneration replicationFactor minInSyncReplicas => do
    let ring ← checkedRing config shards
    refuseIf (s.rings.contains tp) (corruptAt "duplicate partition creation for" tp)
    let policy : PartitionReplicationPolicy :=
      ⟨policyGeneration, replicationFactor, minInSyncReplicas⟩
    policy.validate config.replicationFactor
    let s := s.addRing tp ringEpoch ring
    pure { s with replicationPolicies := s.replicationPolicies.insert tp policy }
  | .updateReplicationPolicy tp expected policyGeneration replicationFactor minInSyncReplicas => do
    refuseIf (¬ s.rings.contains tp)
      (corruptAt "replication policy update for unconfigured partition" tp)
    let policy : PartitionReplicationPolicy :=
      ⟨policyGeneration, replicationFactor, minInSyncReplicas⟩
    policy.validate config.replicationFactor
    let current := (s.replicationPolicies.get tp).getD config.defaultReplicationPolicy
    if current = policy then pure s
    else if current.policyGeneration ≠ expected then
      throw (.corruptState
        (s!"replication policy generation mismatch for {tp.topicId}/{tp.partitionId}: " ++
          s!"expected {expected}, found {current.policyGeneration}"))
    else pure { s with replicationPolicies := s.replicationPolicies.insert tp policy }
  | .truncate tp logStart =>
    if ¬ s.rings.contains tp then .error (corruptAt "retention event for unconfigured partition" tp)
    else if logStart < s.logStart tp then .error (corruptAt "log start moved backward for" tp)
    else .ok { s with truncations := s.truncations.insert tp ⟨logStart, none⟩ }
  | .truncateCheckpoint tp logStart nextBatchId nextOffset nextPlacementSequence =>
    if ¬ s.rings.contains tp then
      .error (corruptAt "retention checkpoint for unconfigured partition" tp)
    else if logStart < s.logStart tp ∨ nextOffset < logStart ∨
        nextBatchId ≠ nextPlacementSequence then
      .error (corruptAt "invalid retention checkpoint for" tp)
    else
      .ok { s with
        truncations := s.truncations.insert tp
          ⟨logStart, some (nextBatchId, nextOffset, nextPlacementSequence)⟩ }
  | .groupCommit tp txn => recordGroupOutcome s tp txn .committed
  | .groupAbort tp txn => recordGroupOutcome s tp txn .aborted

/-- The replay of a journal. -/
def replay (config : EngineConfig) (events : List JournalEvent) : Except EngineError ReplayState :=
  events.foldlM (applyEvent config) .initial

/-! ### Rebuilding one partition -/

/-- `MAX_RECOVERED_GAP_BATCHES`. -/
def maxRecoveredGapBatches : Nat := 1000000

/-- `validate_recovered_extent`. -/
def validateRecoveredExtent (history : RingHistory) (tp : TopicPartition) (r : Reservation) :
    Except EngineError Unit :=
  if r.topicPartition ≠ tp ∨ r.batchId ≠ r.placement.sequence then
    .error (.corruptState s!"extent identity is inconsistent at batch {r.batchId}")
  else
    match history.lookup r.placement.ringEpoch with
    | none =>
      .error (.corruptState
        s!"batch {r.batchId} references unknown ring epoch {r.placement.ringEpoch}")
    | some ring =>
      if ring.lane r.placement.sequence ≠ r.placement.virtualLaneId then
        .error (.corruptState s!"batch {r.batchId} violates round-robin placement")
      else .ok ()

/-- The aborted batch that stands for a missing one. -/
def abortedBatch (reservation : Reservation) : BatchRuntime :=
  { reservation, status := .aborted, durableReplicas := 0, replicaAcks := 0, producer := none,
    atomicGroup := none, payloadDigest := none, payloadBytes := 0, objectDurable := false }

/-- The reservation given to a missing batch. -/
def abortedReservation (tp : TopicPartition) (ring : PlacementRing) (ringEpoch leaderEpoch : Nat)
    (batchId offset sequence : Nat) (recordCount : NonZeroU32) : Reservation :=
  { topicId := tp.topicId, partitionId := tp.partitionId, batchId, firstOffset := offset,
    lastOffset := offset + (recordCount.get - 1), recordCount
    placement := { virtualLaneId := ring.lane sequence, ringEpoch, leaderEpoch, sequence } }

/-- The records given to the `index`-th missing batch. -/
def gapShare (base remainder index : Nat) : Nat := base + if index < remainder then 1 else 0

/-- The loop of `append_recovered_aborts`: `n` batches are left, and the next one is the `index`-th.
Only the last offset of a batch is checked; the other sums wrap, as in a release build. -/
def appendAborts (tp : TopicPartition) (ring : PlacementRing)
    (ringEpoch base remainder firstBatchId firstSequence : Nat) :
    (n index offset : Nat) → PartitionState → Except EngineError PartitionState
  | 0, _, _, st => .ok st
  | n + 1, index, offset, st =>
    let count := gapShare base remainder index
    if hbig : ¬ count < 2 ^ 32 then .error (.corruptState "recovered abort is too large")
    else if hzero : count = 0 then .error (.corruptState "zero recovered abort")
    else
      let recordCount : NonZeroU32 := ⟨count, by omega, not_not.1 hbig⟩
      let batchId := (firstBatchId + index) % 2 ^ 128
      let sequence := (firstSequence + index) % 2 ^ 64
      if ¬ offset + (count - 1) < 2 ^ 64 then .error (.corruptState "abort offset overflow")
      else
        let reservation := abortedReservation tp ring ringEpoch st.sequencer.leaderEpoch batchId
          offset sequence recordCount
        match appendBatchRuntime st (abortedBatch reservation) with
        | .error e => .error e
        | .ok st =>
          appendAborts tp ring ringEpoch base remainder firstBatchId firstSequence n (index + 1)
            ((offset + (count - 1) + 1) % 2 ^ 64) st

/-- `append_recovered_aborts`. -/
def appendRecoveredAborts (st : PartitionState) (history : RingHistory) (tp : TopicPartition)
    (firstBatchId firstOffset firstSequence missingBatches missingRecords ringEpoch : Nat) :
    Except EngineError PartitionState :=
  if missingBatches = 0 then
    if missingRecords = 0 then .ok st
    else .error (.corruptState "logical offset gap has no missing reservations")
  else if ¬ missingBatches < 2 ^ 64 then
    .error (.corruptState "recovered batch gap exceeds u64")
  else if maxRecoveredGapBatches < missingBatches ∨ missingRecords < missingBatches ∨
      min (missingBatches * (2 ^ 32 - 1)) (2 ^ 64 - 1) < missingRecords then
    .error (.corruptState "recovered reservation gap exceeds safety bounds")
  else
    match history.lookup ringEpoch with
    | none => .error (.corruptState "recovered gap references an unknown ring")
    | some ring =>
      appendAborts tp ring ringEpoch (missingRecords / missingBatches)
        (missingRecords % missingBatches) firstBatchId firstSequence missingBatches 0 firstOffset st

/-- `replica_mask`. -/
def replicaMask (replicationFactor : Nat) : BitVec 64 :=
  if 64 ≤ replicationFactor then BitVec.allOnes 64
  else BitVec.ofNat 64 (2 ^ replicationFactor - 1)

/-- The status of a recovered extent: committed outside a group, and what the group's marker says
inside one. -/
def recoveredStatus (outcomes : Table Nat AtomicGroupState) :
    Option AtomicGroupSequence → BatchStatus
  | none => .committed
  | some group => ((outcomes.get group.transactionId).getD .unresolved).batchStatus

/-- The batch rebuilt from an extent. -/
def recoveredBatch (outcomes : Table Nat AtomicGroupState) (replicas : Nat)
    (e : ExtentCatalogEntry) : BatchRuntime :=
  let status := recoveredStatus outcomes e.atomicGroup
  { reservation := e.reservation, status
    durableReplicas := if status = .aborted then 0 else replicas
    replicaAcks := if status = .aborted then 0 else replicaMask replicas
    producer := e.producer.map (·.identity)
    atomicGroup := e.atomicGroup.map (·.identity)
    payloadDigest := (e.producer.map (·.payloadDigest)).or (e.atomicGroup.map (·.payloadDigest))
    payloadBytes := e.payloadBytes
    objectDurable := e.objectDurable }

/-- The cursor of a producer after an extent of it was seen. -/
def restoredCursor (before : Option ProducerCursor) (p : ProducerSequence) (nextSequence : Nat) :
    ProducerCursor :=
  match before with
  | none => ⟨p.epoch, nextSequence, false⟩
  | some cursor =>
    if cursor.epoch < p.epoch then ⟨p.epoch, nextSequence, false⟩
    else if p.epoch = cursor.epoch then
      { cursor with nextSequence := max cursor.nextSequence nextSequence }
    else cursor

/-- `restore_producer`. -/
def restoreProducer (st : PartitionState) (r : Reservation) (producer : Option ProducerSequence)
    (durableReplicas : Nat) (objectDurable : Bool) : Except EngineError PartitionState :=
  match producer with
  | none => .ok st
  | some p =>
    let record : DedupRecord :=
      { digestAlgorithm := p.digestAlgorithm, payloadDigest := p.payloadDigest
        eventId := p.eventId, recordCount := r.recordCount.get, durableReplicas, objectDurable
        response := appendResponse 0 r }
    let nextSequence := p.firstSequence + r.recordCount.get
    if ¬ nextSequence < 2 ^ 64 then .error (.corruptState "producer sequence overflow")
    else
      .ok { st with
        dedup := st.dedup.insert p.identity.key record
        producers := st.producers.insert p.producerId
          (restoredCursor (st.producers.get p.producerId) p nextSequence) }

/-- The partition being rebuilt, and the coordinates the next extent must not fall behind. -/
structure Recovering where
  state : PartitionState
  nextBatchId : Nat
  nextOffset : Nat
  nextPlacementSequence : Nat

/-- A chunk registration whose refusal ends the recovery. -/
def registeredChunk (st : PartitionState) (identity : Option AtomicGroupIdentity) (r : Reservation)
    (payloadBytes : Nat) : Except EngineError PartitionState :=
  (registerNamedChunk st identity r payloadBytes).1.map fun _ ↦
    (registerNamedChunk st identity r payloadBytes).2

/-- One extent: the body of the loop over a partition's entries. -/
def recoverEntry (history : RingHistory) (tp : TopicPartition)
    (outcomes : Table Nat AtomicGroupState) (replicas : Nat) (acc : Recovering)
    (e : ExtentCatalogEntry) : Except EngineError Recovering := do
  let r := e.reservation
  validateRecoveredExtent history tp r
  refuseIf (r.firstOffset < acc.nextOffset ∨ r.batchId < acc.nextBatchId ∨
      r.placement.sequence < acc.nextPlacementSequence)
    (.corruptState s!"extent overlap or sequence regression at batch {r.batchId}")
  let missingBatches := r.batchId - acc.nextBatchId
  refuseIf (missingBatches ≠ r.placement.sequence - acc.nextPlacementSequence)
    (.corruptState s!"batch and placement gaps disagree before batch {r.batchId}")
  let st ← appendRecoveredAborts acc.state history tp acc.nextBatchId acc.nextOffset
    acc.nextPlacementSequence missingBatches (r.firstOffset - acc.nextOffset) r.placement.ringEpoch
  let st ← appendBatchRuntime st (recoveredBatch outcomes replicas e)
  let st ← registeredChunk st (e.atomicGroup.map (·.identity)) r e.payloadBytes
  let st ← restoreProducer st r e.producer replicas e.objectDurable
  refuseIf (¬ r.lastOffset + 1 < 2 ^ 64) (.corruptState "offset space exhausted")
  refuseIf (¬ r.batchId + 1 < 2 ^ 128) (.corruptState "batch ID space exhausted")
  refuseIf (¬ r.placement.sequence + 1 < 2 ^ 64) (.corruptState "placement sequence exhausted")
  pure ⟨st, r.batchId + 1, r.lastOffset + 1, r.placement.sequence + 1⟩

/-- `entries_leader_epoch`. -/
def entriesLeaderEpoch (st : PartitionState) : Nat :=
  ((st.batches.valuesFrom st.batches.firstKey).getLast?.map
    (·.reservation.placement.leaderEpoch)).getD 0

/-- The extents of `tp`, in offset order. -/
def partitionEntries (catalog : List ExtentCatalogEntry) (tp : TopicPartition) :
    List ExtentCatalogEntry :=
  (catalog.filter fun e ↦ e.topicPartition = tp).insertionSort
    fun a b ↦ a.reservation.firstOffset ≤ b.reservation.firstOffset

/-- The empty partition a recovery starts from: at its retention floor, if it has one. -/
def recoveryStart (sequencer : TopicSequencer) (policy : PartitionReplicationPolicy)
    (truncation : RecoveredTruncation) : PartitionState :=
  let st := PartitionState.empty sequencer policy
  match truncation.sequencerFloor with
  | none => st
  | some (nextBatchId, _, _) =>
    let cursor : Cursor := ⟨nextBatchId, truncation.logStart⟩
    { st with
      batches := .new nextBatchId, logStart := truncation.logStart
      contiguous := cursor, stable := cursor, replicated := cursor }

/-- What follows the loop over the entries: group decisions, the sequencer, the retention boundary
and the watermarks. -/
def finishRecovery (tp : TopicPartition) (ringEpoch : Nat) (ring : PlacementRing)
    (outcomes : Table Nat AtomicGroupState) (logStart : Nat) (acc : Recovering) :
    Except EngineError PartitionState := do
  let st := { acc.state with
    atomicGroups := acc.state.atomicGroups.map fun txn group ↦
      { group with state := (outcomes.get txn).getD .unresolved }
    finalizedGroups := outcomes }
  let sequencer ← liftSequencer (TopicSequencer.restore
    { topicId := tp.topicId, partitionId := tp.partitionId, ringEpoch
      leaderEpoch := entriesLeaderEpoch st, virtualLanes := ring.lanes
      nextBatchId := acc.nextBatchId, nextOffset := acc.nextOffset
      nextPlacementSequence := acc.nextPlacementSequence })
  let firstRetained :=
    if logStart = sequencer.nextOffset then some st.batches.nextKey
    else st.batchKeyAtFirstOffset logStart
  match firstRetained with
  | none => throw (corruptAt s!"invalid recovered log start {logStart} for" tp)
  | some key =>
    if sequencer.nextOffset < logStart then
      throw (corruptAt s!"invalid recovered log start {logStart} for" tp)
    else
      pure (PartitionState.resetCachedWatermarksAfterTruncate
        { st with sequencer, logStart, batches := st.batches.truncateBefore key })

/-- The body of the loop over the configured partitions. -/
def recoverPartition (config : EngineConfig) (s : ReplayState) (catalog : List ExtentCatalogEntry)
    (recoveredDurableReplicas : Nat) (tp : TopicPartition) : Except EngineError PartitionState := do
  let history := (s.rings.get tp).getD []
  match history.getLast? with
  | none => throw (.corruptState "configured partition has a ring")
  | some (ringEpoch, ring) =>
    let entries := partitionEntries catalog tp
    let policy := (s.replicationPolicies.get tp).getD config.defaultReplicationPolicy
    policy.validate config.replicationFactor
    let replicas := min recoveredDurableReplicas policy.replicationFactor
    let truncation := (s.truncations.get tp).getD ⟨0, none⟩
    let (nextBatchId, nextOffset, nextPlacementSequence) := truncation.sequencerFloor.getD (0, 0, 0)
    refuseIf (truncation.logStart < nextOffset ∧
        entries.head?.all (fun e ↦ e.reservation.firstOffset ≠ nextOffset))
      (corruptAt "retention checkpoint has no retained boundary for" tp)
    let sequencer ← liftSequencer (TopicSequencer.new tp ringEpoch ring.lanes)
    let outcomes := s.groupOutcomes.row tp
    let acc ← entries.foldlM (recoverEntry history tp outcomes replicas)
      ⟨recoveryStart sequencer policy truncation, nextBatchId, nextOffset, nextPlacementSequence⟩
    finishRecovery tp ringEpoch ring outcomes truncation.logStart acc

/-- `recover_partition_states`. The catalog map is given by its values: it is keyed by the
partition and the batch id of each entry. -/
def recoverPartitionStates (config : EngineConfig) (events : List JournalEvent)
    (catalog : List ExtentCatalogEntry) (recoveredDurableReplicas : Nat) :
    Except EngineError (Table TopicPartition PartitionState) := do
  refuseIf (recoveredDurableReplicas = 0 ∨ config.replicationFactor < recoveredDurableReplicas)
    (.invalidConfig
      "recovered durable replica count must be within the configured replication factor")
  let s ← replay config events
  match catalog.find? fun e ↦ ¬ s.rings.contains e.topicPartition with
  | some e => throw (corruptAt "extent for unconfigured partition" e.topicPartition)
  | none =>
    s.configured.foldlM (fun result tp ↦ do
      let st ← recoverPartition config s catalog recoveredDurableReplicas tp
      pure (result.insert tp st)) .empty

/-- One record's part in the retention hint of `tp`. -/
def retentionHint (tp : TopicPartition) (hint : Option Nat) : JournalEvent → Option Nat
  | .truncate tp' logStart | .truncateCheckpoint tp' logStart _ _ _ =>
    if tp' = tp then some (max (hint.getD 0) logStart) else hint
  | _ => hint

/-- `retention_hints`: the largest log start recorded for a partition. -/
def retentionHints (events : List JournalEvent) (tp : TopicPartition) : Option Nat :=
  events.foldl (retentionHint tp) none

/-- The extents that `open` hands to the recovery: those not wholly below the log start. -/
def retainedCatalog (events : List JournalEvent) (extents : List ExtentCatalogEntry) :
    List ExtentCatalogEntry :=
  extents.filter fun e ↦ (retentionHints events e.topicPartition).all fun logStart ↦
    ¬ e.reservation.lastOffset < logStart

end ShardStream
