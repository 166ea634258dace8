import ShardStream.Engine.Commands

/-!
# Commands that write control records

Creation, ring changes, policy changes, group decisions and retention all make a control record
durable before they touch the partition. Each handler takes the journal's answer to its one
`append` and reports the record it offered; a journal that refuses leaves the partition unchanged.
-/

namespace ShardStream

/-- The result of a handler that may write one control record. -/
structure Journaled (α : Type) where
  /-- What the caller is told. -/
  reply : Except EngineError α
  /-- The partition afterwards. -/
  state : PartitionState
  /-- The record handed to the journal, if the handler got that far. -/
  event : Option JournalEvent

/-- A handler that answers without writing a record and without changing the partition. -/
def Journaled.unchanged {α : Type} (st : PartitionState) (reply : Except EngineError α) :
    Journaled α := ⟨reply, st, none⟩

/-- A handler that offers `event`: refused, it leaves `st`; written, it installs `after`. -/
def Journaled.write {α : Type} (st : PartitionState) (journal : Except EngineError Unit)
    (event : JournalEvent) (reply : Except EngineError α) (after : PartitionState) : Journaled α :=
  match journal with
  | .error e => ⟨.error e, st, some event⟩
  | .ok () => ⟨reply, after, some event⟩

/-- `AtomicGroupInspection`. -/
structure AtomicGroupInspection where
  transactionId : Nat
  state : AtomicGroupState
  chunkCount : Nat
  recordCount : Nat
  payloadBytes : Nat
  firstOffset : Nat
  lastOffset : Nat
  deriving DecidableEq

variable (st : PartitionState)

/-- `inspect_atomic_group`. -/
def inspectAtomicGroup (transactionId : Nat) : Except EngineError AtomicGroupInspection :=
  match st.atomicGroups.get transactionId with
  | none => .error (.unknownAtomicGroup transactionId)
  | some group =>
    match group.batchIds.head?.bind st.batches.get, group.batchIds.getLast?.bind st.batches.get with
    | some first, some last => .ok
        { transactionId, state := group.state, chunkCount := group.nextSequence
          recordCount := group.recordCount, payloadBytes := group.payloadBytes
          firstOffset := first.reservation.firstOffset, lastOffset := last.reservation.lastOffset }
    | _, _ => .error (.corruptState s!"atomic group {transactionId} has no chunks")

/-- The checks `finalize_atomic_group` makes for each chunk, in chunk order. -/
def checkFinalizable (st : PartitionState) (transactionId : Nat) (outcome : AtomicGroupState) :
    List Nat → Except EngineError Unit
  | [] => .ok ()
  | batchId :: batchIds =>
    match st.batches.get batchId with
    | none =>
      .error (.corruptState s!"atomic group {transactionId} references missing batch {batchId}")
    | some batch =>
      if batch.status ≠ .unresolved then .error (.replicaInFlight batch.reservation.batchId)
      else if outcome = .committed ∧
          batch.durableReplicas < st.replicationPolicy.minInSyncReplicas then
        .error (.durabilityUnavailable st.replicationPolicy.minInSyncReplicas batch.durableReplicas)
      else checkFinalizable st transactionId outcome batchIds

/-- The status a decided group gives its batches. -/
def AtomicGroupState.batchStatus : AtomicGroupState → BatchStatus
  | .committed => .committed
  | .aborted => .aborted
  | .unresolved => .unresolved

/-- The marker of a decision. -/
def finalizeMarker (tp : TopicPartition) (transactionId : Nat) : AtomicGroupState → JournalEvent
  | .aborted => .groupAbort tp transactionId
  | _ => .groupCommit tp transactionId

/-- The state with `status` given to every batch of the list. -/
def setStatuses (batches : DenseOrderedMap BatchRuntime) (status : BatchStatus) :
    List Nat → DenseOrderedMap BatchRuntime
  | [] => batches
  | batchId :: batchIds =>
    setStatuses (batches.modify batchId fun b ↦ { b with status }) status batchIds

/-- What `finalize_atomic_group` installs once the marker is durable. -/
def PartitionState.decideGroup (transactionId : Nat) (group : AtomicGroupRuntime)
    (outcome : AtomicGroupState) : PartitionState :=
  PartitionState.advanceCachedWatermarks
    { st with
      batches := setStatuses st.batches outcome.batchStatus group.batchIds
      atomicGroups := st.atomicGroups.insert transactionId { group with state := outcome }
      finalizedGroups := st.finalizedGroups.insert transactionId outcome }

/-- `finalize_atomic_group`. -/
def finalizeAtomicGroup (journal : Except EngineError Unit)
    (tp : TopicPartition) (transactionId : Nat) (outcome : AtomicGroupState) :
    Journaled AtomicGroupInspection :=
  if outcome = .unresolved then
    .unchanged st (.error (.invalidConfig "an atomic group can only commit or abort"))
  else
    match st.atomicGroups.get transactionId with
    | none => .unchanged st (.error (.unknownAtomicGroup transactionId))
    | some group =>
      if group.state = outcome then .unchanged st (inspectAtomicGroup st transactionId)
      else if group.state ≠ .unresolved then
        .unchanged st (.error (.atomicGroupFinalized transactionId))
      else
        match checkFinalizable st transactionId outcome group.batchIds with
        | .error e => .unchanged st (.error e)
        | .ok () =>
          let after := st.decideGroup transactionId group outcome
          .write st journal (finalizeMarker tp transactionId outcome)
            (inspectAtomicGroup after transactionId) after

/-- `update_replication_policy`. -/
def updateReplicationPolicy (st : PartitionState) (journal : Except EngineError Unit)
    (tp : TopicPartition) (expectedPolicyGeneration : Nat)
    (policy : PartitionReplicationPolicy) : Journaled Unit :=
  let current := st.replicationPolicy
  if current = policy then .unchanged st (.ok ())
  else if current.policyGeneration ≠ expectedPolicyGeneration then
    .unchanged st (.error (.fenced
      (s!"replication policy generation changed from expected {expectedPolicyGeneration} to " ++
        s!"{current.policyGeneration}")))
  else if policy.policyGeneration ≤ expectedPolicyGeneration then
    .unchanged st (.error (.invalidConfig "replication policy generation must advance"))
  else
    let targetReplicated :=
      min (st.computeReplicatedHighWatermark policy.minInSyncReplicas) st.lastStableOffset
    if targetReplicated < st.lastStableOffset then
      let short := (st.batches.valuesFrom (st.firstBatchWithLastAtOrAfter targetReplicated)).find?
        fun b ↦ b.status != .aborted && decide (b.durableReplicas < policy.minInSyncReplicas)
      .unchanged st (.error (.durabilityUnavailable policy.minInSyncReplicas
        ((short.map (·.durableReplicas)).getD 0)))
    else
      .write st journal
        (.updateReplicationPolicy tp expectedPolicyGeneration policy.policyGeneration
          policy.replicationFactor policy.minInSyncReplicas)
        (.ok ())
        (PartitionState.resetCachedWatermarksAfterTruncate
          { st with replicationPolicy := policy })

/-- The first batch `truncate` would retain. -/
def firstRetained (logStart : Nat) : Option Nat :=
  if logStart = st.lastStableOffset then some st.batches.nextKey
  else st.batchKeyAtFirstOffset logStart

/-- The retained batch at `key` continues a group. -/
def continuesGroup (key : Nat) : Bool :=
  match (st.batches.get key).bind (·.atomicGroup) with
  | some group => group.chunkSequence != 0
  | none => false

/-- The sequencer floor of a retention checkpoint: the coordinates of the first retained batch, or
of the next reservation when nothing is retained. -/
def retentionFloor (key : Nat) : Nat × Nat × Nat :=
  match st.batches.get key with
  | none =>
    (st.sequencer.nextBatchId, st.sequencer.nextOffset, st.sequencer.nextPlacementSequence)
  | some first =>
    (first.reservation.batchId, first.reservation.firstOffset, first.reservation.placement.sequence)

/-- What `truncate` installs once the checkpoint is durable. -/
def PartitionState.dropBefore (logStart key : Nat) : PartitionState :=
  PartitionState.resetCachedWatermarksAfterTruncate
    { st with
      logStart
      batches := st.batches.truncateBefore key
      atomicGroups := st.atomicGroups.retain fun group ↦
        (group.batchIds.getLast?.map fun batchId ↦ decide (key ≤ batchId)).getD false }

/-- `truncate`. -/
def truncate (journal : Except EngineError Unit) (tp : TopicPartition)
    (logStart : Nat) : Journaled PartitionWatermarks :=
  if logStart < st.logStart then
    .unchanged st (.error (.invalidConfig
      s!"log start cannot move backward from {st.logStart} to {logStart}"))
  else if st.lastStableOffset < logStart then
    .unchanged st (.error (.invalidConfig
      s!"log start {logStart} exceeds last stable offset {st.lastStableOffset}"))
  else
    match firstRetained st logStart with
    | none => .unchanged st (.error (.invalidConfig "log start must align to a batch boundary"))
    | some key =>
      if continuesGroup st key then
        .unchanged st (.error (.invalidConfig "retention cannot split an atomic group"))
      else if logStart = st.logStart then .unchanged st (.ok st.watermarks)
      else
        let (nextBatchId, nextOffset, nextPlacementSequence) := retentionFloor st key
        if nextOffset ≠ logStart then
          .unchanged st (.error (.invalidConfig
            "retention cannot discard an unresolved sequencer tail"))
        else
          let after := st.dropBefore logStart key
          .write st journal
            (.truncateCheckpoint tp logStart nextBatchId nextOffset nextPlacementSequence)
            (.ok after.watermarks) after

/-- The `Reconfigure` command. -/
def reconfigure (st : PartitionState) (journal : Except EngineError Unit) (tp : TopicPartition)
    (ringEpoch : Nat) (shards : List Nat) : Journaled Unit :=
  match TopicSequencer.restore st.sequencer.state with
  | .error e => .unchanged st (.error (.sequencer e))
  | .ok candidate =>
    match candidate.reconfigure ringEpoch shards with
    | .error e => .unchanged st (.error (.sequencer e))
    | .ok sequencer =>
      .write st journal (.configure tp ringEpoch shards) (.ok ()) { st with sequencer }

/-- The `ObserveLeaderEpoch` command. -/
def observeLeaderEpoch (st : PartitionState) (leaderEpoch : Nat) :
    Except EngineError PartitionState :=
  match st.sequencer.observeLeaderEpoch leaderEpoch with
  | .error e => .error (.sequencer e)
  | .ok sequencer => .ok { st with sequencer }

/-- `create_partition`: the reply, the partition if one is created, and the record offered. -/
def createPartition (existing : Option PartitionState) (journal : Except EngineError Unit)
    (tp : TopicPartition) (shards : List Nat) (policy : PartitionReplicationPolicy) :
    Except EngineError Unit × Option PartitionState × Option JournalEvent :=
  match existing with
  | some st =>
    if st.sequencer.ringEpoch = 1 ∧ st.sequencer.virtualLanes.lanes = shards ∧
        st.replicationPolicy = policy then (.ok (), existing, none)
    else (.error (.topicAlreadyExists tp.topicId), existing, none)
  | none =>
    match TopicSequencer.new tp 1 shards with
    | .error e => (.error (.sequencer e), none, none)
    | .ok sequencer =>
      let event : JournalEvent := .createPartition tp 1 shards policy.policyGeneration
        policy.replicationFactor policy.minInSyncReplicas
      match journal with
      | .error e => (.error e, none, some event)
      | .ok () => (.ok (), some (.empty sequencer policy), some event)

end ShardStream
