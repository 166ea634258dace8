import ShardStream.Library.Table
import ShardStream.Core.Dense
import ShardStream.Engine.Types

/-!
# Partition state and its watermarks

`PartitionState` is what a coordinator worker keeps for one partition: the sequencer, the retained
batches, the atomic groups, the producer tables, and three cached cursors. A cursor is a batch key
together with the offset reached there; it walks over the retained batches as long as they are
ready for it. The three cursors differ only in what *ready* means:

* the **contiguous** cursor stops at a batch that is still pending;
* the **stable** cursor also stops at a batch of an undecided atomic group;
* the **replicated** cursor stops at a pending batch, and at a batch that is not aborted and has
  fewer durable copies than the policy asks for.

One walk is defined and every fact about cursors is proved about it (`walk`). The
observability fields of the source (`query_lineage`, `query_lineage_active`) are left out: no
decision of the coordinator reads them.
-/

namespace ShardStream

/-- `BatchStatus`. -/
inductive BatchStatus where
  | pending
  | committed
  | unresolved
  | aborted
  deriving DecidableEq

/-- `BatchRuntime`. -/
structure BatchRuntime where
  reservation : Reservation
  status : BatchStatus
  durableReplicas : Nat
  replicaAcks : BitVec 64
  producer : Option ProducerIdentity
  atomicGroup : Option AtomicGroupIdentity
  payloadDigest : Option Digest
  payloadBytes : Nat
  objectDurable : Bool
  deriving DecidableEq

/-- `AtomicGroupRuntime`. -/
structure AtomicGroupRuntime where
  state : AtomicGroupState
  batchIds : List Nat
  nextSequence : Nat
  payloadBytes : Nat
  recordCount : Nat
  deriving DecidableEq

/-- The group entry that `entry(..).or_insert_with(..)` creates. -/
def AtomicGroupRuntime.new : AtomicGroupRuntime := ⟨.unresolved, [], 0, 0, 0⟩

/-- `ProducerCursor`. -/
structure ProducerCursor where
  epoch : Nat
  nextSequence : Nat
  failed : Bool
  deriving DecidableEq

/-- `DedupRecord`. -/
structure DedupRecord where
  digestAlgorithm : Nat
  payloadDigest : Digest
  eventId : Option Nat
  recordCount : Nat
  durableReplicas : Nat
  objectDurable : Bool
  response : AppendResponse
  deriving DecidableEq

/-- A cached watermark: the next batch key to look at and the offset reached so far. -/
structure Cursor where
  nextBatch : Nat
  offset : Nat
  deriving DecidableEq

/-- `VisibilityMode`. -/
inductive VisibilityMode where
  | ordered
  | replicated
  deriving DecidableEq

/-- The part of a partition that the watermarks depend on: the sequencer, the retained batches, the
policy and the three cached cursors. -/
structure PartitionCore where
  sequencer : TopicSequencer
  logStart : Nat
  batches : DenseOrderedMap BatchRuntime
  replicationPolicy : PartitionReplicationPolicy
  /-- `next_contiguous_batch` and `contiguous_log_end`. -/
  contiguous : Cursor
  /-- `next_stable_batch` and `last_stable_offset`. -/
  stable : Cursor
  /-- `next_replicated_batch` and `replicated_high_watermark`. -/
  replicated : Cursor
  deriving DecidableEq

/-- `PartitionState`: the core, the group and producer tables, and the visibility waiters. A waiter
is the offset it waits for and the channel it is answered on, and `answered` records the channels
answered so far. -/
structure PartitionState extends PartitionCore where
  atomicGroups : Table Nat AtomicGroupRuntime
  finalizedGroups : Table Nat AtomicGroupState
  producers : Table Nat ProducerCursor
  /-- Keyed by producer id, epoch and first sequence. -/
  dedup : Table (Nat × Nat × Nat) DedupRecord
  orderedWaiters : List (Nat × Nat)
  replicatedWaiters : List (Nat × Nat)
  answered : List Nat

/-- The key of a producer's deduplication record. -/
def ProducerIdentity.key (p : ProducerIdentity) : Nat × Nat × Nat :=
  (p.producerId, p.epoch, p.firstSequence)

namespace BatchRuntime

/-- The contiguous cursor passes this batch. -/
def settled (b : BatchRuntime) : Bool := b.status != .pending

/-- The stable cursor passes this batch. -/
def stable (b : BatchRuntime) : Bool := b.status != .pending && b.status != .unresolved

/-- The replicated cursor passes this batch. -/
def replicated (minInSyncReplicas : Nat) (b : BatchRuntime) : Bool :=
  b.status != .pending && (b.status == .aborted || decide (minInSyncReplicas ≤ b.durableReplicas))

end BatchRuntime

/-- The `while let Some(batch)` loop that advances one cursor. -/
def walk (ready : BatchRuntime → Bool) : List BatchRuntime → Cursor → Cursor
  | [], c => c
  | b :: bs, c =>
    if b.reservation.firstOffset = c.offset ∧ ready b then
      walk ready bs ⟨c.nextBatch + 1, nextOffset b.reservation⟩
    else c

namespace PartitionCore

variable (st : PartitionCore)

/-- `contiguous_log_end`. -/
def contiguousLogEnd : Nat := st.contiguous.offset

/-- `last_stable_offset`. -/
def lastStableOffset : Nat := st.stable.offset

/-- `replicated_high_watermark`. -/
def replicatedHighWatermark : Nat := st.replicated.offset

/-- The end visible to replicated readers. -/
def replicatedEnd : Nat :=
  min st.replicatedHighWatermark st.lastStableOffset

/-- The end visible to the readers of a mode. -/
def visibleEnd : VisibilityMode → Nat
  | .ordered => st.lastStableOffset
  | .replicated => st.replicatedEnd

/-- What the replicated cursor passes under the partition's policy. -/
def replicatedReady : BatchRuntime → Bool :=
  BatchRuntime.replicated st.replicationPolicy.minInSyncReplicas

/-- One of the three loops of `advance_cached_watermarks`, from where its cursor stands. -/
def advanceCursor (ready : BatchRuntime → Bool) (c : Cursor) : Cursor :=
  walk ready (st.batches.scanFrom c.nextBatch) c

/-- The three loops of `advance_cached_watermarks`. -/
def advance : PartitionCore :=
  { st with
    contiguous := st.advanceCursor BatchRuntime.settled st.contiguous
    stable := st.advanceCursor BatchRuntime.stable st.stable
    replicated := st.advanceCursor st.replicatedReady st.replicated }

/-- The cursor before the first retained batch. -/
def startCursor : Cursor := ⟨st.batches.firstKey, st.logStart⟩

/-- The three cursors sent back to the log start. -/
def rewind : PartitionCore :=
  { st with contiguous := st.startCursor, stable := st.startCursor, replicated := st.startCursor }

/-- `first_batch_with_last_at_or_after`. -/
def firstBatchWithLastAtOrAfter (offset : Nat) : Nat :=
  match st.batches.binarySearchBy fun _ batch ↦
      if batch.reservation.lastOffset < offset then .lt else .gt with
  | .ok key => key
  | .error key => key

/-- `batch_key_at_first_offset`. -/
def batchKeyAtFirstOffset (offset : Nat) : Option Nat :=
  (st.batches.binarySearchBy fun _ batch ↦ compare batch.reservation.firstOffset offset).toOption

/-- `compute_replicated_high_watermark`: the replicated walk from the log start. -/
def computeReplicatedHighWatermark (minInSyncReplicas : Nat) : Nat :=
  (walk (BatchRuntime.replicated minInSyncReplicas)
    (st.batches.valuesFrom (st.firstBatchWithLastAtOrAfter st.logStart)) ⟨0, st.logStart⟩).offset

/-- `FetchBounds`. -/
structure FetchBounds where
  physicalEnd : Nat
  orderedEnd : Nat
  replicatedEnd : Nat
  deriving DecidableEq

/-- `fetch_bounds`. -/
def fetchBounds (startOffset : Nat) : Except EngineError FetchBounds :=
  if startOffset < st.logStart then .error (.offsetOutOfRange startOffset st.logStart)
  else .ok ⟨st.contiguousLogEnd, st.lastStableOffset, st.replicatedEnd⟩

end PartitionCore

namespace PartitionState

/-- `PartitionState::empty`. -/
def empty (sequencer : TopicSequencer) (replicationPolicy : PartitionReplicationPolicy) :
    PartitionState :=
  { sequencer, logStart := 0, batches := .new 0, replicationPolicy,
    contiguous := ⟨0, 0⟩, stable := ⟨0, 0⟩, replicated := ⟨0, 0⟩,
    atomicGroups := .empty, finalizedGroups := .empty, producers := .empty, dedup := .empty,
    orderedWaiters := [], replicatedWaiters := [], answered := [] }

/-- `waiters.entry(through).or_default().push(response)`: waiters are kept in offset order, and in
order of arrival among those that wait for the same offset. -/
def insertWaiter (waiters : List (Nat × Nat)) (through response : Nat) : List (Nat × Nat) :=
  waiters.takeWhile (fun w ↦ decide (w.1 ≤ through)) ++
    (through, response) :: waiters.dropWhile (fun w ↦ decide (w.1 ≤ through))

/-- `notify_waiters`: the waiters left, and the channels answered, in offset order. -/
def notifyWaiters (waiters : List (Nat × Nat)) (visible : Nat) : List (Nat × Nat) × List Nat :=
  (waiters.filter (fun w ↦ visible < w.1), (waiters.filter (fun w ↦ w.1 ≤ visible)).map (·.2))

section

variable (st : PartitionState)

/-- The two `notify_waiters` calls that end `advance_cached_watermarks`. -/
def notify : PartitionState :=
  let ordered := notifyWaiters st.orderedWaiters st.lastStableOffset
  let onReplicas := notifyWaiters st.replicatedWaiters st.replicatedEnd
  { st with
    orderedWaiters := ordered.1
    replicatedWaiters := onReplicas.1
    answered := st.answered ++ ordered.2 ++ onReplicas.2 }

/-- `advance_cached_watermarks`. -/
def advanceCachedWatermarks : PartitionState :=
  notify { st with toPartitionCore := st.advance }

/-- `reset_cached_watermarks_after_truncate`. -/
def resetCachedWatermarksAfterTruncate : PartitionState :=
  advanceCachedWatermarks { st with toPartitionCore := st.rewind }

/-- `wait_until_visible`. -/
def waitUntilVisible (through : Nat) (mode : VisibilityMode) (response : Nat) : PartitionState :=
  if through ≤ st.visibleEnd mode then { st with answered := st.answered ++ [response] }
  else match mode with
    | .ordered => { st with orderedWaiters := insertWaiter st.orderedWaiters through response }
    | .replicated =>
      { st with replicatedWaiters := insertWaiter st.replicatedWaiters through response }

end

/-! ### What the watermark functions leave alone -/

variable (st : PartitionState)

@[simp] theorem toPartitionCore_advanceCachedWatermarks :
    st.advanceCachedWatermarks.toPartitionCore = st.advance := rfl

@[simp] theorem dedup_advanceCachedWatermarks : st.advanceCachedWatermarks.dedup = st.dedup := rfl

@[simp] theorem dedup_resetCachedWatermarksAfterTruncate :
    st.resetCachedWatermarksAfterTruncate.dedup = st.dedup := rfl

end PartitionState

/-- `PartitionWatermarks`. -/
structure PartitionWatermarks where
  logStart : Nat
  allocatedEnd : Nat
  contiguousLogEnd : Nat
  replicatedHighWatermark : Nat
  lastStableOffset : Nat
  deriving DecidableEq

/-- `PartitionState::watermarks`. -/
def PartitionCore.watermarks (st : PartitionCore) : PartitionWatermarks :=
  ⟨st.logStart, st.sequencer.nextOffset, st.contiguousLogEnd, st.replicatedHighWatermark,
    st.lastStableOffset⟩

@[simp] theorem PartitionCore.batches_advance (st : PartitionCore) :
    st.advance.batches = st.batches := rfl

end ShardStream
