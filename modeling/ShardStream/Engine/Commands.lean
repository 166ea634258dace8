import ShardStream.Engine.Proposal

/-!
# Coordinator commands

The command handlers of a coordinator worker, one partition at a time. A handler that can leave a
changed partition behind although it answers with an error (`fail`, `reserve_replica` and the group
bookkeeping they share) returns the reply *and* the state; a handler that changes nothing on error
returns the state inside `Except.ok`. A handler that writes a control record also reports the record
it handed to the journal, and takes the journal's answer as an argument (`Journaled`).
-/

namespace ShardStream

/-! ### Group and producer bookkeeping -/

variable (st : PartitionState)

/-- The entry of a group, created on first use. -/
def groupEntry (txn : Nat) : AtomicGroupRuntime :=
  (st.atomicGroups.get txn).getD .new

/-- `register_atomic_chunk`. The entry is created before the checks, and the counters are assigned
one after the other, so a refusal can leave a fresh or half-updated entry behind. -/
def registerAtomicChunk (identity : AtomicGroupIdentity)
    (reservation : Reservation) (payloadBytes : Nat) : Except EngineError Unit × PartitionState :=
  let txn := identity.transactionId
  let group := groupEntry st txn
  let store (group : AtomicGroupRuntime) : PartitionState :=
    { st with atomicGroups := st.atomicGroups.insert txn group }
  if group.state ≠ .unresolved then (.error (.atomicGroupFinalized txn), store group)
  else if identity.chunkSequence ≠ group.nextSequence then
    (.error (.atomicGroupSequenceOutOfOrder txn group.nextSequence identity.chunkSequence),
      store group)
  else if ¬ group.payloadBytes + payloadBytes < 2 ^ 64 then
    (.error (.invalidConfig "atomic group byte count overflow"), store group)
  else
    let group := { group with payloadBytes := group.payloadBytes + payloadBytes }
    if ¬ group.recordCount + reservation.recordCount.get < 2 ^ 64 then
      (.error (.invalidConfig "atomic group record count overflow"), store group)
    else
      let group := { group with
        recordCount := group.recordCount + reservation.recordCount.get
        batchIds := group.batchIds ++ [reservation.batchId] }
      if ¬ group.nextSequence + 1 < 2 ^ 64 then
        (.error (.invalidConfig "atomic group sequence exhausted"), store group)
      else (.ok (), store { group with nextSequence := group.nextSequence + 1 })

/-- `register_atomic_chunk` for the reservations that carry a group identity. -/
def registerNamedChunk (identity : Option AtomicGroupIdentity)
    (reservation : Reservation) (payloadBytes : Nat) : Except EngineError Unit × PartitionState :=
  match identity with
  | none => (.ok (), st)
  | some group => registerAtomicChunk st group reservation payloadBytes

section

variable (reservation : Reservation)

/-- `rollback_atomic_chunk`: only the last chunk of a group can be taken back. -/
def rollbackAtomicChunk : Except EngineError Unit × PartitionState :=
  match st.batches.get reservation.batchId with
  | none => (.ok (), st)
  | some batch =>
    match batch.atomicGroup with
    | none => (.ok (), st)
    | some identity =>
      let txn := identity.transactionId
      match st.atomicGroups.get txn with
      | none => (.error (.unknownAtomicGroup txn), st)
      | some group =>
        if group.batchIds.getLast? ≠ some reservation.batchId ∨
            group.nextSequence ≠ min (identity.chunkSequence + 1) (2 ^ 64 - 1) then
          (.error (.corruptState
            s!"cannot roll back non-tail chunk {identity.chunkSequence} from atomic group {txn}"),
            st)
        else
          let store (group : AtomicGroupRuntime) : PartitionState :=
            { st with atomicGroups := st.atomicGroups.insert txn group }
          let group := { group with
            batchIds := group.batchIds.dropLast, nextSequence := identity.chunkSequence }
          if group.payloadBytes < batch.payloadBytes then
            (.error (.corruptState "atomic group byte count underflow"), store group)
          else
            let group := { group with payloadBytes := group.payloadBytes - batch.payloadBytes }
            if group.recordCount < reservation.recordCount.get then
              (.error (.corruptState "atomic group record count underflow"), store group)
            else
              let group := { group with
                recordCount := group.recordCount - reservation.recordCount.get }
              if group.batchIds = [] then
                (.ok (), { st with atomicGroups := st.atomicGroups.erase txn })
              else (.ok (), store group)

/-- `advance_producer`. -/
def advanceProducer (producer : ProducerIdentity)
    (recordCount : NonZeroU32) : Except EngineError PartitionState :=
  let nextSequence := producer.firstSequence + recordCount.get
  if ¬ nextSequence < 2 ^ 64 then .error (.invalidConfig "producer sequence overflow")
  else
    let cursor : ProducerCursor := match st.producers.get producer.producerId with
      | none => ⟨producer.epoch, nextSequence, false⟩
      | some cursor =>
        if cursor.epoch < producer.epoch then ⟨producer.epoch, nextSequence, false⟩
        else { cursor with nextSequence }
    .ok { st with producers := st.producers.insert producer.producerId cursor }

/-- The text of the `DenseInsertError` for a push under `key`. -/
def denseInsertError (m : DenseOrderedMap BatchRuntime) (key : Nat) : String :=
  if key ≠ m.nextKey then s!"dense key {key} is out of order; expected {m.nextKey}"
  else "dense key space exhausted"

/-- `append_batch_runtime`. -/
def appendBatchRuntime (batch : BatchRuntime) : Except EngineError PartitionState :=
  let batchId := batch.reservation.batchId
  match st.batches.push batchId batch with
  | none =>
    let error := denseInsertError st.batches batchId
    .error (.corruptState s!"batch {batchId} violates dense index ordering: {error}")
  | some batches => .ok ({ st with batches } : PartitionState).advanceCachedWatermarks

/-! ### Settling a batch -/

/-- The batch after `mark_batch` gave it `status`. -/
def BatchRuntime.marked (b : BatchRuntime) (status : BatchStatus) (durableReplicas : Nat) :
    BatchRuntime :=
  match status with
  | .committed | .unresolved =>
    let acks := b.replicaAcks ||| 1
    { b with
      status, replicaAcks := acks
      durableReplicas := max (max b.durableReplicas durableReplicas) acks.cpop.toNat }
  | .pending | .aborted => { b with status, durableReplicas := 0, replicaAcks := 0 }

/-- The state after one batch was marked and the cursors advanced. -/
def PartitionState.markedBatch (batchId : Nat) (status : BatchStatus)
    (durableReplicas : Nat) : PartitionState :=
  PartitionState.advanceCachedWatermarks
    { st with batches := st.batches.modify batchId (·.marked status durableReplicas) }

/-- `mark_batch`: the durable copy count reached, and the new state. -/
def markBatch (status : BatchStatus)
    (durableReplicas : Nat) : Except EngineError (Nat × PartitionState) :=
  match st.batches.get reservation.batchId with
  | none =>
    .error (.corruptState s!"batch {reservation.batchId} is missing from runtime state")
  | some batch =>
    if batch.reservation ≠ reservation ∨ batch.status ≠ .pending then
      .error (.corruptState s!"invalid lifecycle transition for batch {reservation.batchId}")
    else
      .ok ((batch.marked status durableReplicas).durableReplicas,
        st.markedBatch reservation.batchId status durableReplicas)

/-- `CompleteAppend`. -/
structure CompleteAppend where
  reservation : Reservation
  producer : Option ProducerIdentity
  payloadDigest : Digest
  durableReplicas : Nat
  objectDurable : Bool
  response : AppendResponse
  deriving DecidableEq

/-- The status a completed batch gets: undecided inside a group, committed outside. -/
def completedStatus (batch : Option BatchRuntime) : BatchStatus :=
  if (batch.bind (·.atomicGroup)).isSome then .unresolved else .committed

/-- The deduplication record of a completed append. -/
def CompleteAppend.record (c : CompleteAppend) (producer : ProducerIdentity)
    (durableReplicas : Nat) (response : AppendResponse) : DedupRecord :=
  { digestAlgorithm := digestXxh3128, payloadDigest := c.payloadDigest
    eventId := producer.eventId, recordCount := c.reservation.recordCount.get
    durableReplicas, objectDurable := c.objectDurable, response }

/-- What `complete` stores after the batch was marked. -/
def PartitionState.completed (c : CompleteAppend) (durableReplicas : Nat) : PartitionState :=
  { st with
    batches := st.batches.modify c.reservation.batchId fun b ↦
      { b with objectDurable := c.objectDurable }
    dedup := match c.producer with
      | none => st.dedup
      | some producer => st.dedup.insert producer.key (c.record producer durableReplicas
          { c.response with visibleThrough := st.lastStableOffset }) }

/-- `complete`. -/
def complete (completion : CompleteAppend) : Except EngineError (AppendResponse × PartitionState) :=
  let batchId := completion.reservation.batchId
  match markBatch st completion.reservation (completedStatus (st.batches.get batchId))
      completion.durableReplicas with
  | .error e => .error e
  | .ok (durableReplicas, st) =>
    .ok ({ completion.response with visibleThrough := st.lastStableOffset },
      st.completed completion durableReplicas)

/-- The state after the copy count of one batch was raised. -/
def PartitionState.acknowledged (batchId durableReplicas : Nat) : PartitionState :=
  { PartitionState.advanceCachedWatermarks
      { st with
        batches := st.batches.modify batchId fun b ↦
          { b with durableReplicas := max b.durableReplicas durableReplicas } } with
    dedup := st.dedup.map fun _ record ↦
      if record.response.batchId = batchId then
        { record with durableReplicas := max record.durableReplicas durableReplicas }
      else record }

/-- `set_durable_replica_count`. -/
def setDurableReplicaCount (durableReplicas : Nat) : Except EngineError PartitionState :=
  match st.batches.get reservation.batchId with
  | none =>
    .error (.corruptState s!"replica progress references missing batch {reservation.batchId}")
  | some batch =>
    if batch.reservation ≠ reservation ∨
        ¬ (batch.status = .committed ∨ batch.status = .unresolved) then
      .error (.corruptState s!"invalid replica count for batch {reservation.batchId}")
    else
      .ok (st.acknowledged reservation.batchId durableReplicas)

/-- The state with the producer's cursor frozen by a failed append. -/
def PartitionState.freezeProducer : Option ProducerIdentity → PartitionState
  | none => st
  | some producer =>
    { st with
      producers := st.producers.modify producer.producerId fun c ↦ { c with failed := true } }

/-- `fail`. -/
def fail (producer : Option ProducerIdentity)
    (definitelyNotWritten : Bool) : Except EngineError Unit × PartitionState :=
  let st := st.freezeProducer producer
  if definitelyNotWritten then
    match markBatch st reservation .aborted 0 with
    | .error e => (.error e, st)
    | .ok (_, st) => rollbackAtomicChunk st reservation
  else (.ok (), st)

/-! ### Replica reservations -/

/-- The existing batch accepts this replica reservation: same coordinates and identities, and the
same digest unless the digest was lost in recovery. -/
def BatchRuntime.matchesReplica (b : BatchRuntime) (reservation : Reservation)
    (producer : Option ProducerIdentity) (atomicGroup : Option AtomicGroupIdentity)
    (payloadBytes : Nat) (payloadDigest : Digest) : Bool :=
  decide (b.reservation = reservation ∧ b.producer = producer ∧ b.atomicGroup = atomicGroup ∧
    b.payloadBytes = payloadBytes) && b.payloadDigest.all (· == payloadDigest)

theorem BatchRuntime.matchesReplica_iff {b : BatchRuntime} {r : Reservation}
    {producer : Option ProducerIdentity} {group : Option AtomicGroupIdentity} {bytes : Nat}
    {digest : Digest} :
    b.matchesReplica r producer group bytes digest = true ↔
      b.reservation = r ∧ b.producer = producer ∧ b.atomicGroup = group ∧ b.payloadBytes = bytes ∧
        ∀ d ∈ b.payloadDigest, d = digest := by
  simp only [matchesReplica, Bool.and_eq_true, decide_eq_true_eq, Option.all_eq_true, beq_iff_eq,
    and_assoc, Option.mem_def]

/-- The reply to a reserved replica batch. -/
def reservedReplica
    (producer : Option ProducerIdentity) (payloadDigest : Digest) : ReserveOutcome :=
  .reserved reservation (producer.map (·.toSequence payloadDigest)) st.replicationPolicy

/-- The state with an aborted batch pending again and its producer's cursor thawed. -/
def PartitionState.reopen (batchId : Nat)
    (producer : Option ProducerIdentity) (payloadDigest : Digest) : PartitionState :=
  { st with
    batches := st.batches.modify batchId fun b ↦
      { b with status := .pending, payloadDigest := some payloadDigest }
    producers := match producer with
      | none => st.producers
      | some p => st.producers.modify p.producerId fun c ↦
          if c.epoch = p.epoch then { c with failed := false } else c }

/-- `reserve_replica` for a batch the partition still holds. -/
def reserveExistingReplica (existing : BatchRuntime)
    (reservation : Reservation) (producer : Option ProducerIdentity)
    (atomicGroup : Option AtomicGroupIdentity) (payloadBytes : Nat) (payloadDigest : Digest) :
    Except EngineError ReserveOutcome × PartitionState :=
  if ¬ existing.matchesReplica reservation producer atomicGroup payloadBytes payloadDigest then
    (.error (.corruptState s!"replica reservation conflicts with batch {reservation.batchId}"), st)
  else
    match existing.status with
    | .committed | .unresolved =>
      (.ok (.duplicate (appendResponse 0 reservation) existing.durableReplicas
        existing.objectDurable st.replicationPolicy), st)
    | .pending => (.error (.replicaInFlight reservation.batchId), st)
    | .aborted =>
      -- producer, group and length are assigned too; the match above says they are unchanged
      let st := st.reopen reservation.batchId producer payloadDigest
      match registerNamedChunk st atomicGroup reservation payloadBytes with
      | (.error e, st) => (.error e, st)
      | (.ok (), st) =>
        (.ok (reservedReplica st reservation producer payloadDigest),
          st.resetCachedWatermarksAfterTruncate)

/-- `advance_producer` for the reservations that carry a producer identity. -/
def advanceNamedProducer (producer : Option ProducerIdentity)
    (recordCount : NonZeroU32) : Except EngineError PartitionState :=
  match producer with
  | none => .ok st
  | some identity => advanceProducer st identity recordCount

/-- `reserve_replica` for a batch the partition does not hold, once its group check passed. -/
def reserveNewReplica
    (producer : Option ProducerIdentity) (atomicGroup : Option AtomicGroupIdentity)
    (payloadBytes : Nat) (payloadDigest : Digest) :
    Except EngineError ReserveOutcome × PartitionState :=
  match st.sequencer.reserve reservation.recordCount with
  | .error e => (.error (.sequencer e), st)
  | .ok (expected, sequencer) =>
    if expected ≠ reservation then
      (.error (.fenced
        s!"replica reservation {reservation.batchId} is not the exact next fenced placement"), st)
    else
      match advanceNamedProducer { st with sequencer } producer reservation.recordCount with
      | .error e => (.error e, st)
      | .ok st =>
        match appendBatchRuntime st
            (pendingBatch reservation producer atomicGroup payloadBytes payloadDigest) with
        | .error e => (.error e, st)
        | .ok st =>
          match registerNamedChunk st atomicGroup reservation payloadBytes with
          | (.error e, st) => (.error e, st)
          | (.ok (), st) => (.ok (reservedReplica st reservation producer payloadDigest), st)

/-- `reserve_replica`. -/
def reserveReplica (producer : Option ProducerIdentity) (atomicGroup : Option AtomicGroupIdentity)
    (payloadBytes : Nat) (payloadDigest : Digest) :
    Except EngineError ReserveOutcome × PartitionState :=
  match st.batches.get reservation.batchId with
  | some existing =>
    reserveExistingReplica st existing reservation producer atomicGroup payloadBytes payloadDigest
  | none =>
    match atomicGroup with
    | none => reserveNewReplica st reservation producer none payloadBytes payloadDigest
    | some group =>
      match checkAtomicGroup st 0 group reservation.recordCount payloadBytes payloadDigest with
      | .error e => (.error e, st)
      | .ok (some _) =>
        (.error (.fenced
          (s!"replica reservation {reservation.batchId} reuses atomic group {group.transactionId} "
            ++ s!"chunk {group.chunkSequence} with a different batch")), st)
      | .ok none =>
        reserveNewReplica st reservation producer (some group) payloadBytes payloadDigest

end

/-- `ReplicaIntent`. -/
structure ReplicaIntent where
  reservation : Reservation
  producer : Option ProducerIdentity
  atomicGroup : Option AtomicGroupIdentity
  payloadBytes : Nat
  payloadDigest : Digest
  deriving DecidableEq

/-- `PreparedReplica`. -/
structure PreparedReplica where
  reservation : Reservation
  prepared : PreparedAppend
  deriving DecidableEq

/-- `PreparedReplica::intent`. -/
def PreparedReplica.intent (p : PreparedReplica) : ReplicaIntent :=
  { reservation := p.reservation, producer := p.prepared.intent.producer,
    atomicGroup := p.prepared.intent.atomicGroup,
    payloadBytes := p.prepared.intent.payloadBytes,
    payloadDigest := p.prepared.intent.payloadDigest }

/-- `PrepareReplicaOutcome`. -/
inductive PrepareReplicaOutcome where
  | duplicate (outcome : ReserveOutcome)
  | new (prepared : PreparedReplica)
  deriving DecidableEq

/-- `replica::prepare`. Unlike `reserve_replica` it never reopens an aborted batch. -/
def prepareReplica (intent : ReplicaIntent) : Except EngineError PrepareReplicaOutcome :=
  let reservation := intent.reservation
  match st.batches.get reservation.batchId with
  | some existing =>
    if ¬ existing.matchesReplica reservation intent.producer intent.atomicGroup
        intent.payloadBytes intent.payloadDigest then
      .error (.corruptState s!"replica reservation conflicts with batch {reservation.batchId}")
    else
      match existing.status with
      | .committed | .unresolved =>
        .ok (.duplicate (.duplicate (appendResponse 0 reservation) existing.durableReplicas
          existing.objectDurable st.replicationPolicy))
      | .pending => .error (.replicaInFlight reservation.batchId)
      | .aborted =>
        .error (.fenced "guarded aborted replica requires authenticated replay lineage")
  | none =>
    let append : AppendIntent :=
      { tp := reservation.topicPartition, requestId := 0, producer := intent.producer
        atomicGroup := intent.atomicGroup, recordCount := reservation.recordCount
        payloadBytes := intent.payloadBytes, payloadDigest := intent.payloadDigest
        admittedLeaderEpoch := some reservation.placement.leaderEpoch }
    match prepare st append with
    | .error e => .error e
    | .ok (.duplicate _) =>
      .error (.fenced "remote reservation reuses another producer or atomic receipt")
    | .ok (.new prepared) =>
      if prepared.proposal.reservation ≠ reservation then
        .error (.fenced
          s!"replica reservation {reservation.batchId} is not the exact next fenced placement")
      else .ok (.new ⟨reservation, prepared⟩)

/-- `replica::commit`. -/
def commitReplica (p : PreparedReplica) (control : CommitControl) :
    Except EngineError ReserveOutcome × PartitionState × Option CommitControl :=
  match prepareReplica st p.intent with
  | .error e => (.error e, st, some control)
  | .ok (.duplicate outcome) => (.ok outcome, st, some control)
  | .ok (.new _) => commitSource st p.prepared (some control)

end ShardStream
