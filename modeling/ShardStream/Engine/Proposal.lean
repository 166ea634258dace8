import ShardStream.Engine.Partition

/-!
# Admission checks, preparation and commit of an append

The leader path of an append: the idempotence and group checks (`check_producer`,
`check_atomic_group`), the pure preparation, and the commit that repeats the preparation and
allocates only if every fact it rested on is unchanged.
-/

namespace ShardStream

variable {requestId : Nat} {count : NonZeroU32} {digest : Digest} {p : PreparedAppend}
  {st : PartitionState}

/-- `check_producer`. The answer of a duplicate is the stored response with the new request id,
the durable copy count and the object flag. -/
def checkProducer (st : PartitionState) (requestId : Nat) (producer : Option ProducerIdentity)
    (recordCount : NonZeroU32) (payloadDigest : Digest) :
    Except EngineError (Option (AppendResponse × Nat × Bool)) :=
  match producer with
  | none => .ok none
  | some p =>
    match st.producers.get p.producerId with
    | none =>
      if p.firstSequence ≠ 0 then
        .error (.producerSequenceOutOfOrder p.producerId 0 p.firstSequence)
      else .ok none
    | some cursor =>
      if p.epoch < cursor.epoch then
        .error (.staleProducerEpoch p.producerId cursor.epoch p.epoch)
      else if p.epoch = cursor.epoch then
        match st.dedup.get p.key with
        | some record =>
          if ¬ (record.digestAlgorithm = digestXxh3128 ∧ record.payloadDigest = payloadDigest ∧
              record.eventId = p.eventId) ∨ record.recordCount ≠ recordCount.get then
            .error (.duplicateSequenceMismatch p.producerId)
          else
            .ok (some ({ record.response with requestId }, record.durableReplicas,
              record.objectDurable))
        | none =>
          if cursor.failed then .error (.producerRequiresNewEpoch p.producerId)
          else if p.firstSequence ≠ cursor.nextSequence then
            .error (.producerSequenceOutOfOrder p.producerId cursor.nextSequence p.firstSequence)
          else .ok none
      else if p.firstSequence ≠ cursor.nextSequence then
        .error (.producerSequenceOutOfOrder p.producerId cursor.nextSequence p.firstSequence)
      else .ok none

/-- `check_atomic_group`: `none` when the chunk is the next one of an open group. -/
def checkAtomicGroup (st : PartitionState) (requestId : Nat) (identity : AtomicGroupIdentity)
    (recordCount : NonZeroU32) (payloadBytes : Nat) (payloadDigest : Digest) :
    Except EngineError (Option ReserveOutcome) :=
  let txn := identity.transactionId
  let chunk := identity.chunkSequence
  if st.finalizedGroups.contains txn then .error (.atomicGroupFinalized txn)
  else
    match st.atomicGroups.get txn with
    | none =>
      if chunk = 0 then .ok none else .error (.atomicGroupSequenceOutOfOrder txn 0 chunk)
    | some group =>
      if group.state ≠ .unresolved then .error (.atomicGroupFinalized txn)
      else if group.nextSequence < chunk then
        .error (.atomicGroupSequenceOutOfOrder txn group.nextSequence chunk)
      else if chunk = group.nextSequence then .ok none
      else
        match group.batchIds[chunk]? with
        | none => .error (.corruptState s!"atomic group {txn} is missing chunk {chunk}")
        | some batchId =>
          match st.batches.get batchId with
          | none =>
            .error (.corruptState s!"atomic group {txn} references missing batch {batchId}")
          | some batch =>
            if batch.atomicGroup ≠ some identity ∨ batch.reservation.recordCount ≠ recordCount ∨
                batch.payloadBytes ≠ payloadBytes ∨ batch.payloadDigest ≠ some payloadDigest then
              .error (.atomicGroupChunkMismatch txn)
            else
              match batch.status with
              | .pending => .error (.replicaInFlight batch.reservation.batchId)
              | .committed | .unresolved =>
                .ok (some (.duplicate (appendResponse requestId batch.reservation)
                  batch.durableReplicas batch.objectDurable st.replicationPolicy))
              | .aborted =>
                .error (.corruptState
                  s!"atomic group {txn} retains aborted batch {batch.reservation.batchId}")

/-- `AppendIntent`. The requested durability is carried by the source but read by no check here. -/
structure AppendIntent where
  tp : TopicPartition
  requestId : Nat
  producer : Option ProducerIdentity
  atomicGroup : Option AtomicGroupIdentity
  recordCount : NonZeroU32
  payloadBytes : Nat
  payloadDigest : Digest
  admittedLeaderEpoch : Option Nat
  deriving DecidableEq

/-- `AtomicSnapshot`: what a commit compares of the group it extends. -/
structure AtomicSnapshot where
  state : AtomicGroupState
  nextSequence : Nat
  payloadBytes : Nat
  recordCount : Nat
  chunkCount : Nat
  lastBatch : Option Nat
  deriving DecidableEq

/-- `AtomicSnapshot::from_group`. -/
def AtomicSnapshot.fromGroup (group : AtomicGroupRuntime) : AtomicSnapshot :=
  { state := group.state, nextSequence := group.nextSequence, payloadBytes := group.payloadBytes,
    recordCount := group.recordCount, chunkCount := group.batchIds.length,
    lastBatch := group.batchIds.getLast? }

/-- `PreparedAppend`. -/
structure PreparedAppend where
  intent : AppendIntent
  proposal : ReservationProposal
  replicationPolicy : PartitionReplicationPolicy
  producerBefore : Option ProducerCursor
  producerAfter : Option ProducerCursor
  atomicBefore : Option AtomicSnapshot
  atomicAfter : Option AtomicSnapshot
  denseNextKey : Nat
  denseLen : Nat
  deriving DecidableEq

/-- `PrepareOutcome`. -/
inductive PrepareOutcome where
  | duplicate (outcome : ReserveOutcome)
  | new (prepared : PreparedAppend)
  deriving DecidableEq

/-- `duplicate`: the receipt of an append that was already made. -/
def duplicate (st : PartitionState) (intent : AppendIntent) :
    Except EngineError (Option ReserveOutcome) :=
  match checkProducer st intent.requestId intent.producer intent.recordCount
      intent.payloadDigest with
  | .error e => .error e
  | .ok (some (response, durableReplicas, objectDurable)) =>
    .ok (some (.duplicate response durableReplicas objectDurable st.replicationPolicy))
  | .ok none =>
    match intent.atomicGroup with
    | some identity =>
      checkAtomicGroup st intent.requestId identity intent.recordCount intent.payloadBytes
        intent.payloadDigest
    | none => .ok none

/-- The producer cursor an intent would leave behind. -/
def cursorAfter (intent : AppendIntent) : Except EngineError (Option ProducerCursor) :=
  match intent.producer with
  | none => .ok none
  | some identity =>
    if identity.firstSequence + intent.recordCount.get < 2 ^ 64 then
      .ok (some ⟨identity.epoch, identity.firstSequence + intent.recordCount.get, false⟩)
    else .error (.invalidConfig "producer sequence overflow")

/-- The group snapshot an intent would leave behind, given the one before it. -/
def snapshotAfter (intent : AppendIntent) (before : Option AtomicSnapshot) (batchId : Nat) :
    Except EngineError (Option AtomicSnapshot) :=
  match intent.atomicGroup with
  | none => .ok none
  | some _ =>
    let before := before.getD ⟨.unresolved, 0, 0, 0, 0, none⟩
    if ¬ before.nextSequence + 1 < 2 ^ 64 then
      .error (.invalidConfig "atomic group sequence exhausted")
    else if ¬ before.payloadBytes + intent.payloadBytes < 2 ^ 64 then
      .error (.invalidConfig "atomic group byte count overflow")
    else if ¬ before.recordCount + intent.recordCount.get < 2 ^ 64 then
      .error (.invalidConfig "atomic group record count overflow")
    else if ¬ before.chunkCount + 1 < 2 ^ 64 then
      .error (.invalidConfig "atomic group chunk capacity exhausted")
    else
      .ok (some ⟨.unresolved, before.nextSequence + 1, before.payloadBytes + intent.payloadBytes,
        before.recordCount + intent.recordCount.get, before.chunkCount + 1, some batchId⟩)

/-- The snapshot of the group an intent belongs to. -/
def snapshotBefore (st : PartitionState) (intent : AppendIntent) : Option AtomicSnapshot :=
  (intent.atomicGroup.bind fun a ↦ st.atomicGroups.get a.transactionId).map .fromGroup

/-- The cursor of the producer an intent names. -/
def cursorBefore (st : PartitionState) (intent : AppendIntent) : Option ProducerCursor :=
  intent.producer.bind fun p ↦ st.producers.get p.producerId

/-- `prepare`: pure. -/
def prepare (st : PartitionState) (intent : AppendIntent) : Except EngineError PrepareOutcome := do
  match ← duplicate st intent with
  | some outcome => pure (.duplicate outcome)
  | none =>
    let proposal ←
      liftSequencer (st.sequencer.proposeReservation intent.recordCount intent.admittedLeaderEpoch)
    if proposal.reservation.batchId ≠ st.batches.nextKey then
      throw (.corruptState "sequencer and dense batch index disagree")
    else if ¬ st.batches.len + 1 < 2 ^ 64 then
      throw (.invalidConfig "dense batch capacity exhausted")
    else
      let producerAfter ← cursorAfter intent
      let atomicAfter ← snapshotAfter intent (snapshotBefore st intent) proposal.reservation.batchId
      pure (.new
        { intent, proposal, replicationPolicy := st.replicationPolicy
          producerBefore := cursorBefore st intent, producerAfter
          atomicBefore := snapshotBefore st intent, atomicAfter
          denseNextKey := st.batches.nextKey, denseLen := st.batches.len })

/-- `CommitControl`: who owns a queued commit. -/
inductive CommitControl where
  | pending
  | cancelled
  | committing
  deriving DecidableEq

/-- `begin_commit`. -/
def CommitControl.beginCommit : CommitControl → Except EngineError CommitControl
  | .pending => .ok .committing
  | _ => .error (.fenced "reservation proposal was cancelled or already committed")

/-- `control.begin_commit()?` for the callers that pass a control. -/
def beginCommit : Option CommitControl → Except EngineError (Option CommitControl)
  | none => .ok none
  | some control => control.beginCommit.map some

/-- Two preparations that a commit may not tell apart: all facts they rest on agree. -/
def PreparedAppend.sameFacts (p q : PreparedAppend) : Bool :=
  decide (p.proposal = q.proposal ∧ p.replicationPolicy = q.replicationPolicy ∧
    p.producerBefore = q.producerBefore ∧ p.producerAfter = q.producerAfter ∧
    p.atomicBefore = q.atomicBefore ∧ p.atomicAfter = q.atomicAfter ∧
    p.denseNextKey = q.denseNextKey ∧ p.denseLen = q.denseLen)

/-- The batch a commit pushes. -/
def pendingBatch (reservation : Reservation) (producer : Option ProducerIdentity)
    (atomicGroup : Option AtomicGroupIdentity) (payloadBytes : Nat) (payloadDigest : Digest) :
    BatchRuntime :=
  { reservation, status := .pending, durableReplicas := 0, replicaAcks := 0, producer,
    atomicGroup, payloadDigest := some payloadDigest, payloadBytes, objectDurable := false }

/-- The group after a commit appended its chunk. -/
def extendGroup (group : AtomicGroupRuntime) (batchId : Nat) (after : AtomicSnapshot) :
    AtomicGroupRuntime :=
  { group with
    batchIds := group.batchIds ++ [batchId]
    nextSequence := after.nextSequence
    payloadBytes := after.payloadBytes
    recordCount := after.recordCount }

/-- What a commit stores once the sequencer has allocated `reservation`. -/
def installPrepared (st : PartitionState) (p : PreparedAppend) (sequencer : TopicSequencer)
    (batches : DenseOrderedMap BatchRuntime) (batchId : Nat) : PartitionState :=
  { st with
    sequencer, batches
    producers := match p.intent.producer, p.producerAfter with
      | some identity, some cursor => st.producers.insert identity.producerId cursor
      | _, _ => st.producers
    atomicGroups := match p.intent.atomicGroup, p.atomicAfter with
      | some identity, some after =>
        st.atomicGroups.insert identity.transactionId
          (extendGroup ((st.atomicGroups.get identity.transactionId).getD .new) batchId after)
      | _, _ => st.atomicGroups }

/-- `commit_source`. Beside the reply and the partition it returns the control, which moves to
`committing` when the commit takes ownership. A dense insertion that fails after the sequencer
advanced is a panic in the source; `commitSource_cases` shows that it does not happen. -/
def commitSource (st : PartitionState) (p : PreparedAppend) (control : Option CommitControl) :
    Except EngineError ReserveOutcome × PartitionState × Option CommitControl :=
  match duplicate st p.intent with
  | .error e => (.error e, st, control)
  | .ok (some outcome) => (.ok outcome, st, control)
  | .ok none =>
    match prepare st p.intent with
    | .error e => (.error e, st, control)
    | .ok (.duplicate _) =>
      (.error (.corruptState "duplicate changed within serialized commit"), st, control)
    | .ok (.new current) =>
      if ¬ current.sameFacts p then
        (.error (.sequencer .reservationProposalChanged), st, control)
      else
        match beginCommit control with
        | .error e => (.error e, st, control)
        | .ok control =>
          match st.sequencer.commitReservation p.proposal with
          | .error e => (.error (.sequencer e), st, control)
          | .ok (reservation, sequencer) =>
            match st.batches.push reservation.batchId
                (pendingBatch reservation p.intent.producer p.intent.atomicGroup
                  p.intent.payloadBytes p.intent.payloadDigest) with
            | none =>
              (.error (.corruptState "dense insertion was validated before reservation commit"),
                { st with sequencer }, control)
            | some batches =>
              (.ok (.reserved reservation
                  (p.intent.producer.map (·.toSequence p.intent.payloadDigest))
                  p.replicationPolicy),
                installPrepared st p sequencer batches reservation.batchId, control)

/-- `reserve`: prepare and commit at once. -/
def reserve (st : PartitionState) (intent : AppendIntent) :
    Except EngineError ReserveOutcome × PartitionState :=
  match prepare st { intent with tp := st.sequencer.topicPartition } with
  | .error e => (.error e, st)
  | .ok (.duplicate outcome) => (.ok outcome, st)
  | .ok (.new prepared) =>
    let result := commitSource st prepared none
    (result.1, result.2.1)

/-! ### What preparation and commit can do -/

variable {outcome : ReserveOutcome} {intent : AppendIntent}

/-- **When the producer check finds an append new.** -/
theorem checkProducer_eq_none_iff {p : ProducerIdentity} :
    checkProducer st requestId (some p) count digest = .ok none ↔
      st.producers.get p.producerId = none ∧ p.firstSequence = 0 ∨
      ∃ cursor, st.producers.get p.producerId = some cursor ∧ cursor.epoch ≤ p.epoch ∧
        p.firstSequence = cursor.nextSequence ∧
        (p.epoch = cursor.epoch → st.dedup.get p.key = none ∧ cursor.failed = false) := by
  cases hcursor : st.producers.get p.producerId with
  | none =>
    simp only [checkProducer, hcursor]
    simp
  | some cursor =>
    by_cases hsame : p.epoch = cursor.epoch
    · cases hd : st.dedup.get p.key <;>
        simp only [checkProducer, hcursor, hsame, hd, ite_error_eq_ok_iff, if_true] <;>
          simp [and_comm]
    · simp only [checkProducer, hcursor, ite_error_eq_ok_iff]
      simp [hsame]

/-- A group check never reserves: what it returns is a receipt. -/
theorem checkAtomicGroup_eq_some {identity : AtomicGroupIdentity} {bytes : Nat}
    (h : checkAtomicGroup st requestId identity count bytes digest = .ok (some outcome)) :
    ∃ response copies object policy, outcome = .duplicate response copies object policy := by
  simp only [checkAtomicGroup] at h
  repeat' split at h
  all_goals
    cases h
    try exact ⟨_, _, _, _, rfl⟩

theorem duplicate_eq_none_iff : duplicate st intent = .ok none ↔
    checkProducer st intent.requestId intent.producer intent.recordCount intent.payloadDigest =
      .ok none ∧ ∀ g ∈ intent.atomicGroup, checkAtomicGroup st intent.requestId g intent.recordCount
        intent.payloadBytes intent.payloadDigest = .ok none := by
  unfold duplicate
  split
  next hcheck => simp [hcheck]
  next hcheck => simp [hcheck]
  next hcheck => cases hg : intent.atomicGroup <;> simp [hcheck]

theorem duplicate_eq_some (h : duplicate st intent = .ok (some outcome)) :
    ∃ response copies object policy, outcome = .duplicate response copies object policy := by
  simp only [duplicate] at h
  split at h
  · cases h
  · cases h
    exact ⟨_, _, _, _, rfl⟩
  · split at h
    · exact checkAtomicGroup_eq_some h
    · cases h

/-- Everything a preparation rests on. -/
structure PreparedAppend.Valid (p : PreparedAppend) (st : PartitionState) : Prop where
  /-- The append is new. -/
  notDuplicate : duplicate st p.intent = .ok none
  /-- The sequencer proposes the coordinates. -/
  proposed : st.sequencer.proposeReservation p.intent.recordCount p.intent.admittedLeaderEpoch =
    .ok p.proposal
  /-- They continue the dense map. -/
  batchId : p.proposal.reservation.batchId = st.batches.nextKey
  /-- The map has room. -/
  len_lt : st.batches.len + 1 < 2 ^ 64
  /-- The producer cursor to install. -/
  producerAfter : cursorAfter p.intent = .ok p.producerAfter
  /-- The group snapshot to install. -/
  atomicAfter : snapshotAfter p.intent (snapshotBefore st p.intent) p.proposal.reservation.batchId =
    .ok p.atomicAfter
  /-- The remaining fields are snapshots of the state. -/
  snapshots : p.replicationPolicy = st.replicationPolicy ∧
    p.producerBefore = cursorBefore st p.intent ∧ p.atomicBefore = snapshotBefore st p.intent ∧
    p.denseNextKey = st.batches.nextKey ∧ p.denseLen = st.batches.len

theorem prepare_eq_new_iff : prepare st intent = .ok (.new p) ↔ p.intent = intent ∧ p.Valid st := by
  constructor
  · intro h
    obtain ⟨_ | outcome, hdup, h⟩ := bind_eq_ok_iff.1 h
    · obtain ⟨proposal, hprop, h⟩ := bind_eq_ok_iff.1 h
      obtain ⟨hid, h⟩ := ite_error_eq_ok_iff.1 h
      obtain ⟨hlen, h⟩ := ite_error_eq_ok_iff.1 h
      obtain ⟨producerAfter, hcur, h⟩ := bind_eq_ok_iff.1 h
      obtain ⟨atomicAfter, hsnap, h⟩ := bind_eq_ok_iff.1 h
      cases h
      exact ⟨rfl, hdup, liftSequencer_eq_ok_iff.1 hprop, not_not.1 hid, not_not.1 hlen, hcur, hsnap,
        rfl, rfl, rfl, rfl, rfl⟩
    · cases h
  · rintro ⟨rfl, hdup, hprop, hid, hlen, hcur, hsnap, hpolicy, hproducer, hatomic, hkey, hdense⟩
    refine bind_eq_ok_iff.2 ⟨none, hdup, bind_eq_ok_iff.2 ⟨_, liftSequencer_eq_ok_iff.2 hprop, ?_⟩⟩
    refine ite_error_eq_ok_iff.2 ⟨not_not.2 hid, ite_error_eq_ok_iff.2 ⟨not_not.2 hlen, ?_⟩⟩
    refine bind_eq_ok_iff.2 ⟨_, hcur, bind_eq_ok_iff.2 ⟨_, hsnap, ?_⟩⟩
    rw [← hpolicy, ← hproducer, ← hatomic, ← hkey, ← hdense]
    rfl

theorem prepare_eq_duplicate {o : ReserveOutcome} (h : prepare st intent = .ok (.duplicate o)) :
    duplicate st intent = .ok (some o) := by
  obtain ⟨_ | outcome, hdup, h⟩ := bind_eq_ok_iff.1 h
  · obtain ⟨proposal, -, h⟩ := bind_eq_ok_iff.1 h
    obtain ⟨-, h⟩ := ite_error_eq_ok_iff.1 h
    obtain ⟨-, h⟩ := ite_error_eq_ok_iff.1 h
    obtain ⟨producerAfter, -, h⟩ := bind_eq_ok_iff.1 h
    obtain ⟨atomicAfter, -, h⟩ := bind_eq_ok_iff.1 h
    cases h
  · cases h
    exact hdup

/-- Two preparations of one intent in one state agree. -/
theorem PreparedAppend.eq_of_sameFacts {q : PreparedAppend} (hintent : p.intent = q.intent)
    (h : p.sameFacts q = true) : p = q := by
  obtain ⟨h₁, h₂, h₃, h₄, h₅, h₆, h₇, h₈⟩ := of_decide_eq_true h
  cases p
  simp_all

/-- The leader epoch a prepared append runs under. -/
def PreparedAppend.leaderEpoch (p : PreparedAppend) : Nat :=
  p.proposal.reservation.placement.leaderEpoch

/-- The pending batch a prepared append becomes. -/
def PreparedAppend.batch (p : PreparedAppend) : BatchRuntime :=
  pendingBatch p.proposal.reservation p.intent.producer p.intent.atomicGroup p.intent.payloadBytes
    p.intent.payloadDigest

/-- The state after a prepared append was allocated. -/
def PartitionState.allocated (st : PartitionState) (p : PreparedAppend) : PartitionState :=
  installPrepared st p (st.sequencer.advanced p.intent.recordCount p.leaderEpoch)
    (st.batches.snoc p.batch) p.proposal.reservation.batchId

/-- The reply to a prepared append that was allocated. -/
def PreparedAppend.reply (p : PreparedAppend) : ReserveOutcome :=
  .reserved p.proposal.reservation (p.intent.producer.map (·.toSequence p.intent.payloadDigest))
    p.replicationPolicy

/-- A cursor is computed only for sequences that fit. -/
theorem sequence_of_cursorAfter {o : Option ProducerCursor} (h : cursorAfter intent = .ok o) :
    ∀ p ∈ intent.producer, p.firstSequence + intent.recordCount.get < 2 ^ 64 := by
  intro p hp
  rw [Option.mem_def] at hp
  simp only [cursorAfter, hp] at h
  split_ifs at h with hlt
  exact hlt

section Valid

/-- The coordinates of a valid preparation are the sequencer's next ones. -/
theorem PreparedAppend.Valid.reservation (h : p.Valid st) :
    p.proposal.reservation = st.sequencer.nextReservation p.intent.recordCount p.leaderEpoch ∧
      st.sequencer.leaderEpoch ≤ p.leaderEpoch ∧
      st.sequencer.nextOffset + p.intent.recordCount.get < 2 ^ 64 ∧
      st.sequencer.nextBatchId + 1 < 2 ^ 128 ∧
      st.sequencer.nextPlacementSequence + 1 < 2 ^ 64 := by
  obtain ⟨h₁, h₂, h₃, h₄, h₅⟩ := TopicSequencer.proposeReservation_eq_ok_iff.1 h.proposed
  have hepoch : p.leaderEpoch = p.intent.admittedLeaderEpoch.getD st.sequencer.leaderEpoch := by
    rw [PreparedAppend.leaderEpoch, h₅]
    rfl
  rw [hepoch]
  exact ⟨by rw [h₅], h₁, h₂, h₃, h₄⟩

theorem PreparedAppend.Valid.commitReservation (h : p.Valid st) :
    st.sequencer.commitReservation p.proposal =
      .ok (p.proposal.reservation, st.sequencer.advanced p.intent.recordCount p.leaderEpoch) := by
  have hcommit := TopicSequencer.commitReservation_of_propose h.proposed
  obtain ⟨-, -, -, -, h₅⟩ := TopicSequencer.proposeReservation_eq_ok_iff.1 h.proposed
  rw [hcommit, PreparedAppend.leaderEpoch, h₅]
  rfl

theorem PreparedAppend.Valid.push (h : p.Valid st) :
    st.batches.push p.proposal.reservation.batchId p.batch = some (st.batches.snoc p.batch) := by
  obtain ⟨hres, -, -, hid, -⟩ := h.reservation
  refine DenseOrderedMap.push_eq_some_iff.2 ⟨h.batchId, ?_, rfl⟩
  rw [hres]
  exact hid

theorem PreparedAppend.Valid.recordCount (h : p.Valid st) :
    p.proposal.reservation.recordCount = p.intent.recordCount := by
  rw [h.reservation.1]
  rfl

/-- The producer check of a valid preparation found the append new. -/
theorem PreparedAppend.Valid.checkProducer (h : p.Valid st) :
    checkProducer st p.intent.requestId p.intent.producer p.intent.recordCount
      p.intent.payloadDigest = .ok none :=
  (duplicate_eq_none_iff.1 h.notDuplicate).1

theorem get_nextKey_allocated (st : PartitionState) (p : PreparedAppend) :
    (st.allocated p).batches.get st.batches.nextKey = some p.batch := by
  change (st.batches.snoc p.batch).get _ = _
  rw [DenseOrderedMap.get_snoc, if_pos rfl]

/-- The batch that a valid preparation is allocated as. -/
theorem PreparedAppend.Valid.get_allocated (h : p.Valid st) :
    (st.allocated p).batches.get p.proposal.reservation.batchId = some p.batch := by
  rw [h.batchId]
  exact get_nextKey_allocated st p

/-- The cursor that a valid preparation installs. -/
theorem PreparedAppend.Valid.producers_allocated (h : p.Valid st) {identity : ProducerIdentity}
    (hp : p.intent.producer = some identity) :
    (st.allocated p).producers = st.producers.insert identity.producerId
      ⟨identity.epoch, identity.firstSequence + p.intent.recordCount.get, false⟩ := by
  have hafter := h.producerAfter
  simp only [cursorAfter, hp] at hafter
  split_ifs at hafter
  simp only [PartitionState.allocated, installPrepared, hp, ← Except.ok.inj hafter]

end Valid

/-- **Commit.** Either nothing changes and nothing is reserved, or the preparation is still what
the current state would prepare, and exactly its coordinates are allocated. In particular the panic
branch of the source is not reached. -/
theorem commitSource_cases (st : PartitionState) (p : PreparedAppend)
    (control : Option CommitControl) :
    ((commitSource st p control).2.1 = st ∧
        ∀ r producer policy, (commitSource st p control).1 ≠ .ok (.reserved r producer policy)) ∨
      (p.Valid st ∧ (commitSource st p control).1 = .ok p.reply ∧
        (commitSource st p control).2.1 = st.allocated p) := by
  unfold commitSource
  split
  · exact .inl ⟨rfl, nofun⟩
  next hdup =>
    obtain ⟨response, copies, object, policy, rfl⟩ := duplicate_eq_some hdup
    exact .inl ⟨rfl, nofun⟩
  split
  · exact .inl ⟨rfl, nofun⟩
  · exact .inl ⟨rfl, nofun⟩
  next current hprep =>
  split
  · exact .inl ⟨rfl, nofun⟩
  next hsame =>
  split
  · exact .inl ⟨rfl, nofun⟩
  -- the preparation is the one that the state would make
  obtain ⟨hintent, hvalid⟩ := prepare_eq_new_iff.1 hprep
  obtain rfl := PreparedAppend.eq_of_sameFacts hintent (not_not.1 hsame)
  have hpush := hvalid.push
  simp only [PreparedAppend.batch] at hpush
  refine .inr ⟨hvalid, ?_, ?_⟩
  · simp [hvalid.commitReservation, hpush, PreparedAppend.reply]
  · simp [hvalid.commitReservation, hpush, PartitionState.allocated, PreparedAppend.batch]

/-- **Reserve** is a preparation followed by its commit. -/
theorem reserve_cases (st : PartitionState) (intent : AppendIntent) :
    ((reserve st intent).2 = st ∧
        ∀ r producer policy, (reserve st intent).1 ≠ .ok (.reserved r producer policy)) ∨
      ∃ p : PreparedAppend, p.intent = { intent with tp := st.sequencer.topicPartition } ∧
        p.Valid st ∧ (reserve st intent).1 = .ok p.reply ∧
        (reserve st intent).2 = st.allocated p := by
  unfold reserve
  split
  · exact .inl ⟨rfl, nofun⟩
  next hprep =>
    obtain ⟨response, copies, object, policy, rfl⟩ := duplicate_eq_some (prepare_eq_duplicate hprep)
    exact .inl ⟨rfl, nofun⟩
  next p hprep =>
    obtain ⟨hintent, hvalid⟩ := prepare_eq_new_iff.1 hprep
    rcases commitSource_cases st p none with ⟨hst, hne⟩ | ⟨-, hreply, hst⟩
    · exact .inl ⟨hst, hne⟩
    · exact .inr ⟨p, hintent, hvalid, hreply, hst⟩

end ShardStream
