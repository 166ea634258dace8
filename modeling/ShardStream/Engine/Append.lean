import ShardStream.Engine.CommitRace
import ShardStream.Engine.Resend
import ShardStream.Engine.Worker

/-!
# The append path

An append is given coordinates by the coordinator of its partition and is then handed to the shard
they lie on. The shard takes it into a queue that is bounded in slots and in bytes, or refuses it.
What the shard answers is reported back to the coordinator, which completes the batch or marks it as
failed.

The coordinator moves first: a refusal of the shard is a failure of a batch that has its
coordinates, and `append_inner` reports it as one that was definitely not written.

`appendInner` is the path of an engine without a write guard, a durable sink and followers, in one
piece. Where other commands come in between, its commands are steps of the engine
(`Engine.offered`).
-/

namespace ShardStream

variable {st : PartitionState} {request : AppendRequest} {shard : ShardHandle}
  {p : ProducerIdentity} {durability : Durability}

/-! ### The queue of a shard -/

/-- `Durability`. -/
inductive Durability where
  | leader
  | quorum
  | allReplicas
  | object
  deriving DecidableEq

/-- The errors of an append: those of the coordinator, and those of the shard. -/
inductive AppendError where
  | coordinator (error : EngineError)
  | admissionLimited (shardId : Nat) (reason : String)
  | workerStopped (shardId : Nat)
  | objectDurabilityUnavailable
  deriving DecidableEq

/-- `AppendFailure`. -/
structure AppendFailure where
  error : AppendError
  definitelyNotWritten : Bool
  deriving DecidableEq

/-- `AppendFailure::rejected`. -/
def AppendFailure.rejected (error : AppendError) : AppendFailure := ⟨error, true⟩

/-- `TrySendError`, without the item. -/
inductive TrySendError where
  | tooLarge
  | byteBudget
  | full
  | disconnected
  deriving DecidableEq

/-- A channel of `byte_bounded_channel`. The bytes of a command are used until the worker has
dropped it, its slot only until the worker has received it. -/
structure ByteBoundedQueue where
  maxSlots : Nat
  maxBytes : Nat
  usedSlots : Nat
  usedBytes : Nat
  connected : Bool
  deriving DecidableEq

/-- `ByteBoundedSender::try_send`. -/
def ByteBoundedQueue.trySend (queue : ByteBoundedQueue) (bytes : Nat) :
    Except TrySendError ByteBoundedQueue :=
  if queue.maxBytes < bytes then .error .tooLarge
  else if ¬ (queue.usedBytes + bytes < 2 ^ 64 ∧ queue.usedBytes + bytes ≤ queue.maxBytes) then
    .error .byteBudget
  else if ¬ queue.connected then .error .disconnected
  else if queue.maxSlots ≤ queue.usedSlots then .error .full
  else .ok { queue with usedSlots := queue.usedSlots + 1, usedBytes := queue.usedBytes + bytes }

/-- What a `ShardHandle` sends commands with. -/
structure ShardHandle where
  shardId : Nat
  sender : Option ByteBoundedQueue
  deriving DecidableEq

/-- `COMMAND_OVERHEAD_BYTES`. -/
def commandOverheadBytes : Nat := 256

/-- `append_command_charge`, for an append without an admission. -/
def appendCommandCharge (payloadBytes : Nat) : Option Nat :=
  if payloadBytes + commandOverheadBytes < 2 ^ 64 then some (payloadBytes + commandOverheadBytes)
  else none

namespace ShardHandle

/-- `ShardHandle::try_send`. -/
def trySend (handle : ShardHandle) (bytes : Nat) : Except AppendError ShardHandle :=
  match handle.sender with
  | none => .error (.workerStopped handle.shardId)
  | some queue =>
    match queue.trySend bytes with
    | .ok queue => .ok { handle with sender := some queue }
    | .error .tooLarge =>
      .error (.admissionLimited handle.shardId "command exceeds shard byte budget")
    | .error .byteBudget => .error (.admissionLimited handle.shardId "shard byte budget exhausted")
    | .error .full => .error (.admissionLimited handle.shardId "shard slot budget exhausted")
    | .error .disconnected => .error (.workerStopped handle.shardId)

/-- `begin_append`. -/
def beginAppend (handle : ShardHandle) (payloadBytes : Nat) : Except AppendFailure ShardHandle :=
  match appendCommandCharge payloadBytes with
  | none =>
    .error (.rejected (.admissionLimited handle.shardId "append byte charge overflow"))
  | some charge =>
    match handle.trySend charge with
    | .ok handle => .ok handle
    | .error e => .error (.rejected e)

/-- `ShardHandle::append`: the refusal of the queue, or the answer of the worker. -/
def append (handle : ShardHandle) (payloadBytes : Nat)
    (worker : Except AppendFailure AppendDurability) : Except AppendFailure AppendDurability :=
  match handle.beginAppend payloadBytes with
  | .error failure => .error failure
  | .ok _ => worker

/-- What the queue refuses is definitely not written. -/
theorem definitelyNotWritten_of_beginAppend {handle : ShardHandle} {payloadBytes : Nat}
    {failure : AppendFailure} (h : handle.beginAppend payloadBytes = .error failure) :
    failure.definitelyNotWritten = true := by
  unfold beginAppend at h
  split at h
  · cases h
    rfl
  split at h
  · cases h
  · cases h
    rfl

end ShardHandle

/-! ### An append in one piece -/

/-- The copies that an append waits for. -/
def Durability.requiredReplicas (policy : PartitionReplicationPolicy) : Durability → Nat
  | .quorum => policy.minInSyncReplicas
  | .allReplicas => policy.replicationFactor
  | .leader | .object => 1

/-- What is reported to the coordinator once the shard has stored the batch. -/
def AppendRequest.completion (xxh3 : Bytes → Digest) (request : AppendRequest)
    (reservation : Reservation) (durability : AppendDurability) : CompleteAppend where
  reservation := reservation
  producer := request.producer
  payloadDigest := request.payloadDigest xxh3
  durableReplicas := durability.durableReplicas
  objectDurable := durability.objectDurable
  response := appendResponse request.requestId reservation

/-- The answer of `append_inner` to an append whose receipt is found. -/
def Durability.receiptAnswer (durability : Durability) (policy : PartitionReplicationPolicy)
    (durableReplicas : Nat) (objectDurable : Bool) (response : AppendResponse) :
    Except AppendError AppendResponse :=
  if durability = .object ∧ objectDurable = false then .error .objectDurabilityUnavailable
  else if durability.requiredReplicas policy ≤ durableReplicas then .ok response
  else .error (.coordinator
    (.durabilityUnavailable (durability.requiredReplicas policy) durableReplicas))

/-- The answer of `append_inner` to an append that is completed. -/
def Durability.completedAnswer (durability : Durability) (policy : PartitionReplicationPolicy)
    (reached : AppendDurability) (response : AppendResponse) : Except AppendError AppendResponse :=
  if reached.durableReplicas < durability.requiredReplicas policy then
    .error (.coordinator
      (.durabilityUnavailable (durability.requiredReplicas policy) reached.durableReplicas))
  else if durability = .object ∧ reached.objectDurable = false then
    .error .objectDurabilityUnavailable
  else .ok response

/-- The answer of `append_inner` to an append that failed, once the failure is reported. -/
def failedAnswer (report : Except EngineError Unit) (error : AppendError) :
    Except AppendError AppendResponse :=
  match report with
  | .error e => .error (.coordinator e)
  | .ok () => .error error

/-- `append_inner` from the reservation on, without a write guard, a durable sink and followers: the
answer, and the partition afterwards. `shard` is the shard the coordinates lie on, and `worker` the
answer it gives if it takes the append. -/
def appendInner (xxh3 : Bytes → Digest) (st : PartitionState) (shard : ShardHandle)
    (worker : Except AppendFailure AppendDurability) (request : AppendRequest)
    (durability : Durability) : Except AppendError AppendResponse × PartitionState :=
  match reserve st (request.intent xxh3) with
  | (.error e, st) => (.error (.coordinator e), st)
  | (.ok (.duplicate response durableReplicas objectDurable policy), st) =>
    (durability.receiptAnswer policy durableReplicas objectDurable response, st)
  | (.ok (.reserved reservation _ policy), st) =>
    match shard.append request.payload.length worker with
    | .ok reached =>
      match complete st (request.completion xxh3 reservation reached) with
      | .error e => (.error (.coordinator e), st)
      | .ok (response, st) => (durability.completedAnswer policy reached response, st)
    | .error failure =>
      let (report, st) := fail st reservation request.producer failure.definitelyNotWritten
      (failedAnswer report failure.error, st)

/-! ### An append among other commands -/

/-- The shard is offered a batch that has its coordinates. If it does not take the batch, the
failure is reported to the coordinator and the append is answered. -/
def Engine.offered (e : Engine) (tp : TopicPartition) (st : PartitionState)
    (request : AppendRequest) (reservation : Reservation) (shard : ShardHandle) :
    Except AppendError ShardHandle × Engine :=
  match shard.beginAppend request.payload.length with
  | .ok shard => (.ok shard, e)
  | .error failure => (.error failure.error,
      e.commanded tp st (.ok ()) (.fail reservation request.producer failure.definitelyNotWritten))

/-- A refusal of the queue is reported as a failure without a write. -/
theorem Engine.offered_eq_error {e e' : Engine} {tp : TopicPartition} {reservation : Reservation}
    {error : AppendError} (h : e.offered tp st request reservation shard = (.error error, e')) :
    e' = e.commanded tp st (.ok ()) (.fail reservation request.producer true) := by
  unfold Engine.offered at h
  split at h
  · cases h
  next hbegin =>
    cases h
    rw [ShardHandle.definitelyNotWritten_of_beginAppend hbegin]

/-! ### What the coordinator accepts -/

section Reserve

variable {intent : AppendIntent} {response : AppendResponse} {copies : Nat} {object : Bool}

/-- What is prepared is reserved. -/
theorem reserve_of_prepare {p : PreparedAppend}
    (h : prepare st { intent with tp := st.sequencer.topicPartition } = .ok (.new p)) :
    reserve st intent = (.ok p.reply, st.allocated p) := by
  obtain ⟨hintent, hvalid⟩ := prepare_eq_new_iff.1 h
  have hcheck : commitCheck st p = .ok none := by
    have hnew := hvalid.notDuplicate
    rw [← hintent] at h
    simp [commitCheck, hnew, h, PreparedAppend.sameFacts]
  simp only [reserve, h, commitSource_eq, hcheck, beginCommit, commitInstall_of_check hcheck]

/-- The parts of a preparation. -/
theorem prepare_of_parts {proposal : ReservationProposal} {producerAfter : Option ProducerCursor}
    {atomicAfter : Option AtomicSnapshot} (hnew : duplicate st intent = .ok none)
    (hproposal : st.sequencer.proposeReservation intent.recordCount intent.admittedLeaderEpoch =
      .ok proposal)
    (hid : proposal.reservation.batchId = st.batches.nextKey) (hlen : st.batches.len + 1 < 2 ^ 64)
    (hproducer : cursorAfter intent = .ok producerAfter)
    (hatomic : snapshotAfter intent (snapshotBefore st intent) proposal.reservation.batchId =
      .ok atomicAfter) :
    ∃ p : PreparedAppend, p.intent = intent ∧ p.Valid st ∧ prepare st intent = .ok (.new p) := by
  have hvalid :
      PreparedAppend.Valid ⟨intent, proposal, st.replicationPolicy, cursorBefore st intent,
      producerAfter, snapshotBefore st intent, atomicAfter, st.batches.nextKey, st.batches.len⟩
      st :=
    ⟨hnew, hproposal, hid, hlen, hproducer, hatomic, rfl, rfl, rfl, rfl, rfl⟩
  exact ⟨_, rfl, hvalid, prepare_eq_new_iff.2 ⟨rfl, hvalid⟩⟩

/-- A receipt that the producer check finds is one that the partition holds. -/
theorem exists_record_of_checkProducer {requestId : Nat} {count : NonZeroU32} {digest : Digest}
    (h : checkProducer st requestId (some p) count digest = .ok (some (response, copies, object))) :
    ∃ record, st.dedup.get p.key = some record ∧ record.durableReplicas = copies ∧
      record.objectDurable = object := by
  simp only [checkProducer] at h
  repeat' split at h
  all_goals cases h
  exact ⟨_, by assumption, rfl, rfl⟩

/-- A producer that is refused is refused by the reservation. -/
theorem reserve_of_check_error {e : EngineError} (hcheck : checkProducer st intent.requestId
    intent.producer intent.recordCount intent.payloadDigest = .error e) :
    reserve st intent = (.error e, st) := by
  have hdup : duplicate st { intent with tp := st.sequencer.topicPartition } = .error e := by
    simp only [duplicate, hcheck]
  have hprepare : prepare st { intent with tp := st.sequencer.topicPartition } = .error e := by
    simp only [prepare, hdup]
    rfl
  rw [reserve, hprepare]

/-- A receipt that the producer check finds is what the reservation returns. -/
theorem reserve_of_check_receipt
    (hcheck : checkProducer st intent.requestId intent.producer intent.recordCount
      intent.payloadDigest = .ok (some (response, copies, object))) :
    reserve st intent = (.ok (.duplicate response copies object st.replicationPolicy), st) := by
  have hdup : duplicate st { intent with tp := st.sequencer.topicPartition } =
      .ok (some (.duplicate response copies object st.replicationPolicy)) := by
    simp only [duplicate, hcheck]
  have hprepare : prepare st { intent with tp := st.sequencer.topicPartition } =
      .ok (.duplicate (.duplicate response copies object st.replicationPolicy)) := by
    simp only [prepare, hdup]
    rfl
  rw [reserve, hprepare]

/-- Records that would be accepted without a producer are accepted with one whose check passes. -/
theorem reserve_of_check_new
    (hcheck : checkProducer st intent.requestId intent.producer intent.recordCount
      intent.payloadDigest = .ok none)
    (hsequence : ∀ p ∈ intent.producer, p.firstSequence + intent.recordCount.get < 2 ^ 64)
    (hother : ∃ r producer policy,
      (reserve st { intent with producer := none }).1 = .ok (.reserved r producer policy)) :
    ∃ p : PreparedAppend, p.intent = { intent with tp := st.sequencer.topicPartition } ∧
      p.Valid st ∧ reserve st intent = (.ok p.reply, st.allocated p) := by
  obtain ⟨r, producer, policy, hother⟩ := hother
  rcases reserve_cases st { intent with producer := none } with ⟨-, hne⟩ | ⟨q, hq, hvalid, -⟩
  · exact absurd hother (hne _ _ _)
  have hnew : duplicate st { intent with tp := st.sequencer.topicPartition } = .ok none := by
    have := hvalid.notDuplicate
    simp only [hq] at this
    simp only [duplicate, hcheck]
    exact this
  obtain ⟨producerAfter, hcursor⟩ : ∃ producerAfter,
      cursorAfter { intent with tp := st.sequencer.topicPartition } = .ok producerAfter := by
    cases hp : intent.producer with
    | none => exact ⟨none, rfl⟩
    | some p => exact ⟨_, if_pos (hsequence p hp)⟩
  have hproposal := hvalid.proposed
  have hatomic := hvalid.atomicAfter
  rw [hq] at hproposal hatomic
  obtain ⟨p, hintent, hvalid', hprepare⟩ :=
    prepare_of_parts hnew hproposal hvalid.batchId hvalid.len_lt hcursor hatomic
  exact ⟨p, hintent, hvalid', reserve_of_prepare hprepare⟩

/-- A pending batch can be completed. -/
theorem complete_of_pending {b : BatchRuntime} {c : CompleteAppend}
    (hget : st.batches.get c.reservation.batchId = some b) (hres : b.reservation = c.reservation)
    (hstatus : b.status = .pending) : ∃ response, complete st c = .ok (response,
      (st.markedBatch c.reservation.batchId (completedStatus (some b)) c.durableReplicas).completed
        c (b.marked (completedStatus (some b)) c.durableReplicas).durableReplicas) := by
  have hmark : markBatch st c.reservation (completedStatus (some b)) c.durableReplicas = .ok _ :=
    markBatch_eq_ok_iff.2 ⟨b, hget, hres, hstatus, rfl, rfl⟩
  exact ⟨_, by simp only [complete, hget, hmark]; rfl⟩

end Reserve

/-! ### What an append is answered -/

/-- As many copies as the append waits for are durable, and the object if it asks for it. -/
def Durability.Reached (durability : Durability) (policy : PartitionReplicationPolicy)
    (durableReplicas : Nat) (objectDurable : Bool) : Prop :=
  durability.requiredReplicas policy ≤ durableReplicas ∧
    (durability = .object → objectDurable = true)

variable {policy : PartitionReplicationPolicy}

theorem Durability.Reached.object {copies : Nat} {object : Bool}
    (h : durability.Reached policy copies object) : ¬ (durability = .object ∧ object = false) := by
  rintro ⟨hdurability, hfalse⟩
  rw [h.2 hdurability] at hfalse
  cases hfalse

theorem Durability.Reached.receiptAnswer {copies : Nat} {object : Bool}
    (h : durability.Reached policy copies object) (response : AppendResponse) :
    durability.receiptAnswer policy copies object response = .ok response := by
  rw [Durability.receiptAnswer, if_neg h.object, if_pos h.1]

theorem Durability.Reached.completedAnswer {reached : AppendDurability}
    (h : durability.Reached policy reached.durableReplicas reached.objectDurable)
    (response : AppendResponse) :
    durability.completedAnswer policy reached response = .ok response := by
  rw [Durability.completedAnswer, if_neg h.1.not_gt, if_neg h.object]

/-- The shard has room for the append, and the worker stores it as durably as it is asked to. -/
structure Serves (shard : ShardHandle) (worker : Except AppendFailure AppendDurability)
    (payloadBytes : Nat) (policy : PartitionReplicationPolicy)
    (durability : Durability) : Prop where
  room : ∃ shard', shard.beginAppend payloadBytes = .ok shard'
  stored : ∃ reached, worker = .ok reached ∧
    durability.Reached policy reached.durableReplicas reached.objectDurable

section Answer

variable {xxh3 : Bytes → Digest} {worker : Except AppendFailure AppendDurability}

/-- An append that gets coordinates is stored and completed. -/
theorem appendInner_of_reserve {q : PreparedAppend} (hvalid : q.Valid st)
    (hreserve : reserve st (request.intent xxh3) = (.ok q.reply, st.allocated q))
    (hserves : Serves shard worker request.payload.length st.replicationPolicy durability) :
    ∃ response reached copies, appendInner xxh3 st shard worker request durability =
      (.ok response, ((st.allocated q).markedBatch q.proposal.reservation.batchId
        (completedStatus (some q.batch)) reached.durableReplicas).completed
          (request.completion xxh3 q.proposal.reservation reached) copies) := by
  obtain ⟨⟨shard', hroom⟩, reached, rfl, hreached⟩ := hserves
  obtain ⟨response, hcomplete⟩ := complete_of_pending
    (c := request.completion xxh3 q.proposal.reservation reached) hvalid.get_allocated rfl rfl
  have hpolicy : q.replicationPolicy = st.replicationPolicy := hvalid.snapshots.1
  refine ⟨response, reached,
    (q.batch.marked (completedStatus (some q.batch)) reached.durableReplicas).durableReplicas, ?_⟩
  simp only [appendInner, hreserve, PreparedAppend.reply, ShardHandle.append, hroom, hcomplete,
    hpolicy, hreached.completedAnswer]
  rfl

/-- **What the identity of its producer adds to an append.** Where the records would be accepted
without it and the shard does its part, the append is answered with a receipt exactly if the check
of the producer passes. -/
theorem appendInner_ok_iff (hp : request.producer = some p)
    (hsequence : p.firstSequence + request.recordCount.get < 2 ^ 64) (hother : ∃ r producer policy,
      (reserve st { request.intent xxh3 with producer := none }).1 =
      .ok (.reserved r producer policy))
    (hserves : Serves shard worker request.payload.length st.replicationPolicy durability)
    (hreceipt : ∀ record, st.dedup.get p.key = some record →
      durability.Reached st.replicationPolicy record.durableReplicas record.objectDurable) :
    (∃ response, (appendInner xxh3 st shard worker request durability).1 = .ok response) ↔
      ∃ receipt, checkProducer st request.requestId (some p) request.recordCount
        (request.payloadDigest xxh3) = .ok receipt := by
  rw [← hp]
  cases hcheck : checkProducer st request.requestId request.producer request.recordCount
      (request.payloadDigest xxh3) with
  | error e =>
    have hreserve : reserve st (request.intent xxh3) = (.error e, st) :=
      reserve_of_check_error hcheck
    simp [appendInner, hreserve]
  | ok receipt =>
    refine ⟨fun _ ↦ ⟨receipt, rfl⟩, fun _ ↦ ?_⟩
    cases receipt with
    | some receipt =>
      obtain ⟨response, copies, object⟩ := receipt
      have hreserve : reserve st (request.intent xxh3) = _ := reserve_of_check_receipt hcheck
      obtain ⟨record, hrecord, rfl, rfl⟩ : ∃ record, st.dedup.get p.key = some record ∧
          record.durableReplicas = copies ∧ record.objectDurable = object := by
        rw [hp] at hcheck
        exact exists_record_of_checkProducer hcheck
      refine ⟨response, ?_⟩
      simp only [appendInner, hreserve, (hreceipt record hrecord).receiptAnswer]
    | none =>
      obtain ⟨q, hq, hvalid, hreserve⟩ := @reserve_of_check_new st (request.intent xxh3) hcheck
        (fun p' hp' ↦ by cases hp.symm.trans hp'; exact hsequence) hother
      obtain ⟨response, _, _, happend⟩ := appendInner_of_reserve hvalid hreserve hserves
      exact ⟨response, by rw [happend]⟩

end Answer

end ShardStream
