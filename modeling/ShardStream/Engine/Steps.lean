import Mathlib.Logic.Relation
import ShardStream.Engine.Boundaries

/-!
# One command of a coordinator worker

`Command` lists the commands that can change a partition, and `Command.run` executes one. `Outcome`
says everything a command can do, with the guards that were met; it is the one place where the
handlers are taken apart, and every invariant is proved by cases on it.

On the core of the partition the effect of a command is one of three (`Outcome.core_effect`):

* a sequence of moves (`CoreMove`);
* the **retry** of an aborted batch by `reserve_replica`: the batch is pending again and the cursors
  are rebuilt from the log start;
* a **refused retry**: the batch is pending again, but its chunk is not accepted by its group, and
  the handler returns before the cursors are rebuilt.

The last one is where a cursor can be left beyond a pending batch.
-/

namespace ShardStream

open PartitionCore DenseOrderedMap

variable {answer : Except EngineError Unit} {c : Command} {b : BatchRuntime} {eff : Effect}
  {st : PartitionState}

/-- The commands that can change a partition. -/
inductive Command where
  | reserve (intent : AppendIntent)
  | commitPrepared (prepared : PreparedAppend) (control : CommitControl)
  | reserveReplica (reservation : Reservation) (producer : Option ProducerIdentity)
      (atomicGroup : Option AtomicGroupIdentity) (payloadBytes : Nat) (payloadDigest : Digest)
  | commitPreparedReplica (prepared : PreparedReplica) (control : CommitControl)
  | observeLeaderEpoch (leaderEpoch : Nat)
  | complete (completion : CompleteAppend)
  | replicaCountDurable (reservation : Reservation) (durableReplicas : Nat)
  | fail (reservation : Reservation) (producer : Option ProducerIdentity)
      (definitelyNotWritten : Bool)
  | finalizeAtomicGroup (transactionId : Nat) (outcome : AtomicGroupState)
  | reconfigure (ringEpoch : Nat) (shards : List Nat)
  | updateReplicationPolicy (expectedPolicyGeneration : Nat) (policy : PartitionReplicationPolicy)
  | truncate (logStart : Nat)
  | waitUntilVisible (through : Nat) (mode : VisibilityMode) (response : Nat)

/-- What one command did: the partition it left, the coordinates it handed out, and the control
record it offered to the journal. -/
structure Effect where
  state : PartitionState
  reserved : Option Reservation
  event : Option JournalEvent

/-- The state a handler leaves that changes nothing when it fails. -/
def stateAfter (st : PartitionState) : Except EngineError PartitionState → PartitionState
  | .ok after => after
  | .error _ => st

/-- Execute one command; `journal` is the journal's answer if the command writes a record. -/
def Command.run (st : PartitionState) (journal : Except EngineError Unit) : Command → Effect
  | .reserve intent =>
    let (reply, after) := ShardStream.reserve st intent
    ⟨after, reservedIn reply, none⟩
  | .commitPrepared prepared control =>
    let (reply, after, _) := commitSource st prepared (some control)
    ⟨after, reservedIn reply, none⟩
  | .reserveReplica reservation producer atomicGroup payloadBytes payloadDigest =>
    let (reply, after) := ShardStream.reserveReplica st reservation producer atomicGroup
      payloadBytes payloadDigest
    ⟨after, reservedIn reply, none⟩
  | .commitPreparedReplica prepared control =>
    let (reply, after, _) := commitReplica st prepared control
    ⟨after, reservedIn reply, none⟩
  | .observeLeaderEpoch leaderEpoch =>
    ⟨stateAfter st (ShardStream.observeLeaderEpoch st leaderEpoch), none, none⟩
  | .complete completion =>
    ⟨stateAfter st ((ShardStream.complete st completion).map (·.2)), none, none⟩
  | .replicaCountDurable reservation durableReplicas =>
    ⟨stateAfter st (setDurableReplicaCount st reservation durableReplicas), none, none⟩
  | .fail reservation producer definitelyNotWritten =>
    ⟨(ShardStream.fail st reservation producer definitelyNotWritten).2, none, none⟩
  | .finalizeAtomicGroup transactionId outcome =>
    let result := ShardStream.finalizeAtomicGroup st journal st.sequencer.topicPartition
      transactionId outcome
    ⟨result.state, none, result.event⟩
  | .reconfigure ringEpoch shards =>
    let result := ShardStream.reconfigure st journal st.sequencer.topicPartition ringEpoch shards
    ⟨result.state, none, result.event⟩
  | .updateReplicationPolicy expected policy =>
    let result := ShardStream.updateReplicationPolicy st journal st.sequencer.topicPartition
      expected policy
    ⟨result.state, none, result.event⟩
  | .truncate logStart =>
    let result := ShardStream.truncate st journal st.sequencer.topicPartition logStart
    ⟨result.state, none, result.event⟩
  | .waitUntilVisible through mode response =>
    ⟨st.waitUntilVisible through mode response, none, none⟩

/-- The batch a command settles for the append path. -/
def Command.settles : Command → Option Nat
  | .complete c => some c.reservation.batchId
  | .fail r _ true => some r.batchId
  | _ => none

/-- The aborted batch that a replica reservation takes up again. -/
def Command.reopens (st : PartitionState) : Command → Option BatchRuntime
  | .reserveReplica r producer group bytes digest =>
    (st.batches.get r.batchId).filter fun b ↦
      decide (b.status = .aborted) && b.matchesReplica r producer group bytes digest
  | _ => none

/-! ### What a command can do -/

/-- **The outcomes of a command.** -/
inductive Outcome (st : PartitionState) (answer : Except EngineError Unit) : Command → Effect → Prop
  /-- At most the leader epoch and the waiters change: refusals, receipts, observations, waits. -/
  | quiet {c : Command} {leaderEpoch : Nat} {ordered replicated : List (Nat × Nat)}
      {answered : List Nat} {event : Option JournalEvent} (hreopens : c.reopens st = none)
      (hepoch : st.sequencer.leaderEpoch ≤ leaderEpoch)
      (hevent : event = none ∨ ∃ e, answer = .error e)
      (hwaiters : (∃ through mode response, c = .waitUntilVisible through mode response) ∨
        ordered = st.orderedWaiters ∧ replicated = st.replicatedWaiters ∧ answered = st.answered) :
      Outcome st answer c ⟨{ st with
            sequencer := { st.sequencer with leaderEpoch }
            orderedWaiters := ordered, replicatedWaiters := replicated, answered },
          none, event⟩
  /-- A prepared append is allocated. -/
  | allocated {c : Command} {p : PreparedAppend} (hvalid : p.Valid st) (hsettles : c.settles = none)
      (hreopens : c.reopens st = none) :
      Outcome st answer c ⟨st.allocated p, some p.proposal.reservation, none⟩
  /-- A replica reserves the next batch, whether or not its chunk is then accepted. -/
  | appended {r : Reservation} {producer : Option ProducerIdentity}
      {group : Option AtomicGroupIdentity} {bytes : Nat} {digest : Digest}
      {reserved : Option Reservation} {producers : Table Nat ProducerCursor}
      (hpasses : st.PassesChecks r producer group)
      (hproducers : advanceNamedProducer st producer r.recordCount = .ok { st with producers })
      (hreserved : reserved = none ∨ reserved = some r ∧ (registerNamedChunk
        (st.replicaAppended producers (pendingBatch r producer group bytes digest)) group r
          bytes).1 = .ok ()) :
      Outcome st answer (.reserveReplica r producer group bytes digest) ⟨(registerNamedChunk
            (st.replicaAppended producers (pendingBatch r producer group bytes digest)) group r
              bytes).2, reserved, none⟩
  /-- An aborted batch is reopened for a replica. -/
  | retried {r : Reservation} {producer : Option ProducerIdentity}
      {group : Option AtomicGroupIdentity} {bytes : Nat} {digest : Digest} {b : BatchRuntime}
      (hget : st.batches.get r.batchId = some b) (hstatus : b.status = .aborted)
      (hmatch : b.matchesReplica r producer group bytes digest = true)
      (hreg : (registerNamedChunk (st.reopen r.batchId producer digest) group r bytes).1 = .ok ()) :
      Outcome st answer (.reserveReplica r producer group bytes digest)
        ⟨(registerNamedChunk (st.reopen r.batchId producer digest) group r
            bytes).2.resetCachedWatermarksAfterTruncate, some r, none⟩
  /-- An aborted batch is reopened, but its chunk is refused. -/
  | refusedRetry {r : Reservation} {producer : Option ProducerIdentity}
      {group : Option AtomicGroupIdentity} {bytes : Nat} {digest : Digest} {b : BatchRuntime}
      {e : EngineError}
      (hget : st.batches.get r.batchId = some b) (hstatus : b.status = .aborted)
      (hmatch : b.matchesReplica r producer group bytes digest = true)
      (hreg : (registerNamedChunk (st.reopen r.batchId producer digest) group r bytes).1 =
        .error e) :
      Outcome st answer (.reserveReplica r producer group bytes digest)
        ⟨(registerNamedChunk (st.reopen r.batchId producer digest) group r bytes).2, none, none⟩
  /-- A pending batch is completed. -/
  | completed {c : CompleteAppend} {b : BatchRuntime}
      (hget : st.batches.get c.reservation.batchId = some b) (hres : b.reservation = c.reservation)
      (hstatus : b.status = .pending) :
      Outcome st answer (.complete c)
        ⟨(st.markedBatch c.reservation.batchId (completedStatus (some b))
            c.durableReplicas).completed c
              (b.marked (completedStatus (some b)) c.durableReplicas).durableReplicas, none, none⟩
  /-- The copy count of a settled batch is raised. -/
  | acknowledged {r : Reservation} {copies : Nat} {b : BatchRuntime}
      (hget : st.batches.get r.batchId = some b) (hres : b.reservation = r)
      (hstatus : b.status = .committed ∨ b.status = .unresolved) :
      Outcome st answer (.replicaCountDurable r copies)
        ⟨st.acknowledged r.batchId copies, none, none⟩
  /-- A producer is frozen; its batch stays as it is. -/
  | frozen {r : Reservation} {producer : Option ProducerIdentity} {definite : Bool} :
      Outcome st answer (.fail r producer definite) ⟨st.freezeProducer producer, none, none⟩
  /-- A producer is frozen and its pending batch aborted. -/
  | failed {r : Reservation} {producer : Option ProducerIdentity} {b : BatchRuntime}
      (hget : st.batches.get r.batchId = some b) (hres : b.reservation = r)
      (hstatus : b.status = .pending) :
      Outcome st answer (.fail r producer true)
        ⟨(rollbackAtomicChunk ((st.freezeProducer producer).markedBatch r.batchId .aborted 0) r).2,
          none, none⟩
  /-- A group is decided. -/
  | decided {txn : Nat} {outcome : AtomicGroupState} {g : AtomicGroupRuntime}
      (hanswer : answer = .ok ()) (hget : st.atomicGroups.get txn = some g)
      (hopen : g.state = .unresolved) (hout : outcome ≠ .unresolved)
      (hchunks : ∀ id ∈ g.batchIds, ∃ b, st.batches.get id = some b ∧ b.status = .unresolved ∧
        (outcome = .committed → st.replicationPolicy.minInSyncReplicas ≤ b.durableReplicas)) :
      Outcome st answer (.finalizeAtomicGroup txn outcome) ⟨st.decideGroup txn g outcome, none,
          some (finalizeMarker st.sequencer.topicPartition txn outcome)⟩
  /-- The ring changes. -/
  | reconfigured {ringEpoch : Nat} {shards : List Nat} {ring : PlacementRing}
      (hanswer : answer = .ok ()) (hring : ring.lanes = shards)
      (hepoch : st.sequencer.ringEpoch < ringEpoch) :
      Outcome st answer (.reconfigure ringEpoch shards)
        ⟨{ st with sequencer := { st.sequencer with ringEpoch, virtualLanes := ring } }, none,
          some (.configure st.sequencer.topicPartition ringEpoch shards)⟩
  /-- The policy changes. -/
  | policyUpdated {expected : Nat} {policy : PartitionReplicationPolicy}
      (hanswer : answer = .ok ()) (hne : st.replicationPolicy ≠ policy)
      (hgeneration : st.replicationPolicy.policyGeneration = expected)
      (hready : ∀ key b, key < st.stable.nextBatch → st.batches.get key = some b →
        BatchRuntime.replicated policy.minInSyncReplicas b = true) :
      Outcome st answer (.updateReplicationPolicy expected policy)
        ⟨PartitionState.resetCachedWatermarksAfterTruncate { st with replicationPolicy := policy },
          none, some (.updateReplicationPolicy st.sequencer.topicPartition expected
            policy.policyGeneration policy.replicationFactor policy.minInSyncReplicas)⟩
  /-- The batches below `key` are dropped. -/
  | truncated {key : Nat} (hanswer : answer = .ok ()) (hfirst : st.batches.firstKey ≤ key)
      (hstable : key ≤ st.stable.nextBatch) (hlt : st.logStart < st.offsetAt key)
      (hsplit : continuesGroup st key = false) :
      Outcome st answer (.truncate (st.offsetAt key)) ⟨st.dropBefore (st.offsetAt key) key, none,
          some (.truncateCheckpoint st.sequencer.topicPartition (st.offsetAt key) key
            (st.offsetAt key) key)⟩

section Outcomes

theorem Outcome.unchanged {event : Option JournalEvent} (hreopens : c.reopens st = none)
    (hevent : event = none ∨ ∃ e, answer = .error e) : Outcome st answer c ⟨st, none, event⟩ :=
  .quiet hreopens le_rfl hevent (.inr ⟨rfl, rfl, rfl⟩)

theorem reservedIn_eq_none {reply : Except EngineError ReserveOutcome}
    (h : ∀ r producer policy, reply ≠ .ok (.reserved r producer policy)) :
    reservedIn reply = none := by
  cases reply with
  | error e => rfl
  | ok o =>
    cases o with
    | duplicate => rfl
    | reserved r producer policy => exact absurd rfl (h r producer policy)

/-- **Every command has one of the outcomes.** -/
theorem Command.outcome (hs : st.Sound) (answer : Except EngineError Unit)
    (c : Command) : Outcome st answer c (c.run st answer) := by
  cases c with
  | reserve intent =>
    simp only [Command.run]
    rcases reserve_cases st intent with ⟨h, hne⟩ | ⟨p, -, hv, hreply, h⟩
    · rw [h, reservedIn_eq_none hne]
      exact .unchanged rfl (.inl rfl)
    · rw [h, hreply]
      exact .allocated hv rfl rfl
  | commitPrepared p control =>
    simp only [Command.run]
    rcases commitSource_cases st p (some control) with ⟨h, hne⟩ | ⟨hv, hreply, h⟩
    · rw [h, reservedIn_eq_none hne]
      exact .unchanged rfl (.inl rfl)
    · rw [h, hreply]
      exact .allocated hv rfl rfl
  | commitPreparedReplica p control =>
    simp only [Command.run]
    rcases commitReplica_cases st p control with ⟨h, hne⟩ | ⟨hv, hreply, h⟩
    · rw [h, reservedIn_eq_none hne]
      exact .unchanged rfl (.inl rfl)
    · rw [h, hreply]
      exact .allocated hv rfl rfl
  | reserveReplica r producer group bytes digest =>
    simp only [Command.run]
    cases hget : st.batches.get r.batchId with
    | some b =>
      rcases reserveReplica_of_held producer group bytes digest hget with
        ⟨hkept, reply, hreply, h⟩ | ⟨⟨hstatus, hmatch⟩, out, rfl, ⟨e, hreg, h⟩ | ⟨hreg, h⟩⟩
      · simp only [h, hreply]
        exact .unchanged (by simpa [Command.reopens, hget] using hkept) (.inl rfl)
      · rw [h]
        exact .refusedRetry hget hstatus hmatch hreg
      · rw [h]
        exact .retried hget hstatus hmatch hreg
    | none =>
      rcases reserveReplica_of_absent producer group bytes digest hget with
        ⟨-, e, h⟩ | ⟨hpasses, producers, hproducers, ⟨hid, -⟩ | ⟨-, out, rfl, h⟩⟩
      · rw [h]
        exact .unchanged (by simp [Command.reopens, hget]) (.inl rfl)
      · exact absurd (hpasses.batchId hs.layout.nextBatchId) hid
      · rw [h]
        refine .appended hpasses hproducers ?_
        cases hreg : (registerNamedChunk (st.replicaAppended producers
          (pendingBatch r producer group bytes digest)) group r bytes).1 with
        | error e => exact .inl rfl
        | ok u => exact .inr ⟨rfl, rfl⟩
  | observeLeaderEpoch epoch =>
    simp only [Command.run]
    cases h : ShardStream.observeLeaderEpoch st epoch with
    | error e => exact .unchanged rfl (.inl rfl)
    | ok st' =>
      obtain ⟨hle, rfl⟩ := observeLeaderEpoch_eq_ok h
      exact .quiet rfl hle (.inl rfl) (.inr ⟨rfl, rfl, rfl⟩)
  | complete completion =>
    simp only [Command.run]
    cases h : ShardStream.complete st completion with
    | error e => exact .unchanged rfl (.inl rfl)
    | ok res =>
      obtain ⟨response, st'⟩ := res
      obtain ⟨b, hget, hres, hstatus, rfl⟩ := complete_eq_ok h
      exact .completed hget hres hstatus
  | replicaCountDurable r copies =>
    simp only [Command.run]
    cases h : setDurableReplicaCount st r copies with
    | error e => exact .unchanged rfl (.inl rfl)
    | ok st' =>
      obtain ⟨b, hget, hres, hstatus, rfl⟩ := setDurableReplicaCount_eq_ok h
      exact .acknowledged hget hres hstatus
  | fail r producer definite =>
    simp only [Command.run]
    rcases fail_cases st r producer definite with h | ⟨b, hget, hres, hstatus, rfl, h⟩
    · rw [h]
      exact .frozen
    · rw [h]
      exact .failed hget hres hstatus
  | finalizeAtomicGroup txn outcome =>
    simp only [Command.run]
    rcases finalizeAtomicGroup_cases st answer st.sequencer.topicPartition txn outcome with
      ⟨h, hevent⟩ | ⟨g, hget, hopen, hout, hcheck, hanswer, h, hevent⟩
    · rw [h]
      exact .unchanged rfl hevent
    · rw [h, hevent]
      exact .decided hanswer hget hopen hout (checkFinalizable_eq_ok_iff.1 hcheck)
  | reconfigure ringEpoch shards =>
    simp only [Command.run]
    rcases reconfigure_cases st answer st.sequencer.topicPartition ringEpoch shards with
      ⟨h, hevent⟩ | ⟨ring, hring, hepoch, hanswer, h, hevent⟩
    · rw [h]
      exact .unchanged rfl hevent
    · rw [h, hevent]
      exact .reconfigured hanswer hring hepoch
  | updateReplicationPolicy expected policy =>
    simp only [Command.run]
    rcases updateReplicationPolicy_cases st answer st.sequencer.topicPartition expected policy
      with ⟨h, hevent⟩ | ⟨hne, hgen, -, hle, hanswer, h, hevent⟩
    · rw [h]
      exact .unchanged rfl hevent
    · rw [h, hevent]
      exact .policyUpdated hanswer hne hgen
        (hs.layout.ready_of_le_computeReplicated hs.cursors.stable.inPlace hle)
  | truncate logStart =>
    simp only [Command.run]
    rcases truncate_cases st answer st.sequencer.topicPartition logStart with
      ⟨h, hevent, -⟩ | ⟨key, hkey, hsplit, hlt, hstable, hfloor, hanswer, h, hevent⟩
    · rw [h]
      exact .unchanged rfl hevent
    · obtain ⟨hfirst, hle, rfl⟩ := firstRetained_spec hs hkey hfloor hstable
      rw [h, hevent,
        retentionFloor_eq hs.layout hfirst (hle.trans hs.cursors.stable.inPlace.le_nextKey)]
      exact .truncated hanswer hfirst hle hlt hsplit
  | waitUntilVisible through mode response =>
    simp only [Command.run, PartitionState.waitUntilVisible]
    cases mode with
    | ordered | replicated => split_ifs <;> exact .quiet rfl le_rfl (.inl rfl) (.inl ⟨_, _, _, rfl⟩)

end Outcomes

/-! ### The effect on the core -/

/-- The core with the aborted batch `key` pending again. -/
def PartitionCore.reopened (st : PartitionCore) (key : Nat) (digest : Digest) : PartitionCore :=
  { st with
    batches := st.batches.modify key fun b ↦
      { b with status := .pending, payloadDigest := some digest } }

/-- A command can do three things to the core. -/
inductive CoreEffect (st : PartitionState) (c : Command) (eff : Effect) : Prop
  /-- A sequence of moves. -/
  | moves (hnone : c.reopens st = none)
      (h : Relation.ReflTransGen CoreMove st.toPartitionCore eff.state.toPartitionCore)
  /-- The retry of an aborted batch. -/
  | retried {key : Nat} {b : BatchRuntime} {digest : Digest} (hsome : c.reopens st = some b)
      (hget : st.batches.get key = some b) (hstatus : b.status = .aborted)
      (hcore : eff.state.toPartitionCore = (st.reopened key digest).rewind.advance)
  /-- A retry refused half way. -/
  | refusedRetry {key : Nat} {b : BatchRuntime} {digest : Digest} (hsome : c.reopens st = some b)
      (hget : st.batches.get key = some b) (hstatus : b.status = .aborted)
      (hreserved : eff.reserved = none)
      (hcore : eff.state.toPartitionCore = st.reopened key digest)

section Effects

theorem PreparedAppend.Valid.move {p : PreparedAppend} (h : p.Valid st) :
    CoreMove st.toPartitionCore (st.allocated p).toPartitionCore := by
  obtain ⟨hres, -, hoff, -, hseq⟩ := h.reservation
  exact .allocate hres rfl hoff hseq

/-- The batch that was reopened. -/
theorem get_reopen {id : Nat} (h : st.batches.get id = some b) (producer : Option ProducerIdentity)
    (digest : Digest) : (st.reopen id producer digest).batches.get id =
      some { b with status := .pending, payloadDigest := some digest } := by
  change (st.batches.modify id _).get id = _
  rw [get_modify, if_pos rfl, h]
  rfl

/-- The batch that a failure has marked, seen by the rollback that follows. -/
theorem get_markedBatch_freezeProducer {r : Reservation}
    (h : st.batches.get r.batchId = some b) (producer : Option ProducerIdentity) :
    ((st.freezeProducer producer).markedBatch r.batchId .aborted 0).batches.get r.batchId =
      some (b.marked .aborted 0) := by
  change ((st.freezeProducer producer).batches.modify r.batchId _).get r.batchId = _
  rw [toPartitionCore_freezeProducer, get_modify, if_pos rfl, h]
  rfl

@[simp] theorem BatchRuntime.reservation_marked (b : BatchRuntime) (status : BatchStatus)
    (copies : Nat) : (b.marked status copies).reservation = b.reservation := by
  cases status <;> rfl

@[simp] theorem BatchRuntime.status_marked (b : BatchRuntime) (status : BatchStatus)
    (copies : Nat) : (b.marked status copies).status = status := by
  cases status <;> rfl

/-- Marking a pending batch is a move. -/
theorem markedBatch_move {key : Nat} (hget : st.batches.get key = some b)
    (hstatus : b.status = .pending) (status : BatchStatus) (copies : Nat) :
    CoreMove st.toPartitionCore (st.markedBatch key status copies).toPartitionCore := by
  refine .settle (fun b' hb' ↦ ?_) (fun b' ↦ BatchRuntime.reservation_marked ..)
  rw [hget] at hb'
  cases hb'
  exact hstatus

/-- **The effect of a command on the core.** -/
theorem Outcome.core_effect (h : Outcome st answer c eff) : CoreEffect st c eff := by
  cases h with
  | quiet hreopens => exact .moves hreopens (.single (.sequencer rfl rfl rfl rfl))
  | allocated hvalid hsettles hreopens => exact .moves hreopens (.single hvalid.move)
  | @appended r producer group bytes digest reserved producers h =>
    rw [registerNamedChunk_snd]
    -- the batch is pushed, then the cursors look at it
    refine .moves (by simp [Command.reopens, h.absent]) (.head (.allocate
      (b := pendingBatch r producer group bytes digest) h.next rfl h.offsets h.sequences)
      (.single ?_))
    exact .advance
  | @retried r producer group bytes digest b hget hstatus hmatch =>
    refine .retried ?_ hget hstatus (by rw [registerNamedChunk_snd]; rfl : _ =
      (st.reopened r.batchId digest).rewind.advance)
    simp [Command.reopens, hget, hstatus, hmatch]
  | @refusedRetry r producer group bytes digest b e hget hstatus hmatch =>
    refine .refusedRetry ?_ hget hstatus rfl (by rw [registerNamedChunk_snd]; rfl : _ =
      st.reopened r.batchId digest)
    simp [Command.reopens, hget, hstatus, hmatch]
  | @completed c b hget hres hstatus =>
    refine .moves rfl (.head
      (markedBatch_move hget hstatus (completedStatus (some b)) c.durableReplicas) (.single ?_))
    exact .relabel (fun _ ↦ rfl) (fun _ ↦ rfl) (fun _ ↦ rfl)
  | acknowledged =>
    exact .moves rfl (.single (.acknowledge (fun _ ↦ rfl) (fun _ ↦ rfl) (fun _ ↦ le_max_left ..)))
  | frozen =>
    refine .moves rfl ?_
    rw [toPartitionCore_freezeProducer]
  | @failed r producer b hget hres hstatus =>
    rw [rollbackAtomicChunk_snd]
    have hget' : (st.freezeProducer producer).batches.get r.batchId = some b := by
      rw [toPartitionCore_freezeProducer]; exact hget
    have hmove := markedBatch_move hget' hstatus .aborted 0
    rw [toPartitionCore_freezeProducer] at hmove
    exact .moves rfl (.single hmove)
  | @decided txn outcome g hanswer hget hopen hout hchunks =>
    refine .moves rfl (.single (.decide (fun id hid b hb ↦ ?_) ?_))
    · obtain ⟨b', hb', hstatus, -⟩ := hchunks id hid
      rw [hb] at hb'
      cases hb'
      exact hstatus
    · cases outcome with
      | unresolved => exact absurd rfl hout
      | committed => exact .inl rfl
      | aborted => exact .inr rfl
  | reconfigured => exact .moves rfl (.single (.sequencer rfl rfl rfl rfl))
  | policyUpdated hanswer hne hgeneration hready => exact .moves rfl (.single (.policy hready))
  | truncated hanswer hfirst hstable => exact .moves rfl (.single (.drop hfirst hstable))

end Effects

/-! ### Soundness along a command -/

section Sound

variable {st st' : PartitionCore}

theorem PartitionCore.Sound.moves (h : Relation.ReflTransGen CoreMove st st') (hs : st.Sound) :
    st'.Sound := by
  induction h with
  | refl => exact hs
  | tail _ hm ih => exact hm.sound ih

theorem PartitionCore.Layout.reopened (h : st.Layout) (key : Nat) (digest : Digest) :
    (st.reopened key digest).Layout :=
  h.modify fun _ ↦ rfl

/-- A reopened batch leaves every cursor in place, and blocked: it can only have become less
ready. -/
theorem PartitionCore.Sound.reopened (h : st.Sound) (key : Nat) (digest : Digest) :
    (st.reopened key digest).Sound := by
  have hok : ∀ {ready c}, Gate ready → st.CursorOk ready c →
      (st.reopened key digest).CursorOk ready c := by
    intro ready c hg hc
    refine ⟨hc.inPlace.congr rfl (firstKey_modify ..)
      (map_values_modify (g := fun b : BatchRuntime ↦ b.reservation)
        (f := fun b ↦ { b with status := .pending, payloadDigest := some digest })
        (fun _ ↦ rfl) ..), fun b' hb' ↦ ?_⟩
    simp only [PartitionCore.reopened, get_modify] at hb'
    split at hb'
    · obtain ⟨b, -, rfl⟩ := Option.map_eq_some_iff.1 hb'
      exact hg.pending _ rfl
    · exact hc.blocked b' hb'
  exact ⟨h.layout.reopened key digest, hok gate_settled h.cursors.contiguous,
    hok gate_stable h.cursors.stable, hok (gate_replicated _) h.cursors.replicated⟩

/-- **Every command is sound.** -/
theorem CoreEffect.sound {st : PartitionState} (h : CoreEffect st c eff) (hs : st.Sound) :
    eff.state.Sound := by
  cases h with
  | moves hnone h => exact hs.moves h
  | retried hsome hget hstatus hcore =>
    rw [hcore]
    exact (hs.layout.reopened ..).sound_rewind_advance
  | refusedRetry hsome hget hstatus hreserved hcore =>
    rw [hcore]
    exact hs.reopened ..

/-- Along moves, exactness is kept and the ends do not go down. -/
theorem exact_and_endsLe_of_moves (h : Relation.ReflTransGen CoreMove st st') (hs : st.Sound)
    (he : st.Exact) : st'.Exact ∧ st.EndsLe st' := by
  induction h with
  | refl => exact ⟨he, .refl st⟩
  | tail hpre hm ih =>
    have hmid := hs.moves hpre
    exact ⟨hm.exact hmid ih.1, ih.2.trans (hm.endsLe hmid ih.1)⟩

end Sound

theorem Command.sound (hs : st.Sound) (journal : Except EngineError Unit) (c : Command) :
    (c.run st journal).state.Sound :=
  (c.outcome hs journal).core_effect.sound hs

/-- A fresh partition is sound. -/
theorem PartitionState.sound_empty {tp : TopicPartition} {epoch : Nat} {shards : List Nat}
    {s : TopicSequencer} (h : TopicSequencer.new tp epoch shards = .ok s)
    (policy : PartitionReplicationPolicy) : (PartitionState.empty s policy).Sound := by
  have hl : (PartitionState.empty s policy).Layout := by
    rw [(TopicSequencer.new_eq_ok_iff.1 h).2]
    exact ⟨trivial, rfl, rfl, rfl, Nat.two_pow_pos 64, Nat.two_pow_pos 64⟩
  exact hl.sound_rewind_advance

end ShardStream
