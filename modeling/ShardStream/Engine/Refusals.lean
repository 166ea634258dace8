import ShardStream.Engine.Groups
import ShardStream.Engine.Script

/-!
# Refused replica reservations

`reserve_replica` changes the partition step by step and checks as it goes. Most refusals come
before the first change, or take the change back. Two come later and take nothing back: the refusal
of a chunk by its group, after an aborted batch was made pending again or a new batch was appended,
and the refusal of a new batch by a dense map that does not continue with it.

`RefusesLate` says in terms of the request and of the partition before it when such a refusal
happens. All other refusals leave the partition as it was, and these never do.
-/

namespace ShardStream

variable {X st : PartitionState} {group : Option AtomicGroupIdentity} {r : Reservation}
  {bytes : Nat}

/-- The group does not take the chunk: it is decided, the chunk is not the next one, or a counter
would overflow. -/
def AtomicGroupRuntime.Refuses (g : AtomicGroupRuntime)
    (chunkSequence payloadBytes recordCount : Nat) : Prop :=
  g.state ≠ .unresolved ∨ chunkSequence ≠ g.nextSequence ∨
    2 ^ 64 ≤ g.payloadBytes + payloadBytes ∨ 2 ^ 64 ≤ g.recordCount + recordCount ∨
    2 ^ 64 ≤ g.nextSequence + 1

instance (g : AtomicGroupRuntime) (chunkSequence payloadBytes recordCount : Nat) :
    Decidable (g.Refuses chunkSequence payloadBytes recordCount) :=
  inferInstanceAs (Decidable (_ ∨ _))

/-- The group of the request, if it names one, does not take its chunk. -/
def PartitionState.RefusesChunk (st : PartitionState) (group : Option AtomicGroupIdentity)
    (payloadBytes : Nat) (recordCount : NonZeroU32) : Prop :=
  ∃ identity ∈ group, (groupEntry st identity.transactionId).Refuses identity.chunkSequence
    payloadBytes recordCount.get

/-- **A late refusal.** The request takes up an aborted batch whose chunk its group refuses, or it
is the next batch and is refused by the dense map or by its group. -/
def PartitionState.RefusesLate (st : PartitionState) (r : Reservation)
    (producer : Option ProducerIdentity) (group : Option AtomicGroupIdentity) (payloadBytes : Nat)
    (payloadDigest : Digest) : Prop :=
  (∃ b, st.batches.get r.batchId = some b ∧ b.status = .aborted ∧
      b.matchesReplica r producer group payloadBytes payloadDigest = true ∧
      st.RefusesChunk group payloadBytes r.recordCount) ∨
    st.PassesChecks r producer group ∧
      (r.batchId ≠ st.batches.nextKey ∨ st.RefusesChunk group payloadBytes r.recordCount)

section Register

/-- A chunk is registered exactly when its group takes it. -/
theorem registerAtomicChunk_eq_ok_iff {identity : AtomicGroupIdentity} :
    (registerAtomicChunk st identity r bytes).1 = .ok () ↔
      ¬ (groupEntry st identity.transactionId).Refuses identity.chunkSequence bytes
        r.recordCount.get := by
  simp only [registerAtomicChunk, AtomicGroupRuntime.Refuses, ← Nat.not_lt]
  split_ifs with h₁ h₂ h₃ h₄ h₅ <;> simp_all

/-- A named chunk is refused exactly when its group refuses it; the groups are those of `st` if the
table is. -/
theorem exists_registerNamedChunk_eq_error_iff (hX : X.atomicGroups = st.atomicGroups) :
    (∃ e, (registerNamedChunk X group r bytes).1 = .error e) ↔
      st.RefusesChunk group bytes r.recordCount := by
  cases group with
  | none => simp [registerNamedChunk, PartitionState.RefusesChunk]
  | some identity =>
    have hentry : groupEntry X identity.transactionId = groupEntry st identity.transactionId := by
      rw [groupEntry, hX, groupEntry]
    have hiff : (registerAtomicChunk X identity r bytes).1 = .ok () ↔ _ :=
      registerAtomicChunk_eq_ok_iff
    rw [hentry] at hiff
    simp only [registerNamedChunk, PartitionState.RefusesChunk, Option.mem_some_iff,
      exists_eq_left']
    rw [← not_iff_not, ← hiff]
    cases (registerAtomicChunk X identity r bytes).1 <;> simp

end Register

section Refusals

variable {producer : Option ProducerIdentity} {digest : Digest} {b : BatchRuntime}
  {count : NonZeroU32}

/-- A chunk that is refused once its batch was reopened is refused late. -/
theorem refusesLate_of_reopened {e : EngineError} (hget : st.batches.get r.batchId = some b)
    (hstatus : b.status = .aborted)
    (hmatch : b.matchesReplica r producer group bytes digest = true)
    (hreg : (registerNamedChunk (st.reopen r.batchId producer digest) group r bytes).1 =
      .error e) : st.RefusesLate r producer group bytes digest :=
  .inl ⟨b, hget, hstatus, hmatch, (exists_registerNamedChunk_eq_error_iff
    (X := st.reopen r.batchId producer digest) rfl).1 ⟨e, hreg⟩⟩

/-- A batch that was aborted and is pending is not unchanged. -/
theorem registerNamedChunk_reopen_ne (hget : st.batches.get r.batchId = some b)
    (hstatus : b.status = .aborted) :
    (registerNamedChunk (st.reopen r.batchId producer digest) group r bytes).2 ≠ st := by
  rw [registerNamedChunk_snd]
  intro h
  have hbatch : (st.batches.modify r.batchId fun b ↦
      { b with status := .pending, payloadDigest := some digest }).get r.batchId = some b := by
    rw [← hget]
    exact congrArg (fun st : PartitionState ↦ st.batches.get r.batchId) h
  rw [DenseOrderedMap.get_modify, if_pos rfl, hget] at hbatch
  rw [← Option.some.inj hbatch] at hstatus
  cases hstatus

/-- The state after the sequencer advanced is not the state before. -/
theorem ne_of_nextBatchId {epoch : Nat} (h : X.sequencer = st.sequencer.advanced count epoch) :
    X ≠ st := by
  rintro rfl
  have : X.sequencer.nextBatchId = X.sequencer.nextBatchId + 1 := by
    conv_lhs => rw [h]
    rfl
  omega

end Refusals

/-- **A refused replica reservation leaves the partition as it was exactly when it is not refused
late**, for every partition and every request. -/
theorem refused_replica_unchanged_iff (st : PartitionState) (r : Reservation)
    (producer : Option ProducerIdentity) (group : Option AtomicGroupIdentity) (bytes : Nat)
    (digest : Digest) :
    ((∃ e, (reserveReplica st r producer group bytes digest).1 = .error e) →
        (reserveReplica st r producer group bytes digest).2 = st) ↔
      ¬ st.RefusesLate r producer group bytes digest := by
  have hunchanged : ∀ {reply : Except EngineError ReserveOutcome} {P : Prop}, ¬ P →
      ((∃ e, reply = .error e) → st = st ↔ ¬ P) := by simp
  have hchanged : ∀ {e : EngineError} {X : PartitionState} {P : Prop}, X ≠ st → P →
      ((∃ e', (.error e : Except EngineError ReserveOutcome) = .error e') → X = st ↔ ¬ P) := by
    intro e X P hne hP
    simp [hne, hP]
  rw [PartitionState.RefusesLate]
  cases hget : st.batches.get r.batchId with
  | some b =>
    have hheld : ¬ st.PassesChecks r producer group := fun h ↦ by
      rw [h.absent] at hget
      cases hget
    simp only [hheld, false_and, or_false, Option.some.injEq, exists_eq_left']
    have hiff : (∃ e, (registerNamedChunk (st.reopen r.batchId producer digest) group r bytes).1 =
        .error e) ↔ st.RefusesChunk group bytes r.recordCount :=
      exists_registerNamedChunk_eq_error_iff rfl
    rcases reserveReplica_of_held producer group bytes digest hget with
      ⟨hkept, reply, -, h⟩ | ⟨⟨hstatus, hmatch⟩, out, rfl, ⟨e, hreg, h⟩ | ⟨hreg, h⟩⟩ <;> rw [h]
    · exact hunchanged fun hlate ↦ hkept ⟨hlate.1, hlate.2.1⟩
    · exact hchanged (registerNamedChunk_reopen_ne hget hstatus)
        ⟨hstatus, hmatch, hiff.1 ⟨e, hreg⟩⟩
    · simpa [hstatus, hmatch, hreg] using hiff
  | none =>
    simp only [reduceCtorEq, false_and, exists_false, false_or]
    rcases reserveReplica_of_absent producer group bytes digest hget with
      ⟨hfails, e, h⟩ | ⟨hpasses, producers, -, ⟨hid, e, h⟩ | ⟨hid, out, rfl, h⟩⟩ <;> rw [h]
    · exact hunchanged fun hlate ↦ hfails hlate.1
    · exact hchanged (ne_of_nextBatchId rfl) ⟨hpasses, .inl hid⟩
    · have hiff : (∃ e, (registerNamedChunk (st.replicaAppended producers
          (pendingBatch r producer group bytes digest)) group r bytes).1 = .error e) ↔
            st.RefusesChunk group bytes r.recordCount := exists_registerNamedChunk_eq_error_iff rfl
      cases hreg : (registerNamedChunk (st.replicaAppended producers
        (pendingBatch r producer group bytes digest)) group r bytes).1 with
      | error e =>
        refine hchanged ?_ ⟨hpasses, .inr (hiff.1 ⟨e, hreg⟩)⟩
        rw [registerNamedChunk_snd]
        exact ne_of_nextBatchId rfl
      | ok u => simpa [hpasses, hid, hreg, Except.map] using hiff

/-- A chunk is written and completed, and its group aborted. -/
def abortedChunk : List Action :=
  let record : NonZeroU32 := .one
  [.create ⟨0, 0⟩ [0] ⟨1, 1, 1⟩, .reserve ⟨0, 0⟩ none (some ⟨7, 0⟩) record 1 0, .write ⟨0, 0⟩ 0,
    .complete ⟨0, 0⟩ 0, .command ⟨0, 0⟩ fun _ ↦ some (.finalizeAtomicGroup 7 .aborted)]

/-- **A refusal can change the partition.** The replica of a chunk of an aborted group is refused,
and the batch is pending afterwards. -/
theorem refused_retry_reopens_batch : ∃ e st b error, EngineReachable ⟨1, 1, 1⟩ .any e ∧
    e.states.get ⟨0, 0⟩ = some st ∧ st.batches.get 0 = some b ∧
      (reserveReplica st b.reservation none (some ⟨7, 0⟩) 1 0).1 = .error error ∧
      (reserveReplica st b.reservation none (some ⟨7, 0⟩) 1 0).2 ≠ st := by
  obtain ⟨e, st, he, hst, h⟩ := Engine.exists_of_play ⟨1, 1, 1⟩ abortedChunk ⟨0, 0⟩
    (fun _ st ↦ ∃ b, st.batches.get 0 = some b ∧ b.status = .aborted ∧
      (reserveReplica st b.reservation none (some ⟨7, 0⟩) 1 0).1 =
        .error (.atomicGroupFinalized 7) ∧
      ∃ b', (reserveReplica st b.reservation none (some ⟨7, 0⟩) 1 0).2.batches.get 0 = some b' ∧
        b'.status = .pending)
    Guard.any_implies (by decide +kernel)
  obtain ⟨b, hb, haborted, herror, b', hb', hpending⟩ := h
  refine ⟨e, st, b, _, he, hst, hb, herror, fun heq ↦ ?_⟩
  rw [heq, hb] at hb'
  cases hb'
  rw [haborted] at hpending
  cases hpending

end ShardStream
