import ShardStream.Engine.Control

/-!
# What each command can do

One inversion lemma per command handler: the replies it can give, the guards that were met, and the
exact state it leaves. Every invariant of the coordinator is proved from these lemmas, and no proof
after this file unfolds a handler.
-/

namespace ShardStream

open TopicSequencer

variable {copies : Nat} {count : NonZeroU32} {b : BatchRuntime}

/-! ### Settling a batch -/

variable {st st' : PartitionState} {r : Reservation} {producer : Option ProducerIdentity}

theorem markBatch_eq_ok_iff {status : BatchStatus} {n : Nat} :
    markBatch st r status copies = .ok (n, st') ↔
      ∃ b, st.batches.get r.batchId = some b ∧ b.reservation = r ∧ b.status = .pending ∧
        n = (b.marked status copies).durableReplicas ∧
        st' = st.markedBatch r.batchId status copies := by
  simp only [markBatch]
  cases hget : st.batches.get r.batchId with
  | none => simp
  | some b =>
    simp only [ite_error_eq_ok_iff, not_or, not_not, Except.ok.injEq, Prod.mk.injEq,
      Option.some.injEq, exists_eq_left', and_assoc, eq_comm (b := n), eq_comm (b := st')]

/-- A completion settles exactly the pending batch it names. -/
theorem complete_eq_ok {c : CompleteAppend} {response : AppendResponse}
    (h : complete st c = .ok (response, st')) :
    ∃ b, st.batches.get c.reservation.batchId = some b ∧ b.reservation = c.reservation ∧
      b.status = .pending ∧
      st' = (st.markedBatch c.reservation.batchId (completedStatus (some b))
        c.durableReplicas).completed c
          (b.marked (completedStatus (some b)) c.durableReplicas).durableReplicas := by
  simp only [complete] at h
  cases hmark : markBatch st c.reservation
      (completedStatus (st.batches.get c.reservation.batchId)) c.durableReplicas with
  | error e => simp [hmark] at h
  | ok res =>
    obtain ⟨n, st₁⟩ := res
    simp only [hmark, Except.ok.injEq, Prod.mk.injEq] at h
    obtain ⟨b, hget, hres, hstatus, rfl, rfl⟩ := markBatch_eq_ok_iff.1 hmark
    refine ⟨b, hget, hres, hstatus, ?_⟩
    rw [← h.2, hget]

theorem setDurableReplicaCount_eq_ok (h : setDurableReplicaCount st r copies = .ok st') :
    ∃ b, st.batches.get r.batchId = some b ∧ b.reservation = r ∧
      (b.status = .committed ∨ b.status = .unresolved) ∧
      st' = st.acknowledged r.batchId copies := by
  simp only [setDurableReplicaCount] at h
  split at h
  · cases h
  · next b hget =>
    split_ifs at h with hbad
    cases h
    rw [not_or, not_not, not_not] at hbad
    exact ⟨b, hget, hbad.1, hbad.2, rfl⟩

/-! ### Group bookkeeping -/

/-- The entry after one more chunk. -/
def AtomicGroupRuntime.withChunk (g : AtomicGroupRuntime) (batchId bytes count : Nat) :
    AtomicGroupRuntime :=
  { g with
    payloadBytes := g.payloadBytes + bytes
    recordCount := g.recordCount + count
    batchIds := g.batchIds ++ [batchId]
    nextSequence := g.nextSequence + 1 }

/-- **Registering a chunk.** Only the group's own entry changes. A registration that is accepted
extends an undecided group by its next chunk; a refused one keeps the decision and the chunk list,
except that an exhausted sequence counter is noticed after the batch id was pushed. -/
theorem registerAtomicChunk_spec (st : PartitionState) (identity : AtomicGroupIdentity)
    (r : Reservation) (bytes : Nat) :
    ∃ g', (registerAtomicChunk st identity r bytes).2 =
        { st with atomicGroups := st.atomicGroups.insert identity.transactionId g' } ∧
      (((registerAtomicChunk st identity r bytes).1 = .ok () ∧
          (groupEntry st identity.transactionId).state = .unresolved ∧
          identity.chunkSequence = (groupEntry st identity.transactionId).nextSequence ∧
          (groupEntry st identity.transactionId).payloadBytes + bytes < 2 ^ 64 ∧
          (groupEntry st identity.transactionId).recordCount + r.recordCount.get < 2 ^ 64 ∧
          (groupEntry st identity.transactionId).nextSequence + 1 < 2 ^ 64 ∧
          g' = (groupEntry st identity.transactionId).withChunk r.batchId bytes r.recordCount.get) ∨
        ((∃ e, (registerAtomicChunk st identity r bytes).1 = .error e) ∧
          g'.state = (groupEntry st identity.transactionId).state ∧
          (g'.batchIds = (groupEntry st identity.transactionId).batchIds ∧
              g'.recordCount = (groupEntry st identity.transactionId).recordCount ∨
            (groupEntry st identity.transactionId).state = .unresolved ∧
              g'.batchIds = (groupEntry st identity.transactionId).batchIds ++ [r.batchId] ∧
              g'.recordCount =
                (groupEntry st identity.transactionId).recordCount + r.recordCount.get))) := by
  simp only [registerAtomicChunk]
  split_ifs with h₁ h₂ h₃ h₄ h₅
  · exact ⟨_, rfl, .inr ⟨⟨_, rfl⟩, rfl, .inl ⟨rfl, rfl⟩⟩⟩
  · exact ⟨_, rfl, .inr ⟨⟨_, rfl⟩, rfl, .inl ⟨rfl, rfl⟩⟩⟩
  · exact ⟨_, rfl, .inl ⟨rfl, not_not.1 h₁, not_not.1 h₂, h₃, h₄, h₅, rfl⟩⟩
  · exact ⟨_, rfl, .inr ⟨⟨_, rfl⟩, rfl, .inr ⟨not_not.1 h₁, rfl, rfl⟩⟩⟩
  all_goals exact ⟨_, rfl, .inr ⟨⟨_, rfl⟩, rfl, .inl ⟨rfl, rfl⟩⟩⟩

/-- **Rolling a chunk back.** Either no entry changes, or the batch was the last chunk of its group
and is taken off the list, the entry disappearing with its last chunk. -/
theorem rollbackAtomicChunk_spec (st : PartitionState) (r : Reservation) :
    (rollbackAtomicChunk st r).2 = st ∨
      ∃ b identity g, st.batches.get r.batchId = some b ∧ b.atomicGroup = some identity ∧
        st.atomicGroups.get identity.transactionId = some g ∧
        g.batchIds.getLast? = some r.batchId ∧
        g.nextSequence = min (identity.chunkSequence + 1) (2 ^ 64 - 1) ∧
        ((g.batchIds.dropLast = [] ∧ (rollbackAtomicChunk st r).2 =
            { st with atomicGroups := st.atomicGroups.erase identity.transactionId }) ∨
          ∃ g', (rollbackAtomicChunk st r).2 =
              { st with atomicGroups := st.atomicGroups.insert identity.transactionId g' } ∧
            g'.state = g.state ∧ g'.batchIds = g.batchIds.dropLast ∧
            g'.nextSequence = identity.chunkSequence ∧
            g.recordCount - r.recordCount.get ≤ g'.recordCount ∧
            (b.payloadBytes ≤ g.payloadBytes → r.recordCount.get ≤ g.recordCount →
              g.batchIds.dropLast ≠ [] ∧ g'.payloadBytes = g.payloadBytes - b.payloadBytes ∧
                g'.recordCount = g.recordCount - r.recordCount.get)) := by
  simp only [rollbackAtomicChunk]
  cases hget : st.batches.get r.batchId with
  | none => exact .inl rfl
  | some b =>
    cases hgroup : b.atomicGroup with
    | none => exact .inl (by simp [hgroup])
    | some identity =>
      cases hentry : st.atomicGroups.get identity.transactionId with
      | none => exact .inl (by simp [hgroup, hentry])
      | some g =>
        simp only [hgroup, hentry]
        split_ifs with h₁ h₂ h₃ h₄
        · exact .inl rfl
        all_goals
          rw [not_or, not_not, not_not] at h₁
          refine .inr ⟨b, identity, g, rfl, hgroup, hentry, h₁.1, h₁.2, ?_⟩
        · exact .inr ⟨_, rfl, rfl, rfl, rfl, Nat.sub_le .., fun h _ ↦ absurd h (by omega)⟩
        · exact .inr ⟨_, rfl, rfl, rfl, rfl, Nat.sub_le .., fun _ h ↦ absurd h (by omega)⟩
        · exact .inl ⟨h₄, rfl⟩
        · exact .inr ⟨_, rfl, rfl, rfl, rfl, le_rfl, fun _ _ ↦ ⟨h₄, rfl, rfl⟩⟩

/-- The rollback changes the group table only. -/
theorem rollbackAtomicChunk_snd (st : PartitionState) (r : Reservation) :
    (rollbackAtomicChunk st r).2 =
      { st with atomicGroups := (rollbackAtomicChunk st r).2.atomicGroups } := by
  rcases rollbackAtomicChunk_spec st r with
    h | ⟨b, identity, g, -, -, -, -, -, ⟨-, h⟩ | ⟨g', h, -⟩⟩ <;> rw [h]

@[simp] theorem toPartitionCore_freezeProducer (st : PartitionState)
    (producer : Option ProducerIdentity) :
    (st.freezeProducer producer).toPartitionCore = st.toPartitionCore := by
  cases producer <;> rfl

/-- **A failed append** freezes its producer; a definite failure also aborts the pending batch and
rolls its chunk back. -/
theorem fail_cases (st : PartitionState) (r : Reservation) (producer : Option ProducerIdentity)
    (definite : Bool) :
    (fail st r producer definite).2 = st.freezeProducer producer ∨
      ∃ b, st.batches.get r.batchId = some b ∧ b.reservation = r ∧ b.status = .pending ∧
        definite = true ∧
        (fail st r producer definite).2 = (rollbackAtomicChunk
          ((st.freezeProducer producer).markedBatch r.batchId .aborted 0) r).2 := by
  simp only [fail]
  cases definite with
  | false => exact .inl rfl
  | true =>
    simp only [if_true]
    cases hmark : markBatch (st.freezeProducer producer) r .aborted 0 with
    | error e => exact .inl rfl
    | ok res =>
      obtain ⟨n, st₁⟩ := res
      obtain ⟨b, hget, hres, hstatus, -, rfl⟩ := markBatch_eq_ok_iff.1 hmark
      rw [toPartitionCore_freezeProducer] at hget
      exact .inr ⟨b, hget, hres, hstatus, trivial, rfl⟩

/-! ### Replica reservations -/

/-- A producer is advanced only over sequences that fit. -/
theorem sequence_of_advanceNamedProducer (h : advanceNamedProducer st producer count = .ok st') :
    ∀ p ∈ producer, p.firstSequence + count.get < 2 ^ 64 := by
  intro p hp
  rw [Option.mem_def] at hp
  simp only [advanceNamedProducer, hp, advanceProducer] at h
  split_ifs at h with hlt
  exact hlt

/-- Advancing a producer changes the producer table only. -/
theorem advanceNamedProducer_eq_ok (h : advanceNamedProducer st producer count = .ok st') :
    ∃ producers, st' = { st with producers } := by
  cases producer with
  | none =>
    cases h
    exact ⟨_, rfl⟩
  | some identity =>
    simp only [advanceNamedProducer, advanceProducer] at h
    split_ifs at h
    cases h
    exact ⟨_, rfl⟩

/-- The producer table does not depend on the sequencer. -/
theorem advanceNamedProducer_sequencer (st : PartitionState) (sequencer : TopicSequencer)
    (producer : Option ProducerIdentity) (count : NonZeroU32) :
    advanceNamedProducer { st with sequencer } producer count =
      (advanceNamedProducer st producer count).map fun st ↦ { st with sequencer } := by
  cases producer with
  | none => rfl
  | some p =>
    simp only [advanceNamedProducer, advanceProducer]
    split_ifs <;> rfl

/-- The cursor of a producer that is advanced: a new one, or the one there moved on. -/
theorem exists_of_advanceNamedProducer {p : ProducerIdentity} {producers : Table Nat ProducerCursor}
    (h : advanceNamedProducer st (some p) count = .ok { st with producers }) :
    (∀ c, st.producers.get p.producerId = some c → c.epoch < p.epoch) ∧
        producers = st.producers.insert p.producerId ⟨p.epoch, p.firstSequence + count.get, false⟩ ∨
      ∃ c, st.producers.get p.producerId = some c ∧ p.epoch ≤ c.epoch ∧
        producers = st.producers.insert p.producerId
          { c with nextSequence := p.firstSequence + count.get } := by
  simp only [advanceNamedProducer, advanceProducer, ite_error_eq_ok_iff, Except.ok.injEq] at h
  have hproducers := congrArg PartitionState.producers h.2
  cases hc : st.producers.get p.producerId with
  | none =>
    rw [hc] at hproducers
    exact .inl ⟨fun _ h ↦ (by cases h), hproducers.symm⟩
  | some c =>
    simp only [hc] at hproducers
    split_ifs at hproducers with hnew
    · exact .inl ⟨fun _ h ↦ by cases h; exact hnew, hproducers.symm⟩
    · exact .inr ⟨c, rfl, Nat.le_of_not_lt hnew, hproducers.symm⟩

theorem appendBatchRuntime_eq_ok_iff : appendBatchRuntime st b = .ok st' ↔
      b.reservation.batchId = st.batches.nextKey ∧ b.reservation.batchId + 1 < 2 ^ 128 ∧
        st' = PartitionState.advanceCachedWatermarks { st with batches := st.batches.snoc b } := by
  trans ∃ batches, st.batches.push b.reservation.batchId b = some batches ∧
    st' = PartitionState.advanceCachedWatermarks { st with batches }
  · simp only [appendBatchRuntime]
    cases st.batches.push b.reservation.batchId b <;> simp [eq_comm]
  · simp only [DenseOrderedMap.push_eq_some_iff, and_assoc, exists_and_left, exists_eq_left]
    rfl

/-- The registration of an optional chunk: nothing without a group, and otherwise
`registerAtomicChunk_spec`. It never touches anything but the group table. -/
theorem registerNamedChunk_snd (st : PartitionState) (identity : Option AtomicGroupIdentity)
    (r : Reservation) (bytes : Nat) : (registerNamedChunk st identity r bytes).2 =
      { st with atomicGroups := (registerNamedChunk st identity r bytes).2.atomicGroups } := by
  cases identity with
  | none => rfl
  | some identity =>
    obtain ⟨g', h, -⟩ := registerAtomicChunk_spec st identity r bytes
    rw [registerNamedChunk, h]

/-- The state of a partition that reserved the next batch for a replica, before the group table is
touched. -/
def PartitionState.replicaAppended (st : PartitionState) (producers : Table Nat ProducerCursor)
    (b : BatchRuntime) : PartitionState :=
  PartitionState.advanceCachedWatermarks
    { st with
      sequencer := st.sequencer.advanced b.reservation.recordCount st.sequencer.leaderEpoch
      producers
      batches := st.batches.snoc b }

/-- The coordinates handed out by a reply. -/
def reservedIn : Except EngineError ReserveOutcome → Option Reservation
  | .ok (.reserved reservation _ _) => some reservation
  | _ => none

/-- A producer is advanced whenever its sequences fit. -/
theorem exists_advanceNamedProducer (h : ∀ p ∈ producer, p.firstSequence + count.get < 2 ^ 64) :
    ∃ st', advanceNamedProducer st producer count = .ok st' := by
  cases producer with
  | none => exact ⟨st, rfl⟩
  | some p =>
    simp only [advanceNamedProducer, advanceProducer, not_not.2 (h p rfl)]
    exact ⟨_, rfl⟩

/-- The chunk check passes exactly on the next chunk of an open group that was never decided. -/
theorem checkAtomicGroup_eq_none_iff {requestId bytes : Nat} {digest : Digest}
    {identity : AtomicGroupIdentity} :
    checkAtomicGroup st requestId identity count bytes digest = .ok none ↔
      st.finalizedGroups.get identity.transactionId = none ∧
        (groupEntry st identity.transactionId).state = .unresolved ∧
        identity.chunkSequence = (groupEntry st identity.transactionId).nextSequence := by
  cases hfin : st.finalizedGroups.get identity.transactionId with
  | some o => simp [checkAtomicGroup, Table.contains, hfin]
  | none =>
    cases hget : st.atomicGroups.get identity.transactionId with
    | none =>
      simp only [checkAtomicGroup, Table.contains, hfin, hget, groupEntry]
      by_cases hfirst : identity.chunkSequence = 0 <;> simp [AtomicGroupRuntime.new]
    | some g =>
      simp only [checkAtomicGroup, Table.contains, hfin, hget, groupEntry, Option.getD_some,
        Option.isSome_none, Bool.false_eq_true, if_false, ite_error_eq_ok_iff, not_not, true_and]
      refine and_congr_right fun _ ↦ ⟨fun h ↦ ?_, fun heq ↦ ⟨heq.not_gt, if_pos heq⟩⟩
      replace h := h.2
      by_contra hne
      -- a chunk that is there already gets a receipt
      rw [if_neg hne] at h
      repeat' split at h
      all_goals cases h

/-- The request passes every check of a new replica batch up to the dense map and the counters of
its group. -/
structure PartitionState.PassesChecks (st : PartitionState) (r : Reservation)
    (producer : Option ProducerIdentity) (group : Option AtomicGroupIdentity) : Prop where
  absent : st.batches.get r.batchId = none
  chunk : ∀ identity ∈ group, st.finalizedGroups.get identity.transactionId = none ∧
    (groupEntry st identity.transactionId).state = .unresolved ∧
    identity.chunkSequence = (groupEntry st identity.transactionId).nextSequence
  next : r = st.sequencer.nextReservation r.recordCount st.sequencer.leaderEpoch
  offsets : st.sequencer.nextOffset + r.recordCount.get < 2 ^ 64
  batchIds : st.sequencer.nextBatchId + 1 < 2 ^ 128
  sequences : st.sequencer.nextPlacementSequence + 1 < 2 ^ 64
  producer : ∀ p ∈ producer, p.firstSequence + r.recordCount.get < 2 ^ 64

/-- On a partition whose sequencer and dense map agree, the next batch is pushed. -/
theorem PartitionState.PassesChecks.batchId {group : Option AtomicGroupIdentity}
    (h : st.PassesChecks r producer group)
    (hdense : st.sequencer.nextBatchId = st.batches.nextKey) : r.batchId = st.batches.nextKey := by
  rw [h.next, ← hdense]
  rfl

section Replica

variable (producer) (group : Option AtomicGroupIdentity) (bytes : Nat) (digest : Digest)

/-- **A batch that the partition holds** stays as it is, unless it is aborted and requested as it
was: it is then reopened and its chunk registered. If the chunk is refused, the batch stays pending
and the cursors are not rebuilt. -/
theorem reserveReplica_of_held (hget : st.batches.get r.batchId = some b) :
    (¬ (b.status = .aborted ∧ b.matchesReplica r producer group bytes digest = true) ∧
        ∃ reply, reservedIn reply = none ∧
          reserveReplica st r producer group bytes digest = (reply, st)) ∨
      (b.status = .aborted ∧ b.matchesReplica r producer group bytes digest = true) ∧
        ∃ out, registerNamedChunk (st.reopen r.batchId producer digest) group r bytes = out ∧
          ((∃ e, out.1 = .error e ∧
              reserveReplica st r producer group bytes digest = (.error e, out.2)) ∨
            out.1 = .ok () ∧ reserveReplica st r producer group bytes digest =
              (.ok (reservedReplica out.2 r producer digest),
                out.2.resetCachedWatermarksAfterTruncate)) := by
  simp only [reserveReplica, hget, reserveExistingReplica]
  by_cases hmatch : b.matchesReplica r producer group bytes digest = true
  · simp only [hmatch]
    cases hstatus : b.status with
    | pending | committed | unresolved => exact .inl ⟨by simp, _, rfl, rfl⟩
    | aborted =>
      refine .inr ⟨by simp, _, rfl, ?_⟩
      rcases registerNamedChunk (st.reopen r.batchId producer digest) group r bytes with
        ⟨e | _, st'⟩
      · exact .inl ⟨e, rfl, rfl⟩
      · exact .inr ⟨rfl, rfl⟩
  · simp only [hmatch]
    exact .inl ⟨by simp, _, rfl, rfl⟩

/-- **A batch that the partition does not hold** is refused, or its sequencer and producer advance.
It is then refused by the dense map, or appended and its chunk registered. -/
theorem reserveReplica_of_absent (hget : st.batches.get r.batchId = none) :
    (¬ st.PassesChecks r producer group ∧ ∃ e,
        reserveReplica st r producer group bytes digest = (.error e, st)) ∨
      st.PassesChecks r producer group ∧ ∃ producers,
        advanceNamedProducer st producer r.recordCount = .ok { st with producers } ∧
        ((r.batchId ≠ st.batches.nextKey ∧ ∃ e,
            reserveReplica st r producer group bytes digest = (.error e, { st with
              sequencer := st.sequencer.advanced r.recordCount st.sequencer.leaderEpoch
              producers })) ∨
          r.batchId = st.batches.nextKey ∧ ∃ out,
            registerNamedChunk (st.replicaAppended producers
              (pendingBatch r producer group bytes digest)) group r bytes = out ∧
            reserveReplica st r producer group bytes digest =
              (out.1.map fun _ ↦ reservedReplica out.2 r producer digest, out.2)) := by
  by_cases hcheck : ∀ g ∈ group, checkAtomicGroup st 0 g r.recordCount bytes digest = .ok none
  swap
  · refine .inl ⟨fun h ↦ hcheck fun g hg ↦ checkAtomicGroup_eq_none_iff.2 (h.chunk g hg), ?_⟩
    cases group with
    | none => simp at hcheck
    | some g =>
      simp only [Option.mem_some_iff, forall_eq'] at hcheck
      simp only [reserveReplica, hget]
      rcases hdup : checkAtomicGroup st 0 g r.recordCount bytes digest with e | _ | o
      · exact ⟨_, rfl⟩
      · exact absurd hdup hcheck
      · exact ⟨_, rfl⟩
  have hnew : reserveReplica st r producer group bytes digest =
      reserveNewReplica st r producer group bytes digest := by
    simp only [reserveReplica, hget]
    cases group with
    | none => rfl
    | some g => simp only [hcheck g rfl]
  rw [hnew]
  simp only [reserveNewReplica]
  cases hreserve : st.sequencer.reserve r.recordCount with
  | error e =>
    -- the checks would have let the sequencer go on
    refine .inl ⟨fun h ↦ ?_, _, rfl⟩
    rw [reserve_eq_ok_iff.2 ⟨h.offsets, h.batchIds, h.sequences, rfl, rfl⟩] at hreserve
    cases hreserve
  | ok reserved =>
    obtain ⟨expected, sequencer⟩ := reserved
    obtain ⟨hoff, hid, hseq, hexpected, rfl⟩ := reserve_eq_ok_iff.1 hreserve
    by_cases heq : expected = r
    swap
    · simp only [ne_eq, heq]
      exact .inl ⟨fun h ↦ heq (hexpected.trans h.next.symm), _, rfl⟩
    subst heq
    simp only [ne_eq, advanceNamedProducer_sequencer]
    cases hadvance : advanceNamedProducer st producer expected.recordCount with
    | error e =>
      refine .inl ⟨fun h ↦ ?_, _, rfl⟩
      obtain ⟨st', hok⟩ : ∃ st', advanceNamedProducer st producer expected.recordCount = .ok st' :=
        exists_advanceNamedProducer h.producer
      rw [hadvance] at hok
      cases hok
    | ok st₁ =>
      obtain ⟨producers, rfl⟩ := advanceNamedProducer_eq_ok hadvance
      refine .inr ⟨⟨hget, fun g hg ↦ checkAtomicGroup_eq_none_iff.1 (hcheck g hg), hexpected, hoff,
        hid, hseq, sequence_of_advanceNamedProducer hadvance⟩, producers, rfl, ?_⟩
      simp only [Except.map]
      cases happend : appendBatchRuntime
          { st with
            sequencer := st.sequencer.advanced expected.recordCount st.sequencer.leaderEpoch
            producers } (pendingBatch expected producer group bytes digest) with
      | error e =>
        refine .inl ⟨fun hkey ↦ ?_, e, rfl⟩
        rw [appendBatchRuntime_eq_ok_iff.2 ⟨hkey, by rw [hexpected]; exact hid, rfl⟩] at happend
        cases happend
      | ok st₂ =>
        obtain ⟨hkey, -, rfl⟩ := appendBatchRuntime_eq_ok_iff.1 happend
        refine .inr ⟨hkey, _, rfl, ?_⟩
        simp only [not_true_eq_false, if_false]
        split <;> rename_i hreg <;> rw [show registerNamedChunk (st.replicaAppended producers
          (pendingBatch expected producer group bytes digest)) group expected bytes = _ from hreg]

end Replica

/-- A receipt of `replica::prepare` is not a reservation. -/
theorem prepareReplica_eq_duplicate {intent : ReplicaIntent} {o : ReserveOutcome}
    (h : prepareReplica st intent = .ok (.duplicate o)) :
    ∃ response copies object policy, o = .duplicate response copies object policy := by
  simp only [prepareReplica] at h
  repeat' split at h
  all_goals
    cases h
    try exact ⟨_, _, _, _, rfl⟩

/-- **Guarded replica commits** allocate exactly as leader commits do. -/
theorem commitReplica_cases (st : PartitionState) (p : PreparedReplica) (control : CommitControl) :
    ((commitReplica st p control).2.1 = st ∧
        ∀ r producer policy, (commitReplica st p control).1 ≠ .ok (.reserved r producer policy)) ∨
      (p.prepared.Valid st ∧ (commitReplica st p control).1 = .ok p.prepared.reply ∧
        (commitReplica st p control).2.1 = st.allocated p.prepared) := by
  simp only [commitReplica]
  cases hprep : prepareReplica st p.intent with
  | error e => exact .inl ⟨rfl, by simp⟩
  | ok outcome =>
    cases outcome with
    | duplicate o =>
      obtain ⟨response, copies, object, policy, rfl⟩ := prepareReplica_eq_duplicate hprep
      exact .inl ⟨rfl, by simp⟩
    | new => exact commitSource_cases st p.prepared (some control)

/-! ### Commands that write control records -/

theorem checkFinalizable_eq_ok_iff {txn : Nat} {outcome : AtomicGroupState} {ids : List Nat} :
    checkFinalizable st txn outcome ids = .ok () ↔
      ∀ id ∈ ids, ∃ b, st.batches.get id = some b ∧ b.status = .unresolved ∧
        (outcome = .committed → st.replicationPolicy.minInSyncReplicas ≤ b.durableReplicas) := by
  induction ids with
  | nil => simp [checkFinalizable]
  | cons id ids ih =>
    simp only [checkFinalizable, List.forall_mem_cons]
    cases hget : st.batches.get id with
    | none => simp
    | some b =>
      simp only [ite_error_eq_ok_iff, ih, Option.some.injEq, exists_eq_left', not_not, not_and,
        Nat.not_lt, and_assoc]

/-- **Group decisions.** Either the partition is unchanged and no record is durable, or an
undecided group all of whose chunks are settled is decided. -/
theorem finalizeAtomicGroup_cases (st : PartitionState) (journal : Except EngineError Unit)
    (tp : TopicPartition) (txn : Nat) (outcome : AtomicGroupState) :
    ((finalizeAtomicGroup st journal tp txn outcome).state = st ∧
        ((finalizeAtomicGroup st journal tp txn outcome).event = none ∨ ∃ e, journal = .error e)) ∨
      ∃ g, st.atomicGroups.get txn = some g ∧ g.state = .unresolved ∧ outcome ≠ .unresolved ∧
        checkFinalizable st txn outcome g.batchIds = .ok () ∧ journal = .ok () ∧
        (finalizeAtomicGroup st journal tp txn outcome).state = st.decideGroup txn g outcome ∧
        (finalizeAtomicGroup st journal tp txn outcome).event =
          some (finalizeMarker tp txn outcome) := by
  unfold finalizeAtomicGroup
  split
  · exact .inl ⟨rfl, .inl rfl⟩
  next hout =>
  split
  · exact .inl ⟨rfl, .inl rfl⟩
  next g hget =>
  split
  · exact .inl ⟨rfl, .inl rfl⟩
  split
  · exact .inl ⟨rfl, .inl rfl⟩
  next hopen =>
  split
  · exact .inl ⟨rfl, .inl rfl⟩
  next hcheck =>
  cases journal with
  | error e => exact .inl ⟨rfl, .inr ⟨e, rfl⟩⟩
  | ok => exact .inr ⟨g, hget, not_not.1 hopen, hout, hcheck, rfl, rfl, rfl⟩

/-- **Policy changes.** -/
theorem updateReplicationPolicy_cases (st : PartitionState) (journal : Except EngineError Unit)
    (tp : TopicPartition) (expected : Nat) (policy : PartitionReplicationPolicy) :
    ((updateReplicationPolicy st journal tp expected policy).state = st ∧
        ((updateReplicationPolicy st journal tp expected policy).event = none ∨
          ∃ e, journal = .error e)) ∨
      (st.replicationPolicy ≠ policy ∧ st.replicationPolicy.policyGeneration = expected ∧
        expected < policy.policyGeneration ∧
        st.lastStableOffset ≤ st.computeReplicatedHighWatermark policy.minInSyncReplicas ∧
        journal = .ok () ∧
        (updateReplicationPolicy st journal tp expected policy).state =
          PartitionState.resetCachedWatermarksAfterTruncate
            { st with replicationPolicy := policy } ∧
        (updateReplicationPolicy st journal tp expected policy).event =
          some (.updateReplicationPolicy tp expected policy.policyGeneration
            policy.replicationFactor policy.minInSyncReplicas)) := by
  simp only [updateReplicationPolicy]
  split_ifs with h₁ h₂ h₃ h₄
  · exact .inl ⟨rfl, .inl rfl⟩
  · exact .inl ⟨rfl, .inl rfl⟩
  · exact .inl ⟨rfl, .inl rfl⟩
  · exact .inl ⟨rfl, .inl rfl⟩
  · cases journal with
    | error e => exact .inl ⟨rfl, .inr ⟨e, rfl⟩⟩
    | ok => exact .inr ⟨h₁, not_not.1 h₂, by omega, by omega, rfl, rfl, rfl⟩

/-- **Retention.** Either the partition is unchanged and no record is durable, or the batches below
the first retained key are dropped. -/
theorem truncate_cases (st : PartitionState) (journal : Except EngineError Unit)
    (tp : TopicPartition) (logStart : Nat) :
    ((truncate st journal tp logStart).state = st ∧
        ((truncate st journal tp logStart).event = none ∨ ∃ e, journal = .error e) ∧
        ∀ w, (truncate st journal tp logStart).reply = .ok w → logStart = st.logStart) ∨
      ∃ key, firstRetained st logStart = some key ∧ continuesGroup st key = false ∧
        st.logStart < logStart ∧ logStart ≤ st.lastStableOffset ∧
        (retentionFloor st key).2.1 = logStart ∧ journal = .ok () ∧
        (truncate st journal tp logStart).state = st.dropBefore logStart key ∧
        (truncate st journal tp logStart).event =
          some (.truncateCheckpoint tp logStart (retentionFloor st key).1
            (retentionFloor st key).2.1 (retentionFloor st key).2.2) := by
  unfold truncate
  split
  · exact .inl ⟨rfl, .inl rfl, nofun⟩
  split
  · exact .inl ⟨rfl, .inl rfl, nofun⟩
  split
  · exact .inl ⟨rfl, .inl rfl, nofun⟩
  next key hkey =>
  split
  · exact .inl ⟨rfl, .inl rfl, nofun⟩
  next hsplit =>
  split
  next hsame => exact .inl ⟨rfl, .inl rfl, fun _ _ ↦ hsame⟩
  dsimp only
  split
  · exact .inl ⟨rfl, .inl rfl, nofun⟩
  next hfloor =>
  cases journal with
  | error e => exact .inl ⟨rfl, .inr ⟨e, rfl⟩, nofun⟩
  | ok =>
    exact .inr
      ⟨key, hkey, by simpa using hsplit, by omega, by omega, not_not.1 hfloor, rfl, rfl, rfl⟩

/-- **Ring changes.** -/
theorem reconfigure_cases (st : PartitionState) (journal : Except EngineError Unit)
    (tp : TopicPartition) (ringEpoch : Nat) (shards : List Nat) :
    ((reconfigure st journal tp ringEpoch shards).state = st ∧
        ((reconfigure st journal tp ringEpoch shards).event = none ∨ ∃ e, journal = .error e)) ∨
      ∃ ring : PlacementRing, ring.lanes = shards ∧ st.sequencer.ringEpoch < ringEpoch ∧
        journal = .ok () ∧
        (reconfigure st journal tp ringEpoch shards).state =
          { st with sequencer := { st.sequencer with ringEpoch, virtualLanes := ring } } ∧
        (reconfigure st journal tp ringEpoch shards).event =
          some (.configure tp ringEpoch shards) := by
  simp only [reconfigure, restore_state]
  cases hre : st.sequencer.reconfigure ringEpoch shards with
  | error e => exact .inl ⟨rfl, .inl rfl⟩
  | ok s =>
    obtain ⟨hlt, ring, hlanes, rfl⟩ := reconfigure_eq_ok_iff.1 hre
    cases journal with
    | error e => exact .inl ⟨rfl, .inr ⟨e, rfl⟩⟩
    | ok => exact .inr ⟨ring, hlanes, hlt, rfl, rfl, rfl⟩

/-- **Epoch observations.** -/
theorem observeLeaderEpoch_eq_ok {leaderEpoch : Nat}
    (h : observeLeaderEpoch st leaderEpoch = .ok st') :
    st.sequencer.leaderEpoch ≤ leaderEpoch ∧
      st' = { st with sequencer := { st.sequencer with leaderEpoch } } := by
  simp only [observeLeaderEpoch] at h
  split at h
  · cases h
  · next s hs =>
    cases h
    obtain ⟨hle, rfl⟩ := observeLeaderEpoch_eq_ok_iff.1 hs
    exact ⟨hle, rfl⟩

end ShardStream
