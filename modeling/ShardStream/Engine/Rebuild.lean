import ShardStream.Engine.Boundaries
import ShardStream.Engine.Recovery

/-!
# What a recovery rebuilds

The loop over the extents of a partition is followed with one invariant, `Rebuilt`: after the
extents `E`, the batches run without a break from the retention floor, every extent of `E` sits
under its own batch id with the status its group's marker gives it, everything else is an aborted
placeholder without producer, group or payload, and the group and producer tables are functions of
`E`.

`recoverEntry_eq_ok_iff` lists everything one extent has to satisfy; the two conditions a crash can
violate are that its chunk is the next one of its group, and that at most
`maxRecoveredGapBatches` batches are missing before it.
-/

namespace ShardStream

open PartitionCore List Option DenseOrderedMap ExtentCatalogEntry

variable {id off ringEpoch replicas base remainder : Nat} {r : Reservation} {acc acc' : Recovering}
  {st : PartitionState} {tp : TopicPartition} {e : ExtentCatalogEntry} {ring : PlacementRing}

/-! ### Filling a gap -/

/-- `st'` differs from `st` in its batches, its cursors and its waiters only. -/
structure SameTables (st st' : PartitionState) : Prop where
  sequencer : st'.sequencer = st.sequencer
  logStart : st'.logStart = st.logStart
  replicationPolicy : st'.replicationPolicy = st.replicationPolicy
  atomicGroups : st'.atomicGroups = st.atomicGroups
  finalizedGroups : st'.finalizedGroups = st.finalizedGroups
  producers : st'.producers = st.producers
  dedup : st'.dedup = st.dedup

theorem SameTables.refl (st : PartitionState) :
    SameTables st st := ⟨rfl, rfl, rfl, rfl, rfl, rfl, rfl⟩

variable {st' st'' : PartitionState} {history : RingHistory}

theorem SameTables.trans (h : SameTables st st') (h' : SameTables st' st'') : SameTables st st'' :=
  ⟨h'.sequencer.trans h.sequencer, h'.logStart.trans h.logStart,
    h'.replicationPolicy.trans h.replicationPolicy, h'.atomicGroups.trans h.atomicGroups,
    h'.finalizedGroups.trans h.finalizedGroups, h'.producers.trans h.producers,
    h'.dedup.trans h.dedup⟩

/-- The reservation agrees with the ring its epoch names. -/
def PlacedIn (history : RingHistory) (r : Reservation) : Prop :=
  ∃ ring, history.lookup r.placement.ringEpoch = some ring ∧
    ring.lane r.placement.sequence = r.placement.virtualLaneId

/-- A batch without an extent: aborted, and with nothing but its coordinates. -/
def BatchRuntime.IsPlaceholder (b : BatchRuntime) : Prop := b = abortedBatch b.reservation

/-- `st'` is `st` with `bs` appended to its batches. -/
structure Appended (st st' : PartitionState) (bs : List BatchRuntime) : Prop where
  tables : SameTables st st'
  firstKey : st'.batches.firstKey = st.batches.firstKey
  values : st'.batches.values = st.batches.values ++ bs

theorem Appended.refl (st : PartitionState) : Appended st st [] := ⟨.refl st, rfl, by simp⟩

theorem Appended.trans {bs cs : List BatchRuntime} (h : Appended st st' bs)
    (h' : Appended st' st'' cs) : Appended st st'' (bs ++ cs) :=
  ⟨h.tables.trans h'.tables, h'.firstKey.trans h.firstKey, by
    rw [h'.values, h.values, append_assoc]⟩

theorem appended_of_appendBatchRuntime {b : BatchRuntime} (h : appendBatchRuntime st b = .ok st') :
    Appended st st' [b] := by
  obtain ⟨-, -, rfl⟩ := appendBatchRuntime_eq_ok_iff.1 h
  exact ⟨⟨rfl, rfl, rfl, rfl, rfl, rfl, rfl⟩, rfl, rfl⟩

section Gap

/-- **The gap loop**, for a gap that ends within the types of its coordinates. The `n` placeholders
lie end to end and cover `n * base` records, plus one for each index below the remainder. -/
theorem appendAborts_spec : ∀ {n index off : Nat} {st st' : PartitionState},
    appendAborts tp ring ringEpoch base remainder id id n index off st = .ok st' →
    id + index + n ≤ 2 ^ 64 → off + n * base + min n (remainder - index) < 2 ^ 64 →
    ∃ gap, Appended st st' gap ∧ gap.length = n ∧
      Laid tp (id + index) off (gap.map (·.reservation)) ∧
      endOffset off (gap.map (·.reservation)) = off + n * base + min n (remainder - index) ∧
      ∀ b ∈ gap, b.IsPlaceholder ∧ b.reservation.placement.ringEpoch = ringEpoch ∧
        b.reservation.placement.virtualLaneId = ring.lane b.reservation.placement.sequence
  | 0, index, off, st, st', h, _, _ => by
    cases h
    exact ⟨[], .refl st, rfl, trivial, by simp, by simp⟩
  | n + 1, index, off, st, st', h, hids, hoffs => by
    have hshare : gapShare base remainder index + n * base + min n (remainder - (index + 1)) =
        (n + 1) * base + min (n + 1) (remainder - index) := by
      rw [gapShare, Nat.succ_mul]
      split_ifs <;> omega
    simp only [appendAborts] at h
    rw [Nat.mod_eq_of_lt (by omega : id + index < 2 ^ 128),
      Nat.mod_eq_of_lt (by omega : id + index < 2 ^ 64)] at h
    split_ifs at h with hbig hzero hoff
    set count := gapShare base remainder index with hcount
    set r := abortedReservation tp ring ringEpoch st.sequencer.leaderEpoch (id + index) off
      (id + index) ⟨count, Nat.pos_of_ne_zero hzero, hbig⟩ with hr
    cases happ : appendBatchRuntime st (abortedBatch r) with
    | error e => rw [happ] at h; cases h
    | ok st₁ =>
      rw [happ] at h
      have hnext : nextOffset r = off + count := by
        simp only [nextOffset, hr, abortedReservation]
        omega
      have hstep : (off + (count - 1) + 1) % 2 ^ 64 = off + count := by
        rw [Nat.mod_eq_of_lt] <;> omega
      change appendAborts _ _ _ _ _ _ _ n (index + 1) ((off + (count - 1) + 1) % 2 ^ 64) st₁ = _
        at h
      rw [hstep] at h
      obtain ⟨gap, happended, hlen, hlaid, hend, hgap⟩ := appendAborts_spec h (by omega) (by omega)
      refine ⟨abortedBatch r :: gap, (appended_of_appendBatchRuntime happ).trans happended,
        by simp [hlen], ⟨rfl, rfl, rfl, rfl, hnext, ?_⟩, ?_, ?_⟩
      · change Laid tp (id + index + 1) (nextOffset r) _
        rw [hnext]
        exact hlaid
      · change endOffset (nextOffset r) _ = _
        rw [hnext, hend]
        omega
      · intro b hb
        rcases mem_cons.1 hb with rfl | hb
        · exact ⟨rfl, rfl, rfl⟩
        · exact hgap b hb

end Gap

/-- **Gaps.** What a filled gap looks like. -/
theorem appendRecoveredAborts_spec {missing records : Nat}
    (h : appendRecoveredAborts st history tp id off id missing records ringEpoch = .ok st')
    (hids : id + missing ≤ 2 ^ 64) (hoffs : off + records < 2 ^ 64) :
    missing ≤ maxRecoveredGapBatches ∧
      ∃ gap, Appended st st' gap ∧ gap.length = missing ∧ Laid tp id off (gap.map (·.reservation)) ∧
        endOffset off (gap.map (·.reservation)) = off + records ∧
        ∀ b ∈ gap, b.IsPlaceholder ∧ PlacedIn history b.reservation := by
  simp only [appendRecoveredAborts] at h
  by_cases hzero : missing = 0
  · split_ifs at h with hrec
    cases h
    exact ⟨by omega, [], .refl st, by simp [hzero], trivial, by simp [hrec], by simp⟩
  · split_ifs at h with hu64 hbounds
    cases hring : history.lookup ringEpoch with
    | none => rw [hring] at h; cases h
    | some ring =>
      rw [hring] at h
      have hshares : off + missing * (records / missing) + min missing (records % missing - 0) =
          off + records := by
        have := Nat.mod_lt records (Nat.pos_of_ne_zero hzero)
        have := Nat.div_add_mod records missing
        omega
      obtain ⟨gap, happ, hlen, hlaid, hend, hgap⟩ := appendAborts_spec h hids (by rwa [hshares])
      refine ⟨by omega, gap, happ, hlen, hlaid, hend.trans hshares, fun b hb ↦ ?_⟩
      · obtain ⟨hplace, hepoch, hlane⟩ := hgap b hb
        exact ⟨hplace, ring, hepoch ▸ hring, hlane.symm⟩

/-- The batch stands for the `i`-th of those that are missing from an id, an offset and a sequence
on. -/
def BatchRuntime.FillsGap (tp : TopicPartition) (ring : PlacementRing)
    (ringEpoch leaderEpoch base remainder id off seq i : Nat) (b : BatchRuntime) : Prop :=
  b = abortedBatch (abortedReservation tp ring ringEpoch leaderEpoch (id + i)
    (off + (i * base + min i remainder)) (seq + i) b.reservation.recordCount) ∧
  b.reservation.recordCount.get = gapShare base remainder i

section Fill

variable {seq : Nat}

theorem gapShare_eq (base remainder i : Nat) :
    i * base + min i remainder + gapShare base remainder i =
      (i + 1) * base + min (i + 1) remainder := by
  rw [gapShare, Nat.succ_mul]
  split_ifs <;> omega

/-- **The loop fills a gap** that ends within the types of its coordinates. -/
theorem exists_appendAborts (tp : TopicPartition) (ring : PlacementRing) (ringEpoch off seq : Nat)
    {n i : Nat} (hbase : 0 < base) (hcount : ∀ i, gapShare base remainder i < 2 ^ 32)
    (hid : st.batches.nextKey = id + i) (hids : id + (i + n) < 2 ^ 128)
    (hseq : seq + (i + n) ≤ 2 ^ 64)
    (hoff : off + ((i + n) * base + min (i + n) remainder) < 2 ^ 64) :
    ∃ st' gap, appendAborts tp ring ringEpoch base remainder id seq n i
        (off + (i * base + min i remainder)) st = .ok st' ∧
      Appended st st' gap ∧ gap.length = n ∧
      i * base + min i remainder + (gap.map (·.reservation.recordCount.get)).sum =
        (i + n) * base + min (i + n) remainder ∧
      ∀ j (b : BatchRuntime), gap[j]? = some b →
        b.FillsGap tp ring ringEpoch st.sequencer.leaderEpoch base remainder id off
          seq (i + j) := by
  induction n generalizing i st with
  | zero => exact ⟨st, [], rfl, .refl st, rfl, rfl, by simp⟩
  | succ n ih =>
    have hshare := gapShare_eq base remainder i
    have hpos : 0 < gapShare base remainder i := Nat.add_pos_left hbase _
    have hnext : off + (i * base + min i remainder) + (gapShare base remainder i - 1) + 1 =
        off + ((i + 1) * base + min (i + 1) remainder) := by omega
    have hend : (i + 1) * base ≤ (i + (n + 1)) * base := Nat.mul_le_mul_right _ (by omega)
    set r := abortedReservation tp ring ringEpoch st.sequencer.leaderEpoch (id + i)
      (off + (i * base + min i remainder)) (seq + i) ⟨_, hpos, hcount i⟩ with hr
    have happ : appendBatchRuntime st (abortedBatch r) = .ok (PartitionState.advanceCachedWatermarks
        { st with batches := st.batches.snoc (abortedBatch r) }) := by
      refine appendBatchRuntime_eq_ok_iff.2 ⟨hid.symm, ?_, rfl⟩
      change id + i + 1 < _
      omega
    obtain ⟨st', gap, hrest, happended, hlen, hsum, hgap⟩ := @ih
      (PartitionState.advanceCachedWatermarks { st with
        batches := st.batches.snoc (abortedBatch r) })
      (i + 1) (by simp [hid, Nat.add_assoc]) (by omega) (by omega) (by rwa [Nat.add_right_comm])
    refine ⟨st', abortedBatch r :: gap, ?_, (appended_of_appendBatchRuntime happ).trans happended,
      by simp [hlen], ?_, fun j b hb ↦ ?_⟩
    · simp only [appendAborts]
      rw [dif_neg (not_not.2 (hcount i)), dif_neg hpos.ne', if_neg (by omega),
        Nat.mod_eq_of_lt (by omega : id + i < 2 ^ 128),
        Nat.mod_eq_of_lt (by omega : seq + i < 2 ^ 64)]
      rw [happ]
      rwa [hnext, Nat.mod_eq_of_lt (by omega)]
    · rw [map_cons, sum_cons, ← Nat.add_assoc]
      change _ + gapShare base remainder i + _ = _
      rw [hshare, hsum, Nat.add_right_comm]
      rfl
    · cases j with
      | zero =>
        cases hb
        exact ⟨rfl, rfl⟩
      | succ j =>
        rw [Nat.add_comm j, ← Nat.add_assoc]
        exact hgap j b hb

/-- **Recovered gaps are filled exactly**, where they end within the types of their coordinates:
with consecutive ids and sequences, shares of the records that differ by one at most, and lanes
round robin; nothing overflows, and the batch after the gap is accepted. -/
theorem recovered_gap_filled (tp : TopicPartition) (off seq missing records : Nat)
    (hring : history.lookup ringEpoch = some ring) (hid : st.batches.nextKey = id)
    (hmissing : missing ≤ maxRecoveredGapBatches)
    (hrecords : missing ≤ records) (hlimit : records ≤ missing * (2 ^ 32 - 1))
    (hids : id + missing < 2 ^ 128) (hoff : off + records < 2 ^ 64)
    (hseq : seq + missing ≤ 2 ^ 64) :
      ∃ st' gap, appendRecoveredAborts st history tp id off seq missing records ringEpoch =
      .ok st' ∧ Appended st st' gap ∧ gap.length = missing ∧
      (gap.map (·.reservation.recordCount.get)).sum = records ∧
      (∀ i (b : BatchRuntime), gap[i]? = some b →
        b.FillsGap tp ring ringEpoch st.sequencer.leaderEpoch (records / missing)
          (records % missing) id off seq i ∧
        b.reservation.lastOffset + 1 < 2 ^ 64 ∧ b.reservation.placement.sequence < 2 ^ 64) ∧
      ∀ b : BatchRuntime, b.reservation.batchId = id + missing → id + missing + 1 < 2 ^ 128 →
        ∃ st'', appendBatchRuntime st' b = .ok st'' := by
  rcases Nat.eq_zero_or_pos missing with rfl | hpos
  · obtain rfl : records = 0 := by omega
    exact ⟨st, [], rfl, .refl st, rfl, rfl, by simp, fun b hb hlt ↦
      ⟨_, appendBatchRuntime_eq_ok_iff.2 ⟨hb.trans hid.symm, by rwa [hb], rfl⟩⟩⟩
  have hparts := Nat.div_add_mod records missing
  have hrem := Nat.mod_lt records hpos
  have hbase : 0 < records / missing := Nat.div_pos hrecords hpos
  have hle : records / missing ≤ 2 ^ 32 - 1 := Nat.div_le_of_le_mul hlimit
  generalize hdiv : records / missing = base, hmod : records % missing = remainder at *
  have hcount : ∀ i, gapShare base remainder i < 2 ^ 32 := by
    intro i
    rw [gapShare]
    split_ifs with hi
    · have hne : base ≠ 2 ^ 32 - 1 := by
        rintro rfl
        omega
      omega
    · omega
  obtain ⟨st', gap, happend, happended, hlen, hsum, hgap⟩ :=
    exists_appendAborts tp ring ringEpoch off seq (i := 0) hbase hcount hid
      (by rwa [Nat.zero_add]) (by rwa [Nat.zero_add])
      (by rwa [Nat.zero_add, min_eq_right hrem.le, hparts])
  simp only [Nat.zero_mul, Nat.zero_add, Nat.zero_min, min_eq_right hrem.le, hparts]
    at happend hsum hgap
  refine ⟨st', gap, ?_, happended, hlen, hsum, fun i b hb ↦ ⟨hgap i b hb, ?_, ?_⟩,
    fun b hb hlt ↦ ⟨_, appendBatchRuntime_eq_ok_iff.2 ⟨?_, by rwa [hb], rfl⟩⟩⟩
  · have hbounds : ¬ (maxRecoveredGapBatches < missing ∨ records < missing ∨
        min (missing * (2 ^ 32 - 1)) (2 ^ 64 - 1) < records) := by
      simp only [not_or, not_lt]
      exact ⟨hmissing, hrecords, le_min hlimit (by omega)⟩
    rw [appendRecoveredAborts, if_neg hpos.ne', if_neg (not_not.2 (by omega)), if_neg hbounds,
      hring, hdiv, hmod]
    exact happend
  · have hlast : (i + 1) * base ≤ missing * base :=
      Nat.mul_le_mul_right _ (hlen ▸ (List.getElem?_eq_some_iff.1 hb).1)
    have hshare := gapShare_eq base remainder i
    have hshare_pos : 0 < gapShare base remainder i := Nat.add_pos_left hbase _
    rw [(hgap i b hb).1]
    change off + (i * base + min i remainder) + (b.reservation.recordCount.get - 1) + 1 < _
    rw [(hgap i b hb).2]
    omega
  · have hlt := (List.getElem?_eq_some_iff.1 hb).1
    rw [(hgap i b hb).1]
    change seq + i < _
    omega
  · rw [hb, DenseOrderedMap.nextKey, happended.firstKey, happended.values, length_append, hlen,
      ← Nat.add_assoc, ← hid]
    rfl

end Fill

/-- A partition without batches. -/
def withoutBatches : PartitionState := .empty ⟨0, 0, 1, 0, oneShardRing, 0, 0, 0⟩ ⟨1, 1, 1⟩

/-- A gap of one batch with two records, the first of which has the last offset. -/
theorem gap_beyond_last_offset : withoutBatches.batches.nextKey = 0 ∧
    appendRecoveredAborts withoutBatches [(1, oneShardRing)] ⟨0, 0⟩ 0 (2 ^ 64 - 1) 0 1 2 1 =
      .error (.corruptState "abort offset overflow") :=
  ⟨rfl, rfl⟩

/-- Five records in three batches. -/
theorem five_records_filled : ∃ (st' : PartitionState) (gap : List BatchRuntime),
    appendRecoveredAborts withoutBatches [(1, oneShardRing)] ⟨0, 0⟩ 0 7 0 3 5 1 = .ok st' ∧
      gap.length = 3 ∧ (gap.map (·.reservation.recordCount.get)).sum = 5 := by
  obtain ⟨st', gap, hok, -, hlen, hsum, -⟩ := recovered_gap_filled ⟨0, 0⟩ 7 0 3 5
    (show lookup 1 [(1, oneShardRing)] = some oneShardRing from rfl)
    (show withoutBatches.batches.nextKey = 0 from rfl) (by decide) (by decide) (by decide)
    (by decide) (by decide) (by decide)
  exact ⟨st', gap, hok, hlen, hsum⟩

/-! ### One extent -/

theorem validateRecoveredExtent_eq_ok_iff : validateRecoveredExtent history tp r = .ok () ↔
      r.topicPartition = tp ∧ r.batchId = r.placement.sequence ∧ PlacedIn history r := by
  cases hring : history.lookup r.placement.ringEpoch <;>
    simp [validateRecoveredExtent, PlacedIn, hring, ite_error_eq_ok_iff, and_assoc]

/-- The deduplication record rebuilt from an extent of a producer. -/
def restoredRecord (r : Reservation) (p : ProducerSequence) (replicas : Nat)
    (objectDurable : Bool) : DedupRecord :=
  { digestAlgorithm := p.digestAlgorithm, payloadDigest := p.payloadDigest
    eventId := p.eventId, recordCount := r.recordCount.get, durableReplicas := replicas
    objectDurable, response := appendResponse 0 r }

namespace ExtentCatalogEntry

/-- The producer table after the extent. -/
def restoreCursor (t : Table Nat ProducerCursor) (e : ExtentCatalogEntry) :
    Table Nat ProducerCursor :=
  match e.producer with
  | none => t
  | some p => t.insert p.producerId
      (restoredCursor (t.get p.producerId) p (p.firstSequence + e.reservation.recordCount.get))

/-- The deduplication table after the extent. -/
def restoreDedup (replicas : Nat) (t : Table (Nat × Nat × Nat) DedupRecord)
    (e : ExtentCatalogEntry) : Table (Nat × Nat × Nat) DedupRecord :=
  match e.producer with
  | none => t
  | some p => t.insert p.identity.key (restoredRecord e.reservation p replicas e.objectDurable)

/-- The extent is a chunk of the group `txn`. -/
def inGroup (txn : Nat) (e : ExtentCatalogEntry) : Bool :=
  e.atomicGroup.any fun g ↦ g.transactionId = txn

end ExtentCatalogEntry

theorem restoreProducer_eq_ok_iff :
    restoreProducer st e.reservation e.producer replicas e.objectDurable = .ok st' ↔
      (∀ p ∈ e.producer, p.firstSequence + e.reservation.recordCount.get < 2 ^ 64) ∧
        st' = { st with
          producers := e.restoreCursor st.producers, dedup :=
          e.restoreDedup replicas st.dedup } := by
  simp only [restoreProducer, restoreCursor, restoreDedup]
  cases e.producer with
  | none => simp [eq_comm (b := st')]
  | some p =>
    simp only [ite_error_eq_ok_iff, not_not, Except.ok.injEq, mem_def, some.injEq, forall_eq',
      eq_comm (b := st')]
    rfl

/-- The entry of a group whose chunks so far are `chunks`. -/
def groupOf (chunks : List ExtentCatalogEntry) : AtomicGroupRuntime :=
  { state := .unresolved
    batchIds := chunks.map (·.reservation.batchId)
    nextSequence := chunks.length
    payloadBytes := (chunks.map (·.payloadBytes)).sum
    recordCount := (chunks.map (·.reservation.recordCount.get)).sum }

/-- What a chunk needs to be the next one of its group, after `chunks`. -/
structure NextChunk (chunks : List ExtentCatalogEntry) (g : AtomicGroupSequence)
    (e : ExtentCatalogEntry) : Prop where
  sequence : g.chunkSequence = chunks.length
  bytes : (chunks.map (·.payloadBytes)).sum + e.payloadBytes < 2 ^ 64
  records : (chunks.map (·.reservation.recordCount.get)).sum + e.reservation.recordCount.get <
    2 ^ 64
  room : chunks.length + 1 < 2 ^ 64

theorem registerAtomicChunk_eq_ok {identity : AtomicGroupIdentity} {bytes : Nat}
    (hstate : (groupEntry st identity.transactionId).state = .unresolved)
    (hseq : identity.chunkSequence = (groupEntry st identity.transactionId).nextSequence)
    (hbytes : (groupEntry st identity.transactionId).payloadBytes + bytes < 2 ^ 64)
    (hrecords : (groupEntry st identity.transactionId).recordCount + r.recordCount.get < 2 ^ 64)
    (hroom : (groupEntry st identity.transactionId).nextSequence + 1 < 2 ^ 64) :
    registerAtomicChunk st identity r bytes = (.ok (),
      { st with
        atomicGroups := st.atomicGroups.insert identity.transactionId
          ((groupEntry st identity.transactionId).withChunk r.batchId bytes
            r.recordCount.get) }) := by
  simp only [registerAtomicChunk]
  rw [if_neg (not_not.2 hstate), if_neg (not_not.2 hseq), if_neg (not_not.2 hbytes),
    if_neg (not_not.2 hrecords), if_neg (not_not.2 hroom)]
  rfl

/-- Registering the chunk of an extent, when the group table is the one of the extents before it. -/
theorem registeredChunk_eq_ok_iff {chunks : Nat → List ExtentCatalogEntry}
    (hgroups : ∀ txn, groupEntry st txn = groupOf (chunks txn)) :
    registeredChunk st (e.atomicGroup.map (·.identity)) e.reservation e.payloadBytes = .ok st' ↔
      (∀ g ∈ e.atomicGroup, NextChunk (chunks g.transactionId) g e) ∧
        st' = { st with
          atomicGroups := match e.atomicGroup with
            | none => st.atomicGroups
            | some g => st.atomicGroups.insert g.transactionId
                (groupOf (chunks g.transactionId ++ [e])) } := by
  cases hg : e.atomicGroup with
  | none =>
    simp only [registeredChunk, registerNamedChunk, map_none, Except.map, Except.ok.injEq,
      not_mem_none, false_implies, implies_true, true_and]
    exact eq_comm
  | some g =>
    have hwith : (groupEntry st g.transactionId).withChunk e.reservation.batchId e.payloadBytes
        e.reservation.recordCount.get = groupOf (chunks g.transactionId ++ [e]) := by
      rw [hgroups]
      simp [groupOf, AtomicGroupRuntime.withChunk]
    simp only [registeredChunk, registerNamedChunk, map_some, mem_def, some.injEq, forall_eq']
    constructor
    · intro h
      obtain ⟨g', hst, ⟨hok, -, hseq, hbytes, hrec, hroom, rfl⟩ | ⟨⟨err, herr⟩, -⟩⟩ :=
        registerAtomicChunk_spec st g.identity e.reservation e.payloadBytes
      · rw [hok, hst] at h
        simp only [Except.map, Except.ok.injEq] at h
        have hent := hgroups g.identity.transactionId
        rw [hent] at hseq hbytes hrec hroom
        refine ⟨⟨hseq, hbytes, hrec, hroom⟩, ?_⟩
        rw [← h, ← hwith]
        rfl
      · rw [herr] at h
        cases h
    · rintro ⟨hnext, rfl⟩
      have hent : groupEntry st g.identity.transactionId = groupOf (chunks g.transactionId) :=
        hgroups _
      rw [registerAtomicChunk_eq_ok (by rw [hent]; rfl) (by rw [hent]; exact hnext.sequence)
        (by rw [hent]; exact hnext.bytes) (by rw [hent]; exact hnext.records)
        (by rw [hent]; exact hnext.room)]
      simp only [← hwith]
      rfl

/-- Everything one extent has to satisfy, and the states its recovery passes through. -/
theorem recoverEntry_eq_ok_iff {outcomes : Table Nat AtomicGroupState} :
    recoverEntry history tp outcomes replicas acc e = .ok acc' ↔
      validateRecoveredExtent history tp e.reservation = .ok () ∧
      acc.nextOffset ≤ e.reservation.firstOffset ∧ acc.nextBatchId ≤ e.reservation.batchId ∧
      acc.nextPlacementSequence ≤ e.reservation.placement.sequence ∧
      e.reservation.batchId - acc.nextBatchId =
        e.reservation.placement.sequence - acc.nextPlacementSequence ∧
      ∃ st₁ st₂ st₃ st₄, appendRecoveredAborts acc.state history tp acc.nextBatchId acc.nextOffset
          acc.nextPlacementSequence (e.reservation.batchId - acc.nextBatchId)
          (e.reservation.firstOffset - acc.nextOffset) e.reservation.placement.ringEpoch = .ok st₁ ∧
        appendBatchRuntime st₁ (recoveredBatch outcomes replicas e) = .ok st₂ ∧
        registeredChunk st₂ (e.atomicGroup.map (·.identity)) e.reservation e.payloadBytes =
          .ok st₃ ∧
        restoreProducer st₃ e.reservation e.producer replicas e.objectDurable = .ok st₄ ∧
        e.reservation.lastOffset + 1 < 2 ^ 64 ∧ e.reservation.batchId + 1 < 2 ^ 128 ∧
        e.reservation.placement.sequence + 1 < 2 ^ 64 ∧
        acc' = ⟨st₄, e.reservation.batchId + 1, e.reservation.lastOffset + 1,
          e.reservation.placement.sequence + 1⟩ := by
  unfold recoverEntry
  simp only [↓unit_bind_eq_ok_iff, bind_eq_ok_iff, refuseIf_eq_ok_iff, not_not, not_or, not_lt,
    not_le, and_assoc, pure, Except.pure, Except.ok.injEq, eq_comm (b := acc'), exists_and_left]

/-! ### The loop over the extents -/

/-- The extents of `E` that are chunks of `txn`. -/
def chunksOf (E : List ExtentCatalogEntry) (txn : Nat) : List ExtentCatalogEntry :=
  E.filter (·.inGroup txn)

theorem chunksOf_append (E : List ExtentCatalogEntry) (e : ExtentCatalogEntry) (txn : Nat) :
    chunksOf (E ++ [e]) txn = if e.inGroup txn then chunksOf E txn ++ [e] else chunksOf E txn := by
  simp only [chunksOf, filter_append, filter_cons]
  split_ifs <;> simp

/-- What a recovery is given beside the extents. -/
structure RecoveryContext where
  tp : TopicPartition
  history : RingHistory
  outcomes : Table Nat AtomicGroupState
  replicas : Nat
  /-- The first batch id at or above the retention floor. -/
  firstKey : Nat
  /-- The offset of the retention floor. -/
  logStart : Nat
  sequencer : TopicSequencer
  policy : PartitionReplicationPolicy

/-- **What the extents `E` give of a partition.** -/
structure RebuiltFrom (ctx : RecoveryContext) (E : List ExtentCatalogEntry) (st : PartitionState) :
    Prop where
  policy : st.replicationPolicy = ctx.policy
  firstKey : st.batches.firstKey = ctx.firstKey
  /-- Every extent is under its batch id. -/
  entry : ∀ e ∈ E, st.batches.get e.reservation.batchId =
    some (recoveredBatch ctx.outcomes ctx.replicas e)
  /-- Everything else is a placeholder. -/
  other : ∀ key b, st.batches.get key = some b →
    (∃ e ∈ E, e.reservation.batchId = key) ∨ b.IsPlaceholder ∧ PlacedIn ctx.history b.reservation
  placed : ∀ e ∈ E, PlacedIn ctx.history e.reservation
  /-- The batches end with the last extent. -/
  last : st.batches.nextKey = (E.getLast?.map (·.reservation.batchId + 1)).getD ctx.firstKey
  /-- No extent is preceded by too many missing batches. -/
  gaps : ∀ e ∈ E, ∀ lo, ctx.firstKey ≤ lo →
    (∀ e' ∈ E, e'.reservation.batchId < lo ∨ e.reservation.batchId ≤ e'.reservation.batchId) →
    e.reservation.batchId - lo ≤ maxRecoveredGapBatches
  /-- The chunks of a group come in chunk order, without a gap. -/
  chunks : ∀ txn (i : Nat) (e : ExtentCatalogEntry), (chunksOf E txn)[i]? = some e →
    e.atomicGroup.map (·.chunkSequence) = some i
  producers : st.producers = E.foldl restoreCursor .empty
  dedup : st.dedup = E.foldl (restoreDedup ctx.replicas) .empty

/-- **The partition rebuilt from the extents `E`**, as far as the loop is. -/
structure Rebuilt (ctx : RecoveryContext) (acc : Recovering) (E : List ExtentCatalogEntry) : Prop
    extends RebuiltFrom ctx E acc.state where
  sequencer : acc.state.sequencer = ctx.sequencer
  laid : Laid ctx.tp ctx.firstKey ctx.logStart acc.state.reservations
  nextBatchId : acc.nextBatchId = acc.state.batches.nextKey
  nextPlacementSequence : acc.nextPlacementSequence = acc.nextBatchId
  nextOffset : acc.nextOffset = endOffset ctx.logStart acc.state.reservations
  offset_lt : acc.nextOffset < 2 ^ 64
  sequence_lt : acc.nextBatchId < 2 ^ 64
  groups : ∀ txn, acc.state.atomicGroups.get txn =
    if chunksOf E txn = [] then none else some (groupOf (chunksOf E txn))

section Rebuilt

variable {ctx : RecoveryContext} {E : List ExtentCatalogEntry}

theorem Rebuilt.groupEntry_eq (h : Rebuilt ctx acc E)
    (hst : st.atomicGroups = acc.state.atomicGroups) (txn : Nat) :
    groupEntry st txn = groupOf (chunksOf E txn) := by
  rw [groupEntry, hst, h.groups]
  split_ifs with hempty
  · rw [hempty]; rfl
  · rfl

/-- The part of an accepted extent that the crash state decides: the shape of the batches before it,
its group and its producer. -/
structure Accepted (ctx : RecoveryContext) (acc : Recovering) (E : List ExtentCatalogEntry)
    (e : ExtentCatalogEntry) : Prop where
  valid : validateRecoveredExtent ctx.history ctx.tp e.reservation = .ok ()
  gap : e.reservation.batchId - acc.nextBatchId ≤ maxRecoveredGapBatches
  chunk : ∀ g ∈ e.atomicGroup, NextChunk (chunksOf E g.transactionId) g e
  sequence : ∀ p ∈ e.producer, p.firstSequence + e.reservation.recordCount.get < 2 ^ 64

/-- **One extent**, in terms of what is rebuilt so far: the state it leaves. -/
theorem Rebuilt.recoverEntry_spec (h : Rebuilt ctx acc E) (hcount : e.reservation.Counted)
    (hrec : recoverEntry ctx.history ctx.tp ctx.outcomes ctx.replicas acc e = .ok acc') :
    Accepted ctx acc E e ∧ acc.nextBatchId ≤ e.reservation.batchId ∧
      acc.nextOffset ≤ e.reservation.firstOffset ∧
      e.reservation.lastOffset + 1 < 2 ^ 64 ∧ e.reservation.placement.sequence + 1 < 2 ^ 64 ∧
      ∃ gap, gap.length = e.reservation.batchId - acc.nextBatchId ∧
        Laid ctx.tp acc.nextBatchId acc.nextOffset (gap.map (·.reservation)) ∧
        endOffset acc.nextOffset (gap.map (·.reservation)) = e.reservation.firstOffset ∧
        (∀ b ∈ gap, b.IsPlaceholder ∧ PlacedIn ctx.history b.reservation) ∧
        acc'.nextBatchId = e.reservation.batchId + 1 ∧
        acc'.nextOffset = e.reservation.lastOffset + 1 ∧
        acc'.nextPlacementSequence = e.reservation.placement.sequence + 1 ∧
        acc'.state.sequencer = acc.state.sequencer ∧
        acc'.state.replicationPolicy = acc.state.replicationPolicy ∧
        acc'.state.batches = ⟨acc.state.batches.firstKey, acc.state.batches.values ++ gap ++
          [recoveredBatch ctx.outcomes ctx.replicas e]⟩ ∧
        acc'.state.atomicGroups = (match e.atomicGroup with
          | none => acc.state.atomicGroups
          | some g => acc.state.atomicGroups.insert g.transactionId
              (groupOf (chunksOf E g.transactionId ++ [e]))) ∧
        acc'.state.producers = e.restoreCursor acc.state.producers ∧
        acc'.state.dedup = e.restoreDedup ctx.replicas acc.state.dedup := by
  obtain ⟨hvalid, hoff, hid, hseq, hmiss, st₁, st₂, st₃, st₄, h₁, h₂, h₃, h₄, hlast, -, hroom,
    rfl⟩ :=
    recoverEntry_eq_ok_iff.1 hrec
  rw [h.nextPlacementSequence] at h₁
  obtain ⟨-, hsequence, -⟩ := validateRecoveredExtent_eq_ok_iff.1 hvalid
  have hfirst : e.reservation.firstOffset < 2 ^ 64 := by
    have hpos := e.reservation.recordCount.pos
    have hspan : e.reservation.lastOffset + 1 = _ := hcount
    omega
  obtain ⟨hgap, gap, happ, hlen, hlaid, hend, hplace⟩ :=
    appendRecoveredAborts_spec h₁ (by omega) (by omega)
  have happ₂ := happ.trans (appended_of_appendBatchRuntime h₂)
  have hent := h.groupEntry_eq happ₂.tables.atomicGroups
  obtain ⟨hchunk, rfl⟩ := (registeredChunk_eq_ok_iff hent).1 h₃
  obtain ⟨hprod, rfl⟩ := restoreProducer_eq_ok_iff.1 h₄
  refine ⟨⟨hvalid, hgap, hchunk, hprod⟩, hid, hoff, hlast, hroom, gap, hlen, hlaid, ?_, hplace, rfl,
    rfl, rfl, happ₂.tables.sequencer, happ₂.tables.replicationPolicy, ?_, ?_, ?_, ?_⟩
  · omega
  · have hfirst := happ₂.firstKey
    have hvalues := happ₂.values
    rw [← append_assoc] at hvalues
    cases hb : st₂.batches with
    | mk firstKey values =>
      rw [hb] at hfirst hvalues
      simp only at hfirst hvalues
      rw [hfirst, hvalues]
  · rw [happ₂.tables.atomicGroups]
  · rw [happ₂.tables.producers]
  · rw [happ₂.tables.dedup]

/-- **The step of the loop.** An accepted extent, whose range has as many offsets as it has records,
extends what is rebuilt. -/
theorem Rebuilt.step (h : Rebuilt ctx acc E) (hcount : e.reservation.Counted)
    (hrec : recoverEntry ctx.history ctx.tp ctx.outcomes ctx.replicas acc e = .ok acc') :
    Rebuilt ctx acc' (E ++ [e]) := by
  obtain ⟨hacc, hid, hoff, hlast, hroom, gap, hlen, hlaid, hend, hplace, hid', hoff', hseq', hs, hp,
    hbatches, hgroups, hprod, hdedup⟩ := h.recoverEntry_spec hcount hrec
  obtain ⟨htp, hseq, hplaced⟩ := validateRecoveredExtent_eq_ok_iff.1 hacc.valid
  have hres : acc'.state.reservations =
      acc.state.reservations ++ (gap.map (·.reservation) ++ [e.reservation]) := by
    simp only [reservations, hbatches, map_append, append_assoc]
    rfl
  have hkey : acc.state.batches.firstKey + acc.state.batches.values.length = acc.nextBatchId := by
    rw [h.nextBatchId, nextKey]
  have hnext : acc'.state.batches.nextKey = e.reservation.batchId + 1 := by
    rw [hbatches, nextKey]
    simp only [length_append, length_cons, length_nil]
    omega
  have hget : ∀ key, acc'.state.batches.get key =
      if key < acc.nextBatchId then acc.state.batches.get key
      else (gap ++ [recoveredBatch ctx.outcomes ctx.replicas e])[key - acc.nextBatchId]? := by
    intro key
    rw [hbatches, append_assoc, get_mk_append, hkey]
  have hget_e : acc'.state.batches.get e.reservation.batchId =
      some (recoveredBatch ctx.outcomes ctx.replicas e) := by
    rw [hget, if_neg (by omega), getElem?_append_right (by omega), hlen, Nat.sub_self]
    rfl
  have hold : ∀ e' ∈ E, e'.reservation.batchId < acc.nextBatchId := by
    intro e' he'
    have := (lt_nextKey_of_get (h.entry e' he')).2
    rwa [← h.nextBatchId] at this
  refine ⟨⟨hp.trans h.policy, by rw [hbatches]; exact h.firstKey, ?_, ?_, ?_, ?_, ?_, ?_, ?_, ?_⟩,
    hs.trans h.sequencer, ?_, hid'.trans hnext.symm, ?_, ?_, hoff' ▸ hlast, ?_, ?_⟩
  · intro e' he'
    rcases mem_append.1 he' with he' | he'
    · rw [hget, if_pos (hold e' he'), h.entry e' he']
    · rw [mem_singleton.1 he', hget_e]
  · intro key b hb
    rw [hget] at hb
    by_cases hlt : key < acc.nextBatchId
    · rw [if_pos hlt] at hb
      exact (h.other key b hb).imp_left (Exists.imp fun _ ↦ And.imp_left (mem_append_left _))
    · rw [getElem?_append, getElem?_singleton] at hb
      split_ifs at hb
      · exact .inr (hplace b (mem_of_getElem? hb))
      · exact .inl ⟨e, by simp, by omega⟩
  · intro e' he'
    rcases mem_append.1 he' with he' | he'
    · exact h.placed e' he'
    · rw [mem_singleton.1 he']
      exact hplaced
  · rw [hnext]
    simp
  · intro e' he' lo hlo hfree
    rcases mem_append.1 he' with he' | he'
    · exact h.gaps e' he' lo hlo fun e'' he'' ↦ hfree e'' (mem_append_left _ he'')
    · obtain rfl := mem_singleton.1 he'
      -- the last extent before it, if any, ends below `lo`
      have hle : acc.nextBatchId ≤ lo := by
        rw [h.nextBatchId, h.last]
        cases hlast? : E.getLast? with
        | none => exact hlo
        | some e₀ =>
          have hmem : e₀ ∈ E := mem_of_getLast? hlast?
          have hlt := hold e₀ hmem
          rcases hfree e₀ (mem_append_left _ hmem) with h' | h'
          · exact h'
          · omega
      have := hacc.gap
      omega
  · intro txn i e' hi
    rw [chunksOf_append] at hi
    by_cases hin : e.inGroup txn = true
    · rw [if_pos hin] at hi
      rw [getElem?_append, getElem?_singleton] at hi
      split_ifs at hi
      · exact h.chunks txn i e' hi
      · obtain ⟨g, hg, htxn⟩ : ∃ g, e.atomicGroup = some g ∧ g.transactionId = txn := by
          cases hg : e.atomicGroup with
          | none => simp [inGroup, hg] at hin
          | some g => exact ⟨g, rfl, by simpa [inGroup, hg] using hin⟩
        have hchunk := (hacc.chunk g (by rw [hg]; rfl)).sequence
        cases hi
        rw [hg, map_some, hchunk, htxn]
        congr 1
        omega
    · rw [if_neg hin] at hi
      exact h.chunks txn i e' hi
  · rw [hprod, h.producers, foldl_append]
    rfl
  · rw [hdedup, h.dedup, foldl_append]
    rfl
  · rw [hres]
    refine laid_append.2 ⟨h.laid, laid_append.2 ⟨?_, ?_⟩⟩
    · rw [← h.nextOffset, length_reservations, ← h.firstKey, hkey]
      exact hlaid
    · have hpos : ctx.firstKey + acc.state.reservations.length +
          (gap.map (·.reservation)).length = e.reservation.batchId := by
        rw [length_reservations, ← h.firstKey, hkey, length_map, hlen]
        omega
      rw [← h.nextOffset, hend, hpos]
      exact ⟨htp, rfl, hseq.symm, rfl, hcount, trivial⟩
  · rw [hseq', hid', hseq]
  · rw [hoff', hres, endOffset_append, endOffset_append, ← h.nextOffset]
    rfl
  · rw [hid', hseq]; exact hroom
  · intro txn
    rw [hgroups, chunksOf_append]
    cases hg : e.atomicGroup with
    | none => simp [inGroup, hg, h.groups]
    | some g =>
      simp only [inGroup, hg, Table.get_insert]
      by_cases htxn : txn = g.transactionId
      · simp [htxn]
      · simp [htxn, Ne.symm htxn, h.groups]

/-- **The loop.** -/
theorem Rebuilt.fold : ∀ {F E : List ExtentCatalogEntry} {acc acc' : Recovering},
    Rebuilt ctx acc E →
    (∀ e ∈ F, e.reservation.Counted) →
    F.foldlM (recoverEntry ctx.history ctx.tp ctx.outcomes ctx.replicas) acc = .ok acc' →
    Rebuilt ctx acc' (E ++ F)
  | [], E, acc, acc', h, _, hf => by
    cases hf
    simpa using h
  | e :: F, E, acc, acc', h, hcount, hf => by
    rw [foldlM_cons] at hf
    obtain ⟨acc₁, h₁, hf⟩ := bind_eq_ok_iff.1 hf
    have hstep := h.step (hcount e (by simp)) h₁
    have := hstep.fold (fun e' he' ↦ hcount e' (by simp [he'])) hf
    simpa using this

end Rebuilt

end ShardStream
