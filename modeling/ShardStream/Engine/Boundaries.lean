import ShardStream.Engine.CommandSpecs
import ShardStream.Engine.Moves

/-!
# Searching the retained batches

The two binary searches of a partition, on batches that are laid out: a search by first offset finds
a batch exactly when one starts there, and a search for the first batch that ends at or after an
offset finds the batch that covers it. From these follow where retention cuts and what a policy
change demands.
-/

namespace ShardStream

open PartitionCore DenseOrderedMap

variable {u : BatchRuntime} {key : Nat} {st : PartitionState}

section Search

variable {st : PartitionCore}

theorem PartitionCore.Layout.firstOffset_lt (h : st.Layout) {i j : Nat} {v : BatchRuntime}
    (hu : st.batches.get i = some u) (hv : st.batches.get j = some v) (hij : i < j) :
    u.reservation.lastOffset < v.reservation.firstOffset := by
  have hj := lt_nextKey_of_get hv
  rw [(h.get hv).2.2.2.1]
  exact (h.lastOffset_lt_iff hu hj.1 hj.2.le).2 hij

theorem PartitionCore.Layout.firstOffset_le_lastOffset (h : st.Layout) {i : Nat}
    (hu : st.batches.get i = some u) : u.reservation.firstOffset ≤ u.reservation.lastOffset := by
  have hnext : u.reservation.lastOffset + 1 =
      u.reservation.firstOffset + u.reservation.recordCount.get := (h.get hu).2.2.2.2.2
  have hpos := u.reservation.recordCount.pos
  omega

/-- A batch is found by its first offset, and nothing else is. -/
theorem PartitionCore.Layout.batchKeyAtFirstOffset_eq_some_iff (h : st.Layout) {offset : Nat} :
    st.batchKeyAtFirstOffset offset = some key ↔
      ∃ b, st.batches.get key = some b ∧ b.reservation.firstOffset = offset := by
  have hspec := binarySearchBy_spec st.batches
    (fun _ batch ↦ compare batch.reservation.firstOffset offset) (by
      intro i j u v hu hv hij
      have hlt := h.firstOffset_lt hu hv hij
      have hle := h.firstOffset_le_lastOffset hu
      rcases Nat.lt_or_ge u.reservation.firstOffset offset with hoff | hoff
      · exact .inl (Nat.compare_eq_lt.2 hoff)
      · exact .inr (Nat.compare_eq_gt.2 (by omega)))
  unfold batchKeyAtFirstOffset
  cases hsearch : st.batches.binarySearchBy fun _ batch ↦
      compare batch.reservation.firstOffset offset with
  | error k =>
    rw [hsearch] at hspec
    obtain ⟨-, -, hlo, hhi⟩ := hspec
    simp only [Except.toOption, reduceCtorEq, false_iff]
    rintro ⟨b, hb, rfl⟩
    rcases Nat.lt_or_ge key k with hk | hk
    · exact absurd (hlo key b hk hb) (by simp)
    · exact absurd (hhi key b hk hb) (by simp)
  | ok k =>
    rw [hsearch] at hspec
    obtain ⟨b, hb, heq⟩ := hspec
    have hoff : b.reservation.firstOffset = offset := Nat.compare_eq_eq.1 heq
    simp only [Except.toOption, Option.some.injEq]
    constructor
    · rintro rfl
      exact ⟨b, hb, hoff⟩
    · rintro ⟨b', hb', hoff'⟩
      -- two batches that start at the same offset are the same batch
      have hl := h.firstOffset_le_lastOffset hb
      have hl' := h.firstOffset_le_lastOffset hb'
      rcases Nat.lt_trichotomy k key with hlt | rfl | hlt
      · have := h.firstOffset_lt hb hb' hlt
        omega
      · rfl
      · have := h.firstOffset_lt hb' hb hlt
        omega

/-- Every retained batch ends at or after the log start, so the search for it ends at the front. -/
theorem PartitionCore.Layout.firstBatchWithLastAtOrAfter_logStart (h : st.Layout) :
    st.firstBatchWithLastAtOrAfter st.logStart = st.batches.firstKey := by
  have hafter : ∀ j b, st.batches.get j = some b → ¬ b.reservation.lastOffset < st.logStart := by
    intro j b hb
    rw [← offsetAt_firstKey, h.lastOffset_lt_iff hb le_rfl (Nat.le_add_right ..)]
    have := (lt_nextKey_of_get hb).1
    omega
  have hspec := binarySearchBy_spec st.batches (fun _ batch ↦
      if batch.reservation.lastOffset < st.logStart then .lt else .gt) (by
      intro i j u v hu hv hij
      exact .inr (if_neg (hafter j v hv)))
  unfold firstBatchWithLastAtOrAfter
  cases hsearch : st.batches.binarySearchBy fun _ batch ↦
      if batch.reservation.lastOffset < st.logStart then Ordering.lt else .gt with
  | ok k =>
    rw [hsearch] at hspec
    obtain ⟨b, hb, heq⟩ := hspec
    rw [if_neg (hafter k b hb)] at heq
    cases heq
  | error k =>
    rw [hsearch] at hspec
    obtain ⟨hge, hle, hlo, -⟩ := hspec
    by_contra hne
    obtain ⟨b, hb⟩ := exists_get (m := st.batches) le_rfl (by simp only at hne; omega)
    have := hlo _ b (by simp only at hne; omega) hb
    rw [if_neg (hafter _ b hb)] at this
    cases this

/-- The replicated walk of a policy covers the stable prefix exactly when everything stable has
enough copies. -/
theorem PartitionCore.Layout.ready_of_le_computeReplicated (h : st.Layout) {c : Cursor}
    (hc : st.InPlace c) {minIsr : Nat} (hle : c.offset ≤ st.computeReplicatedHighWatermark minIsr) :
    ∀ key b, key < c.nextBatch → st.batches.get key = some b →
      BatchRuntime.replicated minIsr b = true := by
  set ready := BatchRuntime.replicated minIsr with hready
  have hvalues : st.batches.valuesFrom st.batches.firstKey = st.batches.values := by
    simp [valuesFrom]
  -- the offset of a walk does not depend on the key it carries
  have hkey : ∀ bs i j off, (walk ready bs ⟨i, off⟩).offset = (walk ready bs ⟨j, off⟩).offset := by
    intro bs
    induction bs with
    | nil => intros; rfl
    | cons b bs ih =>
      intro i j off
      simp only [walk]
      split
      · exact ih _ _ _
      · rfl
  have hoff : st.computeReplicatedHighWatermark minIsr =
      (st.advanceCursor ready st.startCursor).offset := by
    rw [computeReplicatedHighWatermark, h.firstBatchWithLastAtOrAfter_logStart, hvalues,
      hkey _ 0 st.batches.firstKey]
    congr 2
    have := scanFrom_add st.batches 0
    simpa [startCursor] using this.symm
  have hspec := @advanceCursor_spec st h ready _ (inPlace_startCursor st)
  rw [hoff, hc.offset_eq, hspec.1.offset_eq,
    h.offsetAt_le_iff hspec.1.firstKey_le hc.le_nextKey hspec.1.le_nextKey] at hle
  intro key b hlt hb
  exact hspec.2.2.2 key b (lt_nextKey_of_get hb).1 (by omega) hb

end Search

/-- **Where retention cuts.** The key retention settles on starts at the new log start, and lies
within the retained range, at or below the stable cursor. -/
theorem firstRetained_spec (h : st.Sound) {logStart : Nat}
    (hkey : firstRetained st logStart = some key) (hfloor : (retentionFloor st key).2.1 = logStart)
    (hstable : logStart ≤ st.lastStableOffset) :
    st.batches.firstKey ≤ key ∧ key ≤ st.stable.nextBatch ∧ st.offsetAt key = logStart := by
  obtain ⟨hl, hc⟩ := h
  have hs := hc.stable.inPlace
  have hrange : st.batches.firstKey ≤ key ∧ key ≤ st.batches.nextKey := by
    simp only [firstRetained] at hkey
    split_ifs at hkey with hend
    · cases hkey
      exact ⟨Nat.le_add_right .., le_rfl⟩
    · obtain ⟨b, hb, -⟩ := hl.batchKeyAtFirstOffset_eq_some_iff.1 hkey
      have := lt_nextKey_of_get hb
      omega
  have hoff : st.offsetAt key = logStart := by
    rw [← hfloor, retentionFloor]
    cases hget : st.batches.get key with
    | none =>
      have : key = st.batches.nextKey := by
        rcases get_eq_none_iff.1 hget with h | h <;> omega
      rw [this, hl.offsetAt_nextKey]
    | some b => exact (hl.get hget).2.2.2.1.symm
  refine ⟨hrange.1, ?_, hoff⟩
  rw [← hl.offsetAt_le_iff hs.firstKey_le hrange.2 hs.le_nextKey, hoff, ← hs.offset_eq]
  exact hstable

/-- The sequencer floor of a checkpoint at `key` consists of the coordinates of `key`. -/
theorem retentionFloor_eq (h : st.Layout) (hfirst : st.batches.firstKey ≤ key)
    (hnext : key ≤ st.batches.nextKey) : retentionFloor st key = (key, st.offsetAt key, key) := by
  rw [retentionFloor]
  cases hget : st.batches.get key with
  | none =>
    have hkey : key = st.batches.nextKey := by
      rcases get_eq_none_iff.1 hget with h | h <;> omega
    rw [hkey, h.offsetAt_nextKey, h.nextPlacementSequence, h.nextBatchId]
  | some b =>
    obtain ⟨-, hid, hseq, hoff, -⟩ := h.get hget
    simp only [hid, hseq, hoff]

end ShardStream
