import ShardStream.Engine.Rebuild

/-!
# The recovered partition

After the loop over the extents, the group decisions are applied, the sequencer is placed after the
last extent, and the watermarks are rebuilt from the log start. `Recovered` collects what holds of
the partition that comes out: it is sound with exact cursors, nothing in it is pending, its batches
are the extents and placeholders between them, and its tables are functions of the journal and of
the extents.

A retention checkpoint written by the coordinator puts the sequencer floor at the log start
(`Aligned`). For such checkpoints a recovery succeeds exactly when its loop over the extents does.
-/

namespace ShardStream

open PartitionCore DenseOrderedMap

variable {ringEpoch key : Nat} {ring : PlacementRing} {ctx : RecoveryContext} {acc : Recovering}
  {E : List ExtentCatalogEntry} {st : PartitionState}

/-- The retention state recorded for `tp`. -/
def ReplayState.truncation (s : ReplayState) (tp : TopicPartition) : RecoveredTruncation :=
  (s.truncations.get tp).getD ⟨0, none⟩

/-- The retention floor is at the log start, as every checkpoint written by `truncate` has it. -/
def RecoveredTruncation.Aligned (t : RecoveredTruncation) (key : Nat) : Prop :=
  t.sequencerFloor.getD (0, 0, 0) = (key, t.logStart, key) ∧
    (t.sequencerFloor = none → t.logStart = 0)

/-- The sequencer a recovery starts with. -/
def freshSequencer (tp : TopicPartition) (ringEpoch : Nat) (ring : PlacementRing) :
    TopicSequencer :=
  { topicId := tp.topicId, partitionId := tp.partitionId, ringEpoch, leaderEpoch := 0,
    virtualLanes := ring, nextBatchId := 0, nextOffset := 0, nextPlacementSequence := 0 }

theorem new_freshSequencer (tp : TopicPartition) (ringEpoch : Nat) (ring : PlacementRing) :
    TopicSequencer.new tp ringEpoch ring.lanes = .ok (freshSequencer tp ringEpoch ring) :=
  TopicSequencer.new_eq_ok_iff.2 ⟨rfl, rfl⟩

section Start

variable {t : RecoveredTruncation}

theorem RecoveredTruncation.Aligned.firstKey (h : t.Aligned key) :
    (t.sequencerFloor.getD (0, 0, 0)).1 = key := congrArg Prod.fst h.1

theorem firstKey_recoveryStart (h : (t.sequencerFloor.getD (0, 0, 0)).1 = key) (s : TopicSequencer)
    (policy : PartitionReplicationPolicy) :
    (recoveryStart s policy t).batches = .new key := by
  unfold recoveryStart
  cases hf : t.sequencerFloor with
  | none | some =>
    rw [hf] at h
    rw [← h]
    rfl

/-- Nothing is rebuilt yet. -/
theorem rebuilt_recoveryStart (ctx : RecoveryContext)
    (h : (t.sequencerFloor.getD (0, 0, 0)).1 = ctx.firstKey) (hoff : ctx.logStart < 2 ^ 64)
    (hkey : ctx.firstKey < 2 ^ 64) :
    Rebuilt ctx ⟨recoveryStart ctx.sequencer ctx.policy t, ctx.firstKey, ctx.logStart,
      ctx.firstKey⟩ [] := by
  have hb := firstKey_recoveryStart h ctx.sequencer ctx.policy
  have htables : SameTables (PartitionState.empty ctx.sequencer ctx.policy)
      { recoveryStart ctx.sequencer ctx.policy t with logStart := 0 } := by
    unfold recoveryStart
    cases t.sequencerFloor <;> exact ⟨rfl, rfl, rfl, rfl, rfl, rfl, rfl⟩
  have hres : (recoveryStart ctx.sequencer ctx.policy t).reservations = [] := by
    rw [reservations, hb]; rfl
  have hget : ∀ key b, (recoveryStart ctx.sequencer ctx.policy t).batches.get key ≠ some b := by
    rw [hb]
    simp
  refine ⟨⟨htables.replicationPolicy, by rw [hb]; rfl, by simp, fun key b h ↦ absurd h (hget key b),
    by simp, by rw [hb]; rfl, by simp, by simp [chunksOf], htables.producers, htables.dedup⟩,
    htables.sequencer, by rw [hres]; trivial, by rw [hb]; rfl, rfl, by rw [hres]; rfl, hoff, hkey,
    fun txn ↦ ?_⟩
  have := htables.atomicGroups
  rw [this]
  rfl

end Start

/-- The sequencer after the last extent. -/
def restoredSequencer (tp : TopicPartition) (ringEpoch : Nat) (ring : PlacementRing)
    (acc : Recovering) : TopicSequencer :=
  { topicId := tp.topicId, partitionId := tp.partitionId, ringEpoch
    leaderEpoch := entriesLeaderEpoch acc.state, virtualLanes := ring
    nextBatchId := acc.nextBatchId, nextOffset := acc.nextOffset
    nextPlacementSequence := acc.nextPlacementSequence }

/-- The state `finishRecovery` ends with, when the retention boundary is the first batch. -/
def finishedState (ctx : RecoveryContext) (ringEpoch : Nat) (ring : PlacementRing)
    (acc : Recovering) : PartitionState :=
  PartitionState.resetCachedWatermarksAfterTruncate
    { acc.state with
      atomicGroups := acc.state.atomicGroups.map fun txn group ↦
        { group with state := (ctx.outcomes.get txn).getD .unresolved }
      finalizedGroups := ctx.outcomes
      sequencer := restoredSequencer ctx.tp ringEpoch ring acc
      logStart := ctx.logStart }

section Finish

/-- The batches of a finished recovery are laid out from the log start to the sequencer. -/
theorem Rebuilt.layout (h : Rebuilt ctx acc E) (ringEpoch : Nat) (ring : PlacementRing) :
    ({ acc.state with
      sequencer := restoredSequencer ctx.tp ringEpoch ring acc
      logStart := ctx.logStart } : PartitionCore).Layout where
  laid := by
    have := h.laid
    rw [← h.firstKey] at this
    exact this
  nextBatchId := h.nextBatchId
  nextPlacementSequence := h.nextPlacementSequence
  nextOffset := h.nextOffset
  offset_lt := h.offset_lt
  sequence_lt := by
    change acc.nextPlacementSequence < _
    rw [h.nextPlacementSequence]
    exact h.sequence_lt

theorem truncateBefore_firstKey {α : Type} (m : DenseOrderedMap α) :
    m.truncateBefore m.firstKey = m := by
  have h₁ : m.firstKey ≤ m.nextKey := Nat.le_add_right ..
  have hk := firstKey_truncateBefore le_rfl h₁
  have hv := values_truncateBefore le_rfl h₁
  rw [Nat.sub_self, List.drop_zero] at hv
  cases ht : m.truncateBefore m.firstKey with
  | mk firstKey values =>
    rw [ht] at hk hv
    simp only at hk hv
    rw [hk, hv]

/-- Finishing never fails: the boundary it looks for is the first batch. -/
theorem Rebuilt.finishRecovery_eq (h : Rebuilt ctx acc E) (ringEpoch : Nat) (ring : PlacementRing) :
    finishRecovery ctx.tp ringEpoch ring ctx.outcomes ctx.logStart acc =
      .ok (finishedState ctx ringEpoch ring acc) := by
  have hl := h.layout ringEpoch ring
  have hrestore := TopicSequencer.restore_state (restoredSequencer ctx.tp ringEpoch ring acc)
  have hend : ctx.logStart ≤ acc.nextOffset := by
    have := hl.offsetAt_le (j := acc.state.batches.nextKey) (Nat.le_add_right ..) le_rfl
    rw [hl.offsetAt_nextKey] at this
    have hstart := offsetAt_firstKey ({ acc.state with
      sequencer := restoredSequencer ctx.tp ringEpoch ring acc
      logStart := ctx.logStart } : PartitionCore)
    rw [hstart] at this
    exact this
  -- the boundary: the first batch, or the end when there is none
  have hkey : (if ctx.logStart = acc.nextOffset then some acc.state.batches.nextKey
      else acc.state.batchKeyAtFirstOffset ctx.logStart) = some acc.state.batches.firstKey := by
    cases hv : acc.state.batches.values with
    | nil =>
      have hnext : acc.nextOffset = ctx.logStart := by
        rw [h.nextOffset, reservations, hv]; rfl
      rw [if_pos hnext.symm, nextKey, hv]
      rfl
    | cons b bs =>
      have hget : acc.state.batches.get acc.state.batches.firstKey = some b := by
        have := get_add acc.state.batches 0
        rw [hv] at this
        exact this
      have hlt : ctx.logStart < acc.nextOffset := by
        have hle := h.laid.le_endOffset
        rw [← h.nextOffset, reservations, hv] at hle
        simp only [List.map_cons, List.length_cons] at hle
        omega
      rw [if_neg (by omega)]
      refine hl.batchKeyAtFirstOffset_eq_some_iff.2 ⟨b, hget, ?_⟩
      have := (hl.get hget).2.2.2.1
      rw [this]
      exact offsetAt_firstKey _
  refine bind_eq_ok_iff.2 ⟨restoredSequencer ctx.tp ringEpoch ring acc,
    liftSequencer_eq_ok_iff.2 hrestore, ?_⟩
  have hnext : (restoredSequencer ctx.tp ringEpoch ring acc).nextOffset = acc.nextOffset := rfl
  dsimp only
  rw [hnext, hkey]
  change (if acc.nextOffset < ctx.logStart then _ else _) = _
  rw [if_neg (Nat.not_lt.2 hend)]
  simp only [truncateBefore_firstKey]
  rfl

end Finish

/-! ### What comes out -/

/-- **The partition recovered from the extents `E`.** -/
structure Recovered (ctx : RecoveryContext) (E : List ExtentCatalogEntry) (st : PartitionState) :
    Prop extends RebuiltFrom ctx E st where
  sound : st.Sound
  exact : st.Exact
  topicPartition : st.sequencer.topicPartition = ctx.tp
  ring : ctx.history.getLast? = some (st.sequencer.ringEpoch, st.sequencer.virtualLanes)
  logStart : st.logStart = ctx.logStart
  groups : ∀ txn, st.atomicGroups.get txn =
    if chunksOf E txn = [] then none
    else some { groupOf (chunksOf E txn) with state := (ctx.outcomes.get txn).getD .unresolved }
  finalizedGroups : st.finalizedGroups = ctx.outcomes

section Recovered

variable {b : BatchRuntime}

theorem Rebuilt.recovered (h : Rebuilt ctx acc E)
    (hring : ctx.history.getLast? = some (ringEpoch, ring)) :
    Recovered ctx E (finishedState ctx ringEpoch ring acc) where
  toRebuiltFrom := { h.toRebuiltFrom with }
  sound := (h.layout ringEpoch ring).sound_rewind_advance
  exact := exact_rewind_advance (h.layout ringEpoch ring)
  topicPartition := rfl
  ring := hring
  logStart := rfl
  groups txn := by
    change (acc.state.atomicGroups.map _).get txn = _
    rw [Table.get_map, h.groups]
    split_ifs <;> rfl
  finalizedGroups := rfl

/-- A recovered batch is an extent or a placeholder. -/
theorem Recovered.get_cases (h : Recovered ctx E st) (hb : st.batches.get key = some b) :
    (∃ e ∈ E, e.reservation.batchId = key ∧ b = recoveredBatch ctx.outcomes ctx.replicas e) ∨
      b.IsPlaceholder ∧ PlacedIn ctx.history b.reservation := by
  rcases h.other key b hb with ⟨e, he, rfl⟩ | hother
  · have := h.entry e he
    rw [hb] at this
    exact .inl ⟨e, he, rfl, Option.some.inj this⟩
  · exact .inr hother

theorem recoveredStatus_ne_pending (outcomes : Table Nat AtomicGroupState)
    (g : Option AtomicGroupSequence) : recoveredStatus outcomes g ≠ .pending := by
  cases g with
  | none => simp [recoveredStatus]
  | some g => cases h : (outcomes.get g.transactionId).getD .unresolved <;>
      simp [recoveredStatus, h, AtomicGroupState.batchStatus]

/-- **Nothing recovered is pending.** -/
theorem Recovered.not_pending (h : Recovered ctx E st) (hb : st.batches.get key = some b) :
    b.status ≠ .pending := by
  rcases h.get_cases hb with ⟨e, -, -, rfl⟩ | ⟨hplace, -⟩
  · exact recoveredStatus_ne_pending _ _
  · rw [hplace]
    simp [abortedBatch]

/-- The contiguous end of a recovered partition is the end of what it allocated. -/
theorem Recovered.contiguousLogEnd_eq (h : Recovered ctx E st) :
    st.contiguousLogEnd = st.sequencer.nextOffset := by
  have hc := h.sound.cursors.contiguous
  have hle := hc.le_of_ready le_rfl (fun key b _ hb ↦ by
    have := h.not_pending hb
    simpa [BatchRuntime.settled] using this)
  have : st.contiguous.nextBatch = st.batches.nextKey := le_antisymm hc.inPlace.le_nextKey hle
  rw [contiguousLogEnd, hc.inPlace.offset_eq, this, h.sound.layout.offsetAt_nextKey]

end Recovered

/-! ### Recovering one partition -/

/-- The context in which `recoverPartition` runs its loop. -/
def recoveryContext (config : EngineConfig) (s : ReplayState) (replicas : Nat)
    (tp : TopicPartition) (ringEpoch : Nat) (ring : PlacementRing) (firstKey : Nat) :
    RecoveryContext :=
  let policy := (s.replicationPolicies.get tp).getD config.defaultReplicationPolicy
  { tp, history := (s.rings.get tp).getD [], outcomes := s.groupOutcomes.row tp
    replicas := min replicas policy.replicationFactor, firstKey
    logStart := (s.truncation tp).logStart, sequencer := freshSequencer tp ringEpoch ring, policy }

section Partition

variable {config : EngineConfig} {s : ReplayState} {catalog : List ExtentCatalogEntry}
  {replicas : Nat} {tp : TopicPartition} {firstKey : Nat}
  (hring : ((s.rings.get tp).getD []).getLast? = some (ringEpoch, ring))
  (haligned : (s.truncation tp).Aligned firstKey) (hoff : (s.truncation tp).logStart < 2 ^ 64)
  (hkey : firstKey < 2 ^ 64) (hcount : ∀ e ∈ partitionEntries catalog tp, e.reservation.Counted)

include hring haligned hoff hkey hcount

/-- **One partition recovers exactly when its loop does**, given an aligned checkpoint. -/
theorem recoverPartition_eq_ok_iff :
    let ctx := recoveryContext config s replicas tp ringEpoch ring firstKey
    recoverPartition config s catalog replicas tp = .ok st ↔
      ctx.policy.validate config.replicationFactor = .ok () ∧
        ∃ acc, (partitionEntries catalog tp).foldlM
            (recoverEntry ctx.history ctx.tp ctx.outcomes ctx.replicas)
            ⟨recoveryStart ctx.sequencer ctx.policy (s.truncation tp), firstKey,
              (s.truncation tp).logStart, firstKey⟩ = .ok acc ∧
          st = finishedState ctx ringEpoch ring acc := by
  intro ctx
  have hstart := rebuilt_recoveryStart ctx haligned.firstKey hoff hkey
  have hfloor := haligned.1
  simp only [recoverPartition, hring]
  rw [show (s.truncations.get tp).getD ⟨0, none⟩ = s.truncation tp from rfl, hfloor]
  constructor
  · intro h
    obtain ⟨u, hvalid, h⟩ := bind_eq_ok_iff.1 h
    obtain ⟨u', -, h⟩ := bind_eq_ok_iff.1 h
    obtain ⟨sequencer, hseq, h⟩ := bind_eq_ok_iff.1 h
    rw [new_freshSequencer] at hseq
    cases hseq
    obtain ⟨acc, hfold, h⟩ := bind_eq_ok_iff.1 h
    have hreb := hstart.fold hcount hfold
    have hfin := hreb.finishRecovery_eq ringEpoch ring
    refine ⟨hvalid, acc, hfold, ?_⟩
    exact Except.ok.inj (h.symm.trans hfin)
  · rintro ⟨hvalid, acc, hfold, rfl⟩
    have hreb := hstart.fold hcount hfold
    refine bind_eq_ok_iff.2 ⟨(), hvalid, bind_eq_ok_iff.2 ⟨(), ?_, bind_eq_ok_iff.2
      ⟨freshSequencer tp ringEpoch ring, liftSequencer_eq_ok_iff.2 (new_freshSequencer ..),
        bind_eq_ok_iff.2 ⟨acc, hfold, hreb.finishRecovery_eq ringEpoch ring⟩⟩⟩⟩
    rw [refuseIf_eq_ok_iff]
    exact fun hlt ↦ Nat.lt_irrefl _ hlt.1

/-- What a successful recovery of one partition gives. -/
theorem recovered_of_recoverPartition
    (h : recoverPartition config s catalog replicas tp = .ok st) :
    Recovered (recoveryContext config s replicas tp ringEpoch ring firstKey)
      (partitionEntries catalog tp) st := by
  obtain ⟨-, acc, hfold, rfl⟩ := (recoverPartition_eq_ok_iff hring haligned hoff hkey hcount).1 h
  have hstart := rebuilt_recoveryStart
    (recoveryContext config s replicas tp ringEpoch ring firstKey) haligned.firstKey hoff hkey
  exact (hstart.fold hcount hfold).recovered hring

end Partition

end ShardStream
