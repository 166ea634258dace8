import ShardStream.Engine.Visibility

/-!
# The structure of a partition

Binary searches over the batches and scans for the watermarks rely on the shape of a partition:
keys, batch ids and placement sequences agree, offset ranges meet, the log start and the sequencer
are the two ends, and the watermarks lie between them in order (`WellFormed`). The shape is a
consequence of soundness (`PartitionCore.Sound`), which every command keeps, and of the order of the
cached cursors (`CursorsOrdered`), which every command keeps too: a batch that stops the contiguous
cursor stops the other two, so neither overtakes it, even where cursors are not exact.

Recovery starts from any journal whose retention records fit their types and from any catalog of
extents that passed the decoder. Its retention floor need not be the log start here; the boundary is
looked up among the rebuilt batches, and a recovery that finds none fails.
-/

namespace ShardStream

open PartitionCore BatchRuntime DenseOrderedMap

variable {st : PartitionState} {events : List JournalEvent} {config : EngineConfig}

/-- **Well-formed partitions.** -/
structure PartitionCore.WellFormed (st : PartitionCore) : Prop where
  /-- The sequencer continues the dense map. -/
  nextBatchId : st.sequencer.nextBatchId = st.batches.nextKey
  nextPlacementSequence : st.sequencer.nextPlacementSequence = st.batches.nextKey
  /-- Every batch is under its own id. -/
  ids : ∀ key b, st.batches.get key = some b →
    b.reservation.batchId = key ∧ b.reservation.placement.sequence = key
  /-- Consecutive ranges are adjacent. -/
  adjacent : ∀ key b b', st.batches.get key = some b → st.batches.get (key + 1) = some b' →
    b'.reservation.firstOffset = nextOffset b.reservation
  /-- The first batch starts at the log start. -/
  first : ∀ b, st.batches.values.head? = some b → b.reservation.firstOffset = st.logStart
  /-- Without batches the sequencer is at the log start. -/
  empty : st.batches.values = [] → st.sequencer.nextOffset = st.logStart
  /-- The last batch ends where the sequencer continues. -/
  last : ∀ b, st.batches.values.getLast? = some b → nextOffset b.reservation =
    st.sequencer.nextOffset
  /-- The watermarks are in order. -/
  stable_le : st.watermarks.logStart ≤ st.watermarks.lastStableOffset ∧
    st.watermarks.lastStableOffset ≤ st.watermarks.contiguousLogEnd
  contiguous_le : st.watermarks.contiguousLogEnd ≤ st.watermarks.allocatedEnd
  replicated_le : st.watermarks.logStart ≤ st.watermarks.replicatedHighWatermark ∧
    st.watermarks.replicatedHighWatermark ≤ st.watermarks.contiguousLogEnd

/-! ### The order of the cursors -/

/-- Neither the stable nor the replicated cursor is ahead of the contiguous one. -/
structure PartitionCore.CursorsOrdered (st : PartitionCore) : Prop where
  stable : st.stable.nextBatch ≤ st.contiguous.nextBatch
  replicated : st.replicated.nextBatch ≤ st.contiguous.nextBatch

theorem BatchRuntime.settled_of_replicated {minIsr : Nat} {b : BatchRuntime}
    (h : b.replicated minIsr = true) : b.settled = true := by
  simp only [replicated, Bool.and_eq_true] at h
  exact h.1

section Order

variable {st st' : PartitionCore}

/-- A cursor that passes only settled batches does not overtake the contiguous one: the batch that
stops that one would have to be settled. -/
theorem PartitionCore.Layout.advanceCursor_le (h : st.Layout) {ready : BatchRuntime → Bool}
    {c c' : Cursor} (hc : st.InPlace c) (hc' : st.InPlace c') (hle : c.nextBatch ≤ c'.nextBatch)
    (hready : ∀ b, ready b = true → b.settled = true) :
    (st.advanceCursor ready c).nextBatch ≤ (st.advanceCursor settled c').nextBatch := by
  obtain ⟨hin, -, -, hpassed⟩ := @advanceCursor_spec st h ready c hc
  obtain ⟨hin', hge, hblocked, -⟩ := @advanceCursor_spec st h settled c' hc'
  by_contra hlt
  obtain ⟨b, hb⟩ := exists_get hin'.firstKey_le
    (Nat.lt_of_lt_of_le (Nat.not_le.1 hlt) hin.le_nextKey)
  have hsettled := hready b (hpassed _ b (by omega) (Nat.not_le.1 hlt) hb)
  rw [hblocked b hb] at hsettled
  cases hsettled

theorem PartitionCore.CursorsOrdered.advance (h : st.CursorsOrdered) (hl : st.Layout)
    (hc : st.InPlaces) : st.advance.CursorsOrdered where
  stable := hl.advanceCursor_le hc.stable hc.contiguous h.stable fun _ ↦ settled_of_stable
  replicated := hl.advanceCursor_le hc.replicated hc.contiguous h.replicated
    fun _ ↦ settled_of_replicated

theorem PartitionCore.Layout.cursorsOrdered_rewind (h : st.Layout) :
    st.rewind.advance.CursorsOrdered :=
  CursorsOrdered.advance ⟨le_rfl, le_rfl⟩ h.rewind (inPlaces_rewind st)

/-- **Every move keeps the order of the cursors.** -/
theorem CoreMove.cursorsOrdered (hm : CoreMove st st') (hs : st.Sound) (h : st.CursorsOrdered) :
    st'.CursorsOrdered := by
  cases hm.shape hs with
  | kept => exact ⟨h.stable, h.replicated⟩
  | advanced _ hl hc => exact CursorsOrdered.advance ⟨h.stable, h.replicated⟩ hl hc
  | rebuilt hl => exact hl.cursorsOrdered_rewind

theorem PartitionCore.CursorsOrdered.moves (h : Relation.ReflTransGen CoreMove st st')
    (hs : st.Sound) (ho : st.CursorsOrdered) : st'.CursorsOrdered := by
  induction h with
  | refl => exact ho
  | tail hpre hm ih => exact hm.cursorsOrdered (hs.moves hpre) ih

/-- **Every command keeps the order of the cursors.** -/
theorem CoreEffect.cursorsOrdered {st : PartitionState} {c : Command} {eff : Effect}
    (h : CoreEffect st c eff) (hs : st.Sound)
    (ho : st.CursorsOrdered) : eff.state.CursorsOrdered := by
  cases h with
  | moves hnone h => exact ho.moves h hs
  | retried hsome hget hstatus hcore =>
    rw [hcore]
    exact (hs.layout.reopened ..).cursorsOrdered_rewind
  | refusedRetry hsome hget hstatus hreserved hcore =>
    rw [hcore]
    exact ⟨ho.stable, ho.replicated⟩

/-- Exact cursors are in order. -/
theorem PartitionCore.Exact.cursorsOrdered (h : st.Exact) (hs : st.Sound) : st.CursorsOrdered where
  stable := hs.cursors.contiguous.le_of_ready hs.cursors.stable.inPlace.le_nextKey
    fun key b hlt hb ↦ settled_of_stable (h.stable key b hlt hb)
  replicated := hs.cursors.contiguous.le_of_ready hs.cursors.replicated.inPlace.le_nextKey
    fun key b hlt hb ↦ settled_of_replicated (h.replicated key b hlt hb)

/-! ### From soundness to shape -/

theorem getElem?_values (st : PartitionCore) (i : Nat) :
    st.batches.values[i]? = st.batches.get (st.batches.firstKey + i) :=
  (get_add st.batches i).symm

/-- **A sound partition with cursors in order is well formed.** -/
theorem PartitionCore.Sound.wellFormed (hs : st.Sound) (ho : st.CursorsOrdered) :
    st.WellFormed := by
  obtain ⟨hl, hc⟩ := hs
  have hstart : ∀ {c}, st.InPlace c → st.logStart ≤ c.offset := fun hc ↦
    (inPlace_startCursor st).offset_le hl hc hc.firstKey_le
  refine ⟨hl.nextBatchId, hl.nextPlacementSequence.trans hl.nextBatchId,
    fun key b hb ↦ ⟨(hl.get hb).2.1, (hl.get hb).2.2.1⟩, fun key b b' hb hb' ↦ ?_,
    fun b hb ↦ ?_, fun hempty ↦ ?_, fun b hb ↦ ?_,
    ⟨hstart hc.stable.inPlace, hc.stable.inPlace.offset_le hl hc.contiguous.inPlace ho.stable⟩, ?_,
    hstart hc.replicated.inPlace,
    hc.replicated.inPlace.offset_le hl hc.contiguous.inPlace ho.replicated⟩
  · rw [(hl.get hb').2.2.2.1, (hl.get hb).2.2.2.2.1]
  · rw [List.head?_eq_getElem?, getElem?_values, Nat.add_zero] at hb
    rw [(hl.get hb).2.2.2.1, offsetAt_firstKey]
  · rw [hl.nextOffset, reservations, hempty]
    rfl
  · rw [List.getLast?_eq_getElem?, getElem?_values] at hb
    have hlt := lt_nextKey_of_get hb
    have hnext : st.batches.firstKey + (st.batches.values.length - 1) + 1 = st.batches.nextKey := by
      unfold nextKey at hlt ⊢
      omega
    rw [(hl.get hb).2.2.2.2.1, hnext, hl.offsetAt_nextKey]
  · change st.contiguous.offset ≤ st.sequencer.nextOffset
    rw [hc.contiguous.inPlace.offset_eq, ← hl.offsetAt_nextKey]
    exact hl.offsetAt_le hc.contiguous.inPlace.le_nextKey le_rfl

end Order

/-- Soundness and the order of the cursors over a run. -/
theorem CommandRun.sound_and_ordered {allowed : PartitionState → Command → Prop}
    {st' : PartitionState} (hrun : CommandRun allowed st st') (hs : st.Sound)
    (ho : st.CursorsOrdered) : st'.Sound ∧ st'.CursorsOrdered := by
  induction hrun with
  | refl => exact ⟨hs, ho⟩
  | tail _ hstep ih =>
    obtain ⟨answer, c, -, rfl⟩ := hstep
    have heff := (c.outcome ih.1 answer).core_effect
    exact ⟨heff.sound ih.1, heff.cursorsOrdered ih.1 ih.2⟩

/-! ### Recovery from any journal and any catalog -/

/-- The fields of a retention record fit their types. -/
def JournalEvent.InRange : JournalEvent → Prop
  | .truncate _ logStart => logStart < 2 ^ 64
  | .truncateCheckpoint _ logStart _ nextOffset nextPlacementSequence =>
    logStart < 2 ^ 64 ∧ nextOffset < 2 ^ 64 ∧ nextPlacementSequence < 2 ^ 64
  | _ => True

/-- The sequencer floor a recovery starts at: batch id and placement sequence agree. -/
def RecoveredTruncation.FloorAt (t : RecoveredTruncation) (key offset : Nat) : Prop :=
  t.sequencerFloor.getD (0, 0, 0) = (key, offset, key) ∧ key < 2 ^ 64 ∧ offset < 2 ^ 64

section Journal

variable {s s' : ReplayState}

theorem exists_floorAt_of_applyEvent {event : JournalEvent} (hrange : event.InRange)
    (hs : ∀ tp, ∃ key offset, (s.truncation tp).FloorAt key offset)
    (h : applyEvent config s event = .ok s') (tp : TopicPartition) :
    ∃ key offset, (s'.truncation tp).FloorAt key offset := by
  by_cases htp : tp = event.tp
  · subst htp
    cases event with
    | configure tp' epoch shards =>
      obtain ⟨ring, -, -, -, rfl⟩ := applyEvent_configure_eq_ok_iff.1 h
      exact hs tp'
    | createPartition tp' epoch shards g f m =>
      obtain ⟨ring, -, -, -, -, rfl⟩ := applyEvent_createPartition_eq_ok_iff.1 h
      exact hs tp'
    | updateReplicationPolicy tp' expected g f m =>
      obtain ⟨-, -, ⟨-, rfl⟩ | ⟨-, -, rfl⟩⟩ := applyEvent_updateReplicationPolicy_eq_ok_iff.1 h <;>
        exact hs tp'
    | truncate tp' logStart =>
      simp only [applyEvent] at h
      split_ifs at h
      cases h
      refine ⟨0, 0, ?_, by decide, by decide⟩
      simp [ReplayState.truncation, JournalEvent.tp]
    | truncateCheckpoint tp' logStart id off seq =>
      obtain ⟨-, -, -, rfl, rfl⟩ := applyEvent_truncateCheckpoint_eq_ok_iff.1 h
      refine ⟨id, off, ?_, hrange.2.2, hrange.2.1⟩
      simp [ReplayState.truncation, JournalEvent.tp]
    | groupCommit tp' txn | groupAbort tp' txn =>
      obtain ⟨-, -, rfl⟩ := recordGroupOutcome_eq_ok_iff.1 h
      exact hs tp'
  · rw [ReplayState.truncation, (sameAt_of_applyEvent h htp).truncations]
    exact hs tp

theorem exists_floorAt (hrange : ∀ event ∈ events, event.InRange) (h : replay config events = .ok s)
    (tp : TopicPartition) : ∃ key offset, (s.truncation tp).FloorAt key offset := by
  induction events using List.reverseRecOn generalizing s tp with
  | nil =>
    cases h
    exact ⟨0, 0, rfl, by decide, by decide⟩
  | append_singleton events event ih =>
    rw [replay_append] at h
    obtain ⟨s₀, h₀, h⟩ := bind_eq_ok_iff.1 h
    exact exists_floorAt_of_applyEvent (hrange event (by simp))
      (ih (fun e he ↦ hrange e (by simp [he])) h₀) h tp

end Journal

section Finish

variable {ctx : RecoveryContext} {acc : Recovering} {E : List ExtentCatalogEntry}

/-- **Finishing at any boundary.** Whatever log start the rebuilt batches are cut at, what is left
is laid out from there. -/
theorem Rebuilt.sound_of_finishRecovery (h : Rebuilt ctx acc E) {ringEpoch : Nat}
    {ring : PlacementRing} {logStart : Nat}
    (hfinish : finishRecovery ctx.tp ringEpoch ring ctx.outcomes logStart acc = .ok st) :
    st.Sound ∧ st.Exact := by
  have hl := h.layout ringEpoch ring
  set core : PartitionCore := { acc.state with
    logStart := ctx.logStart } with hcore
  have hrestore := TopicSequencer.restore_state (restoredSequencer ctx.tp ringEpoch ring acc)
  simp only [finishRecovery] at hfinish
  obtain ⟨sequencer, hseq, hfinish⟩ := bind_eq_ok_iff.1 hfinish
  obtain rfl : restoredSequencer ctx.tp ringEpoch ring acc = sequencer :=
    Except.ok.inj (hrestore.symm.trans (liftSequencer_eq_ok_iff.1 hseq))
  -- the boundary is a key of the rebuilt batches, or their end
  split at hfinish
  · cases hfinish
  · next key hkey =>
    have hboundary : core.batches.firstKey ≤ key ∧ key ≤ core.batches.nextKey ∧
        core.offsetAt key = logStart := by
      split_ifs at hkey with hend
      · cases hkey
        refine ⟨Nat.le_add_right .., le_rfl, ?_⟩
        exact hl.offsetAt_nextKey.trans hend.symm
      · obtain ⟨b, hb, hfirst⟩ := hl.batchKeyAtFirstOffset_eq_some_iff.1 hkey
        have hlt := lt_nextKey_of_get hb
        exact ⟨hlt.1, hlt.2.le, (hl.get hb).2.2.2.1.symm.trans hfirst⟩
    obtain ⟨hfirst, hnext, rfl⟩ := hboundary
    split_ifs at hfinish
    cases hfinish
    have hcut := hl.dropBefore hfirst hnext
    exact ⟨hcut.sound_rewind_advance, exact_rewind_advance hcut⟩

end Finish

/-- **Every recovered partition is sound**, with exact cursors, whatever the journal and the extents
are. -/
theorem sound_of_recoverPartitionStates {catalog : List ExtentCatalogEntry} {replicas : Nat}
    {states : Table TopicPartition PartitionState} {tp : TopicPartition}
    (hrange : ∀ event ∈ events, event.InRange) (hcounted : ∀ x ∈ catalog, x.reservation.Counted)
    (h : recoverPartitionStates config events catalog replicas = .ok states)
    (hst : states.get tp = some st) : st.Sound ∧ st.Exact := by
  obtain ⟨-, -, s, hreplay, -, -, hget⟩ := recoverPartitionStates_eq_ok_iff.1 h
  have hrec : recoverPartition config s catalog replicas tp = .ok st := by
    have := hget tp
    rw [hst] at this
    split_ifs at this
    exact toOption_eq_some_iff.1 this.symm
  obtain ⟨key, offset, hfloor, hkey, hoffset⟩ := exists_floorAt hrange hreplay tp
  simp only [recoverPartition] at hrec
  cases hring : ((s.rings.get tp).getD []).getLast? with
  | none =>
    rw [hring] at hrec
    cases hrec
  | some last =>
    rw [hring] at hrec
    rw [show (s.truncations.get tp).getD ⟨0, none⟩ = s.truncation tp from rfl, hfloor] at hrec
    obtain ⟨_, -, hrec⟩ := bind_eq_ok_iff.1 hrec
    obtain ⟨_, -, hrec⟩ := bind_eq_ok_iff.1 hrec
    obtain ⟨sequencer, -, hrec⟩ := bind_eq_ok_iff.1 hrec
    obtain ⟨acc, hfold, hrec⟩ := bind_eq_ok_iff.1 hrec
    -- the loop starts at the floor, which the log start need not be
    let policy := (s.replicationPolicies.get tp).getD config.defaultReplicationPolicy
    let ctx : RecoveryContext :=
      { tp, history := (s.rings.get tp).getD [], outcomes := s.groupOutcomes.row tp
        replicas := min replicas policy.replicationFactor, firstKey := key, logStart := offset
        sequencer, policy }
    have hstart := rebuilt_recoveryStart ctx (congrArg Prod.fst hfloor) hoffset hkey
    have hcount : ∀ x ∈ partitionEntries catalog tp, x.reservation.Counted := fun x hx ↦
      hcounted x (List.mem_filter.1 ((List.mem_insertionSort _).1 hx)).1
    exact (hstart.fold hcount hfold).sound_of_finishRecovery hrec

/-! ### Over all runs -/

/-- A partition as it is first held: just created, or recovered from any journal whose retention
records fit their types and any catalog of decoded extents. -/
inductive PartitionOrigin : PartitionState → Prop
  | created {tp : TopicPartition} {shards : List Nat} {sequencer : TopicSequencer}
      {policy : PartitionReplicationPolicy} (h : TopicSequencer.new tp 1 shards = .ok sequencer) :
      PartitionOrigin (.empty sequencer policy)
  | recovered {config : EngineConfig} {events : List JournalEvent}
      {catalog : List ExtentCatalogEntry} {replicas : Nat}
      {states : Table TopicPartition PartitionState} {tp : TopicPartition} {st : PartitionState}
      (hrange : ∀ event ∈ events, event.InRange) (hcounted : ∀ x ∈ catalog, x.reservation.Counted)
      (hrec : recoverPartitionStates config events catalog replicas = .ok states)
      (hst : states.get tp = some st) : PartitionOrigin st

theorem PartitionOrigin.sound_and_exact (h : PartitionOrigin st) : st.Sound ∧ st.Exact := by
  cases h with
  | @created tp shards sequencer policy h =>
    have hstart : PartitionStart ⟨1, 1, 1⟩ (.empty sequencer policy) := .created h
    exact hstart.sound_and_exact
  | recovered hrange hcounted hrec hst =>
    exact sound_of_recoverPartitionStates hrange hcounted hrec hst

/-- **A partition stays well formed**: in every state that any commands, answered in any way by the
journal, reach from a created or a recovered partition. -/
theorem wellFormed_of_run {start st : PartitionState} (hstart : PartitionOrigin start)
    (hrun : CommandRun (fun _ _ ↦ True) start st) : st.WellFormed := by
  obtain ⟨hs, he⟩ := hstart.sound_and_exact
  obtain ⟨hs', ho'⟩ := hrun.sound_and_ordered hs (he.cursorsOrdered hs)
  exact hs'.wellFormed ho'

theorem oneLane_origin : PartitionOrigin oneLane :=
  .created (new_freshSequencer ⟨0, 0⟩ 1 oneShardRing)

/-- The partition whose first batch was reserved and has failed. -/
theorem wellFormed_firstFailed : firstFailed.WellFormed := by
  exact wellFormed_of_run oneLane_origin (run_firstFailed trivial trivial)

end ShardStream
