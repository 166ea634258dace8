import ShardStream.Engine.Coherent

/-!
# Visible ends while a partition runs

The ends that readers see are the offsets of cached cursors. As long as no replica retry was refused
half way, the cursors are exact, and then every command but one leaves every end where it is or
moves it up. The one exception is the retry of an aborted batch: the batch is pending again, and the
ends that had passed it come back to its first offset, no further.

A reader that was told an offset is visible may therefore fetch up to it for as long as no aborted
batch below it is retried.
-/

namespace ShardStream

open PartitionCore DenseOrderedMap

variable {st st' : PartitionState} {mode : VisibilityMode} {through : Nat}

/-! ### Partitions and their runs -/

/-- A partition as a coordinator first holds it: just created, or recovered from what a run left
behind. -/
inductive PartitionStart (config : EngineConfig) : PartitionState → Prop
  | created {tp : TopicPartition} {shards : List Nat} {sequencer : TopicSequencer}
      {policy : PartitionReplicationPolicy} (h : TopicSequencer.new tp 1 shards = .ok sequencer) :
      PartitionStart config (.empty sequencer policy)
  | recovered {e : Engine} {replicas : Nat} {states : Table TopicPartition PartitionState}
      {tp : TopicPartition} {st : PartitionState} (he : EngineReachable config .any e)
      (hrec : e.recover config replicas = .ok states) (hst : states.get tp = some st) :
      PartitionStart config st

/-- The partitions reached from `start` by commands, each allowed in the state it is executed in and
each with any answer of the journal. -/
def CommandRun (allowed : PartitionState → Command → Prop) : PartitionState → PartitionState →
    Prop :=
  Relation.ReflTransGen fun st st' ↦
    ∃ answer c, allowed st c ∧ st' = (c.run st answer).state

/-- A replica retry that takes up an aborted batch also hands it out: its chunk is not refused after
the batch was reopened. -/
def Command.KeepsRetries (st : PartitionState) (c : Command) : Prop :=
  ∀ b, c.reopens st = some b → (c.run st (.ok ())).reserved.isSome = true

theorem PartitionStart.sound_and_exact {config : EngineConfig} (h : PartitionStart config st) :
    st.Sound ∧ st.Exact := by
  cases h with
  | @created tp shards sequencer policy h =>
    refine ⟨PartitionState.sound_empty h policy, fun key b hlt hb ↦ ?_, fun key b hlt hb ↦ ?_,
      fun key b hlt hb ↦ ?_⟩ <;>
      simp [PartitionState.empty] at hb
  | recovered he hrec hst =>
    obtain ⟨s, st₀, -, -, -, hr⟩ := he.recovered hrec hst
    exact ⟨hr.sound, hr.exact⟩

/-! ### The retry of an aborted batch -/

section Retry

variable {st st' : PartitionCore} {ready : BatchRuntime → Bool} {c c' : Cursor} {key : Nat}
  {b : BatchRuntime}

/-- When one ready batch stops being ready, a cursor comes back to it and no further. -/
theorem CursorOk.offset_reopened (hl : st.Layout) (hc : st.CursorOk ready c)
    (hp : st.Passed ready c) (hc' : st'.CursorOk ready c') (hp' : st'.Passed ready c')
    (hoff : ∀ k, st'.offsetAt k = st.offsetAt k) (hnext : st'.batches.nextKey = st.batches.nextKey)
    (hfirst : st'.batches.firstKey = st.batches.firstKey)
    (hget : st.batches.get key = some b)
    (hstop : ∀ b', st'.batches.get key = some b' → ready b' = false)
    (hother : ∀ k, k ≠ key → st'.batches.get k = st.batches.get k) :
    c'.offset = min c.offset b.reservation.firstOffset := by
  have hkey := lt_nextKey_of_get hget
  have hheld : ∃ b', st'.batches.get key = some b' := exists_get (hfirst ▸ hkey.1) (hnext ▸ hkey.2)
  have hle_key : c'.nextBatch ≤ key := by
    by_contra hlt
    obtain ⟨b', hb'⟩ := hheld
    have htrue := hp' key b' (by omega) hb'
    rw [hstop b' hb'] at htrue
    cases htrue
  have hle_old : c'.nextBatch ≤ c.nextBatch := by
    by_contra hlt
    -- the batch that stopped the old cursor stops the new one too
    obtain ⟨b', hb'⟩ := exists_get hc.inPlace.firstKey_le
      (show c.nextBatch < st.batches.nextKey by omega)
    have hfalse := hc.blocked b' hb'
    have hne : c.nextBatch ≠ key := by omega
    rw [← hother _ hne] at hb'
    rw [hp' _ b' (by omega) hb'] at hfalse
    cases hfalse
  have hge : min c.nextBatch key ≤ c'.nextBatch := by
    refine hc'.le_of_ready (by rw [hnext]; omega) fun k b' hk hb' ↦ ?_
    rw [hother k (by omega)] at hb'
    exact hp k b' (by omega) hb'
  have heq : c'.nextBatch = min c.nextBatch key := by omega
  rw [hc'.inPlace.offset_eq, hoff, hc.inPlace.offset_eq, (hl.get hget).2.2.2.1, heq]
  rcases Nat.le_total c.nextBatch key with h | h
  · rw [min_eq_left h, min_eq_left (hl.offsetAt_le h hkey.2.le)]
  · rw [min_eq_right h, min_eq_right (hl.offsetAt_le h hc.inPlace.le_nextKey)]

end Retry

/-- What a command does to the visible ends. -/
structure EndsAfter (st st' : PartitionCore) (reopened : Option BatchRuntime) : Prop where
  /-- Without a retry no end goes down. -/
  plain : reopened = none → st.EndsLe st'
  /-- A retry brings the ends back to the batch it takes up. -/
  retry : ∀ b, reopened = some b →
    st'.contiguousLogEnd = min st.contiguousLogEnd b.reservation.firstOffset ∧
      st'.lastStableOffset = min st.lastStableOffset b.reservation.firstOffset ∧
      st'.replicatedEnd = min st.replicatedEnd b.reservation.firstOffset

section Command

variable {c : Command} {eff : Effect}

/-- **The ends after a command** on a partition with exact cursors, and that they stay exact. -/
theorem CoreEffect.endsAfter (h : CoreEffect st c eff) (hs : st.Sound) (he : st.Exact)
    (hkeeps : ∀ b, c.reopens st = some b → eff.reserved.isSome = true) :
    eff.state.Exact ∧
      EndsAfter st.toPartitionCore eff.state.toPartitionCore (c.reopens st) := by
  cases h with
  | moves hnone h =>
    obtain ⟨hexact, hends⟩ := exact_and_endsLe_of_moves h hs he
    exact ⟨hexact, fun _ ↦ hends, fun b hb ↦ by rw [hnone] at hb; cases hb⟩
  | refusedRetry hsome hget hstatus hreserved =>
    have := hkeeps _ hsome
    rw [hreserved] at this
    cases this
  | @retried key b digest hsome hget hstatus hcore =>
    have hl' := hs.layout.reopened key digest
    have hexact := exact_rewind_advance hl'
    have hcur := cursors_rewind_advance hl'
    have hres : (st.reopened key digest).reservations = st.reservations :=
      map_values_modify (g := fun b : BatchRuntime ↦ b.reservation)
        (f := fun b ↦ { b with status := .pending, payloadDigest := some digest })
        (fun _ ↦ rfl) st.batches key
    have hfirst : (st.reopened key digest).batches.firstKey =
        st.batches.firstKey := firstKey_modify ..
    have hoff : ∀ k, (st.reopened key digest).rewind.advance.offsetAt k =
        st.offsetAt k := by
      intro k
      change endOffset st.logStart ((st.reopened key digest).reservations.take
        (k - (st.reopened key digest).batches.firstKey)) = _
      rw [hres, hfirst]
      rfl
    have hother : ∀ k, k ≠ key →
        (st.reopened key digest).rewind.advance.batches.get k =
          st.batches.get k := by
      intro k hk
      change (st.batches.modify key _).get k = _
      rw [get_modify, if_neg hk]
    -- the three cursors come back in the same way
    have hback : ∀ {ready c c'}, Gate ready →
        st.CursorOk ready c → st.Passed ready c →
        (st.reopened key digest).rewind.advance.CursorOk ready c' →
        (st.reopened key digest).rewind.advance.Passed ready c' →
        c'.offset = min c.offset b.reservation.firstOffset := by
      intro ready c c' hgate hc hp hc' hp'
      refine CursorOk.offset_reopened hs.layout hc hp hc' hp' hoff
        (nextKey_modify ..) hfirst hget (fun b' hb' ↦ ?_) hother
      change (st.batches.modify key _).get key = some b' at hb'
      rw [get_modify, if_pos rfl, hget] at hb'
      cases hb'
      exact hgate.pending _ rfl
    have hstable := hback gate_stable hs.cursors.stable he.stable hcur.stable hexact.stable
    have hreplicated := hback (gate_replicated _) hs.cursors.replicated he.replicated
      hcur.replicated hexact.replicated
    rw [hcore]
    refine ⟨hexact, ⟨fun hnone ↦ ?_, fun b' hb' ↦ ?_⟩⟩
    · rw [hsome] at hnone
      cases hnone
    rw [hsome] at hb'
    cases hb'
    refine ⟨hback gate_settled hs.cursors.contiguous he.contiguous hcur.contiguous
      hexact.contiguous, hstable, ?_⟩
    simp only [replicatedEnd, replicatedHighWatermark, lastStableOffset] at *
    omega

theorem Command.KeepsRetries.endsAfter (h : c.KeepsRetries st) (hs : st.Sound)
    (he : st.Exact) (answer : Except EngineError Unit) :
    (c.run st answer).state.Exact ∧
      EndsAfter st.toPartitionCore (c.run st answer).state.toPartitionCore (c.reopens st) := by
  refine (c.outcome hs answer).core_effect.endsAfter hs he fun b hb ↦ ?_
  have hreserved := h b hb
  -- what a reservation hands out does not depend on the journal
  cases c with
  | reserveReplica => exact hreserved
  | _ => cases hb

end Command

/-- Along a run without refused retries, cursors are exact. -/
theorem CommandRun.sound_and_exact {allowed : PartitionState → Command → Prop}
    (hallowed : ∀ st c, allowed st c → c.KeepsRetries st) (hrun : CommandRun allowed st st')
    (hs : st.Sound) (he : st.Exact) : st'.Sound ∧ st'.Exact := by
  induction hrun with
  | refl => exact ⟨hs, he⟩
  | tail _ hstep ih =>
    obtain ⟨hs', he'⟩ := ih
    obtain ⟨answer, c, hok, rfl⟩ := hstep
    exact ⟨Command.sound hs' answer c, ((hallowed _ c hok).endsAfter hs' he' answer).1⟩

/-- The end of the readers of a mode, among the bounds a fetch is given. -/
def PartitionCore.FetchBounds.visibleEnd (bounds : FetchBounds) : VisibilityMode → Nat
  | .ordered => bounds.orderedEnd
  | .replicated => bounds.replicatedEnd

/-- An end that went down went down to the batch that was retried. -/
theorem EndsAfter.le_visibleEnd {st st' : PartitionCore} {reopened : Option BatchRuntime}
    (h : EndsAfter st st' reopened) (hthrough : through ≤ st.visibleEnd mode)
    (hreopened : ∀ b, reopened = some b → through ≤ b.reservation.firstOffset) :
    through ≤ st'.visibleEnd mode := by
  cases reopened with
  | none =>
    have hends := h.plain rfl
    cases mode with
    | ordered => exact hthrough.trans hends.stable
    | replicated => exact hthrough.trans hends.replicated
  | some b =>
    obtain ⟨-, hstable, hrepl⟩ := h.retry b rfl
    cases mode with
    | ordered =>
      change _ ≤ st'.lastStableOffset
      rw [hstable]
      exact le_min hthrough (hreopened b rfl)
    | replicated =>
      change _ ≤ st'.replicatedEnd
      rw [hrepl]
      exact le_min hthrough (hreopened b rfl)

/-- What is visible stays visible as long as no aborted batch below it is retried. -/
theorem CommandRun.le_visibleEnd (hrun : CommandRun (fun st c ↦ c.KeepsRetries st ∧
      ∀ b, c.reopens st = some b → through ≤ b.reservation.firstOffset) st st') (hs : st.Sound)
    (he : st.Exact) (hthrough : through ≤ st.visibleEnd mode) : through ≤ st'.visibleEnd mode := by
  induction hrun with
  | refl => exact hthrough
  | tail hpre hlast ih =>
    obtain ⟨hs', he'⟩ := CommandRun.sound_and_exact (fun _ _ h ↦ h.1) hpre hs he
    obtain ⟨answer, c, ⟨hkeeps, hbelow⟩, rfl⟩ := hlast
    exact (hkeeps.endsAfter hs' he' answer).2.le_visibleEnd ih hbelow

/-- **Visible ends over a run.** In every run without a retry that is refused half way, a command
lowers no visible end unless it retries an aborted batch, and such a retry lowers the ends exactly
to the batch. An offset that is visible stays fetchable as long as no aborted batch below it is
retried. -/
theorem visible_ends_of_run {config : EngineConfig} {start st : PartitionState}
    (hstart : PartitionStart config start)
    (hrun : CommandRun (fun st c ↦ c.KeepsRetries st) start st) :
    (∀ (answer : Except EngineError Unit) (c : Command), c.KeepsRetries st →
      EndsAfter st.toPartitionCore (c.run st answer).state.toPartitionCore (c.reopens st)) ∧
    ∀ (mode : VisibilityMode) (through : Nat) (st' : PartitionState), through ≤ st.visibleEnd mode →
      CommandRun (fun st c ↦ c.KeepsRetries st ∧
        ∀ b, c.reopens st = some b → through ≤ b.reservation.firstOffset) st st' →
      ∀ offset, st'.logStart ≤ offset →
        ∃ bounds, st'.fetchBounds offset = .ok bounds ∧ through ≤ bounds.visibleEnd mode := by
  obtain ⟨hs₀, he₀⟩ := hstart.sound_and_exact
  obtain ⟨hs, he⟩ := hrun.sound_and_exact (fun _ _ h ↦ h) hs₀ he₀
  refine ⟨fun answer c hkeeps ↦ (hkeeps.endsAfter hs he answer).2,
    fun mode through st' hthrough hrun' offset hoffset ↦ ?_⟩
  have hvisible := hrun'.le_visibleEnd hs he hthrough
  refine ⟨_, by rw [fetchBounds, if_neg (by omega)], ?_⟩
  cases mode <;> exact hvisible

/-! ### An end that goes down -/

/-- A fresh partition on one lane. -/
def oneLane : PartitionState :=
  .empty (freshSequencer ⟨0, 0⟩ 1 oneShardRing) ⟨1, 1, 1⟩

/-- The first batch of that partition, with one record. -/
def firstBatch : Reservation :=
  { topicId := 0, partitionId := 0, batchId := 0, firstOffset := 0, lastOffset := 0
    recordCount := .one
    placement := { virtualLaneId := 0, ringEpoch := 1, leaderEpoch := 0, sequence := 0 } }

/-- A replica reserves the first batch. -/
def reserveFirst : Command := .reserveReplica firstBatch none none 1 0

/-- The second batch of that partition. -/
def secondBatch : Reservation :=
  { firstBatch with
    batchId := 1, firstOffset := 1, lastOffset := 1
    placement := { firstBatch.placement with sequence := 1 } }

/-- The first batch is written. -/
def completeFirst : Command :=
  .complete ⟨firstBatch, none, 0, 1, false, appendResponse 0 firstBatch⟩

/-- The partition after the first batch was reserved. -/
def firstReserved : PartitionState :=
  { oneLane with
    sequencer :=
      { oneLane.sequencer with nextBatchId := 1, nextOffset := 1, nextPlacementSequence := 1 }
    batches := ⟨0, [pendingBatch firstBatch none none 1 0]⟩ }

/-- The partition after the first batch failed. -/
def firstFailed : PartitionState :=
  { firstReserved with
    batches := ⟨0, [(pendingBatch firstBatch none none 1 0).marked .aborted 0]⟩
    contiguous := ⟨1, 1⟩, stable := ⟨1, 1⟩, replicated := ⟨1, 1⟩ }

theorem oneLane_created : PartitionStart ⟨1, 1, 1⟩ oneLane :=
  .created (new_freshSequencer ⟨0, 0⟩ 1 oneShardRing)

theorem run_firstFailed {allowed : PartitionState → Command → Prop}
    (hreserve : allowed oneLane reserveFirst)
    (hfail : allowed firstReserved (.fail firstBatch none true)) :
    CommandRun allowed oneLane firstFailed :=
  .tail (.single ⟨.ok (), reserveFirst, hreserve, rfl⟩)
    ⟨.ok (), .fail firstBatch none true, hfail, rfl⟩

/-- The run that reserves the first batch and fails it; the retry that follows hands it out
again. -/
theorem visible_ends_of_first_retry :
    EndsAfter firstFailed.toPartitionCore
        (reserveFirst.run firstFailed (.ok ())).state.toPartitionCore
        (reserveFirst.reopens firstFailed) ∧
      ∃ bounds, firstFailed.fetchBounds 0 = .ok bounds ∧ 1 ≤ bounds.visibleEnd .ordered := by
  have hreserve : reserveFirst.KeepsRetries oneLane := by
    intro b hb
    cases hb
  have hfail : (Command.fail firstBatch none true).KeepsRetries firstReserved := by
    intro b hb
    cases hb
  have hends := visible_ends_of_run oneLane_created (run_firstFailed hreserve hfail)
  exact ⟨hends.1 (.ok ()) reserveFirst fun b _ ↦ by decide +kernel,
    hends.2 .ordered 1 firstFailed (by decide +kernel) .refl 0 (by decide +kernel)⟩

/-- **A retry takes visibility back.** The first batch is reserved for a replica, fails, and is
reserved again: the three ends were behind it and come back to its start. -/
theorem retry_lowers_ends :
    ∃ start st : PartitionState, PartitionStart ⟨1, 1, 1⟩ start ∧
      CommandRun (fun _ _ ↦ True) start st ∧
      ∃ c : Command, (c.run st (.ok ())).state.contiguousLogEnd < st.contiguousLogEnd ∧
        (c.run st (.ok ())).state.lastStableOffset < st.lastStableOffset ∧
        (c.run st (.ok ())).state.replicatedEnd < st.replicatedEnd := by
  exact ⟨oneLane, firstFailed, oneLane_created, run_firstFailed trivial trivial, reserveFirst,
    by decide +kernel⟩

end ShardStream
