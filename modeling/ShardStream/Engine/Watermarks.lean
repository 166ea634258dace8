import ShardStream.Engine.Refusals
import ShardStream.Engine.WellFormed

/-!
# Cached watermarks

The three watermarks of a partition are cached. A command moves their cursors forward from where
they stand, or sends them back to the log start, and never looks at the batches behind them. What a
cursor should be is what a scan of all retained batches from the log start gives (`scanned`): the
end of the longest prefix that is ready for it.

Soundness keeps cursors in place and blocked, so a cursor is the scanned one exactly when everything
behind it is ready (`Sound.scanned_iff`). Only one command takes readiness away without sending the
cursors back: a replica reservation that makes an aborted batch pending again and is then refused by
the batch's group. If that batch is behind the contiguous cursor the cached watermarks are wrong
afterwards (`Undercuts`); in every other case they are exact.
-/

namespace ShardStream

open PartitionCore DenseOrderedMap

/-- The cursor found by a scan of the retained batches from the log start. -/
def PartitionCore.scanned (st : PartitionCore) (ready : BatchRuntime → Bool) : Cursor :=
  ⟨st.batches.firstKey + (st.batches.values.takeWhile ready).length,
    endOffset st.logStart ((st.batches.values.takeWhile ready).map (·.reservation))⟩

/-- **Exact watermarks.** Every cached cursor is the scanned one. -/
structure PartitionCore.WatermarksScanned (st : PartitionCore) : Prop where
  /-- The longest prefix without a pending batch. -/
  contiguous : st.contiguous = st.scanned BatchRuntime.settled
  /-- The longest prefix without a pending or unresolved batch. -/
  stable : st.stable = st.scanned BatchRuntime.stable
  /-- The longest prefix in which every batch is aborted, or settled and on enough replicas. -/
  replicated : st.replicated = st.scanned st.replicatedReady

/-- The command makes an aborted batch behind the contiguous cursor pending again, and the batch's
group refuses the chunk. -/
def Command.Undercuts (st : PartitionState) : Command → Prop
  | .reserveReplica r producer group bytes digest => ∃ b, st.batches.get r.batchId = some b ∧
      b.status = .aborted ∧ b.matchesReplica r producer group bytes digest = true ∧
      r.batchId < st.contiguous.nextBatch ∧ st.RefusesChunk group bytes r.recordCount
  | _ => False

section Scan

variable {st : PartitionCore}

/-- A scan is the walk from the log start. -/
theorem PartitionCore.Layout.scanned_eq (h : st.Layout) (ready : BatchRuntime → Bool) :
    st.advanceCursor ready st.startCursor = st.scanned ready := by
  have hscan : st.batches.scanFrom st.batches.firstKey = st.batches.values := by
    simpa using scanFrom_add st.batches 0
  rw [advanceCursor, startCursor, hscan]
  exact walk_eq h.laid

/-- A cursor that is blocked is the scanned one exactly when everything behind it is ready. -/
theorem PartitionCore.CursorOk.eq_scanned_iff (hl : st.Layout) {ready : BatchRuntime → Bool}
    {c : Cursor} (hc : st.CursorOk ready c) : c = st.scanned ready ↔ st.Passed ready c := by
  have hok : st.CursorOk ready (st.scanned ready) := by
    rw [← hl.scanned_eq]
    exact cursorOk_advanceCursor hl (inPlace_startCursor st)
  have hpassed : st.Passed ready (st.scanned ready) := by
    rw [← hl.scanned_eq]
    exact passed_advanceCursor hl (inPlace_startCursor st) (passed_startCursor st ready)
  constructor
  · intro h
    rw [h]
    exact hpassed
  · intro h
    have hkey : c.nextBatch = (st.scanned ready).nextBatch :=
      le_antisymm (hok.le_of_ready hc.inPlace.le_nextKey h)
        (hc.le_of_ready hok.inPlace.le_nextKey hpassed)
    have hoff : c.offset = (st.scanned ready).offset := by
      rw [hc.inPlace.offset_eq, hok.inPlace.offset_eq, hkey]
    exact congrArg₂ Cursor.mk hkey hoff

/-- **The cached watermarks of a sound partition are exact when its cursors are.** -/
theorem PartitionCore.Sound.scanned_iff (hs : st.Sound) : st.WatermarksScanned ↔ st.Exact := by
  obtain ⟨hl, hc⟩ := hs
  constructor
  · intro h
    exact ⟨(hc.contiguous.eq_scanned_iff hl).1 h.contiguous,
      (hc.stable.eq_scanned_iff hl).1 h.stable, (hc.replicated.eq_scanned_iff hl).1 h.replicated⟩
  · intro h
    exact ⟨(hc.contiguous.eq_scanned_iff hl).2 h.contiguous,
      (hc.stable.eq_scanned_iff hl).2 h.stable, (hc.replicated.eq_scanned_iff hl).2 h.replicated⟩

/-- A batch that is pending again leaves the cursors exact exactly when none has passed it. -/
theorem PartitionCore.Exact.reopened_iff (he : st.Exact) (hs : st.Sound) {key : Nat}
    {b : BatchRuntime} (hget : st.batches.get key = some b) (digest : Digest) :
    (st.reopened key digest).Exact ↔ st.contiguous.nextBatch ≤ key := by
  have hordered := he.cursorsOrdered hs
  constructor
  · intro h
    by_contra hlt
    have hb : (st.reopened key digest).batches.get key =
        some { b with status := .pending, payloadDigest := some digest } := by
      change (st.batches.modify key _).get key = _
      rw [get_modify, if_pos rfl, hget]
      rfl
    have hready := h.contiguous key _ (Nat.not_le.1 hlt) hb
    simp [BatchRuntime.settled] at hready
  · intro hle
    -- what lies behind the cursors is untouched
    have hkeep : ∀ {ready c}, c.nextBatch ≤ key →
        st.Passed ready c → (st.reopened key digest).Passed ready c := by
      intro ready c hc hp k b' hlt hb'
      change (st.batches.modify key _).get k = some b' at hb'
      rw [get_modify, if_neg (by omega)] at hb'
      exact hp k b' hlt hb'
    exact ⟨hkeep hle he.contiguous, hkeep (hordered.stable.trans hle) he.stable,
      hkeep (hordered.replicated.trans hle) he.replicated⟩

end Scan

section Command

variable {st : PartitionState} {c : Command} {eff : Effect} {answer : Except EngineError Unit}

/-- A command that undercuts the cursors takes up an aborted batch. -/
theorem Command.Undercuts.reopens (h : c.Undercuts st) : ∃ b, c.reopens st = some b := by
  cases c with
  | reserveReplica r producer group bytes digest =>
    obtain ⟨b, hget, hstatus, hmatch, -⟩ := h
    exact ⟨b, by simp [Command.reopens, hget, hstatus, hmatch]⟩
  | _ => exact h.elim

/-- **One command on exact cursors**: they stay exact unless it undercuts them. -/
theorem Outcome.exact_iff (h : Outcome st answer c eff) (hs : st.Sound) (he : st.Exact) :
    eff.state.Exact ↔ ¬ c.Undercuts st := by
  have heff := h.core_effect
  -- without a retry the cursors stay exact
  have hplain : c.reopens st = none → (eff.state.Exact ↔ ¬ c.Undercuts st) := by
    intro hnone
    refine iff_of_true (heff.endsAfter hs he fun b hb ↦ ?_).1 fun hunder ↦ ?_
    · rw [hnone] at hb
      cases hb
    · obtain ⟨b, hb⟩ := hunder.reopens
      rw [hnone] at hb
      cases hb
  cases h with
  | quiet hreopens => exact hplain hreopens
  | allocated hvalid hsettles hreopens => exact hplain hreopens
  | appended hpasses => exact hplain (by simp [Command.reopens, hpasses.absent])
  | @retried r producer group bytes digest b hget hstatus hmatch hreg =>
    refine iff_of_true (heff.endsAfter hs he fun _ _ ↦ rfl).1 ?_
    rintro ⟨-, -, -, -, -, hrefused⟩
    obtain ⟨e, herror⟩ : ∃ e, (registerNamedChunk (st.reopen r.batchId producer digest) group r
        bytes).1 = .error e := (exists_registerNamedChunk_eq_error_iff rfl).2 hrefused
    rw [hreg] at herror
    cases herror
  | @refusedRetry r producer group bytes digest b e hget hstatus hmatch hreg =>
    have hkept : (st.reopen r.batchId producer digest).atomicGroups = st.atomicGroups := rfl
    have hrefused : st.RefusesChunk group bytes r.recordCount :=
      (exists_registerNamedChunk_eq_error_iff hkept).1 ⟨e, hreg⟩
    rw [registerNamedChunk_snd]
    change (st.reopened r.batchId digest).Exact ↔ _
    rw [he.reopened_iff hs hget digest]
    constructor
    · rintro hle ⟨-, -, -, -, hlt, -⟩
      omega
    · intro hunder
      by_contra hlt
      exact hunder ⟨b, hget, hstatus, hmatch, Nat.not_le.1 hlt, hrefused⟩
  | completed | acknowledged | frozen | failed | decided | reconfigured | policyUpdated |
    truncated =>
    exact hplain rfl

end Command

/-- **Cached watermarks are exact.** In every state reached from a created or a recovered partition
by commands that do not undercut the cursors, every cached cursor is what a scan finds; and from
such a state a command, whether it succeeds or not, leaves them exact if and only if it does not
undercut them. -/
theorem cached_watermarks_scanned {start st : PartitionState} (hstart : PartitionOrigin start)
    (hrun : CommandRun (fun st c ↦ ¬ c.Undercuts st) start st) :
    st.WatermarksScanned ∧ ∀ (answer : Except EngineError Unit) (c : Command),
      (c.run st answer).state.WatermarksScanned ↔ ¬ c.Undercuts st := by
  obtain ⟨hs₀, he₀⟩ := hstart.sound_and_exact
  have hboth : st.Sound ∧ st.Exact := by
    induction hrun with
    | refl => exact ⟨hs₀, he₀⟩
    | tail _ hstep ih =>
      obtain ⟨answer, c, hkeeps, rfl⟩ := hstep
      exact ⟨Command.sound ih.1 answer c, ((c.outcome ih.1 answer).exact_iff ih.1 ih.2).2 hkeeps⟩
  obtain ⟨hs, he⟩ := hboth
  refine ⟨hs.scanned_iff.2 he, fun answer c ↦ ?_⟩
  rw [(Command.sound hs answer c).scanned_iff]
  exact (c.outcome hs answer).exact_iff hs he

/-- The partition whose first batch was reserved and has failed: a retry rebuilds its watermarks. -/
theorem first_retry_scanned : firstFailed.WatermarksScanned ∧
    (reserveFirst.run firstFailed (.ok ())).state.WatermarksScanned := by
  have hplain : ∀ {st}, ¬ reserveFirst.Undercuts st := by
    rintro st ⟨-, -, -, -, -, identity, hnone, -⟩
    cases hnone
  obtain ⟨hscanned, hiff⟩ := cached_watermarks_scanned oneLane_origin (run_firstFailed hplain id)
  exact ⟨hscanned, (hiff (.ok ()) reserveFirst).2 hplain⟩

/-- **A refused retry leaves wrong watermarks.** The chunk of an aborted group is pending after the
refused replica reservation, and the contiguous cursor is behind it. -/
theorem refused_retry_undercuts_watermarks : ∃ e st c, EngineReachable ⟨1, 1, 1⟩ .any e ∧
    e.states.get ⟨0, 0⟩ = some st ∧ st.WatermarksScanned ∧
      ¬ (Command.run st (.ok ()) c).state.WatermarksScanned := by
  obtain ⟨e, st, he, hst, h⟩ := Engine.exists_of_play ⟨1, 1, 1⟩ abortedChunk ⟨0, 0⟩
    (fun _ st ↦ ∃ b, st.batches.get 0 = some b ∧
      let st' :=
        ((Command.reserveReplica b.reservation none (some ⟨7, 0⟩) 1 0).run st (.ok ())).state
      st.contiguous = st.scanned BatchRuntime.settled ∧ st.stable = st.scanned BatchRuntime.stable ∧
        st.replicated = st.scanned st.replicatedReady ∧
        st'.contiguous ≠ st'.scanned BatchRuntime.settled)
    Guard.any_implies (by decide +kernel)
  obtain ⟨b, -, hcontiguous, hstable, hreplicated, hne⟩ := h
  exact ⟨e, st, _, he, hst, ⟨hcontiguous, hstable, hreplicated⟩, fun h ↦ hne h.contiguous⟩

end ShardStream
