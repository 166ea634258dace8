import ShardStream.Engine.Restart

/-!
# Leader epochs across restarts

A partition refuses coordinates under a leader epoch older than the one it has observed. The epoch
is not journaled: a restart takes it from the last extent that is not truncated, and from nothing
when there is none. A `FencedEngine` is an engine together with the leader epochs that were observed
for replicas since the last restart and the reservations that were completed so far; the replica
path asks for coordinates only after it has observed their epoch.

Along the batches that are durable or can still become durable, leader epochs do not fall
(`EpochsOrdered`), so the last extent has the largest epoch of all that are retained. What a restart
forgets is therefore exactly the epochs above those that retention has left.
-/

namespace ShardStream

open PartitionCore DenseOrderedMap Option

variable {b : BatchRuntime} {r : Reservation} {epoch replicas : Nat} {f f' : FencedEngine}
  {tp : TopicPartition} {st st' : PartitionState} {E : List ExtentCatalogEntry} {c : Command}
  {answer : Except EngineError Unit} {config : EngineConfig}
  {states : Table TopicPartition PartitionState} {s : ReplayState}

/-! ### Runs with observed epochs -/

/-- The leader epoch a command makes the partition observe. -/
def Command.observes (st : PartitionState) : Command → Option Nat
  | .observeLeaderEpoch leaderEpoch =>
    (ShardStream.observeLeaderEpoch st leaderEpoch).toOption.map fun _ ↦ leaderEpoch
  | _ => none

/-- The reservation a command completes. -/
def Command.completes (st : PartitionState) : Command → Option Reservation
  | .complete c => (ShardStream.complete st c).toOption.map fun _ ↦ c.reservation
  | _ => none

/-- The replica path observes the leader epoch of a batch before it reserves the batch. -/
def Command.Observed (observed : List (TopicPartition × Nat)) (tp : TopicPartition) :
    Command → Prop
  | .reserveReplica r _ _ _ _ => (tp, r.placement.leaderEpoch) ∈ observed
  | _ => True

instance (observed : List (TopicPartition × Nat)) (tp : TopicPartition) (c : Command) :
    Decidable (c.Observed observed tp) := by
  cases c <;> unfold Command.Observed <;> infer_instance

/-- An engine, the leader epochs observed for replicas since it was opened, and the reservations
completed in its whole history. -/
structure FencedEngine where
  engine : Engine
  observed : List (TopicPartition × Nat)
  completed : List (TopicPartition × Reservation)

namespace FencedEngine

/-- Nothing has happened yet. -/
def initial : FencedEngine := ⟨.initial, [], []⟩

/-- The engine after a command. -/
def commanded (f : FencedEngine) (tp : TopicPartition) (st : PartitionState)
    (answer : Except EngineError Unit) (c : Command) : FencedEngine where
  engine := f.engine.commanded tp st answer c
  observed := f.observed ++ ((c.observes st).map fun epoch ↦ (tp, epoch)).toList
  completed := f.completed ++ ((c.completes st).map fun r ↦ (tp, r)).toList

/-- The engine opened again: what was observed is forgotten with the process. -/
def restarted (f : FencedEngine) (states : Table TopicPartition PartitionState) : FencedEngine where
  engine := { f.engine with states, inFlight := [] }
  observed := []
  completed := f.completed

end FencedEngine

/-- What can happen while the engine runs: creations, extents becoming durable, and commands. -/
inductive FencedStep (config : EngineConfig) : FencedEngine → FencedEngine → Prop
  | command {f : FencedEngine} {tp : TopicPartition} {st : PartitionState}
      {answer : Except EngineError Unit} {c : Command} (hst : f.engine.states.get tp = some st)
      (hadmits : f.engine.Admits config tp st c) (hobserved : c.Observed f.observed tp) :
      FencedStep config f (f.commanded tp st answer c)
  | background {f : FencedEngine} {e : Engine}
      (h : EngineStep config ⟨fun _ _ _ _ ↦ False, fun _ ↦ False⟩ f.engine e) :
      FencedStep config f { f with engine := e }

/-- The engines reached from an empty directory, over any number of restarts. -/
inductive FencedReachable (config : EngineConfig) : FencedEngine → Prop
  | initial : FencedReachable config .initial
  | step {f f' : FencedEngine} (h : FencedReachable config f) (hstep : FencedStep config f f') :
      FencedReachable config f'
  | restart {f : FencedEngine} {states : Table TopicPartition PartitionState}
      (h : FencedReachable config f) (hrec : f.engine.recover config 1 = .ok states) :
      FencedReachable config (f.restarted states)

section Reachable

theorem FencedStep.live (h : FencedStep config f f') :
    EngineStep config .live f.engine f'.engine := by
  cases h with
  | command hst hadmits => exact .command hst hadmits trivial
  | background h => exact h.mono (fun _ _ _ _ hrule ↦ hrule.elim) fun _ hrule ↦ hrule

theorem FencedReachable.reachable (h : FencedReachable config f) :
    EngineReachable config .any f.engine := by
  induction h with
  | initial => exact .refl
  | step _ hstep ih => exact ih.tail hstep.live.of_live
  | restart _ hrec ih => exact ih.tail (.restart trivial hrec)

theorem FencedReachable.steps (h : FencedReachable config f)
    (hsteps : Relation.ReflTransGen (FencedStep config) f f') : FencedReachable config f' := by
  induction hsteps with
  | refl => exact h
  | tail _ hstep ih => exact ih.step hstep

end Reachable

/-! ### The epoch of one command -/

section Outcome

variable {eff : Effect}

/-- **The sequencer after a command**: it stands where it stood, or it gave out the next batch under
an epoch that is not older than its own. -/
theorem Outcome.epoch_cases (h : Outcome st answer c eff) :
    st.sequencer.leaderEpoch ≤ eff.state.sequencer.leaderEpoch ∧
      (eff.state.sequencer.nextBatchId = st.sequencer.nextBatchId ∨
        ∃ b, eff.state.batches.get st.batches.nextKey = some b ∧
          st.sequencer.leaderEpoch ≤ b.reservation.placement.leaderEpoch ∧
          b.reservation.placement.leaderEpoch = eff.state.sequencer.leaderEpoch) := by
  cases h with
  | quiet hreopens hepoch => exact ⟨hepoch, .inl rfl⟩
  | @allocated _ p hvalid =>
    obtain ⟨-, hle, -⟩ := hvalid.reservation
    exact ⟨hle, .inr ⟨p.batch, get_nextKey_allocated st p, hle, rfl⟩⟩
  | @appended r producer group bytes digest reserved producers h =>
    have hepoch : r.placement.leaderEpoch = st.sequencer.leaderEpoch := by rw [h.next]; rfl
    rw [registerNamedChunk_snd]
    refine ⟨le_rfl, .inr ⟨pendingBatch r producer group bytes digest, ?_, hepoch.ge, hepoch⟩⟩
    change (st.batches.snoc _).get _ = _
    rw [get_snoc, if_pos rfl]
  | retried | refusedRetry =>
    rw [registerNamedChunk_snd]
    exact ⟨le_rfl, .inl rfl⟩
  | @frozen r producer => cases producer <;> exact ⟨le_rfl, .inl rfl⟩
  | @failed r producer =>
    rw [rollbackAtomicChunk_snd]
    cases producer <;> exact ⟨le_rfl, .inl rfl⟩
  | _ => exact ⟨le_rfl, .inl rfl⟩

/-- A batch that a command adds is under an epoch between the old and the new one. -/
theorem Outcome.epoch_of_new (h : Outcome st answer c eff) (hs : st.Sound)
    (hb : eff.state.batches.get st.batches.nextKey = some b) :
    st.sequencer.leaderEpoch ≤ b.reservation.placement.leaderEpoch ∧
      b.reservation.placement.leaderEpoch ≤ eff.state.sequencer.leaderEpoch := by
  rcases (h.epoch_cases).2 with hnext | ⟨b', hb', hle, heq⟩
  · -- the sequencer did not move, so there is no batch at its position
    have hs' := (h.core_effect.sound hs).layout
    have hlt := (lt_nextKey_of_get hb).2
    rw [← hs'.nextBatchId, hnext, hs.layout.nextBatchId] at hlt
    exact absurd hlt (lt_irrefl _)
  · rw [hb] at hb'
    cases hb'
    exact ⟨hle, heq.le⟩

/-- What a command hands out is not under an older epoch, unless it is an old batch of a replica. -/
theorem Outcome.epoch_of_reserved (h : Outcome st answer c eff) (hr : eff.reserved = some r) :
    st.sequencer.leaderEpoch ≤ r.placement.leaderEpoch ∨
      ∃ producer group bytes digest, c = .reserveReplica r producer group bytes digest := by
  cases h with
  | @allocated _ p hvalid =>
    cases hr
    exact .inl hvalid.reservation.2.1
  | @appended r' producer group bytes digest reserved producers hpasses hproducers hreserved =>
    rcases hreserved with rfl | ⟨rfl, -⟩ <;> cases hr
    exact .inr ⟨producer, group, bytes, digest, rfl⟩
  | @retried r' producer group bytes digest =>
    cases hr
    exact .inr ⟨producer, group, bytes, digest, rfl⟩
  | _ => cases hr

/-- An epoch is observed only if it is not older than the one of the partition. -/
theorem Command.le_of_observes (h : c.observes st = some epoch) :
    st.sequencer.leaderEpoch ≤ epoch := by
  cases c with
  | observeLeaderEpoch leaderEpoch =>
    simp only [Command.observes, map_eq_some_iff, toOption_eq_some_iff] at h
    obtain ⟨st', hok, rfl⟩ := h
    exact (observeLeaderEpoch_eq_ok hok).1
  | _ => cases h

end Outcome

/-! ### Epochs along the batches -/

namespace FencedEngine

/-- The batch has no extent and nobody is writing one, and its leader epoch was not observed since
the engine was opened. -/
structure Lost (f : FencedEngine) (tp : TopicPartition) (key : Nat) (b : BatchRuntime) : Prop where
  unobserved : (tp, b.reservation.placement.leaderEpoch) ∉ f.observed
  volatile : ¬ f.engine.Durable tp key
  settled : (tp, key) ∉ f.engine.inFlight

/-- **Leader epochs do not fall** along the batches, the lost ones apart, and none is above the
epoch of the partition. -/
structure EpochsOrdered (f : FencedEngine) (tp : TopicPartition) (st : PartitionState) : Prop where
  bounded : ∀ key b, st.batches.get key = some b →
    b.reservation.placement.leaderEpoch ≤ st.sequencer.leaderEpoch
  ordered : ∀ i j b b', i ≤ j → st.batches.get i = some b → st.batches.get j = some b' →
    b.reservation.placement.leaderEpoch ≤ b'.reservation.placement.leaderEpoch ∨ f.Lost tp j b'

theorem EpochsOrdered.mono (h : f.EpochsOrdered tp st)
    (hlost : ∀ key b, f.Lost tp key b → f'.Lost tp key b) : f'.EpochsOrdered tp st :=
  ⟨h.bounded, fun i j b b' hij hb hb' ↦ (h.ordered i j b b' hij hb hb').imp_right (hlost j b')⟩

end FencedEngine

section Ordered

variable {tp' : TopicPartition}

theorem mem_observed_commanded (h : (tp', epoch) ∈ (f.commanded tp st answer c).observed) :
    (tp', epoch) ∈ f.observed ∨ tp' = tp ∧ c.observes st = some epoch := by
  rcases List.mem_append.1 h with h | h
  · exact .inl h
  · rw [mem_toList, map_eq_some_iff] at h
    obtain ⟨epoch', hepoch, heq⟩ := h
    cases heq
    exact .inr ⟨rfl, hepoch⟩

/-- A lost batch stays lost, unless its epoch is observed or its coordinates are handed out. -/
theorem FencedEngine.Lost.commanded {key : Nat} (h : f.Lost tp' key b)
    (hepoch : tp' = tp → c.observes st ≠ some b.reservation.placement.leaderEpoch)
    (hreserved : tp' = tp → ∀ r, (c.run st answer).reserved = some r → r.batchId ≠ key) :
    (f.commanded tp st answer c).Lost tp' key b where
  unobserved hmem := by
    rcases mem_observed_commanded hmem with hmem | ⟨htp, hobserves⟩
    · exact h.unobserved hmem
    · exact hepoch htp hobserves
  volatile := h.volatile
  settled hmem := by
    rcases mem_inFlightAfter.1 hmem with ⟨hmem, -⟩ | ⟨r, hr, htp, hkey⟩
    · exact h.settled hmem
    · exact hreserved htp r hr hkey.symm

/-- **A command keeps the epochs in order.** -/
theorem FencedEngine.EpochsOrdered.commanded (h : f.EpochsOrdered tp st)
    (hs : st.Sound) (hobserved : c.Observed f.observed tp) :
    (f.commanded tp st answer c).EpochsOrdered tp (c.run st answer).state := by
  have hout := c.outcome hs answer
  obtain ⟨hmono, -⟩ := hout.epoch_cases
  -- a batch held afterwards was held before, or it is the new one
  have hcases : ∀ key b', (c.run st answer).state.batches.get key = some b' →
      (∃ b, st.batches.get key = some b ∧ b'.reservation = b.reservation) ∨
        key = st.batches.nextKey := by
    intro key b' hb'
    by_cases hkey : key = st.batches.nextKey
    · exact .inr hkey
    · obtain ⟨b, hb, hsame⟩ := hout.heldBefore hs hb' hkey
      exact .inl ⟨b, hb, hsame.reservation⟩
  have hlt : ∀ {key b}, st.batches.get key = some b → key < st.batches.nextKey :=
    fun hb ↦ (lt_nextKey_of_get hb).2
  constructor
  · intro key b' hb'
    rcases hcases key b' hb' with ⟨b, hb, hres⟩ | rfl
    · rw [hres]
      exact (h.bounded key b hb).trans hmono
    · exact (hout.epoch_of_new hs hb').2
  · intro i j b₁ b₂ hij hb₁ hb₂
    rcases hcases j b₂ hb₂ with ⟨b', hb', hres'⟩ | rfl
    · rcases hcases i b₁ hb₁ with ⟨b, hb, hres⟩ | rfl
      · rw [hres, hres']
        rcases h.ordered i j b b' hij hb hb' with hle | hlost
        · exact .inl hle
        · -- a lost batch of a smaller epoch cannot be taken up any more
          rw [or_iff_not_imp_left]
          intro hnot
          have hlost' : f.Lost tp j b₂ := ⟨hres' ▸ hlost.1, hlost.2, hlost.3⟩
          refine hlost'.commanded (fun _ hobserves ↦ ?_) fun _ r hr hkey ↦ ?_
          · have := Command.le_of_observes hobserves
            have := h.bounded i b hb
            rw [hres'] at *
            omega
          · obtain ⟨b₃, hb₃, hres₃, -⟩ := hout.reserved_get hs hr
            rw [hkey, hb₂] at hb₃
            cases hb₃
            rcases hout.epoch_of_reserved hr with hle | ⟨producer, group, bytes, digest, rfl⟩
            · have := h.bounded i b hb
              rw [← hres₃, hres'] at hle
              omega
            · exact hlost'.unobserved (hres₃ ▸ hobserved)
      · have := hlt hb'
        omega
    · rcases hcases i b₁ hb₁ with ⟨b, hb, hres⟩ | rfl
      · rw [hres]
        exact .inl ((h.bounded i b hb).trans (hout.epoch_of_new hs hb₂).1)
      · rw [hb₁] at hb₂
        cases hb₂
        exact .inl le_rfl

end Ordered

/-! ### The recovered epoch -/

variable {history : RingHistory} {outcomes : Table Nat AtomicGroupState}

/-- The placeholders of a gap are under the epoch of the sequencer. -/
theorem leaderEpoch_of_appendAborts {ring : PlacementRing} {ringEpoch base remainder id seq : Nat} :
    ∀ {n index off : Nat} {st st' : PartitionState},
      appendAborts tp ring ringEpoch base remainder id seq n index off st = .ok st' →
      st'.sequencer = st.sequencer ∧ ∀ b ∈ st'.batches.values, b ∈ st.batches.values ∨
        b.reservation.placement.leaderEpoch = st.sequencer.leaderEpoch
  | 0, _, _, _, _, h => by
    cases h
    exact ⟨rfl, fun b hb ↦ .inl hb⟩
  | n + 1, index, off, st, st', h => by
    simp only [appendAborts] at h
    split_ifs at h with hbig hzero hoff
    split at h
    · cases h
    · rename_i st₁ happ
      have happended := appended_of_appendBatchRuntime happ
      obtain ⟨hseq, hvalues⟩ := leaderEpoch_of_appendAborts h
      rw [happended.tables.sequencer] at hseq hvalues
      refine ⟨hseq, fun b hb ↦ ?_⟩
      rcases hvalues b hb with hb | hb
      · rw [happended.values, List.mem_append, List.mem_singleton] at hb
        exact hb.imp_right fun heq ↦ by rw [heq]; rfl
      · exact .inr hb

/-- What a recovery puts between the extents is under epoch zero. -/
def PlaceholdersAtZero (acc : Recovering) : Prop :=
  acc.state.sequencer.leaderEpoch = 0 ∧ ∀ b ∈ acc.state.batches.values, b.IsPlaceholder →
    b.reservation.placement.leaderEpoch = 0

theorem PlaceholdersAtZero.step {acc acc' : Recovering} {e : ExtentCatalogEntry}
    (h : PlaceholdersAtZero acc)
    (hrec : recoverEntry history tp outcomes replicas acc e = .ok acc') :
    PlaceholdersAtZero acc' := by
  obtain ⟨-, -, -, -, -, st₁, st₂, st₃, st₄, h₁, h₂, h₃, h₄, -, -, -, rfl⟩ :=
    recoverEntry_eq_ok_iff.1 hrec
  obtain ⟨hseq, hgap⟩ : st₁.sequencer = acc.state.sequencer ∧ ∀ b ∈ st₁.batches.values,
      b ∈ acc.state.batches.values ∨ b.reservation.placement.leaderEpoch =
        acc.state.sequencer.leaderEpoch := by
    simp only [appendRecoveredAborts] at h₁
    split_ifs at h₁
    · cases h₁
      exact ⟨rfl, fun b hb ↦ .inl hb⟩
    · split at h₁
      · cases h₁
      · exact leaderEpoch_of_appendAborts h₁
  have happ := appended_of_appendBatchRuntime h₂
  obtain ⟨hseq₃, hbatches₃⟩ : st₃.sequencer = st₂.sequencer ∧ st₃.batches = st₂.batches := by
    simp only [registeredChunk, map_eq_ok_iff] at h₃
    obtain ⟨-, -, rfl⟩ := h₃
    rw [registerNamedChunk_snd]
    exact ⟨rfl, rfl⟩
  obtain ⟨-, rfl⟩ := restoreProducer_eq_ok_iff.1 h₄
  refine ⟨?_, fun b hb hplace ↦ ?_⟩
  · rw [hseq₃, happ.tables.sequencer, hseq]
    exact h.1
  · rw [hbatches₃, happ.values, List.mem_append, List.mem_singleton] at hb
    rcases hb with hb | rfl
    · rcases hgap b hb with hb | hb
      · exact h.2 b hb hplace
      · rw [hb]
        exact h.1
    · -- an extent outside of a group is committed, a placeholder is aborted
      cases hg : e.atomicGroup with
      | none =>
        have := congrArg BatchRuntime.status hplace
        simp [recoveredBatch, recoveredStatus, hg, abortedBatch] at this
      | some g =>
        have := congrArg BatchRuntime.atomicGroup hplace
        simp [recoveredBatch, hg, abortedBatch] at this

theorem PlaceholdersAtZero.fold : ∀ {acc acc' : Recovering}, PlaceholdersAtZero acc →
      E.foldlM (recoverEntry history tp outcomes replicas) acc = .ok acc' →
      PlaceholdersAtZero acc' := by
  induction E with
  | nil =>
    intro acc acc' h hfold
    cases hfold
    exact h
  | cons e E ih =>
    intro acc acc' h hfold
    obtain ⟨acc₁, hstep, hfold⟩ := bind_eq_ok_iff.1 hfold
    exact ih (h.step hstep) hfold

section Recovered

variable {extents : List ExtentCatalogEntry} {inFlight : List (TopicPartition × Nat)}
  {journal : List JournalEvent}

/-- The epoch of the last batch is the one of the last extent. -/
theorem Recovered.entriesLeaderEpoch_eq {ctx : RecoveryContext} (h : Recovered ctx E st) :
    entriesLeaderEpoch st = (E.getLast?.map (·.reservation.placement.leaderEpoch)).getD 0 := by
  have hvalues : st.batches.valuesFrom st.batches.firstKey = st.batches.values := by
    simp [valuesFrom]
  have hlast := h.last
  rw [entriesLeaderEpoch, hvalues]
  cases hE : E.getLast? with
  | none =>
    rw [hE, map_none, getD_none, ← h.firstKey, nextKey] at hlast
    have : st.batches.values = [] := List.length_eq_zero_iff.1 (by omega)
    rw [this]
    rfl
  | some e =>
    rw [hE, map_some, getD_some, nextKey] at hlast
    obtain ⟨hle, hget⟩ := get_eq_some_iff.1 (h.entry e (List.mem_of_getLast? hE))
    have hindex : e.reservation.batchId - st.batches.firstKey = st.batches.values.length - 1 := by
      omega
    rw [hindex, ← List.getLast?_eq_getElem?] at hget
    rw [hget]
    rfl

/-- The epochs of a recovered partition: its own is the one of its last batch, and those of the
placeholders are zero. -/
theorem Backed.recovered_epochs (h : Backed config s extents inFlight tp st)
    (hreplay : replay config journal = .ok s)
    (hrec : recoverPartition config s (retainedCatalog journal extents) replicas tp = .ok st') :
    st'.sequencer.leaderEpoch = entriesLeaderEpoch st' ∧
      ∀ key b, st'.batches.get key = some b → b.IsPlaceholder →
        b.reservation.placement.leaderEpoch = 0 := by
  obtain ⟨hoff, hkey, hcount⟩ := h.recoverable hreplay
  obtain ⟨-, acc, hfold, rfl⟩ := (recoverPartition_eq_ok_iff h.journaling.ring h.journaling.aligned
    hoff hkey hcount).1 hrec
  refine ⟨rfl, fun key b hb ↦ ?_⟩
  refine (PlaceholdersAtZero.fold ⟨?_, ?_⟩ hfold).2 b (mem_values_of_get hb)
  · unfold recoveryStart
    cases (s.truncation tp).sequencerFloor <;> rfl
  · rw [firstKey_recoveryStart h.journaling.aligned.firstKey]
    simp [new]

end Recovered

/-! ### Over runs -/

section Runs

/-- Durable epochs do not fall. -/
theorem FencedEngine.EpochsOrdered.extents_le (h : f.EpochsOrdered tp st)
    (hb : BackedBy config f.engine s) (hst : f.engine.states.get tp = some st)
    {x y : ExtentCatalogEntry}
    (hx : x ∈ f.engine.entries tp)
    (hy : y ∈ f.engine.entries tp)
    (hle : x.reservation.batchId ≤ y.reservation.batchId) :
    x.reservation.placement.leaderEpoch ≤ y.reservation.placement.leaderEpoch := by
  have hbacked := hb.backed tp st hst
  obtain ⟨b, hget, hdesc⟩ := hbacked.describes hb.replay hx
  obtain ⟨b', hget', hdesc'⟩ := hbacked.describes hb.replay hy
  obtain ⟨hmem, htp, -⟩ := (hbacked.mem_entries_iff hb.replay).1 hy
  rw [hdesc.reservation, hdesc'.reservation]
  refine (h.ordered _ _ b b' hle hget hget').resolve_right fun hlost ↦ hlost.volatile ?_
  exact ⟨y, hmem, ExtentCatalogEntry.key_eq_iff.2 ⟨htp, rfl⟩⟩

/-- **The recovered epoch** is at least the epoch of every retained extent, and one of them has it
unless it is zero. -/
theorem FencedEngine.EpochsOrdered.recovered_epoch (h : f.EpochsOrdered tp st)
    (hb : BackedBy config f.engine s) (hst : f.engine.states.get tp = some st)
    (hrec : recoverPartition config s (retainedCatalog f.engine.journal f.engine.extents) 1 tp =
      .ok st') :
    (∀ x ∈ f.engine.entries tp, x.reservation.placement.leaderEpoch ≤ st'.sequencer.leaderEpoch) ∧
    (st'.sequencer.leaderEpoch = 0 ∨
      ∃ x ∈ f.engine.entries tp,
        x.reservation.placement.leaderEpoch = st'.sequencer.leaderEpoch) := by
  have hbacked := hb.backed tp st hst
  have hr := hbacked.recovered hb.replay hrec
  rw [(hbacked.recovered_epochs hb.replay hrec).1, hr.entriesLeaderEpoch_eq]
  have hnext := hr.last
  cases hlast :
      (f.engine.entries tp).getLast? with
  | none =>
    rw [List.getLast?_eq_none_iff] at hlast
    simp [hlast]
  | some y =>
    have hy := List.mem_of_getLast? hlast
    rw [hlast] at hnext
    refine ⟨fun x hx ↦ h.extents_le hb hst hx hy ?_, .inr ⟨y, hy, rfl⟩⟩
    have hlt := (lt_nextKey_of_get (hr.entry x hx)).2
    rw [hnext] at hlt
    exact Nat.lt_succ_iff.1 hlt

/-- **A restart keeps the epochs in order.** -/
theorem FencedEngine.EpochsOrdered.restarted (h : f.EpochsOrdered tp st)
    (hb : BackedBy config f.engine s) (hst : f.engine.states.get tp = some st)
    (hrec : recoverPartition config s (retainedCatalog f.engine.journal f.engine.extents) 1 tp =
      .ok st') : (f.restarted states).EpochsOrdered tp st' := by
  have hbacked := hb.backed tp st hst
  have hr := hbacked.recovered hb.replay hrec
  have hbacked' := hbacked.restart hb.replay hb.nodup hrec
  obtain ⟨-, hzero⟩ := hbacked.recovered_epochs hb.replay hrec
  constructor
  · intro key b hget
    rcases hr.get_cases hget with ⟨x, hx, -, rfl⟩ | ⟨hplace, -⟩
    · exact (h.recovered_epoch hb hst hrec).1 x hx
    · rw [hzero key b hget hplace]
      exact Nat.zero_le _
  · intro i j b b' hij hget hget'
    rcases hr.get_cases hget' with ⟨y, hy, rfl, rfl⟩ | ⟨hplace', -⟩
    · left
      rcases hr.get_cases hget with ⟨x, hx, rfl, rfl⟩ | ⟨hplace, -⟩
      · exact h.extents_le hb hst hx hy hij
      · rw [hzero i b hget hplace]
        exact Nat.zero_le _
    · refine .inr ⟨by simp [FencedEngine.restarted], ?_, by simp [FencedEngine.restarted]⟩
      -- an extent outside of a group would have recovered committed
      rintro ⟨x, hx, hkey⟩
      have hk := hbacked'.keys j b' hget'
      have hstatus := hk.aborted (by rw [hplace']; rfl) x hx hkey
      have hgroup := (hk.describes x hx hkey).atomicGroup
      rw [hplace'] at hgroup
      rw [map_eq_none_iff.1 hgroup] at hstatus
      cases hstatus

/-- **Leader epochs are in order in every run.** -/
theorem FencedReachable.epochsOrdered (h : FencedReachable config f) :
    ∀ {tp : TopicPartition} {st : PartitionState}, f.engine.states.get tp = some st →
      f.EpochsOrdered tp st := by
  induction h with
  | initial => exact fun hst ↦ by cases hst
  | @step f f' hreach hstep ih =>
    intro tp st hst
    cases hstep with
    | @command tp' st' answer c hst' hadmits hobserved =>
      rcases Table.get_insert_eq_some_iff.1 hst with ⟨rfl, rfl⟩ | ⟨htp, hst⟩
      · exact (ih hst').commanded (hreach.reachable.sound_and_tagged hst').1 hobserved
      · exact (ih hst).mono fun key b hlost ↦
          hlost.commanded (fun heq ↦ absurd heq htp) fun heq ↦ absurd heq htp
    | @background e hstep =>
      cases hstep with
      | @create tp' answer shards policy =>
        rcases f.engine.created_cases tp' answer shards policy with heq | ⟨sequencer, -, -, -, heq⟩
        · rw [heq] at hst ⊢
          exact ih hst
        · rw [heq] at hst ⊢
          rcases Table.get_insert_eq_some_iff.1 hst with ⟨-, rfl⟩ | ⟨-, hst⟩
          · have hnone : ∀ key, (PartitionState.empty sequencer policy).batches.get key = none :=
              fun key ↦ by simp [PartitionState.empty]
            exact ⟨fun key b hb ↦ by simp [hnone] at hb, fun i j b b' _ hb ↦ by simp [hnone] at hb⟩
          · exact (ih hst).mono fun key b hlost ↦ ⟨hlost.1, hlost.2, hlost.3⟩
      | command _ _ hrule => exact hrule.elim
      | @write tp' st' b x hst' hflight hget hdescribes =>
        refine (ih hst).mono fun key b' hlost ↦ ⟨hlost.unobserved, ?_, hlost.settled⟩
        rintro ⟨y, hy, hkey⟩
        rcases List.mem_append.1 hy with hy | hy
        · exact hlost.volatile ⟨y, hy, hkey⟩
        · -- the batch that was written had been in flight
          have htp : x.topicPartition = tp' := by
            have hl := (hreach.reachable.sound_and_tagged hst').1.layout
            rw [ExtentCatalogEntry.topicPartition, hdescribes.reservation, (hl.get hget).1]
            exact hreach.reachable.topicPartition_eq hst'
          rw [List.mem_singleton.1 hy, ExtentCatalogEntry.key_eq_iff, htp] at hkey
          obtain ⟨rfl, rfl⟩ := hkey
          exact hlost.settled hflight
      | restart hrule => exact hrule.elim
  | @restart f states hreach hrec ih =>
    intro tp st hst
    obtain ⟨s, st₀, hb, hst₀, hrec, -⟩ := hreach.reachable.recovered hrec hst
    exact (ih hst₀).restarted hb hst₀ hrec

/-- While the engine runs, nothing is handed out under an epoch older than the one it was opened
with. -/
theorem FencedReachable.epoch_of_reserved (h : FencedReachable config (f.restarted states))
    (hst : states.get tp = some st)
    (hsteps : Relation.ReflTransGen (FencedStep config) (f.restarted states) f')
    (hst' : f'.engine.states.get tp = some st') (hobserved : c.Observed f'.observed tp)
    (hr : (c.run st' answer).reserved = some r) :
    st.sequencer.leaderEpoch ≤ r.placement.leaderEpoch := by
  -- neither the epoch of the partition nor an observed one falls below the floor
  obtain ⟨⟨st₁, hst₁, hpartition⟩, hfloor⟩ : (∃ st₁, f'.engine.states.get tp = some st₁ ∧
      st.sequencer.leaderEpoch ≤ st₁.sequencer.leaderEpoch) ∧
      ∀ epoch, (tp, epoch) ∈ f'.observed → st.sequencer.leaderEpoch ≤ epoch := by
    clear hst' hobserved
    induction hsteps with
    | refl => exact ⟨⟨st, hst, le_rfl⟩, by simp [FencedEngine.restarted]⟩
    | @tail f₁ f₂ hpre hstep ih =>
      obtain ⟨⟨st₁, hst₁, hpartition⟩, hfloor⟩ := ih
      constructor
      · obtain ⟨st₂, hst₂, rfl | ⟨answer, c, rfl⟩⟩ := hstep.live.partition hst₁
        · exact ⟨st₂, hst₂, hpartition⟩
        · have hs := ((h.steps hpre).reachable.sound_and_tagged hst₁).1
          exact ⟨_, hst₂, hpartition.trans (c.outcome hs answer).epoch_cases.1⟩
      · intro epoch hmem
        cases hstep with
        | @command tp' st' answer c hst' =>
          rcases mem_observed_commanded hmem with hmem | ⟨rfl, hobserves⟩
          · exact hfloor epoch hmem
          · rw [hst₁] at hst'
            cases hst'
            exact hpartition.trans (Command.le_of_observes hobserves)
        | background => exact hfloor epoch hmem
  rw [hst'] at hst₁
  cases hst₁
  have hs := ((h.steps hsteps).reachable.sound_and_tagged hst').1
  rcases (c.outcome hs answer).epoch_of_reserved hr with hle | ⟨producer, group, bytes, digest, rfl⟩
  · exact hpartition.trans hle
  · exact hfloor _ hobserved

end Runs

/-! ### What a restart remembers -/

/-- A batch of at least this leader epoch is durable and not truncated. -/
def Engine.RetainsEpoch (e : Engine) (tp : TopicPartition) (leaderEpoch : Nat) : Prop :=
  ∃ st, e.states.get tp = some st ∧ ∃ x ∈ e.extents, x.topicPartition = tp ∧
    st.logStart ≤ x.reservation.lastOffset ∧ leaderEpoch ≤ x.reservation.placement.leaderEpoch

/-- A restart remembers an epoch exactly if it is zero or some retained extent has it. -/
theorem FencedReachable.le_recovered_iff (h : FencedReachable config f)
    (hrec : f.engine.recover config 1 = .ok states) (hst' : states.get tp = some st')
    (leaderEpoch : Nat) : leaderEpoch ≤ st'.sequencer.leaderEpoch ↔
      leaderEpoch = 0 ∨ f.engine.RetainsEpoch tp leaderEpoch := by
  obtain ⟨s, st, hb, hst, hrec, -⟩ := h.reachable.recovered hrec hst'
  obtain ⟨hle, hattained⟩ := (h.epochsOrdered hst).recovered_epoch hb hst hrec
  have hmem : ∀ {x}, x ∈ f.engine.entries tp ↔
        x ∈ f.engine.extents ∧ x.topicPartition = tp ∧ st.logStart ≤ x.reservation.lastOffset := by
    intro x
    rw [mem_partitionEntries_iff hb.replay, (hb.backed tp st hst).journaling.logStart]
  constructor
  · intro hepoch
    rcases hattained with hzero | ⟨x, hx, heq⟩
    · exact .inl (by omega)
    · obtain ⟨hx, htp, hstart⟩ := hmem.1 hx
      exact .inr ⟨st, hst, x, hx, htp, hstart, heq ▸ hepoch⟩
  · rintro (rfl | ⟨st₁, hst₁, x, hx, htp, hstart, hepoch⟩)
    · exact Nat.zero_le _
    · rw [hst] at hst₁
      cases hst₁
      exact hepoch.trans (hle x (hmem.2 ⟨hx, htp, hstart⟩))

/-- **Fencing across a restart.** The partition that a restart recovers is fenced against everything
older than the batches completed before, and so is whatever it does until the next restart, exactly
if for every completed batch of a leader epoch other than zero some durable batch of at least that
epoch is not truncated. -/
theorem leader_fence_survives_restart_iff {config : EngineConfig} {f : FencedEngine}
    (h : FencedReachable config f) {states : Table TopicPartition PartitionState}
    (hrec : f.engine.recover config 1 = .ok states) {tp : TopicPartition} {st' : PartitionState}
    (hst' : states.get tp = some st') :
    (∀ r, (tp, r) ∈ f.completed →
        r.placement.leaderEpoch ≤ st'.sequencer.leaderEpoch ∧
        ∀ f' st'' c answer r', Relation.ReflTransGen (FencedStep config) (f.restarted states) f' →
          f'.engine.states.get tp = some st'' → Command.Observed f'.observed tp c →
          (c.run st'' answer).reserved = some r' →
          r.placement.leaderEpoch ≤ r'.placement.leaderEpoch) ↔
      ∀ r, (tp, r) ∈ f.completed →
        r.placement.leaderEpoch = 0 ∨ f.engine.RetainsEpoch tp r.placement.leaderEpoch := by
  refine forall_congr' fun r ↦ imp_congr_right fun _ ↦ ?_
  rw [← h.le_recovered_iff hrec hst']
  refine ⟨And.left, fun hle ↦ ⟨hle, ?_⟩⟩
  intro f' st'' c answer r' hsteps hst'' hobserved hr
  exact hle.trans ((h.restart hrec).epoch_of_reserved hst' hsteps hst'' hobserved hr)

/-! ### Scripted runs -/

namespace FencedEngine

/-- Execute one action; `none` if the engine cannot make that step. -/
def act (config : EngineConfig) (f : FencedEngine) : Action → Option FencedEngine
  | .command tp c => do
    let st ← f.engine.states.get tp
    let c ← c st
    if f.engine.admits config tp st c = true ∧ c.Observed f.observed tp then
      some (f.commanded tp st (.ok ()) c)
    else none
  | .restart => (f.engine.recover config 1).toOption.map f.restarted
  | a => (f.engine.act config ⟨fun _ _ _ _ ↦ false, fun _ ↦ false⟩ a).map
      fun e ↦ { f with engine := e }

theorem act_sound {a : Action} (h : FencedReachable config f) (hact : f.act config a = some f') :
    FencedReachable config f' := by
  have hbackground : ∀ {a}, (f.engine.act config ⟨fun _ _ _ _ ↦ false, fun _ ↦ false⟩ a).map
      (fun e ↦ { f with engine := e }) = some f' → FencedReachable config f' := by
    intro a ha
    obtain ⟨e, he, rfl⟩ := map_eq_some_iff.1 ha
    exact h.step (.background (Engine.act_sound
      ⟨fun _ _ _ _ h ↦ absurd h Bool.false_ne_true, fun _ h ↦ absurd h Bool.false_ne_true⟩ he))
  cases a with
  | create | write => exact hbackground hact
  | command tp c =>
    simp only [act, bind_eq_bind, bind_eq_some_iff, ite_none_right_eq_some, some.injEq] at hact
    obtain ⟨st, hst, c, -, ⟨hadmits, hobserved⟩, rfl⟩ := hact
    exact h.step (.command hst (Engine.admits_sound hadmits) hobserved)
  | restart =>
    obtain ⟨states, hrec, rfl⟩ := map_eq_some_iff.1 hact
    exact h.restart (toOption_eq_some_iff.1 hrec)

/-- A property of an engine that a script reaches. -/
theorem exists_of_play (config : EngineConfig) (script : List Action) (P : FencedEngine → Prop)
    (h : ∃ f, script.foldlM (act config) initial = some f ∧ P f) :
    ∃ f, FencedReachable config f ∧ P f := by
  obtain ⟨f, hf, hP⟩ := h
  exact ⟨f, foldlM_induction (fun _ _ _ hf hact ↦ act_sound hf hact) .initial hf, hP⟩

end FencedEngine

/-- An append of one record under a leader epoch that the fence admitted. -/
def fencedAppend (leaderEpoch : Nat) : Command :=
  .reserve
    { tp := ⟨0, 0⟩, requestId := 0, producer := none, atomicGroup := none
      recordCount := .one, payloadBytes := 1, payloadDigest := 0
      admittedLeaderEpoch := some leaderEpoch }

/-- One batch is completed under leader epoch 5. -/
def completedUnderFive : List Action :=
  [.create ⟨0, 0⟩ [0] ⟨1, 1, 1⟩, .command ⟨0, 0⟩ fun _ ↦ some (fencedAppend 5), .write ⟨0, 0⟩ 0,
    .complete ⟨0, 0⟩ 0]

/-- While the batch is retained, a restart remembers its epoch. -/
theorem restart_remembers_epoch_five : ∃ f states st' r, FencedReachable ⟨1, 1, 1⟩ f ∧
    f.engine.recover ⟨1, 1, 1⟩ 1 = .ok states ∧ states.get ⟨0, 0⟩ = some st' ∧
      (⟨0, 0⟩, r) ∈ f.completed ∧ r.placement.leaderEpoch = 5 ∧ 5 ≤ st'.sequencer.leaderEpoch := by
  obtain ⟨f, hf, h⟩ := FencedEngine.exists_of_play ⟨1, 1, 1⟩ completedUnderFive
    (fun f ↦ (∀ p ∈ f.completed, p.1 = ⟨0, 0⟩ ∧ p.2.placement.leaderEpoch = 5) ∧
      f.completed.length = 1 ∧ ∃ states, f.engine.recover ⟨1, 1, 1⟩ 1 = .ok states ∧
        ∃ st', states.get ⟨0, 0⟩ = some st' ∧ ∃ st, f.engine.states.get ⟨0, 0⟩ = some st ∧
          ∃ x ∈ f.engine.extents, x.topicPartition = ⟨0, 0⟩ ∧
          st.logStart ≤ x.reservation.lastOffset ∧
            5 ≤ x.reservation.placement.leaderEpoch)
    (by decide +kernel)
  obtain ⟨hall, hlen, states, hrec, st', hst', st, hst, x, hx, htp, hstart, hepoch⟩ := h
  obtain ⟨⟨tp, r⟩, hr⟩ := List.length_eq_one_iff.1 hlen
  have hmem : (tp, r) ∈ f.completed := by rw [hr]; exact List.mem_singleton_self _
  obtain ⟨rfl, hfive⟩ := hall _ hmem
  have hfence := (leader_fence_survives_restart_iff hf hrec hst').2 fun r' hr' ↦
    .inr ⟨st, hst, x, hx, htp, hstart, (hall _ hr').2 ▸ hepoch⟩
  exact ⟨f, states, st', r, hf, hrec, hst', hmem, hfive, hfive ▸ (hfence r hmem).1⟩

/-- **A restart forgets the epoch of truncated batches.** A batch is completed under leader epoch 5
and truncated; after a restart the partition is at epoch 0 and accepts an append under epoch 3. -/
theorem truncated_epoch_forgotten : ∃ f states st' r r', FencedReachable ⟨1, 1, 1⟩ f ∧
    f.engine.recover ⟨1, 1, 1⟩ 1 = .ok states ∧ states.get ⟨0, 0⟩ = some st' ∧
      (⟨0, 0⟩, r) ∈ f.completed ∧ r.placement.leaderEpoch = 5 ∧ st'.sequencer.leaderEpoch = 0 ∧
      ((fencedAppend 3).run st' (.ok ())).reserved = some r' ∧ r'.placement.leaderEpoch = 3 := by
  obtain ⟨f, hf, h⟩ := FencedEngine.exists_of_play ⟨1, 1, 1⟩
    (completedUnderFive ++ [.command ⟨0, 0⟩ fun _ ↦ some (.truncate 1)])
    (fun f ↦ (∃ p ∈ f.completed, p.1 = ⟨0, 0⟩ ∧ p.2.placement.leaderEpoch = 5) ∧
      ∃ states, f.engine.recover ⟨1, 1, 1⟩ 1 = .ok states ∧ ∃ st', states.get ⟨0, 0⟩ = some st' ∧
        st'.sequencer.leaderEpoch = 0 ∧ ∃ r, ((fencedAppend 3).run st' (.ok ())).reserved = some r ∧
          r.placement.leaderEpoch = 3)
    (by decide +kernel)
  obtain ⟨⟨⟨tp, r⟩, hr, rfl, hfive⟩, states, hrec, st', hst', hzero, r', hr', hthree⟩ := h
  exact ⟨f, states, st', r, r', hf, hrec, hst', hr, hfive, hzero, hr', hthree⟩

end ShardStream
