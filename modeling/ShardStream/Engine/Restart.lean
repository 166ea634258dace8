import ShardStream.Engine.Coherent
import ShardStream.Engine.Script

/-!
# What a restart keeps

A restart forgets the partitions and rebuilds them from the journal and the extents. What was
visible before is visible afterwards, in the same place: a committed batch is durable and recovers
committed, and everything below the last stable offset recovers as something that does not stop that
offset. What is lost is a tail of batches that were never completed.

The coordinates of a durable extent are never given out again. `PartitionState.Knows` says of a
reservation that the partition holds it or has truncated past it; a command and a restart keep that,
and a new reservation lies above every known one.
-/

namespace ShardStream

open PartitionCore DenseOrderedMap ExtentCatalogEntry

variable {e : Engine} {x : ExtentCatalogEntry} {r : Reservation} {st : PartitionState}
  {config : EngineConfig} {tp : TopicPartition}

/-! ### Known reservations -/

/-- The partition holds the reservation, or the log starts above it. -/
def PartitionState.Knows (st : PartitionState) (r : Reservation) : Prop :=
  (r.batchId < st.batches.firstKey ∧ r.lastOffset < st.logStart) ∨
    ∃ b, st.batches.get r.batchId = some b ∧ b.reservation = r

section Knows

variable {c : Command} {eff : Effect} {answer : Except EngineError Unit}

/-- The sequencer is above every known reservation. -/
theorem PartitionState.Knows.below (h : st.Knows r) (hl : st.Layout) :
    r.batchId < st.sequencer.nextBatchId ∧ r.lastOffset < st.sequencer.nextOffset := by
  have hrange : st.batches.firstKey ≤ st.batches.nextKey := Nat.le_add_right ..
  rw [hl.nextBatchId, ← hl.offsetAt_nextKey]
  rcases h with ⟨hkey, hoff⟩ | ⟨b, hb, rfl⟩
  · have := hl.offsetAt_le hrange le_rfl
    rw [offsetAt_firstKey] at this
    omega
  · have hlt := (lt_nextKey_of_get hb).2
    exact ⟨hlt, (hl.lastOffset_lt_iff hb hrange le_rfl).2 hlt⟩

/-- **A command forgets no reservation.** -/
theorem Outcome.knows (h : Outcome st answer c eff) (hs : st.Sound)
    (hr : st.Knows r) : eff.state.Knows r := by
  have hl := hs.layout
  obtain ⟨hfirst, hfirst', hnext, hstart⟩ := h.range hs
  have hlogStart : st.logStart ≤ eff.state.logStart := by
    rw [hstart, ← offsetAt_firstKey]
    exact hl.offsetAt_le hfirst hfirst'
  rcases hr with ⟨hkey, hoff⟩ | ⟨b, hb, rfl⟩
  · exact .inl ⟨by omega, by omega⟩
  · rcases lt_or_ge b.reservation.batchId eff.state.batches.firstKey with hkey | hkey
    · refine .inl ⟨hkey, ?_⟩
      rw [hstart]
      exact (hl.lastOffset_lt_iff hb hfirst hfirst').2 hkey
    · obtain ⟨b', hb', hsame⟩ := h.heldAfter hs hb hkey
      exact .inr ⟨b', hb', hsame.reservation⟩

/-- **A new reservation is above every known one.** -/
theorem Outcome.reserved_above (h : Outcome st answer c eff) (hs : st.Sound)
    {r' : Reservation} (hr : st.Knows r) (hseq : r.placement.sequence = r.batchId)
    (hreserved : eff.reserved = some r') (hnew : st.batches.get r'.batchId = none) :
    r.batchId < r'.batchId ∧ r.placement.sequence < r'.placement.sequence ∧
      r.lastOffset < r'.firstOffset := by
  have hl := hs.layout
  obtain ⟨hid, hoff⟩ := hr.below hl
  obtain ⟨b, hb, rfl, -⟩ := h.reserved_get hs hreserved
  have hstep := h.keyStep hs b.reservation.batchId
  rw [hnew, hb] at hstep
  cases hstep with
  | born hkey hstatus hdigest hres =>
    obtain ⟨count, epoch, hres⟩ := hres
    rw [hres, hseq]
    refine ⟨hid, ?_, hoff⟩
    change _ < st.sequencer.nextPlacementSequence
    rwa [hl.nextPlacementSequence]

end Knows

/-! ### Over runs -/

/-- Every extent is of a reservation its partition knows. -/
def Engine.ExtentsKnown (e : Engine) : Prop :=
  ∀ x ∈ e.extents, x.reservation.placement.sequence = x.reservation.batchId ∧
    ∃ st, e.states.get x.topicPartition = some st ∧ st.Knows x.reservation

section Runs

variable {rule : RunRule} {e' : Engine}

/-- What a step does to a live partition: nothing, a command, or a recovery. -/
theorem EngineStep.live_cases (h : EngineStep config rule e e') (hst : e.states.get tp = some st) :
    e'.states.get tp = some st ∨
      (∃ (answer : Except EngineError Unit) (c : Command), e.Admits config tp st c ∧
        rule.command e tp st c ∧ e'.states.get tp = some (c.run st answer).state) ∨
      ∃ states, rule.restart e ∧ e.recover config 1 = .ok states ∧
        e' = { e with states, inFlight := [] } := by
  cases h with
  | @create tp' answer shards policy =>
    left
    rcases e.created_cases tp' answer shards policy with heq | ⟨sequencer, hnone, -, -, heq⟩
    · rwa [heq]
    · have hne : tp ≠ tp' := by
        rintro rfl
        rw [hnone] at hst
        cases hst
      rw [heq]
      exact (Table.get_insert_of_ne _ _ hne).trans hst
  | @command tp' st' answer c hst' hadmits hrule =>
    by_cases htp : tp = tp'
    · subst htp
      obtain rfl : st = st' := Option.some.inj (hst.symm.trans hst')
      exact .inr (.inl ⟨answer, c, hadmits, hrule, Table.get_insert_self ..⟩)
    · exact .inl ((Table.get_insert_of_ne _ _ htp).trans hst)
  | write => exact .inl hst
  | restart hrule hrec => exact .inr (.inr ⟨_, hrule, hrec, rfl⟩)

/-- What a step of a running engine does to one partition: nothing, or a command. -/
theorem EngineStep.partition (h : EngineStep config .live e e') (hst : e.states.get tp = some st) :
    ∃ st', e'.states.get tp = some st' ∧
      (st' = st ∨ ∃ (answer : Except EngineError Unit) (c : Command),
        st' = (c.run st answer).state) := by
  rcases h.live_cases hst with h | ⟨answer, c, -, -, h⟩ | ⟨_, hrule, -⟩
  · exact ⟨st, h, .inl rfl⟩
  · exact ⟨_, h, .inr ⟨answer, c, rfl⟩⟩
  · exact hrule.elim

/-- **Extents stay known** in every run. -/
theorem EngineReachable.extentsKnown (h : EngineReachable config rule e) : e.ExtentsKnown := by
  refine h.invariant (fun x hx ↦ by cases hx) fun e e' hreach ih hstep ↦ ?_
  have hreach' : EngineReachable config rule e' := hreach.tail hstep
  -- an extent from before
  have hold : ∀ x ∈ e.extents, x.reservation.placement.sequence = x.reservation.batchId ∧
      ∃ st, e'.states.get x.topicPartition = some st ∧ st.Knows x.reservation := by
    intro x hx
    obtain ⟨hseq, st, hst, hknows⟩ := ih x hx
    refine ⟨hseq, ?_⟩
    rcases hstep.live_cases hst with hst' | ⟨answer, c, -, -, hst'⟩ | ⟨states, -, hrec, rfl⟩
    · exact ⟨st, hst', hknows⟩
    · have hs := (hreach.sound_and_tagged hst).1
      exact ⟨_, hst', (c.outcome hs answer).knows hs hknows⟩
    -- the journal has just been replayed, so the recovered engine is backed by it
    obtain ⟨s, hb⟩ : ∃ s, BackedBy config { e with states, inFlight := [] } s := by
      refine hreach'.coherent.resolve_left ?_
      rintro ⟨err, herr⟩
      obtain ⟨-, -, s, hs, -⟩ := recoverPartitionStates_eq_ok_iff.1 hrec
      rw [hs] at herr
      cases herr
    obtain ⟨st, hst⟩ := Option.isSome_iff_exists.1 (hb.extents x hx)
    have hbacked := hb.backed _ st hst
    refine ⟨st, hst, (hbacked.extents x hx rfl).imp_right fun ⟨b, hget⟩ ↦ ⟨b, hget, ?_⟩⟩
    exact ((hbacked.keys _ b hget).describes x hx rfl).reservation.symm
  cases hstep with
  | @create tp answer shards policy =>
    rcases e.created_cases tp answer shards policy with heq | ⟨sequencer, -, -, -, heq⟩
    · rwa [heq]
    · rwa [heq] at hold ⊢
  | command | restart => exact hold
  | @write tp st b x hst hflight hget hdescribes =>
    intro y hy
    rcases List.mem_append.1 hy with hy | hy
    · exact ih y hy
    · rw [List.mem_singleton.1 hy]
      have hl := (hreach.sound_and_tagged hst).1.layout
      obtain ⟨htp, -, hsequence, -⟩ := hl.get hget
      have hpartition : x.topicPartition = tp := by
        rw [topicPartition, hdescribes.reservation, htp]
        exact hreach.topicPartition_eq hst
      refine ⟨by rw [← hsequence, hdescribes.reservation], st, hpartition ▸ hst, .inr ⟨b, hget, ?_⟩⟩
      exact hdescribes.reservation.symm

/-- Extents are never lost. -/
theorem EngineStep.extents_mono (h : EngineStep config rule e e') (hx : x ∈ e.extents) :
    x ∈ e'.extents := by
  cases h with
  | @create tp answer shards policy =>
    rcases e.created_cases tp answer shards policy with heq | ⟨sequencer, -, -, -, heq⟩ <;>
      rwa [heq]
  | command => exact hx
  | write => exact List.mem_append_left _ hx
  | restart => exact hx

/-- **A completed batch is durable**, whatever the journal holds. -/
theorem EngineReachable.durable (h : EngineReachable config rule e) :
    ∀ {tp : TopicPartition} {st : PartitionState} {key : Nat} {b : BatchRuntime},
      e.states.get tp = some st → st.batches.get key = some b →
      b.status = .committed ∨ b.status = .unresolved → e.Durable tp key := by
  refine @EngineReachable.invariant config rule e (fun e ↦ ∀ {tp}
    {st : PartitionState} {key : Nat} {b : BatchRuntime}, e.states.get tp = some st →
      st.batches.get key = some b → b.status = .committed ∨ b.status = .unresolved →
      e.Durable tp key)
    (fun hst ↦ by cases hst) (fun e e' hreach ih hstep tp st key b hst hb hstatus ↦ ?_) h
  have hmono : ∀ {tp key}, e.Durable tp key → e'.Durable tp key :=
    fun ⟨x, hx, hkey⟩ ↦ ⟨x, hstep.extents_mono hx, hkey⟩
  rcases hstep.partition_cases hst with hst | ⟨_, sequencer, policy, -, -, rfl⟩ |
    ⟨st', answer, c, hst', hadmits, -, rfl⟩ | ⟨states, -, hrec, hst⟩
  · exact hmono (ih hst hb hstatus)
  · simp [PartitionState.empty] at hb
  · have hs := (hreach.sound_and_tagged hst').1
    have hkey := (c.outcome hs answer).keyStep hs key
    rw [hb] at hkey
    generalize hold : st'.batches.get key = old at hkey
    -- a batch becomes completed by a completion, which requires its extent
    cases hkey with
    | kept hsame hkept => exact hmono (ih hst' hold (hkept ▸ hstatus))
    | born _ hpending => simp [hpending] at hstatus
    | completed hc hkey =>
      subst hc
      subst hkey
      exact hmono hadmits.2.1
    | failed _ _ _ _ haborted => simp [haborted] at hstatus
    | decided _ _ _ _ _ _ _ hopen => exact hmono (ih hst' hold (.inr hopen))
    | reopened _ _ _ _ _ hpending => simp [hpending] at hstatus
  · obtain ⟨s, st₀, hbacked, hst₀, -, hr⟩ := hreach.recovered hrec hst
    rcases hr.get_cases hb with ⟨x, hx, hkey, -⟩ | ⟨hplaceholder, -⟩
    · obtain ⟨hx, htp, -⟩ := ((hbacked.backed tp st₀ hst₀).mem_entries_iff hbacked.replay).1 hx
      exact hmono ⟨x, hx, key_eq_iff.2 ⟨htp, hkey⟩⟩
    · rw [hplaceholder] at hstatus
      simp [abortedBatch] at hstatus

/-- The reservation was completed in a run that led to `e`. -/
def Engine.Completed (config : EngineConfig) (e : Engine) (tp : TopicPartition) (r : Reservation) :
    Prop :=
  ∃ e₀ st₀ answer completion, EngineReachable config .any e₀ ∧ e₀.states.get tp = some st₀ ∧
    e₀.Admits config tp st₀ (.complete completion) ∧ completion.reservation = r ∧
    Relation.ReflTransGen (EngineStep config .any)
      (e₀.commanded tp st₀ answer (.complete completion)) e

/-- A completed reservation stays known. -/
theorem Engine.Completed.knows (h : e.Completed config tp r) (hst : e.states.get tp = some st) :
    r.placement.sequence = r.batchId ∧ st.Knows r := by
  obtain ⟨e₀, st₀, answer, completion, hreach, hst₀, hadmits, rfl, hrun⟩ := h
  obtain ⟨-, ⟨x, hx, hkey⟩, -, b, hb, hres, -⟩ := id hadmits
  obtain ⟨htp, hid⟩ := key_eq_iff.1 hkey
  -- the extent that was there at the completion is of this reservation
  have hreservation : x.reservation = completion.reservation := by
    obtain ⟨-, st', hst', hknows⟩ := hreach.extentsKnown x hx
    rw [htp, hst₀] at hst'
    cases hst'
    rcases hknows with ⟨hlt, -⟩ | ⟨b', hb', hres'⟩
    · have := (lt_nextKey_of_get hb).1
      omega
    · rw [hid, hb] at hb'
      cases hb'
      rw [← hres', hres]
  have hx' : x ∈ e.extents := by
    have hstart : x ∈ (e₀.commanded tp st₀ answer (.complete completion)).extents := hx
    clear hst
    induction hrun with
    | refl => exact hstart
    | tail _ hstep ih => exact hstep.extents_mono ih
  have hreach' : EngineReachable config .any e :=
    (hreach.tail (.command hst₀ hadmits trivial)).trans hrun
  obtain ⟨hseq, st', hst', hknows⟩ := hreach'.extentsKnown x hx'
  rw [htp, hst] at hst'
  cases hst'
  rw [hreservation] at hseq hknows
  exact ⟨hseq, hknows⟩

end Runs

/-! ### Visible records -/

/-- What a restart keeps of a partition. -/
structure RestartKeeps (st st' : PartitionState) : Prop where
  /-- What was committed and visible is so again, in the same place. -/
  visible : ∀ key b, st.batches.get key = some b → b.status = .committed →
    b.reservation.lastOffset < st.lastStableOffset →
    ∃ b', st'.batches.get key = some b' ∧ b'.status = .committed ∧
      b'.reservation = b.reservation ∧ b'.reservation.lastOffset < st'.lastStableOffset
  settled : ∀ key b, st'.batches.get key = some b → b.status ≠ .pending
  contiguousLogEnd : st'.contiguousLogEnd = st'.sequencer.nextOffset
  /-- Only a tail of batches that were never completed is lost. -/
  lost : ∀ key b, st.batches.get key = some b → st'.batches.get key = none →
    (b.status = .pending ∨ b.status = .aborted) ∧ st'.batches.nextKey ≤ key

section Visible

variable {s : ReplayState} {st' : PartitionState} {replicas : Nat}

/-- The status a batch comes back with is the one its extent has under the decisions taken. -/
theorem Backed.recoveredStatus_eq {extents : List ExtentCatalogEntry}
    {inFlight : List (TopicPartition × Nat)} (h : Backed config s extents inFlight tp st)
    (group : Option AtomicGroupSequence) :
    recoveredStatus (st.recoveryContext config s replicas tp).outcomes group =
      recoveredStatus st.finalizedGroups group := by
  cases group with
  | none => rfl
  | some g => simp only [recoveredStatus, h.outcomes_get]

variable (hb : BackedBy config e s) (hst : e.states.get tp = some st)
  (hr : Recovered (st.recoveryContext config s replicas tp) (e.entries tp) st')
  {key : Nat}

include hb hst hr

/-- A batch with an extent is recovered from it. -/
theorem BackedBy.get_of_durable {b : BatchRuntime} (hget : st.batches.get key = some b)
    (hx : x ∈ e.extents) (hkey : x.key = (tp, key)) : st'.batches.get key =
      some (recoveredBatch (st.recoveryContext config s replicas tp).outcomes
        (st.recoveryContext config s replicas tp).replicas x) := by
  obtain ⟨htp, rfl⟩ := key_eq_iff.1 hkey
  exact hr.entry x (((hb.backed tp st hst).mem_entries_iff hb.replay).2 ⟨hx, htp, b, hget⟩)

/-- Below the last stable offset nothing recovers that could stop it. -/
theorem BackedBy.stable_of_recovered {b' : BatchRuntime} (hlt : key < st.stable.nextBatch)
    (hget : st'.batches.get key = some b') : b'.stable = true := by
  have hbacked := hb.backed tp st hst
  rcases hr.get_cases hget with ⟨x, hx, rfl, rfl⟩ | ⟨hplaceholder, -⟩
  · obtain ⟨hx, htp, b, hb'⟩ := (hbacked.mem_entries_iff hb.replay).1 hx
    have hkey : x.key = (tp, x.reservation.batchId) := key_eq_iff.2 ⟨htp, rfl⟩
    have hk := hbacked.keys _ b hb'
    simp only [BatchRuntime.stable, recoveredBatch, hbacked.recoveredStatus_eq]
    rcases hbacked.stable _ b hlt hb' with hstable | hexcused
    · cases hstatus : b.status with
      | pending | unresolved => simp [BatchRuntime.stable, hstatus] at hstable
      | committed => simp [hk.committed hstatus x hx hkey]
      | aborted => simp [hk.aborted hstatus x hx hkey]
    · simp [hexcused.lost x hx hkey]
  · rw [hplaceholder]
    rfl

/-- **A restart keeps what was visible.** -/
theorem BackedBy.restartKeeps : RestartKeeps st st' := by
  have hbacked := hb.backed tp st hst
  have hl := hbacked.sound.layout
  have hc := hbacked.sound.cursors.stable.inPlace
  have hc' := hr.sound.cursors.stable
  refine ⟨fun key b hget hcommitted hvisible ↦ ?_, fun key b hget ↦ hr.not_pending hget,
    hr.contiguousLogEnd_eq, fun key b hget hnone ↦ ?_⟩
  · obtain ⟨x, hx, hkey⟩ := (hbacked.keys key b hget).durable (.inl hcommitted)
    have hget' := hb.get_of_durable hst hr hget hx hkey
    have hdesc := (hbacked.keys key b hget).describes x hx hkey
    refine ⟨_, hget', ?_, hdesc.reservation, ?_⟩
    · simp only [recoveredBatch, hbacked.recoveredStatus_eq]
      exact (hbacked.keys key b hget).committed hcommitted x hx hkey
    · have hlt : key < st.stable.nextBatch := by
        refine (hl.lastOffset_lt_iff hget hc.firstKey_le hc.le_nextKey).1 ?_
        rw [← hc.offset_eq]
        exact hvisible
      have hlt' : key < st'.stable.nextBatch :=
        hc'.le_of_ready (lt_nextKey_of_get hget').2 fun k b' hk hb' ↦
          hb.stable_of_recovered hst hr (by omega) hb'
      change _ < st'.stable.offset
      rw [hc'.inPlace.offset_eq]
      exact (hr.sound.layout.lastOffset_lt_iff hget' hc'.inPlace.firstKey_le
        hc'.inPlace.le_nextKey).2 hlt'
  · refine ⟨?_, ?_⟩
    · by_contra hstatus
      obtain ⟨x, hx, hkey⟩ := (hbacked.keys key b hget).durable (by
        cases h : b.status <;> simp [h] at hstatus ⊢)
      rw [hb.get_of_durable hst hr hget hx hkey] at hnone
      cases hnone
    · have hfirst := (lt_nextKey_of_get hget).1
      have : st'.batches.firstKey = st.batches.firstKey := hr.firstKey
      rcases get_eq_none_iff.1 hnone with h | h <;> omega

end Visible

/-- **Visible records keep their place across a restart.** Whenever a reachable engine recovers,
every partition keeps what was visible, and in every run from there a new reservation is above every
batch that was ever completed. -/
theorem restart_keeps_visible_records {config : EngineConfig} {e : Engine}
    {states : Table TopicPartition PartitionState} (h : EngineReachable config .any e)
    (hrec : e.recover config 1 = .ok states) {tp : TopicPartition} {st : PartitionState}
    (hst : e.states.get tp = some st) :
    (∃ st', states.get tp = some st' ∧ RestartKeeps st st') ∧
    ∀ (e₂ : Engine) (st₂ : PartitionState) (answer : Except EngineError Unit) (c : Command)
      (r r₀ : Reservation),
      Relation.ReflTransGen (EngineStep config .any) { e with states, inFlight := [] } e₂ →
      e₂.states.get tp = some st₂ → (c.run st₂ answer).reserved = some r →
      st₂.batches.get r.batchId = none → e₂.Completed config tp r₀ →
      r₀.batchId < r.batchId ∧ r₀.placement.sequence < r.placement.sequence ∧
        r₀.lastOffset < r.firstOffset := by
  constructor
  · obtain ⟨s, st', hb, hst', hr⟩ := h.recovered_of_live hrec hst
    exact ⟨st', hst', hb.restartKeeps hst hr⟩
  · intro e₂ st₂ answer c r r₀ hrun hst₂ hreserved hnew hcompleted
    have hreach : EngineReachable config .any e₂ := (h.tail (.restart trivial hrec)).trans hrun
    have hs := (hreach.sound_and_tagged hst₂).1
    obtain ⟨hseq, hknows⟩ := hcompleted.knows hst₂
    exact (c.outcome hs answer).reserved_above hs hknows hseq hreserved hnew

/-- A script and the completion of one batch on it, with what the engine then recovers to. -/
theorem Engine.exists_of_restart (script : List Action) (key : Nat)
    (P : PartitionState → PartitionState → Reservation → Prop)
    (h : ∃ e, play ⟨1, 1, 1⟩ .any script = some e ∧ ∃ st, e.states.get ⟨0, 0⟩ = some st ∧
      ∃ b, st.batches.get key = some b ∧
        let c := Command.complete (b.completion 0)
        let e' := e.commanded ⟨0, 0⟩ st (.ok ()) c
        e.admits ⟨1, 1, 1⟩ ⟨0, 0⟩ st c ∧ ∃ st, e'.states.get ⟨0, 0⟩ = some st ∧
          ∃ states, e'.recover ⟨1, 1, 1⟩ 1 = .ok states ∧
            ∃ st', states.get ⟨0, 0⟩ = some st' ∧ P st st' b.reservation) :
    ∃ e st states st' r₀, EngineReachable ⟨1, 1, 1⟩ .any e ∧ e.states.get ⟨0, 0⟩ = some st ∧
      e.recover ⟨1, 1, 1⟩ 1 = .ok states ∧ states.get ⟨0, 0⟩ = some st' ∧
      Completed ⟨1, 1, 1⟩ { e with states, inFlight := [] } ⟨0, 0⟩ r₀ ∧ P st st' r₀ := by
  obtain ⟨e₀, hplay, st₀, hst₀, b, -, hadmits, st, hst, states, hrec, st', hst', hP⟩ := h
  have he₀ := play_sound Guard.any_implies hplay
  have hadmits := admits_sound hadmits
  exact ⟨_, st, states, st', b.reservation, he₀.tail (.command hst₀ hadmits trivial), hst, hrec,
    hst', ⟨e₀, st₀, .ok (), b.completion 0, he₀, hst₀, hadmits, rfl,
      .single (.restart trivial hrec)⟩, hP⟩

/-- Two batches of which one is written. -/
def oneWritten (batchId : Nat) : List Action :=
  let record : NonZeroU32 := .one
  [.create ⟨0, 0⟩ [0] ⟨1, 1, 1⟩, .reserve ⟨0, 0⟩ none none record 0 0,
    .reserve ⟨0, 0⟩ none none record 0 0, .write ⟨0, 0⟩ batchId]

/-- A plain append of the leader. -/
def plainAppend : Command := .reserve ⟨⟨0, 0⟩, 0, none, none, .one, 1, 0, none⟩

/-- One batch is completed and visible, one is in flight; the engine stops, recovers and appends. -/
theorem restart_keeps_first_record : ∃ e states st st' r₀ r,
    EngineReachable ⟨1, 1, 1⟩ .any e ∧ e.recover ⟨1, 1, 1⟩ 1 = .ok states ∧
      e.states.get ⟨0, 0⟩ = some st ∧ st.lastStableOffset = 1 ∧
      states.get ⟨0, 0⟩ = some st' ∧ (plainAppend.run st' (.ok ())).reserved = some r ∧
      Engine.Completed ⟨1, 1, 1⟩ { e with states, inFlight := [] } ⟨0, 0⟩ r₀ ∧
      (∃ st', states.get ⟨0, 0⟩ = some st' ∧ RestartKeeps st st') ∧ r₀.batchId < r.batchId := by
  obtain ⟨e, st, states, st', r₀, he, hst, hrec, hst', hcompleted, hend, r, hr, hnew⟩ :=
    Engine.exists_of_restart (oneWritten 0) 0 (fun st st' _ ↦ st.lastStableOffset = 1 ∧
        ∃ r, (plainAppend.run st' (.ok ())).reserved = some r ∧ st'.batches.get r.batchId = none)
      (by decide +kernel)
  have hkeeps := restart_keeps_visible_records he hrec hst
  exact ⟨e, states, st, st', r₀, r, he, hrec, hst, hend, hst', hr, hcompleted, hkeeps.1,
    (hkeeps.2 _ st' (.ok ()) plainAppend r r₀ .refl hst' hr hnew hcompleted).1⟩

/-- The append of an aborted batch, offered again by the leader of a replica. -/
def BatchRuntime.offeredAgain (b : BatchRuntime) : Command :=
  .reserveReplica b.reservation b.producer b.atomicGroup b.payloadBytes 0

/-- The second batch is completed and the first was never written. After the restart the first is an
empty aborted batch, and a replica append of it is given the coordinates below the completed one. -/
theorem placeholder_reserved_below_completed : ∃ e st states st' r₀,
    EngineReachable ⟨1, 1, 1⟩ .any e ∧ e.states.get ⟨0, 0⟩ = some st ∧
      e.recover ⟨1, 1, 1⟩ 1 = .ok states ∧ states.get ⟨0, 0⟩ = some st' ∧
      Engine.Completed ⟨1, 1, 1⟩ { e with states, inFlight := [] } ⟨0, 0⟩ r₀ ∧
      ∃ b, st'.batches.get 0 = some b ∧ ∃ r, (b.offeredAgain.run st' (.ok ())).reserved = some r ∧
        r.batchId < r₀.batchId ∧ r.placement.sequence < r₀.placement.sequence ∧
        r.lastOffset < r₀.firstOffset :=
  Engine.exists_of_restart (oneWritten 1) 1 _ (by decide +kernel)

end ShardStream
