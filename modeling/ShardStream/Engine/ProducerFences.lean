import ShardStream.Engine.Pipelines
import ShardStream.Engine.ProducerCursors

/-!
# The fences of producers

The cursor of a producer says where it is, as an epoch and the next sequence, and whether an append
of the epoch has failed: a failed producer must take a new epoch. What the mark stands for is
written down beside the partition here. A `FailureLog` is a partition with the batches that have
failed and were not handed out again since; the mark of a cursor is exact if it is set exactly when
the log has a batch of the cursor's epoch (`FencesExactly`).

A leader append is checked against the cursor. Failure reports and replica reservations are not: a
report sets the mark whatever the epoch of its batch is, a revived batch takes the mark away
whatever else has failed, and a replica reservation puts the next sequence where it ends. The
cursors stay exact and never fall back in the runs where these agree with the cursor
(`FailureLog.Respects`).
-/

namespace ShardStream

open PartitionCore Option PartitionState Command

variable {producerId bytes : Nat} {c : Command} {eff : Effect} {answer : Except EngineError Unit}
  {definite : Bool} {group : Option AtomicGroupIdentity} {digest : Digest} {b : BatchRuntime}
  {x : FailureLog} {st : PartitionState} {r : Reservation} {producer : Option ProducerIdentity}
  {f : Nat × ProducerIdentity}

/-! ### Failures beside a partition -/

/-- The batch of `r` is pending and was reserved for the producer in that epoch. -/
def PartitionState.PendingOf (st : PartitionState) (r : Reservation)
    (producerId epoch : Nat) : Prop :=
  ∃ b p, st.batches.get r.batchId = some b ∧ b.reservation = r ∧ b.status = .pending ∧
    b.producer = some p ∧ p.producerId = producerId ∧ p.epoch = epoch

/-- The batch that a command reports as failed, with its producer. -/
def Command.failure (st : PartitionState) : Command → Option (Nat × ProducerIdentity)
  | .fail r _ _ =>
    ((st.batches.get r.batchId).filter fun b ↦
      decide (b.reservation = r) && decide (b.status = .pending)).bind fun b ↦
        b.producer.map fun p ↦ (r.batchId, p)
  | _ => none

/-- A partition, and the batches that have failed and were not handed out again since, each with its
producer. -/
structure FailureLog where
  st : PartitionState
  failed : List (Nat × ProducerIdentity)

namespace FailureLog

/-- The partition after a command, and what has failed by then. -/
def after (x : FailureLog) (answer : Except EngineError Unit) (c : Command) : FailureLog where
  st := (c.run x.st answer).state
  failed := (x.failed.filter fun f ↦
    decide ((c.run x.st answer).reserved.map (·.batchId) ≠ some f.1)) ++ (c.failure x.st).toList

/-- A batch that the producer reserved in that epoch has failed and was not handed out since. -/
def HasFailed (x : FailureLog) (producerId epoch : Nat) : Prop :=
  ∃ f ∈ x.failed, f.2.producerId = producerId ∧ f.2.epoch = epoch

/-- **The marks are exact**: a cursor has one exactly when a batch of its epoch has failed. -/
def FencesExactly (x : FailureLog) : Prop :=
  ∀ producerId cursor, x.st.producers.get producerId = some cursor →
    (cursor.failed = true ↔ x.HasFailed producerId cursor.epoch)

/-- **What a command must respect** for the cursors to stay exact and to move forward. -/
def Respects (x : FailureLog) : Command → Prop
  -- a report names the producer of a pending batch of its current epoch, or changes no mark
  | .fail r producer _ =>
    (∀ q ∈ producer, ∀ cursor, x.st.producers.get q.producerId = some cursor →
      cursor.failed = true ∨ x.st.PendingOf r q.producerId cursor.epoch) ∧
    ∀ producerId cursor, x.st.producers.get producerId = some cursor →
      x.st.PendingOf r producerId cursor.epoch →
        cursor.failed = true ∨ ∃ q ∈ producer, q.producerId = producerId
  | .reserveReplica r producer group bytes digest =>
    ∀ p ∈ producer, ∀ cursor, x.st.producers.get p.producerId = some cursor →
      -- a new batch of the current epoch, or of an older one, does not end before the cursor
      (x.st.batches.get r.batchId = none → p.epoch ≤ cursor.epoch →
        cursor.nextSequence ≤ p.firstSequence + r.recordCount.get) ∧
      -- a batch that is revived in the current epoch is the only one that failed, and is handed out
      ∀ b, x.st.batches.get r.batchId = some b → b.status = .aborted → p.epoch = cursor.epoch →
        ∀ f ∈ x.failed, f.2.producerId = p.producerId → f.2.epoch = p.epoch →
          f.1 = r.batchId ∧ ¬ x.st.RefusesLate r producer group bytes digest
  | _ => True

/-- The logs reached by commands, each allowed where it is executed and with any answer of the
journal. -/
def Run (allowed : FailureLog → Command → Prop) : FailureLog → FailureLog → Prop :=
  Relation.ReflTransGen fun x y ↦ ∃ answer c, allowed x c ∧ y = x.after answer c

end FailureLog

/-- No cursor of `st` is gone in `st'` or further back there, in the order of epochs first. -/
def PartitionState.NotBehind (st st' : PartitionState) : Prop :=
  ∀ producerId epoch next, st.position producerId = some (epoch, next) →
    ∃ epoch' next', st'.position producerId = some (epoch', next') ∧
      (epoch < epoch' ∨ epoch = epoch' ∧ next ≤ next')

/-! ### Positions -/

section Position

variable {st' : PartitionState}

theorem PartitionState.NotBehind.of_position_eq
    (h : ∀ producerId, st'.position producerId = st.position producerId) : st.NotBehind st' :=
  fun producerId epoch next hposition ↦
    ⟨epoch, next, (h producerId).trans hposition, .inr ⟨rfl, le_rfl⟩⟩

theorem PartitionState.NotBehind.trans {st'' : PartitionState} (h : st.NotBehind st')
    (h' : st'.NotBehind st'') : st.NotBehind st'' := by
  intro producerId epoch next hposition
  obtain ⟨epoch', next', hposition', hle⟩ := h producerId epoch next hposition
  obtain ⟨epoch'', next'', hposition'', hle'⟩ := h' producerId epoch' next' hposition'
  exact ⟨epoch'', next'', hposition'', by omega⟩

/-- A cursor that is put forward is not behind. -/
theorem PartitionState.NotBehind.of_insert {cursor : ProducerCursor}
    (hst' : st'.producers = st.producers.insert producerId cursor)
    (hle : ∀ c, st.producers.get producerId = some c →
      c.epoch < cursor.epoch ∨ c.epoch = cursor.epoch ∧ c.nextSequence ≤ cursor.nextSequence) :
    st.NotBehind st' := by
  intro producerId' epoch next hposition
  simp only [PartitionState.position, map_eq_some_iff] at hposition
  obtain ⟨c, hc, heq⟩ := hposition
  cases heq
  by_cases hid : producerId' = producerId
  · subst hid
    exact ⟨cursor.epoch, cursor.nextSequence, by simp [PartitionState.position, hst'], hle c hc⟩
  · refine ⟨c.epoch, c.nextSequence, ?_, .inr ⟨rfl, le_rfl⟩⟩
    simp only [PartitionState.position, hst', Table.get_insert_of_ne _ _ hid, hc, map_some]

/-- **Cursors move forward**, if new replica batches do not end before them. -/
theorem CursorsStep.notBehind (h : CursorsStep st st' c)
    (hends : ∀ r p group bytes digest, c = .reserveReplica r (some p) group bytes digest →
      st.batches.get r.batchId = none → ∀ cursor, st.producers.get p.producerId = some cursor →
        p.epoch ≤ cursor.epoch → cursor.nextSequence ≤ p.firstSequence + r.recordCount.get) :
    st.NotBehind st' := by
  cases h with
  | kept hnext h | plain hget hproducer h => exact .of_position_eq (position_congr h)
  | @advanced b p cursor hget hproducer hnext hepoch hbefore hfailed h hlatest hsource =>
    refine .of_insert h fun c hc ↦ (hbefore c hc).lt_or_eq.imp_right fun heq ↦ ⟨heq, ?_⟩
    rcases hsource with hsource | ⟨group, bytes, digest, rfl, hnone⟩
    · have := (hsource c hc).2
      omega
    · rw [hnext]
      exact hends _ p group bytes digest rfl hnone c hc (heq ▸ hepoch)
  | reopened hnext hreopens hproducer h =>
    refine .of_position_eq (position_modify h fun c ↦ ?_)
    split_ifs <;> exact ⟨rfl, rfl⟩
  | frozen hnext hcommand h => exact .of_position_eq (position_modify h fun _ ↦ ⟨rfl, rfl⟩)

end Position

/-! ### Marks -/

section Marks

theorem Command.failure_eq_some_iff : (fail r producer definite).failure st = some f ↔
      f.1 = r.batchId ∧ ∃ b, st.batches.get r.batchId = some b ∧ b.reservation = r ∧
        b.status = .pending ∧ b.producer = some f.2 := by
  simp only [failure, bind_eq_some_iff, filter_eq_some_iff, Bool.and_eq_true,
    decide_eq_true_eq, map_eq_some_iff]
  constructor
  · rintro ⟨b, ⟨hget, hres, hstatus⟩, p, hp, rfl⟩
    exact ⟨rfl, b, hget, hres, hstatus, hp⟩
  · rintro ⟨hid, b, hget, hres, hstatus, hp⟩
    exact ⟨b, ⟨hget, hres, hstatus⟩, f.2, hp, Prod.ext hid.symm rfl⟩

/-- What a command reports as failed is a batch that the partition has. -/
theorem Command.get_of_failure (h : c.failure st = some f) :
    ∃ b, st.batches.get f.1 = some b ∧ b.producer = some f.2 := by
  cases c with
  | fail r producer definite =>
    obtain ⟨hid, b, hget, -, -, hp⟩ := failure_eq_some_iff.1 h
    exact ⟨b, hid ▸ hget, hp⟩
  | _ => cases h

/-- A report marks the cursor of the producer it names, and no other. -/
theorem producers_fail (r : Reservation) (producer : Option ProducerIdentity) (definite : Bool)
    (producerId : Nat) :
    (fail st r producer definite).2.producers.get producerId = (st.producers.get producerId).map
      fun c ↦ if ∃ q ∈ producer,
      q.producerId = producerId then { c with failed := true } else c := by
  have hfreeze : (st.freezeProducer producer).producers.get producerId =
      (st.producers.get producerId).map fun c ↦
        if ∃ q ∈ producer, q.producerId = producerId then { c with failed := true } else c := by
    cases producer with
    | none => simp [freezeProducer]
    | some p =>
      simp only [freezeProducer, Table.get_modify]
      by_cases hid : producerId = p.producerId
      · simp [hid]
      · simp [hid, Ne.symm hid]
  rcases fail_cases st r producer definite with h | ⟨b, -, -, -, -, h⟩
  · rw [h, hfreeze]
  · rw [h, rollbackAtomicChunk_snd, ← hfreeze]
    rfl

/-- What is handed out is the next batch, unless an old one is reopened. -/
theorem Outcome.batchId_of_reserved (h : Outcome st answer c eff) (hs : st.Sound)
    (hreopens : c.reopens st = none) (hr : eff.reserved = some r) :
    r.batchId = st.batches.nextKey := by
  cases h with
  | @allocated _ p hvalid =>
    cases hr
    exact hvalid.batchId
  | @appended r' producer group bytes digest reserved producers hpasses hproducers hreserved =>
    rcases hreserved with rfl | ⟨rfl, -⟩ <;> cases hr
    exact hpasses.batchId hs.layout.nextBatchId
  | @retried r' producer group bytes digest b hget hstatus hmatch =>
    simp [reopens, hget, hstatus, hmatch] at hreopens
  | _ => cases hr

/-- A reopened batch takes the mark of its producer away if the epoch is the current one. -/
theorem Outcome.get_producers_of_reopens (h : Outcome st answer c eff)
    (hb : c.reopens st = some b) (producerId : Nat) :
    eff.state.producers.get producerId = (st.producers.get producerId).map fun c ↦
      if ∃ p ∈ b.producer, p.producerId = producerId ∧ p.epoch = c.epoch then
        { c with failed := false } else c := by
  cases hp : b.producer with
  | some p =>
    rw [h.producers_of_reopens hb hp, Table.get_modify]
    simp only [mem_some_iff, exists_eq_left', eq_comm]
    by_cases hid : producerId = p.producerId
    · simp only [hid, true_and, if_true]
    · simp [hid]
  | none =>
    obtain ⟨batchId, digest, hproducers⟩ := h.producers_reopened hb
    simp [hproducers, hp, reopen]

/-- A batch that is reopened is handed out, unless its chunk is refused late. -/
theorem Outcome.reserved_of_reopens
    (h : Outcome st answer (.reserveReplica r producer group bytes digest) eff)
    (hb : (Command.reserveReplica r producer group bytes digest).reopens st = some b) :
    eff.reserved = some r ∨
      eff.reserved = none ∧ st.RefusesLate r producer group bytes digest := by
  cases h with
  | quiet hreopens =>
    rw [hreopens] at hb
    cases hb
  | allocated hvalid hsettles hreopens =>
    rw [hreopens] at hb
    cases hb
  | appended hpasses =>
    rw [Command.reopens, hpasses.absent] at hb
    cases hb
  | retried => exact .inl rfl
  | @refusedRetry _ _ _ _ _ b' e hget hstatus hmatch hreg =>
    exact .inr ⟨rfl, refusesLate_of_reopened hget hstatus hmatch hreg⟩

end Marks

/-! ### Runs -/

namespace FailureLog

/-- **What holds along a run**: the marks are exact, and the log agrees with the batches and the
cursors. -/
structure Tracks (x : FailureLog) : Prop where
  sound : x.st.Sound
  covered : ∀ {key b p}, x.st.batches.get key = some b → b.producer = some p →
    ∃ c, x.st.producers.get p.producerId = some c ∧ p.epoch ≤ c.epoch
  reached : ∀ f ∈ x.failed, ∃ c, x.st.producers.get f.2.producerId = some c ∧ f.2.epoch ≤ c.epoch
  allocated : ∀ f ∈ x.failed, f.1 < x.st.batches.nextKey
  agrees : ∀ f ∈ x.failed, ∀ b, x.st.batches.get f.1 = some b → b.producer = some f.2
  exact : x.FencesExactly

section Step

variable {epoch : Nat}

theorem mem_failed_after :
    f ∈ (x.after answer c).failed ↔
      f ∈ x.failed ∧ (c.run x.st answer).reserved.map (·.batchId) ≠ some f.1 ∨
        c.failure x.st = some f := by
  simp only [after, List.mem_append, List.mem_filter, decide_eq_true_eq, mem_toList]

/-- A report adds its batch to the log. -/
theorem hasFailed_after_fail :
    (x.after answer (.fail r producer definite)).HasFailed producerId epoch ↔
      x.HasFailed producerId epoch ∨ x.st.PendingOf r producerId epoch := by
  constructor
  · rintro ⟨f, hf, hid, hepoch⟩
    rcases mem_failed_after.1 hf with ⟨hf, -⟩ | hf
    · exact .inl ⟨f, hf, hid, hepoch⟩
    · obtain ⟨-, b, hget, hres, hstatus, hp⟩ := failure_eq_some_iff.1 hf
      exact .inr ⟨b, f.2, hget, hres, hstatus, hp, hid, hepoch⟩
  · rintro (⟨f, hf, hid, hepoch⟩ | ⟨b, p, hget, hres, hstatus, hp, hid, hepoch⟩)
    · exact ⟨f, mem_failed_after.2 (.inl ⟨hf, by simp [run]⟩), hid, hepoch⟩
    · refine ⟨(r.batchId, p), mem_failed_after.2 (.inr ?_), hid, hepoch⟩
      exact failure_eq_some_iff.2 ⟨rfl, b, hget, hres, hstatus, hp⟩

/-- **A report keeps the marks exact.** -/
theorem Tracks.exact_fail (h : x.Tracks) (hrespects : x.Respects (.fail r producer definite)) :
    (x.after answer (.fail r producer definite)).FencesExactly := by
  obtain ⟨hnamed, hpending⟩ := hrespects
  intro producerId cursor' hcursor'
  have hget : (fail x.st r producer definite).2.producers.get producerId = some cursor' := hcursor'
  rw [producers_fail] at hget
  obtain ⟨cursor, hcursor, rfl⟩ := map_eq_some_iff.1 hget
  have hexact := h.exact producerId cursor hcursor
  rw [hasFailed_after_fail]
  by_cases hq : ∃ q ∈ producer, q.producerId = producerId
  · obtain ⟨q, hq', rfl⟩ := hq
    rw [if_pos ⟨q, hq', rfl⟩]
    refine ⟨fun _ ↦ ?_, fun _ ↦ rfl⟩
    exact (hnamed q hq' cursor hcursor).imp hexact.1 id
  · rw [if_neg hq, hexact]
    refine ⟨.inl, fun hor ↦ hor.elim id fun hp ↦ ?_⟩
    exact hexact.1 ((hpending producerId cursor hcursor hp).resolve_right hq)

/-- The log of a producer and epoch changes only with a batch of them. -/
theorem hasFailed_after_iff (hfailure : c.failure x.st = none)
    (hother : ∀ r f, (c.run x.st answer).reserved = some r → f ∈ x.failed → f.1 = r.batchId →
      ¬ (f.2.producerId = producerId ∧ f.2.epoch = epoch)) :
    (x.after answer c).HasFailed producerId epoch ↔ x.HasFailed producerId epoch := by
  constructor
  · rintro ⟨f, hf, hid⟩
    rcases mem_failed_after.1 hf with ⟨hf, -⟩ | hf
    · exact ⟨f, hf, hid⟩
    · rw [hfailure] at hf
      cases hf
  · rintro ⟨f, hf, hid⟩
    refine ⟨f, mem_failed_after.2 (.inl ⟨hf, fun hmap ↦ ?_⟩), hid⟩
    obtain ⟨r, hr, hid'⟩ := map_eq_some_iff.1 hmap
    exact hother r f hr hf hid'.symm hid

/-- **A revived batch keeps the marks exact.** -/
theorem Tracks.exact_reopened (h : x.Tracks)
    (hb : (Command.reserveReplica r producer group bytes digest).reopens x.st = some b)
    (hrespects : x.Respects (.reserveReplica r producer group bytes digest)) :
    (x.after answer (.reserveReplica r producer group bytes digest)).FencesExactly := by
  have hout := (Command.reserveReplica r producer group bytes digest).outcome h.sound answer
  obtain ⟨hget, hstatus, hmatch⟩ : x.st.batches.get r.batchId = some b ∧ b.status = .aborted ∧
      b.matchesReplica r producer group bytes digest = true := by
    simpa [reopens] using hb
  have hproducer := (BatchRuntime.matchesReplica_iff.1 hmatch).2.1
  have hreserved := hout.reserved_of_reopens hb
  intro producerId cursor' hcursor'
  have hafter := (hout.get_producers_of_reopens hb producerId).symm.trans hcursor'
  obtain ⟨cursor, hcursor, rfl⟩ := map_eq_some_iff.1 hafter
  by_cases hcurrent : ∃ p ∈ b.producer, p.producerId = producerId ∧ p.epoch = cursor.epoch
  · -- the mark is taken away, and nothing of the epoch is left in the log
    obtain ⟨p, hp, rfl, hepoch⟩ := hcurrent
    rw [if_pos ⟨p, hp, rfl, hepoch⟩]
    refine ⟨fun h ↦ (by cases h), ?_⟩
    rintro ⟨f, hf, hfid, hfepoch⟩
    rcases mem_failed_after.1 hf with ⟨hf, hne⟩ | hf
    · obtain ⟨hlast, hlate⟩ := (hrespects p (hproducer ▸ hp) cursor hcursor).2 b hget hstatus hepoch
        f hf hfid (hfepoch.trans hepoch.symm)
      rcases hreserved with hr | ⟨-, hrefused⟩
      · exact absurd (by rw [hr, hlast]; rfl) hne
      · exact absurd hrefused hlate
    · cases hf
  · rw [if_neg hcurrent, hasFailed_after_iff rfl fun r' f hr' hf hid hsame ↦ ?_]
    · exact h.exact producerId cursor hcursor
    · -- what leaves the log is the batch itself
      rcases hreserved with hr | ⟨hr, -⟩ <;> rw [hr] at hr' <;> cases hr'
      exact hcurrent ⟨f.2, h.agrees f hf b (hid ▸ hget), hsame⟩

/-- **Every other command keeps the marks exact.** -/
theorem Tracks.exact_of_forward (h : x.Tracks) (hfailure : c.failure x.st = none)
    (hreopens : c.reopens x.st = none)
    (hfail : ∀ r producer definite, c ≠ .fail r producer definite) :
    (x.after answer c).FencesExactly := by
  have hout := c.outcome h.sound answer
  -- only the next batch is handed out, and that is not in the log
  have hsame : ∀ producerId epoch, (x.after answer c).HasFailed producerId epoch ↔
      x.HasFailed producerId epoch := fun producerId epoch ↦ by
    refine hasFailed_after_iff hfailure fun r f hr hf hid ↦ ?_
    have := h.allocated f hf
    have := hout.batchId_of_reserved h.sound hreopens hr
    omega
  intro producerId cursor hcursor
  rw [hsame]
  cases hout.cursorsStep with
  | kept hnext hp | plain hget hproducer hp =>
    exact h.exact producerId cursor (by rw [← hp]; exact hcursor)
  | @advanced b p cursor' hget hproducer hpos hepoch hbefore hfailed hp =>
    have hafter : (c.run x.st answer).state.producers.get producerId = some cursor := hcursor
    rw [hp, Table.get_insert] at hafter
    split_ifs at hafter with hid
    · subst hid
      obtain rfl : cursor' = cursor := some.inj hafter
      rw [hfailed]
      constructor
      · rintro ⟨c, hc, hsame, hmark⟩
        rw [← hsame]
        exact (h.exact _ c hc).1 hmark
      · -- a failed batch is of an epoch that the cursor had reached
        rintro ⟨f, hf, hfid, hfepoch⟩
        obtain ⟨c, hc, hle⟩ := h.reached f hf
        rw [hfid] at hc
        have hsame : c.epoch = cursor'.epoch := le_antisymm (hbefore c hc) (hfepoch ▸ hle)
        exact ⟨c, hc, hsame, (h.exact _ c hc).2 ⟨f, hf, hfid, hfepoch.trans hsame.symm⟩⟩
    · exact h.exact producerId cursor hafter
  | reopened hnext hreopens' =>
    rw [hreopens] at hreopens'
    cases hreopens'
  | frozen hnext hcommand => exact absurd hcommand (hfail _ _ _)

/-- What is in the log after a command is a batch from before it. -/
theorem Tracks.of_mem_after (h : x.Tracks) (hf : f ∈ (x.after answer c).failed) :
    f.1 < x.st.batches.nextKey ∧ (∀ b, x.st.batches.get f.1 = some b → b.producer = some f.2) ∧
      ∃ c, x.st.producers.get f.2.producerId = some c ∧ f.2.epoch ≤ c.epoch := by
  rcases mem_failed_after.1 hf with ⟨hf, -⟩ | hf
  · exact ⟨h.allocated f hf, h.agrees f hf, h.reached f hf⟩
  · obtain ⟨b, hget, hp⟩ := get_of_failure hf
    refine ⟨(DenseOrderedMap.lt_nextKey_of_get hget).2, fun b' hget' ↦ ?_, h.covered hget hp⟩
    rw [hget] at hget'
    cases hget'
    exact hp

/-- **A command that respects the cursors keeps the log.** -/
theorem Tracks.after (h : x.Tracks) (hrespects : x.Respects c) : (x.after answer c).Tracks := by
  have hout := c.outcome h.sound answer
  refine ⟨hout.core_effect.sound h.sound, hout.batches_covered h.sound h.covered,
    fun f hf ↦ hout.cursorsStep.reached (h.of_mem_after hf).2.2,
    fun f hf ↦ (h.of_mem_after hf).1.trans_le (hout.range h.sound).nextKey_le,
    fun f hf b hget ↦ ?_, ?_⟩
  · -- a batch that was there before keeps its producer
    obtain ⟨hlt, hagrees, -⟩ := h.of_mem_after hf
    obtain ⟨b₀, hb₀, hsame⟩ := hout.heldBefore h.sound hget hlt.ne
    rw [hsame.producer]
    exact hagrees b₀ hb₀
  · by_cases hfail : ∃ r producer definite, c = .fail r producer definite
    · obtain ⟨r, producer, definite, rfl⟩ := hfail
      exact h.exact_fail hrespects
    · have hfailure : c.failure x.st = none := by
        cases c with
        | fail r producer definite => exact absurd ⟨r, producer, definite, rfl⟩ hfail
        | _ => rfl
      cases hreopens : c.reopens x.st with
      | none =>
        exact h.exact_of_forward hfailure hreopens fun r producer definite hc ↦
          hfail ⟨r, producer, definite, hc⟩
      | some b =>
        cases c with
        | reserveReplica r producer group bytes digest => exact h.exact_reopened hreopens hrespects
        | _ => cases hreopens

end Step

/-- Where commands begin, nothing has failed. -/
theorem tracks_of_start {config : EngineConfig} {start : PartitionState}
    (h : PartitionStart config start) : (mk start []).Tracks := by
  have hempty : ∀ producerId epoch, ¬ (mk start []).HasFailed producerId epoch :=
    fun _ _ h ↦ by simpa using h.choose_spec.1
  have hs := h.sound_and_exact.1
  cases h with
  | created =>
    refine ⟨hs, fun {key b p} hget ↦ ?_, List.forall_mem_nil _,
      List.forall_mem_nil _, List.forall_mem_nil _, fun _ _ h ↦ by cases h⟩
    simp [empty] at hget
  | recovered he hrec hst =>
    obtain ⟨s, st₀, -, -, -, hr⟩ := he.recovered hrec hst
    refine ⟨hs, hr.cursorsCover.batches, List.forall_mem_nil _, List.forall_mem_nil _,
      List.forall_mem_nil _, fun producerId cursor hcursor ↦ ?_⟩
    rw [hr.producers] at hcursor
    simp [((foldl_restoreCursor _).1 hcursor).1, hempty]

theorem Run.tracks {y : FailureLog} (hrun : Run Respects x y) (hx : x.Tracks) :
    y.Tracks ∧ x.st.NotBehind y.st := by
  induction hrun with
  | refl => exact ⟨hx, .of_position_eq fun _ ↦ rfl⟩
  | @tail y z _ hstep ih =>
    obtain ⟨answer, c, hrespects, rfl⟩ := hstep
    obtain ⟨hy, hforward⟩ := ih
    refine ⟨hy.after hrespects,
      hforward.trans ((c.outcome hy.sound answer).cursorsStep.notBehind ?_)⟩
    rintro r p group bytes digest rfl hget cursor hcursor hepoch
    exact (hrespects p rfl cursor hcursor).1 hget hepoch

end FailureLog

/-- **Cursors move forward and fence exactly** in every run that respects them, from a created or a
recovered partition. -/
theorem cursors_forward_and_exact {config : EngineConfig} {start : PartitionState}
    (hstart : PartitionStart config start) {x y : FailureLog}
    (hrun : FailureLog.Run FailureLog.Respects ⟨start, []⟩ x)
    (hlater : FailureLog.Run FailureLog.Respects x y) :
    x.FencesExactly ∧ x.st.NotBehind y.st := by
  have hx := (hrun.tracks (FailureLog.tracks_of_start hstart)).1
  exact ⟨hx.exact, (hlater.tracks hx).2⟩

/-! ### Runs of one producer -/

namespace FailureLog

instance (x : FailureLog) (producerId epoch : Nat) : Decidable (x.HasFailed producerId epoch) :=
  inferInstanceAs (Decidable (∃ f ∈ x.failed, _))

/-- The log after some commands, with a journal that works. -/
def play : List Command → FailureLog → FailureLog
  | [], x => x
  | c :: commands, x => play commands (x.after (.ok ()) c)

theorem run_play : ∀ (commands : List Command) (x : FailureLog),
    Run (fun _ _ ↦ True) x (play commands x)
  | [], _ => .refl
  | c :: commands, x => .head ⟨.ok (), c, trivial, rfl⟩ (run_play commands (x.after (.ok ()) c))

end FailureLog

/-- Producer 9 in an epoch, from a sequence on. -/
def producerNine (epoch firstSequence : Nat) : ProducerIdentity := ⟨9, epoch, firstSequence, none⟩

/-- The leader reserves a record of producer 9. -/
def reserveNine (epoch firstSequence : Nat) : Command :=
  .reserve ⟨⟨0, 0⟩, 0, some (producerNine epoch firstSequence), none, .one, 1, 0, none⟩

/-- A record of producer 9 is reported as not written. -/
def failNine (r : Reservation) (epoch firstSequence : Nat) : Command :=
  .fail r (some (producerNine epoch firstSequence)) true

/-- A replica reserves a record of producer 9. -/
def replicateNine (r : Reservation) (epoch firstSequence : Nat) : Command :=
  .reserveReplica r (some (producerNine epoch firstSequence)) none 1 0

/-- The first record of producer 9 is reserved. -/
def nineReserved : FailureLog := FailureLog.play [reserveNine 1 0] ⟨oneLane, []⟩

/-- A failed first record fences its producer. -/
theorem nine_fenced_by_failure :
    let x := nineReserved.after (.ok ()) (failNine firstBatch 1 0)
    x.st.producers.get 9 = some ⟨1, 1, true⟩ ∧ x.FencesExactly ∧
    nineReserved.st.NotBehind x.st := by
  have hcursor : nineReserved.st.producers.get 9 = some ⟨1, 1, false⟩ := by decide +kernel
  have hbatch : nineReserved.st.batches.get firstBatch.batchId =
      some (pendingBatch firstBatch (some (producerNine 1 0)) none 1 0) := by decide +kernel
  have hreserved : FailureLog.Run FailureLog.Respects ⟨oneLane, []⟩ nineReserved :=
    .single ⟨.ok (), reserveNine 1 0, trivial, rfl⟩
  have hrespects : nineReserved.Respects (failNine firstBatch 1 0) := by
    constructor
    · rintro q ⟨⟩ cursor hget
      cases hcursor.symm.trans hget
      exact .inr ⟨_, _, hbatch, rfl, rfl, rfl, rfl, rfl⟩
    · rintro producerId cursor hget ⟨b, p, hb, -, -, hp, hid, -⟩
      cases hbatch.symm.trans hb
      cases hp
      exact .inr ⟨_, rfl, hid⟩
  have hfailed : FailureLog.Run FailureLog.Respects nineReserved
      (nineReserved.after (.ok ()) (failNine firstBatch 1 0)) :=
    .single ⟨.ok (), failNine firstBatch 1 0, hrespects, rfl⟩
  exact ⟨by decide +kernel, (cursors_forward_and_exact oneLane_created (hreserved.trans hfailed)
    .refl).1, (cursors_forward_and_exact oneLane_created hreserved hfailed).2⟩

/-- **Cursors of one producer that are wrong**: a late failure of epoch 1 fences epoch 2, a revived
batch lifts the fence of another one that has failed, and a replica moves the cursor back. -/
theorem nine_fenced_wrongly : PartitionStart ⟨1, 1, 1⟩ oneLane ∧
    (∃ x, FailureLog.Run (fun _ _ ↦ True) ⟨oneLane, []⟩ x ∧
      x.st.producers.get 9 = some ⟨2, 2, true⟩ ∧ ¬ x.HasFailed 9 2) ∧
    (∃ x, FailureLog.Run (fun _ _ ↦ True) ⟨oneLane, []⟩ x ∧
      x.st.producers.get 9 = some ⟨1, 2, false⟩ ∧ x.HasFailed 9 1) ∧
    ∃ x y, FailureLog.Run (fun _ _ ↦ True) ⟨oneLane, []⟩ x ∧
      FailureLog.Run (fun _ _ ↦ True) x y ∧ ¬ x.st.NotBehind y.st := by
  refine ⟨oneLane_created, ?_, ?_, ?_⟩
  · exact ⟨_, FailureLog.run_play [reserveNine 1 0, reserveNine 2 1, failNine firstBatch 1 0] _,
      by decide +kernel, by decide +kernel⟩
  · exact ⟨_, FailureLog.run_play [reserveNine 1 0, reserveNine 1 1, failNine firstBatch 1 0,
      failNine secondBatch 1 1, replicateNine firstBatch 1 0] _, by decide +kernel,
      by decide +kernel⟩
  · refine ⟨_, _, FailureLog.run_play [replicateNine firstBatch 1 5] _,
      FailureLog.run_play [replicateNine secondBatch 1 0] _, fun h ↦ ?_⟩
    obtain ⟨epoch, next, hposition, hle⟩ := h 9 1 6 (by decide +kernel)
    have hback : (FailureLog.play [replicateNine secondBatch 1 0]
        (FailureLog.play [replicateNine firstBatch 1 5] ⟨oneLane, []⟩)).st.position 9 =
          some (1, 1) := by decide +kernel
    cases hback.symm.trans hposition
    omega

end ShardStream
