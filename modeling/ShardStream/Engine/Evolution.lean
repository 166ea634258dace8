import ShardStream.Engine.Steps

/-!
# What a command does to one batch

Invariants about batches do not care how a handler is written, only what it does to the batch under
each key. `KeyStep` lists that: a batch is **born** pending at the end, is **completed** or
**failed** while pending, **decided** with its group while unresolved, **reopened** while aborted,
**dropped** from the front, or kept. Whatever happens, its coordinates, identities and length stay
(`SameBatch`).

The stable cursor moves over stable batches only (`CoreEffect.passed`).
-/

namespace ShardStream

open PartitionCore DenseOrderedMap BatchRuntime

variable {b b' : BatchRuntime} {r : Reservation} {o : Option BatchRuntime} {key : Nat}
  {answer : Except EngineError Unit} {st : PartitionState} {c : Command} {eff : Effect}

/-- Two stages of one batch: what no command changes is the same, and a known digest stays. -/
structure BatchRuntime.SameBatch (b b' : BatchRuntime) : Prop where
  reservation : b'.reservation = b.reservation
  producer : b'.producer = b.producer
  atomicGroup : b'.atomicGroup = b.atomicGroup
  payloadBytes : b'.payloadBytes = b.payloadBytes
  payloadDigest : ∀ d ∈ b.payloadDigest, b'.payloadDigest = some d

theorem BatchRuntime.SameBatch.refl (b : BatchRuntime) : b.SameBatch b :=
  ⟨rfl, rfl, rfl, rfl, fun _ h ↦ h⟩

theorem BatchRuntime.sameBatch_marked (b : BatchRuntime) (status : BatchStatus) (copies : Nat) :
    b.SameBatch (b.marked status copies) := by
  cases status <;> exact ⟨rfl, rfl, rfl, rfl, fun _ h ↦ h⟩

/-- A replica may reopen a batch only with the digest the batch has, if it has one. -/
theorem BatchRuntime.sameBatch_reopened {producer : Option ProducerIdentity}
    {group : Option AtomicGroupIdentity} {bytes : Nat} {digest : Digest}
    (h : b.matchesReplica r producer group bytes digest = true) :
    b.SameBatch { b with status := .pending, payloadDigest := some digest } := by
  refine ⟨rfl, rfl, rfl, rfl, fun d hd ↦ ?_⟩
  rw [(matchesReplica_iff.1 h).2.2.2.2 d hd]

/-- What a command can do to the batch under `key`. -/
inductive KeyStep (st : PartitionState) (c : Command) (eff : Effect) (key : Nat) :
    Option BatchRuntime → Option BatchRuntime → Prop
  | absent : KeyStep st c eff key none none
  | kept {b b' : BatchRuntime} (hsame : b.SameBatch b') (hstatus : b'.status = b.status)
      (hreserved : ∀ r ∈ eff.reserved, r.batchId ≠ key) : KeyStep st c eff key (some b) (some b')
  | born {b : BatchRuntime} (hkey : key = st.batches.nextKey) (hstatus : b.status = .pending)
      (hdigest : b.payloadDigest.isSome = true)
      (hres : ∃ count epoch, b.reservation = st.sequencer.nextReservation count epoch)
      (hsettles : c.settles = none)
      (hsequence : ∀ p ∈ b.producer, p.firstSequence + b.reservation.recordCount.get < 2 ^ 64) :
      KeyStep st c eff key none (some b)
  | completed {b b' : BatchRuntime} {completion : CompleteAppend} (hc : c = .complete completion)
      (hkey : completion.reservation.batchId = key) (hsame : b.SameBatch b')
      (hpending : b.status = .pending) (hstatus : b'.status = completedStatus (some b))
      (hreserved : eff.reserved = none) : KeyStep st c eff key (some b) (some b')
  | failed {b b' : BatchRuntime} {r : Reservation} {producer : Option ProducerIdentity}
      (hc : c = .fail r producer true) (hkey : r.batchId = key) (hsame : b.SameBatch b')
      (hpending : b.status = .pending) (hstatus : b'.status = .aborted)
      (hreserved : eff.reserved = none) : KeyStep st c eff key (some b) (some b')
  | decided {b b' : BatchRuntime} {txn : Nat} {outcome : AtomicGroupState} {g : AtomicGroupRuntime}
      (hc : c = .finalizeAtomicGroup txn outcome) (hget : st.atomicGroups.get txn = some g)
      (hmem : key ∈ g.batchIds) (hout : outcome ≠ .unresolved)
      (hfinal : eff.state.finalizedGroups.get txn = some outcome)
      (hentry : eff.state.atomicGroups.get txn = some { g with state := outcome })
      (hsame : b.SameBatch b')
      (hopen : b.status = .unresolved) (hstatus : b'.status = outcome.batchStatus)
      (hreserved : eff.reserved = none) : KeyStep st c eff key (some b) (some b')
  | reopened {b b' : BatchRuntime} {r : Reservation} {producer : Option ProducerIdentity}
      {group : Option AtomicGroupIdentity} {bytes : Nat} {digest : Digest}
      (hc : c = .reserveReplica r producer group bytes digest) (hkey : r.batchId = key)
      (hreopens : c.reopens st = some b) (hsame : b.SameBatch b') (haborted : b.status = .aborted)
      (hstatus : b'.status = .pending) (hreserved : eff.reserved = none ∨ eff.reserved = some r) :
      KeyStep st c eff key (some b) (some b')
  | dropped {b : BatchRuntime} (hkey : key < eff.state.batches.firstKey)
      (hstable : key < st.stable.nextBatch) : KeyStep st c eff key (some b) none

section KeySteps

/-- An update of one batch, seen from every key. -/
theorem KeyStep.of_modify {target : Nat} {f : BatchRuntime → BatchRuntime}
    (hother : ∀ r ∈ eff.reserved, r.batchId ≠ key ∨ key = target)
    (h : ∀ b, key = target → st.batches.get key = some b →
      KeyStep st c eff key (some b) (some (f b))) :
    KeyStep st c eff key (st.batches.get key) ((st.batches.modify target f).get key) := by
  rw [get_modify]
  cases hget : st.batches.get key with
  | none => simpa using .absent
  | some b =>
    by_cases hkey : key = target
    · rw [if_pos hkey]
      exact h b hkey hget
    · rw [if_neg hkey]
      exact .kept (.refl b) rfl fun r hr ↦ (hother r hr).resolve_right hkey

/-- A pending batch pushed at the end, seen from every key. -/
theorem KeyStep.of_snoc (hl : st.Layout) (key : Nat)
    (hres : ∃ count epoch, b.reservation = st.sequencer.nextReservation count epoch)
    (hstatus : b.status = .pending) (hdigest : b.payloadDigest.isSome = true)
    (hsettles : c.settles = none)
    (hsequence : ∀ p ∈ b.producer, p.firstSequence + b.reservation.recordCount.get < 2 ^ 64)
    (hreserved : ∀ r ∈ eff.reserved, r = b.reservation) :
    KeyStep st c eff key (st.batches.get key) ((st.batches.snoc b).get key) := by
  have hid : b.reservation.batchId = st.batches.nextKey := by
    obtain ⟨count, epoch, h⟩ := hres
    rw [h, ← hl.nextBatchId]
    rfl
  rw [get_snoc]
  by_cases hkey : key = st.batches.nextKey
  · have hnone : st.batches.get key = none := get_eq_none_iff.2 (.inr hkey.ge)
    rw [if_pos hkey, hnone]
    exact .born hkey hstatus hdigest hres hsettles hsequence
  · rw [if_neg hkey]
    cases hget : st.batches.get key with
    | none => exact .absent
    | some b' =>
      refine .kept (.refl b') rfl fun r hr heq ↦ hkey ?_
      rw [← heq, hreserved r hr, hid]

/-- **The batch under a key**, before and after a command. -/
theorem Outcome.keyStep (h : Outcome st answer c eff) (hs : st.Sound) (key : Nat) :
    KeyStep st c eff key (st.batches.get key) (eff.state.batches.get key) := by
  have hl := hs.layout
  -- outcomes that leave the batches alone and reserve nothing
  have hsame : ∀ {eff}, eff.state.batches = st.batches → eff.reserved = none →
      KeyStep st c eff key (st.batches.get key) (eff.state.batches.get key) := by
    intro eff hb hr
    rw [hb]
    cases st.batches.get key with
    | none => exact .absent
    | some b => exact .kept (.refl b) rfl (by simp [hr])
  cases h with
  | quiet => exact hsame rfl rfl
  | @allocated _ p hvalid hsettles =>
    obtain ⟨hres, -⟩ := hvalid.reservation
    refine .of_snoc hl key ⟨_, _, hres⟩ rfl rfl hsettles (fun q hq ↦ ?_) (by rintro r ⟨⟩; rfl)
    have hcount : p.batch.reservation.recordCount = p.intent.recordCount := by
      change p.proposal.reservation.recordCount = _
      rw [hres]
      rfl
    rw [hcount]
    exact sequence_of_cursorAfter hvalid.producerAfter q hq
  | @appended r producer group bytes digest reserved producers hpasses hproducers hreserved =>
    rw [registerNamedChunk_snd]
    refine .of_snoc hl key ⟨_, _, hpasses.next⟩ rfl rfl rfl hpasses.producer fun r' hr' ↦ ?_
    rcases hreserved with rfl | ⟨rfl, -⟩
    · cases hr'
    · cases hr'
      rfl
  | @retried r producer group bytes digest b hget hstatus hmatch
  | @refusedRetry r producer group bytes digest b e hget hstatus hmatch =>
    rw [registerNamedChunk_snd]
    refine .of_modify (by rintro r' ⟨⟩ <;> exact (ne_or_eq _ _).imp_right Eq.symm)
      fun b' hkey hb' ↦ ?_
    subst hkey
    rw [hget] at hb'
    cases hb'
    exact .reopened rfl rfl (by simp [Command.reopens, hget, hstatus, hmatch])
      (sameBatch_reopened hmatch) hstatus rfl (by simp)
  | @completed completion b hget hres hstatus =>
    have hb : ((st.markedBatch completion.reservation.batchId (completedStatus (some b))
        completion.durableReplicas).completed completion (b.marked
            (completedStatus (some b)) completion.durableReplicas).durableReplicas).batches.get
            key = (st.batches.modify completion.reservation.batchId fun b' ↦
              { b'.marked (completedStatus (some b)) completion.durableReplicas with
                objectDurable := completion.objectDurable }).get key := by
      change ((st.batches.modify _ _).modify _ _).get key = _
      simp only [get_modify]
      split_ifs
      · rw [Option.map_map]
        rfl
      · rfl
    simp only [hb]
    refine .of_modify (by simp) fun b' hkey hb' ↦ ?_
    subst hkey
    rw [hget] at hb'
    cases hb'
    have hmarked := b.sameBatch_marked (completedStatus (some b)) completion.durableReplicas
    exact .completed rfl rfl ⟨hmarked.reservation, hmarked.producer, hmarked.atomicGroup,
      hmarked.payloadBytes, hmarked.payloadDigest⟩ hstatus (status_marked ..) rfl
  | acknowledged =>
    refine .of_modify (by simp) fun b' hkey hb' ↦ ?_
    exact .kept ⟨rfl, rfl, rfl, rfl, fun _ h ↦ h⟩ rfl (by simp)
  | @frozen r producer => exact hsame (by cases producer <;> rfl) rfl
  | @failed r producer b hget hres hstatus =>
    rw [rollbackAtomicChunk_snd]
    change KeyStep st _ _ key _ (((st.freezeProducer producer).batches.modify _ _).get key)
    rw [toPartitionCore_freezeProducer]
    refine .of_modify (by simp) fun b' hkey hb' ↦ ?_
    subst hkey
    rw [hget] at hb'
    cases hb'
    exact .failed rfl rfl (b.sameBatch_marked ..) hstatus (status_marked ..) rfl
  | @decided txn outcome g hanswer hget hopen hout hchunks =>
    change KeyStep st _ _ key _ ((setStatuses st.batches outcome.batchStatus g.batchIds).get key)
    rw [get_setStatuses]
    by_cases hmem : key ∈ g.batchIds
    · obtain ⟨b, hb, hstatus, -⟩ := hchunks key hmem
      rw [if_pos hmem, hb]
      exact .decided rfl hget hmem hout (Table.get_insert_self ..) (Table.get_insert_self ..)
        ⟨rfl, rfl, rfl, rfl, fun _ h ↦ h⟩ hstatus rfl rfl
    · rw [if_neg hmem]
      cases st.batches.get key with
      | none => exact .absent
      | some b => exact .kept (.refl b) rfl (by simp)
  | reconfigured | policyUpdated => exact hsame rfl rfl
  | @truncated floor hanswer hfirst hstable =>
    have hle := hstable.trans hs.cursors.stable.inPlace.le_nextKey
    change KeyStep st _ _ key _ ((st.batches.truncateBefore floor).get key)
    rw [get_truncateBefore hfirst hle]
    cases hget : st.batches.get key with
    | none => simpa using .absent
    | some b =>
      by_cases hkey : key < floor
      · rw [if_pos hkey]
        refine .dropped ?_ (by omega)
        change key < (st.batches.truncateBefore floor).firstKey
        rw [firstKey_truncateBefore hfirst hle]
        exact hkey
      · rw [if_neg hkey]
        exact .kept (.refl b) rfl (by simp)

/-- A batch held after a command and allocated before it was held before it. -/
theorem KeyStep.sameBatch (h : KeyStep st c eff key o (some b')) (hlt : key ≠ st.batches.nextKey) :
    ∃ b, o = some b ∧ b.SameBatch b' := by
  cases h with
  | born hkey => exact absurd hkey hlt
  | kept hsame => exact ⟨_, rfl, hsame⟩
  | completed hc hkey hsame => exact ⟨_, rfl, hsame⟩
  | failed hc hkey hsame => exact ⟨_, rfl, hsame⟩
  | decided hc hget hmem hout hfinal hentry hsame => exact ⟨_, rfl, hsame⟩
  | reopened hc hkey hreopens hsame => exact ⟨_, rfl, hsame⟩

/-- A decided batch keeps its status as long as it is held, unless a retry takes it up. -/
theorem KeyStep.status_of_stable (h : KeyStep st c eff key (some b) (some b'))
    (hb : b.stable = true) :
    b'.status = b.status ∨ b.status = .aborted ∧ c.reopens st = some b := by
  rw [BatchRuntime.stable] at hb
  cases h with
  | kept _ hstatus => exact .inl hstatus
  | completed _ _ _ hpending => simp [hpending] at hb
  | failed _ _ _ hpending => simp [hpending] at hb
  | decided _ _ _ _ _ _ _ hopen => simp [hopen] at hb
  | reopened _ _ hreopens _ haborted => exact .inr ⟨haborted, hreopens⟩

/-- A batch that is decided after a command was decided alike before it, or was open. -/
theorem KeyStep.exists_of_stable (h : KeyStep st c eff key o (some b')) (hb' : b'.stable = true) :
    ∃ b, o = some b ∧ b.SameBatch b' ∧ (b'.status = b.status ∨ b.stable = false) := by
  rw [BatchRuntime.stable] at hb'
  cases h with
  | kept hsame hstatus => exact ⟨_, rfl, hsame, .inl hstatus⟩
  | born _ hpending => simp [hpending] at hb'
  | completed _ _ hsame hpending =>
    exact ⟨_, rfl, hsame, .inr (by simp [BatchRuntime.stable, hpending])⟩
  | failed _ _ hsame hpending =>
    exact ⟨_, rfl, hsame, .inr (by simp [BatchRuntime.stable, hpending])⟩
  | decided _ _ _ _ _ _ hsame hopen =>
    exact ⟨_, rfl, hsame, .inr (by simp [BatchRuntime.stable, hopen])⟩
  | reopened _ _ _ _ _ hpending => simp [hpending] at hb'

/-- The retained range after a command: it only moves up, and it starts at the log start. -/
structure RangeStep (st st' : PartitionCore) : Prop where
  firstKey_le : st.batches.firstKey ≤ st'.batches.firstKey
  firstKey_le_nextKey : st'.batches.firstKey ≤ st.batches.nextKey
  nextKey_le : st.batches.nextKey ≤ st'.batches.nextKey
  logStart_eq : st'.logStart = st.offsetAt st'.batches.firstKey

theorem RangeStep.of_eq {st st' : PartitionCore} (hstart : st'.logStart = st.logStart)
    (hfirst : st'.batches.firstKey = st.batches.firstKey)
    (hnext : st.batches.nextKey ≤ st'.batches.nextKey) : RangeStep st st' where
  firstKey_le := hfirst.ge
  firstKey_le_nextKey := hfirst.le.trans (Nat.le_add_right ..)
  nextKey_le := hnext
  logStart_eq := by rw [hstart, hfirst, offsetAt_firstKey]

/-- A command does not move a partition. -/
theorem Outcome.topicPartition_eq (h : Outcome st answer c eff) :
    eff.state.sequencer.topicPartition = st.sequencer.topicPartition := by
  cases h with
  | appended | retried | refusedRetry =>
    rw [registerNamedChunk_snd]
    rfl
  | @frozen r producer => cases producer <;> rfl
  | @failed r producer =>
    rw [rollbackAtomicChunk_snd]
    cases producer <;> rfl
  | _ => rfl

/-- What records are about is left alone, and nothing is dropped. -/
structure SameControl (st st' : PartitionState) : Prop where
  ringEpoch : st'.sequencer.ringEpoch = st.sequencer.ringEpoch
  virtualLanes : st'.sequencer.virtualLanes = st.sequencer.virtualLanes
  policy : st'.replicationPolicy = st.replicationPolicy
  firstKey : st'.batches.firstKey = st.batches.firstKey
  nextKey_le : st.batches.nextKey ≤ st'.batches.nextKey
  logStart : st'.logStart = st.logStart
  finalizedGroups : st'.finalizedGroups = st.finalizedGroups

/-- A command without a record, or whose record was not written, leaves alone what records are
about. -/
theorem Outcome.sameControl (h : Outcome st answer c eff)
    (hevent : eff.event = none ∨ ∃ e, answer = .error e) : SameControl st eff.state := by
  -- the outcomes that change any of it had their record written
  have hwritten : ∀ {r : JournalEvent}, answer = .ok () →
      ¬ (some r = none ∨ ∃ e, answer = .error e) := by
    rintro r rfl (h | ⟨e, h⟩) <;> cases h
  cases h with
  | quiet => exact ⟨rfl, rfl, rfl, rfl, le_rfl, rfl, rfl⟩
  | allocated =>
    exact ⟨rfl, rfl, rfl, rfl, (Nat.le_succ _).trans (nextKey_snoc ..).ge, rfl, rfl⟩
  | appended =>
    rw [registerNamedChunk_snd]
    exact ⟨rfl, rfl, rfl, rfl, (Nat.le_succ _).trans (nextKey_snoc ..).ge, rfl, rfl⟩
  | retried | refusedRetry =>
    rw [registerNamedChunk_snd]
    exact ⟨rfl, rfl, rfl, firstKey_modify .., (nextKey_modify ..).ge, rfl, rfl⟩
  | completed =>
    refine ⟨rfl, rfl, rfl, ?_, ?_, rfl, rfl⟩
    · change ((st.batches.modify _ _).modify _ _).firstKey = _
      simp
    · change _ ≤ ((st.batches.modify _ _).modify _ _).nextKey
      simp
  | acknowledged => exact ⟨rfl, rfl, rfl, firstKey_modify .., (nextKey_modify ..).ge, rfl, rfl⟩
  | @frozen r producer => cases producer <;> exact ⟨rfl, rfl, rfl, rfl, le_rfl, rfl, rfl⟩
  | @failed r producer =>
    rw [rollbackAtomicChunk_snd]
    cases producer <;>
      exact ⟨rfl, rfl, rfl, firstKey_modify .., (nextKey_modify ..).ge, rfl, rfl⟩
  | decided hanswer | reconfigured hanswer | policyUpdated hanswer | truncated hanswer =>
    exact absurd hevent (hwritten hanswer)

/-- **The retained range** before and after a command. -/
theorem Outcome.range (h : Outcome st answer c eff) (hs : st.Sound) :
    RangeStep st.toPartitionCore eff.state.toPartitionCore := by
  by_cases hevent : eff.event = none ∨ ∃ e, answer = .error e
  · have hsame := h.sameControl hevent
    exact .of_eq hsame.logStart hsame.firstKey hsame.nextKey_le
  cases h with
  | quiet _ _ hquiet => exact absurd hquiet hevent
  | decided => exact .of_eq rfl (firstKey_setStatuses ..) (nextKey_setStatuses ..).ge
  | reconfigured | policyUpdated => exact .of_eq rfl rfl le_rfl
  | @truncated key hanswer hfirst hstable =>
    have hle := hstable.trans hs.cursors.stable.inPlace.le_nextKey
    have hkey : (st.dropBefore (st.offsetAt key) key).batches.firstKey = key :=
      firstKey_truncateBefore hfirst hle
    exact ⟨hfirst.trans hkey.ge, hkey.le.trans hle,
      (nextKey_truncateBefore hfirst hle).ge, by rw [hkey]; rfl⟩
  | _ => exact absurd (.inl rfl) hevent

/-- A batch held after a command was held before it, or it is the new one. -/
theorem Outcome.heldBefore (h : Outcome st answer c eff) (hs : st.Sound)
    (hb' : eff.state.batches.get key = some b') (hkey : key ≠ st.batches.nextKey) :
    ∃ b, st.batches.get key = some b ∧ b.SameBatch b' :=
  (hb' ▸ h.keyStep hs key).sameBatch hkey

/-- A batch that is not truncated stays. -/
theorem Outcome.heldAfter (h : Outcome st answer c eff) (hs : st.Sound)
    (hb : st.batches.get key = some b) (hle : eff.state.batches.firstKey ≤ key) :
    ∃ b', eff.state.batches.get key = some b' ∧ b.SameBatch b' := by
  have hlt := (lt_nextKey_of_get hb).2
  obtain ⟨b', hb'⟩ := exists_get hle (hlt.trans_le (h.range hs).nextKey_le)
  obtain ⟨b₀, hb₀, hsame⟩ := h.heldBefore hs hb' hlt.ne
  rw [hb] at hb₀
  cases hb₀
  exact ⟨b', hb', hsame⟩

/-- What a command hands out is pending in the state it leaves. -/
theorem Outcome.reserved_get (h : Outcome st answer c eff) (hs : st.Sound)
    (hr : eff.reserved = some r) :
    ∃ b, eff.state.batches.get r.batchId = some b ∧ b.reservation = r ∧ b.status = .pending := by
  cases h with
  | @allocated _ p hvalid =>
    cases hr
    exact ⟨p.batch, hvalid.get_allocated, rfl, rfl⟩
  | @appended r' producer group bytes digest reserved producers hpasses hproducers hreserved =>
    rcases hreserved with rfl | ⟨rfl, -⟩
    · cases hr
    · cases hr
      refine ⟨pendingBatch r producer group bytes digest, ?_, rfl, rfl⟩
      rw [registerNamedChunk_snd]
      change (st.batches.snoc _).get _ = _
      rw [get_snoc, if_pos (hpasses.batchId hs.layout.nextBatchId)]
  | @retried r' producer group bytes digest b hget hstatus hmatch =>
    cases hr
    refine ⟨{ b with status := .pending, payloadDigest := some digest }, ?_,
      (matchesReplica_iff.1 hmatch).1, rfl⟩
    rw [registerNamedChunk_snd]
    exact get_reopen hget producer digest
  | _ => cases hr

end KeySteps

/-! ### What the stable cursor passes -/

theorem stable_of_moves {st st' : PartitionCore} (h : Relation.ReflTransGen CoreMove st st')
    (hs : st.Sound) : ∀ key b, st.stable.nextBatch ≤ key → key < st'.stable.nextBatch →
      st'.batches.get key = some b → b.stable = true := by
  induction h with
  | refl => exact fun key b hge hlt ↦ absurd hlt (Nat.not_lt.2 hge)
  | tail hpre hm ih => exact fun key b ↦ hm.stable_of_passed (hs.moves hpre) ih

/-- **A batch below the stable cursor** is stable, or was below it before and was not handed out
again by this command. -/
theorem CoreEffect.passed (h : CoreEffect st c eff) (hs : st.Sound)
    (hlt : key < eff.state.stable.nextBatch) (hb : eff.state.batches.get key = some b) :
    b.stable = true ∨
      key < st.stable.nextBatch ∧ (c.reopens st ≠ none → eff.reserved = none) := by
  cases h with
  | moves hnone h =>
    rcases Nat.lt_or_ge key st.stable.nextBatch with hold | hnew
    · exact .inr ⟨hold, fun hsome ↦ absurd hnone hsome⟩
    · exact .inl (stable_of_moves h hs key b hnew hlt hb)
  | retried hsome hget hstatus hcore =>
    rw [hcore] at hlt hb
    exact .inl ((exact_rewind_advance (hs.layout.reopened ..)).stable key b hlt hb)
  | refusedRetry hsome hget hstatus hreserved hcore =>
    rw [hcore] at hlt
    exact .inr ⟨hlt, fun _ ↦ hreserved⟩

end ShardStream
