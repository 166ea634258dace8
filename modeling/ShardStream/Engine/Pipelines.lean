import ShardStream.Engine.Bookkeeping

/-!
# Pipelined chunks

The chunks of a group may be reserved before the earlier ones are written, and the shards report
them in any order. A chunk that was not written is taken back by a rollback, and the rollback knows
only the last chunk of a group. When an earlier one fails first, `fail` has aborted its batch before
the rollback refuses: the group keeps an aborted batch, no decision is possible any more, and the
batches behind the group stay hidden for good.

When every chunk that fails is the last one its group lists, the group can always be aborted once
nothing is pending, and none of its chunks holds the stable offset back afterwards.
-/

namespace ShardStream

open PartitionCore DenseOrderedMap Option

variable {txn id : Nat} {g : AtomicGroupRuntime} {r : Reservation} {identity : AtomicGroupIdentity}
  {b : BatchRuntime} {st : PartitionState}

/-- The batch is a chunk of the transaction. -/
def BatchRuntime.ChunkOf (b : BatchRuntime) (txn : Nat) : Prop :=
  b.atomicGroup.map (·.transactionId) = some txn

/-- The stable cursor does not stand at a chunk of the transaction. -/
def PartitionState.Passable (st : PartitionState) (txn : Nat) : Prop :=
  ∀ b, st.batches.get st.stable.nextBatch = some b → ¬ b.ChunkOf txn

/-- The failure is reported for a pending batch that has no group or is the last chunk its group
lists; or the batch is not pending and there is no cursor of the producer to fence. -/
def PartitionState.FailsCleanly (st : PartitionState) (r : Reservation)
    (producer : Option ProducerIdentity) : Prop :=
  (∀ b, st.batches.get r.batchId = some b → b.reservation = r → b.status = .pending →
    ∀ identity ∈ b.atomicGroup, ∃ g, st.atomicGroups.get identity.transactionId = some g ∧
      g.batchIds.getLast? = some r.batchId) ∧
  ((∀ b, st.batches.get r.batchId = some b → b.reservation = r → b.status ≠ .pending) →
    ∀ p ∈ producer, ∀ cursor, st.producers.get p.producerId = some cursor → cursor.failed = true)

/-- Every chunk that is pending or undecided is listed by its group. -/
def PartitionState.ChunksListed (st : PartitionState) : Prop :=
  ∀ id b txn i, st.batches.get id = some b → b.atomicGroup = some ⟨txn, i⟩ →
    b.status = .pending ∨ b.status = .unresolved →
    ∃ g, st.atomicGroups.get txn = some g ∧ id ∈ g.batchIds

section Listed

variable {answer : Except EngineError Unit} {c : Command} {eff : Effect}

/-- A listed batch stays listed, unless it fails or is dropped. -/
theorem GroupStep.listed {o : Option AtomicGroupRuntime} (h : GroupStep st c eff txn (some g) o)
    (hbook : st.Bookkept txn g) (hid : id ∈ g.batchIds)
    (hfail : ∀ r producer, c = .fail r producer true → r.batchId ≠ id)
    (hfirst : eff.state.batches.firstKey ≤ id) : ∃ g', o = some g' ∧ id ∈ g'.batchIds := by
  cases h with
  | kept => exact ⟨g, rfl, hid⟩
  | extended => exact ⟨_, rfl, List.mem_append_left _ hid⟩
  | @refused _ g' _ _ _ _ _ hc hrefused hstate hids =>
    refine ⟨g', rfl, ?_⟩
    rcases hids with ⟨hids, -⟩ | ⟨-, hids, -⟩ <;> rw [hids]
    · exact hid
    · exact List.mem_append_left _ hid
  | @shortened _ _ r producer b chunk hc hget hres hpending htag hlast hseq ho =>
    have hmem : id ∈ g.batchIds.dropLast := by
      rw [← List.dropLast_append_getLast? _ hlast] at hid
      rcases List.mem_append.1 hid with hid | hid
      · exact hid
      · exact absurd (List.mem_singleton.1 hid).symm (hfail r producer hc)
    rcases ho with ⟨-, hnil⟩ | ⟨g', rfl, -, hids, -⟩
    · rw [hnil] at hmem
      cases hmem
    · exact ⟨g', rfl, hids ▸ hmem⟩
  | decided => exact ⟨_, rfl, hid⟩
  | @forgotten _ key hc hkey hlast =>
    -- the last chunk is below the new log start, and the others are below the last one
    cases hlast' : g.batchIds.getLast? with
    | none => rw [List.getLast?_eq_none_iff.1 hlast'] at hid; cases hid
    | some last =>
      have hbelow := hlast last hlast'
      have hle : id ≤ last := by
        have hpair := hbook.increasing
        rw [← List.dropLast_append_getLast? _ hlast'] at hid hpair
        rcases List.mem_append.1 hid with hid | hid
        · exact ((List.pairwise_append.1 hpair).2.2 id hid last (List.mem_singleton_self _)).le
        · exact (List.mem_singleton.1 hid).le
      omega

/-- An accepted registration lists its batch. -/
theorem listed_of_register {X : PartitionState} {bytes : Nat}
    (htaken : ¬ X.RefusesChunk (some identity) bytes r.recordCount) :
    ∃ g, (registerNamedChunk X (some identity) r bytes).2.atomicGroups.get identity.transactionId =
      some g ∧ r.batchId ∈ g.batchIds := by
  have haccepts : ¬ (groupEntry X identity.transactionId).Refuses identity.chunkSequence bytes
      r.recordCount.get := fun h ↦ htaken ⟨identity, rfl, h⟩
  simp only [AtomicGroupRuntime.Refuses, not_or, not_not, Nat.not_le] at haccepts
  obtain ⟨hopen, hseq, hsum, hrecords, hroom⟩ := haccepts
  have hreg : registerAtomicChunk X identity r bytes = (.ok (), _) :=
    registerAtomicChunk_eq_ok hopen hseq hsum hrecords hroom
  rw [registerNamedChunk, hreg]
  exact ⟨_, Table.get_insert_self .., List.mem_append_right _ (List.mem_singleton_self _)⟩

/-- **Chunks stay listed** under a command that respects the groups. -/
theorem Outcome.chunksListed (h : Outcome st answer c eff) (hs : st.Sound)
    (hbooks : ∀ txn g, st.atomicGroups.get txn = some g → st.Books txn g)
    (hkeeps : c.KeepsGroups st) (hlisted : st.ChunksListed) : eff.state.ChunksListed := by
  have hl := hs.layout
  intro id b' txn i hb' htag' hstatus'
  -- a batch that was pending or undecided before
  have hold : ∀ b, st.batches.get id = some b → b.atomicGroup = some ⟨txn, i⟩ →
      b.status = .pending ∨ b.status = .unresolved →
      (∀ r producer, c = .fail r producer true → r.batchId ≠ id) →
      ∃ g, eff.state.atomicGroups.get txn = some g ∧ id ∈ g.batchIds := by
    intro b hb htag hstatus hfail
    obtain ⟨g, hg, hid⟩ := hlisted id b txn i hb htag hstatus
    have hstep := h.groupStep hs txn
    rw [hg] at hstep
    exact hstep.listed (hbooks txn g hg).toBookkept hid hfail (lt_nextKey_of_get hb').1
  -- a command that neither allocates nor reopens a batch
  have hkept : eff.state.sequencer.nextBatchId = st.sequencer.nextBatchId → c.reopens st = none →
      (∀ r producer, c = .fail r producer true → r.batchId ≠ id) →
      ∃ g, eff.state.atomicGroups.get txn = some g ∧ id ∈ g.batchIds := by
    intro hnext hreopens hfail
    rw [(h.core_effect.sound hs).layout.nextBatchId, hl.nextBatchId] at hnext
    have hstep := h.keyStep hs id
    rw [hb'] at hstep
    generalize hb : st.batches.get id = o at hstep
    cases hstep with
    | born hkey => exact absurd (hkey.trans hnext.symm) (lt_nextKey_of_get hb').2.ne
    | kept hsame hstatus =>
      exact hold _ hb (hsame.atomicGroup ▸ htag') (hstatus ▸ hstatus') hfail
    | completed _ _ hsame hpending =>
      exact hold _ hb (hsame.atomicGroup ▸ htag') (.inl hpending) hfail
    | failed _ _ _ _ haborted => simp [haborted] at hstatus'
    | @decided _ _ _ outcome _ _ _ _ hout _ _ _ _ hdecided =>
      rw [hdecided] at hstatus'
      cases outcome with
      | unresolved => exact absurd rfl hout
      | committed | aborted => simp [AtomicGroupState.batchStatus] at hstatus'
    | reopened _ _ hsome => rw [hreopens] at hsome; cases hsome
  cases h with
  | quiet | reconfigured | policyUpdated => exact hlisted id b' txn i hb' htag' hstatus'
  | @allocated _ p hvalid hsettles =>
    have hget : (st.batches.snoc p.batch).get id = some b' := hb'
    rw [get_snoc] at hget
    split_ifs at hget with hkey
    · cases hget
      rcases hvalid.groups with ⟨hnone, -⟩ | ⟨identity, hid, -, -, -, -, -, -, hgroups⟩
      · exact absurd (hnone.symm.trans htag') (by simp)
      · obtain rfl : identity = ⟨txn, i⟩ := some.inj (hid.symm.trans htag')
        refine ⟨_, by rw [hgroups]; exact Table.get_insert_self .., ?_⟩
        rw [hkey, ← hvalid.batchId]
        exact List.mem_append_right _ (List.mem_singleton_self _)
    · refine hold b' hget htag' hstatus' fun r producer hc ↦ ?_
      rw [hc] at hsettles
      cases hsettles
  | @appended r producer group bytes digest reserved producers hpasses hproducers =>
    have hafter := hb'
    rw [registerNamedChunk_snd] at hafter
    change (st.batches.snoc (pendingBatch r producer group bytes digest)).get id = some b' at hafter
    rw [get_snoc] at hafter
    split_ifs at hafter with hkey
    · cases hafter
      have hid : r.batchId = id := (hpasses.batchId hl.nextBatchId).trans hkey.symm
      obtain rfl : group = some ⟨txn, i⟩ := htag'
      rw [← hid]
      exact listed_of_register fun hrefused ↦ hkeeps.1 (.inr ⟨hpasses, .inr hrefused⟩)
    · exact hold b' hafter htag' hstatus' (by simp)
  | @retried r producer group bytes digest b hget hstatus hmatch =>
    have hafter := hb'
    rw [registerNamedChunk_snd] at hafter
    change (st.reopen r.batchId producer digest).batches.get id = some b' at hafter
    by_cases hid : id = r.batchId
    · subst hid
      rw [get_reopen hget producer digest] at hafter
      cases hafter
      obtain rfl : group = some ⟨txn, i⟩ := (BatchRuntime.matchesReplica_iff.1 hmatch).2.2.1 ▸ htag'
      exact listed_of_register fun hrefused ↦
        hkeeps.1 (.inl ⟨b, hget, hstatus, hmatch, hrefused⟩)
    · change (st.batches.modify r.batchId _).get id = some b' at hafter
      rw [get_modify, if_neg hid] at hafter
      exact hold b' hafter htag' hstatus' (by simp)
  | @refusedRetry r producer group bytes digest b e hget hstatus hmatch hreg =>
    exact absurd (refusesLate_of_reopened hget hstatus hmatch hreg) hkeeps.1
  | @frozen r producer =>
    cases producer <;> exact hlisted id b' txn i hb' htag' hstatus'
  | @failed r producer b hget =>
    by_cases hid : id = r.batchId
    · -- the batch that failed is aborted
      subst hid
      rw [rollbackAtomicChunk_snd] at hb'
      cases (get_markedBatch_freezeProducer hget producer).symm.trans hb'
      simp at hstatus'
    · refine hkept ?_ rfl fun r' producer' hc ↦ ?_
      · rw [rollbackAtomicChunk_snd]
        cases producer <;> rfl
      · cases hc
        exact Ne.symm hid
  | completed | acknowledged | decided | truncated => exact hkept rfl rfl (by simp)

/-- The chunks of a recovered partition are listed. -/
theorem Recovered.listed {ctx : RecoveryContext} {E : List ExtentCatalogEntry}
    (h : Recovered ctx E st) {i : Nat} (hb : st.batches.get id = some b)
    (htag : b.atomicGroup = some ⟨txn, i⟩) :
    ∃ g, st.atomicGroups.get txn = some g ∧ id ∈ g.batchIds := by
  rcases h.get_cases hb with ⟨x, hx, rfl, rfl⟩ | ⟨hplaceholder, -⟩
  · have hin : x.inGroup txn = true := by
      obtain ⟨gs, hgs, hidentity⟩ := map_eq_some_iff.1 htag
      simp only [ExtentCatalogEntry.inGroup, hgs]
      exact decide_eq_true (congrArg (·.transactionId) hidentity)
    have hmem : x ∈ chunksOf E txn := List.mem_filter.2 ⟨hx, hin⟩
    refine ⟨_, by rw [h.groups, if_neg (List.ne_nil_of_mem hmem)], ?_⟩
    exact List.mem_map.2 ⟨x, hmem, rfl⟩
  · rw [hplaceholder] at htag
    cases htag

end Listed

/-! ### Failures -/

section Failures

variable {producer : Option ProducerIdentity}

/-- Freezing a producer changes nothing exactly when it has no cursor or is frozen already. -/
theorem freezeProducer_eq_self_iff : st.freezeProducer producer = st ↔
    ∀ p ∈ producer, ∀ cursor, st.producers.get p.producerId = some cursor →
      cursor.failed = true := by
  cases producer with
  | none => simp [PartitionState.freezeProducer]
  | some p =>
    simp only [mem_some_iff, forall_eq']
    constructor
    · intro h cursor hcursor
      have hget :
          (st.producers.modify p.producerId fun c ↦ { c with failed := true }).get p.producerId =
          st.producers.get p.producerId := congrArg (fun st ↦ st.producers.get p.producerId) h
      rw [Table.get_modify_self, hcursor] at hget
      rw [← some.inj hget]
    · intro h
      have htable : (st.producers.modify p.producerId fun c ↦ { c with failed := true }) =
          st.producers := by
        refine Table.ext fun k ↦ ?_
        rw [Table.get_modify]
        split_ifs with hk
        · subst hk
          cases hcursor : st.producers.get p.producerId with
          | none => rfl
          | some cursor =>
            rw [map_some, ← h cursor hcursor]
        · rfl
      rw [PartitionState.freezeProducer, htable]

/-- What `fail` does for a batch that is pending under its reservation. -/
theorem fail_of_pending (hget : st.batches.get r.batchId = some b) (hres : b.reservation = r)
    (hstatus : b.status = .pending) : fail st r producer true =
      rollbackAtomicChunk ((st.freezeProducer producer).markedBatch r.batchId .aborted 0) r := by
  have hbatch : (st.freezeProducer producer).batches.get r.batchId = some b := by
    cases producer <;> exact hget
  have hmark : markBatch (st.freezeProducer producer) r .aborted 0 =
      .ok (_, (st.freezeProducer producer).markedBatch r.batchId .aborted 0) :=
    markBatch_eq_ok_iff.2 ⟨b, hbatch, hres, hstatus, rfl, rfl⟩
  simp only [fail, if_true, hmark]

/-- A failure of a batch that is not pending is refused, with the producer frozen. -/
theorem fail_of_not_pending
    (h : ∀ b, st.batches.get r.batchId = some b → b.reservation = r → b.status ≠ .pending) :
    ∃ e, fail st r producer true = (.error e, st.freezeProducer producer) := by
  cases hmark : markBatch (st.freezeProducer producer) r .aborted 0 with
  | error e => exact ⟨e, by simp only [fail, if_true, hmark]⟩
  | ok res =>
    obtain ⟨b, hget, hres, hstatus, -⟩ := markBatch_eq_ok_iff.1 hmark
    rw [toPartitionCore_freezeProducer] at hget
    exact absurd hstatus (h b hget hres)

/-- A failure whose chunk is not the last one is refused after the batch was aborted. -/
theorem fail_of_not_last (hget : st.batches.get r.batchId = some b) (hres : b.reservation = r)
    (hstatus : b.status = .pending) (htag : b.atomicGroup = some identity)
    (hlast : ¬ ∃ g, st.atomicGroups.get identity.transactionId = some g ∧
      g.batchIds.getLast? = some r.batchId) :
    (∃ e, (fail st r producer true).1 = .error e) ∧ (fail st r producer true).2 ≠ st := by
  rw [fail_of_pending hget hres hstatus]
  set X := (st.freezeProducer producer).markedBatch r.batchId .aborted 0 with hX
  have hmarked : X.batches.get r.batchId = some (b.marked .aborted 0) :=
    get_markedBatch_freezeProducer hget producer
  have hgroups : X.atomicGroups = st.atomicGroups := by cases producer <;> rfl
  have hgroup : (b.marked .aborted 0).atomicGroup = some identity := htag
  have hroll : ∃ e, rollbackAtomicChunk X r = (.error e, X) := by
    simp only [rollbackAtomicChunk, hmarked, hgroup, hgroups]
    cases hentry : st.atomicGroups.get identity.transactionId with
    | none => exact ⟨_, rfl⟩
    | some g =>
      simp only
      rw [if_pos (.inl fun h ↦ hlast ⟨g, hentry, h⟩)]
      exact ⟨_, rfl⟩
  obtain ⟨e, hroll⟩ := hroll
  rw [hroll]
  refine ⟨⟨e, rfl⟩, fun h ↦ ?_⟩
  -- the batch is aborted now
  rw [show X = st from h, hget] at hmarked
  rw [some.inj hmarked] at hstatus
  simp at hstatus

/-- **Failures that return an error leave the partition as it was** exactly when they are clean. -/
theorem fail_unchanged_iff (hl : st.Layout)
    (hbooks : ∀ txn g, st.atomicGroups.get txn = some g → st.Books txn g) (r : Reservation)
    (producer : Option ProducerIdentity) :
    ((∃ e, (fail st r producer true).1 = .error e) → (fail st r producer true).2 = st) ↔
      st.FailsCleanly r producer := by
  by_cases hpending : ∃ b, st.batches.get r.batchId = some b ∧ b.reservation = r ∧
    b.status = .pending
  · obtain ⟨b, hget, hres, hstatus⟩ := hpending
    have hclean : st.FailsCleanly r producer ↔ ∀ identity ∈ b.atomicGroup,
        ∃ g, st.atomicGroups.get identity.transactionId = some g ∧
          g.batchIds.getLast? = some r.batchId := by
      constructor
      · exact fun h ↦ h.1 b hget hres hstatus
      · refine fun h ↦ ⟨fun b' hget' _ _ ↦ ?_, fun hnot ↦ absurd hstatus (hnot b hget hres)⟩
        rw [hget] at hget'
        cases hget'
        exact h
    rw [hclean]
    constructor
    · intro h identity htag
      by_contra hlast
      obtain ⟨herror, hne⟩ := fail_of_not_last hget hres hstatus htag hlast
      exact hne (h herror)
    · rintro h ⟨e, herror⟩
      exfalso
      rw [fail_of_pending hget hres hstatus] at herror
      cases htag : b.atomicGroup with
      | none =>
        have hnone : (b.marked .aborted 0).atomicGroup = none := htag
        simp only [rollbackAtomicChunk, get_markedBatch_freezeProducer hget producer, hnone]
          at herror
        cases herror
      | some identity =>
        obtain ⟨g, hentry, hlast⟩ := h identity htag
        rw [rollback_of_failed hl (hbooks _ g hentry).toBookkept hget hres htag hentry hlast
          producer]
          at herror
        cases herror
  · have hnot : ∀ b, st.batches.get r.batchId = some b → b.reservation = r → b.status ≠ .pending :=
      fun b hget hres hstatus ↦ hpending ⟨b, hget, hres, hstatus⟩
    obtain ⟨e, hfail⟩ : ∃ e, fail st r producer true = _ := fail_of_not_pending hnot
    rw [hfail]
    simp only [Except.error.injEq, exists_eq', true_imp_iff, freezeProducer_eq_self_iff]
    exact ⟨fun h ↦ ⟨fun b hget hres hstatus ↦ absurd hstatus (hnot b hget hres), fun _ ↦ h⟩,
      fun h ↦ h.2 hnot⟩

end Failures

/-! ### Decisions -/

section Decisions

variable (hs : st.Sound) (hbooks : ∀ txn g, st.atomicGroups.get txn = some g → st.Books txn g)
  (hlisted : st.ChunksListed)
  (hsettled : ∀ id b, st.batches.get id = some b → b.ChunkOf txn → b.status ≠ .pending)

include hs hbooks hlisted hsettled

/-- The chunks of a group that is not open hold nothing back, once none is pending. -/
theorem passable_of_settled
    (hclosed : ∀ g, st.atomicGroups.get txn = some g → g.state ≠ .unresolved) :
    st.Passable txn := by
  intro b hb hchunk
  have hblocked := hs.cursors.stable.blocked b hb
  obtain ⟨identity, htag, rfl⟩ := map_eq_some_iff.1 hchunk
  have hunresolved : b.status = .unresolved := by
    have hne := hsettled _ b hb hchunk
    cases hstatus : b.status with
    | pending => exact absurd hstatus hne
    | unresolved => rfl
    | committed | aborted => simp [BatchRuntime.stable, hstatus] at hblocked
  obtain ⟨g, hg, hid⟩ := hlisted _ b _ _ hb htag (.inr hunresolved)
  have hdecided := (hbooks _ g hg).decided (hclosed g hg) _ hid b hb
  rw [hunresolved] at hdecided
  cases hstate : g.state with
  | unresolved => exact hclosed g hg hstate
  | committed | aborted => simp [hstate, AtomicGroupState.batchStatus] at hdecided

/-- **An open group without pending chunks can be aborted**, and its chunks hold nothing back
then. -/
theorem abort_of_settled (hg : st.atomicGroups.get txn = some g) (hopen : g.state = .unresolved)
    (tp : TopicPartition) :
    (finalizeAtomicGroup st (.ok ()) tp txn .aborted).state.finalizedGroups.get txn =
      some .aborted ∧ (finalizeAtomicGroup st (.ok ()) tp txn .aborted).state.Passable txn := by
  have hbook := hbooks txn g hg
  have hchunks : ∀ id ∈ g.batchIds, ∃ b, st.batches.get id = some b ∧ b.status = .unresolved ∧
      (AtomicGroupState.aborted = .committed →
        st.replicationPolicy.minInSyncReplicas ≤ b.durableReplicas) := by
    intro id hid
    obtain ⟨b, i, hb, htag⟩ := hbook.exists_of_mem hid
    refine ⟨b, hb, ?_, fun h ↦ by cases h⟩
    have hchunk : b.ChunkOf txn := by simp [BatchRuntime.ChunkOf, htag]
    cases hstatus : b.status with
    | pending => exact absurd hstatus (hsettled id b hb hchunk)
    | unresolved => rfl
    | committed => exact absurd hstatus (hbook.uncommitted hopen id hid b hb)
    | aborted => exact absurd hstatus (hbook.opened hopen id hid b hb)
  have hstate : (finalizeAtomicGroup st (.ok ()) tp txn .aborted).state =
      st.decideGroup txn g .aborted := by
    simp only [finalizeAtomicGroup, hg, hopen, checkFinalizable_eq_ok_iff.2 hchunks]
    rfl
  have hout : Outcome st (.ok ()) (.finalizeAtomicGroup txn .aborted)
      ⟨st.decideGroup txn g .aborted, none, _⟩ :=
    .decided rfl hg hopen (by simp) hchunks
  rw [hstate]
  refine ⟨Table.get_insert_self .., ?_⟩
  refine passable_of_settled (hout.core_effect.sound hs)
    (fun txn g hg ↦ hout.books hs hbooks trivial hg) (hout.chunksListed hs hbooks trivial hlisted)
    (fun id b' hb' hchunk' hpending ↦ ?_) fun g' hg' ↦ ?_
  · -- the decision makes no batch pending
    change (setStatuses st.batches _ g.batchIds).get id = some b' at hb'
    rw [get_setStatuses] at hb'
    split_ifs at hb' with hid
    · obtain ⟨b, -, rfl⟩ := map_eq_some_iff.1 hb'
      cases hpending
    · exact hsettled id b' hb' hchunk' hpending
  · change (st.atomicGroups.insert txn _).get txn = some g' at hg'
    rw [Table.get_insert_self] at hg'
    cases hg'
    simp

end Decisions

theorem CommandRun.listed {config : EngineConfig} {start : PartitionState}
    (hrun : CommandRun (fun st c ↦ c.KeepsGroups st) start st)
    (hstart : PartitionStart config start) : st.ChunksListed := by
  induction hrun with
  | refl =>
    cases hstart with
    | created =>
      intro id b txn i hb
      simp [PartitionState.empty] at hb
    | recovered he hrec hst =>
      obtain ⟨s, st₀, -, -, -, hr⟩ := he.recovered hrec hst
      exact fun id b txn i hb htag _ ↦ hr.listed hb htag
  | @tail mid _ hmid hstep ih =>
    obtain ⟨answer, c, hkeeps, rfl⟩ := hstep
    have hrun' : CommandRun (fun st c ↦ c.KeepsGroups st) start mid := hmid
    obtain ⟨hs, hbooks⟩ := hrun'.books hstart
    exact (c.outcome hs answer).chunksListed hs hbooks hkeeps ih

/-- **Failed chunks do not wedge their group**, in every state that commands which respect the
groups reach: once no chunk of a transaction is pending, its group, if it is open, is aborted by a
decision, and no chunk of the transaction holds the stable offset back then; and a failure that
returns an error leaves the partition as it was exactly when it is clean. -/
theorem failed_chunks_leave_group_decidable {config : EngineConfig} {start st : PartitionState}
    (hstart : PartitionStart config start)
    (hrun : CommandRun (fun st c ↦ c.KeepsGroups st) start st) :
    (∀ txn, (∀ id b, st.batches.get id = some b → b.ChunkOf txn → b.status ≠ .pending) →
      (∀ g tp, st.atomicGroups.get txn = some g → g.state = .unresolved →
        (finalizeAtomicGroup st (.ok ()) tp txn .aborted).state.finalizedGroups.get txn =
          some .aborted ∧ (finalizeAtomicGroup st (.ok ()) tp txn .aborted).state.Passable txn) ∧
      ((∀ g, st.atomicGroups.get txn = some g → g.state ≠ .unresolved) → st.Passable txn)) ∧
    ∀ r producer,
      ((∃ e, (fail st r producer true).1 = .error e) → (fail st r producer true).2 = st) ↔
      st.FailsCleanly r producer := by
  obtain ⟨hs, hbooks⟩ := hrun.books hstart
  have hlisted := hrun.listed hstart
  refine ⟨fun txn hsettled ↦ ⟨fun g tp hg hopen ↦ ?_, fun hclosed ↦ ?_⟩, fun r producer ↦ ?_⟩
  · exact abort_of_settled hs hbooks hlisted hsettled hg hopen tp
  · exact passable_of_settled hs hbooks hlisted hsettled hclosed
  · exact fail_unchanged_iff hs.layout hbooks r producer

/-! ### Two chunks in the pipeline -/

/-- The second chunk has failed, and the first one is completed. -/
def firstCompleted : PartitionState :=
  (completeFirst.run secondFailed (.ok ())).state

/-- The group is aborted after its last chunk failed. -/
theorem aborted_after_last_failed :
    (finalizeAtomicGroup firstCompleted (.ok ()) ⟨0, 0⟩ 7 .aborted).state.finalizedGroups.get 7 =
        some .aborted ∧
      (finalizeAtomicGroup firstCompleted (.ok ()) ⟨0, 0⟩ 7 .aborted).state.Passable 7 := by
  have hsettled : (firstCompleted.batches.values.all (·.status != .pending)) = true ∧
      (firstCompleted.atomicGroups.get 7).any (·.state == .unresolved) = true := by decide +kernel
  simp only [List.all_eq_true, bne_iff_ne, any_eq_true, beq_iff_eq] at hsettled
  obtain ⟨hsettled, g, hg, hopen⟩ := hsettled
  have hrun : CommandRun (fun st c ↦ c.KeepsGroups st) oneLane firstCompleted :=
    secondFailed_run.tail ⟨.ok (), completeFirst, trivial, rfl⟩
  obtain ⟨hgroups, -⟩ := failed_chunks_leave_group_decidable oneLane_created hrun
  refine (hgroups 7 fun id b hb _ ↦ ?_).1 g ⟨0, 0⟩ hg hopen
  exact hsettled b (mem_values_of_get hb)

/-- **The first chunk of a pipeline fails first.** The report is refused and has changed the
partition; and once the second chunk is complete no decision and no retry of a chunk changes
anything. -/
theorem failed_first_chunk_wedges_group :
    (∃ e st r error, EngineReachable ⟨1, 1, 1⟩ .any e ∧ e.states.get ⟨0, 0⟩ = some st ∧
      (fail st r none true).1 = .error error ∧ (fail st r none true).2 ≠ st) ∧
    ∃ e st g, EngineReachable ⟨1, 1, 1⟩ .any e ∧ e.states.get ⟨0, 0⟩ = some st ∧
      st.atomicGroups.get 7 = some g ∧ g.state = .unresolved ∧
      (∀ id b, st.batches.get id = some b → b.status ≠ .pending) ∧
      (∀ journal tp outcome, (finalizeAtomicGroup st journal tp 7 outcome).state = st) ∧
      ∀ intent chunk, intent.atomicGroup = some ⟨7, chunk⟩ → chunk < g.nextSequence →
        (reserve st intent).2 = st := by
  constructor
  · obtain ⟨e, st, he, hst, h⟩ := Engine.exists_of_play ⟨1, 1, 1⟩ (failedFirstChunk.take 3) ⟨0, 0⟩
      (fun _ st ↦ ∃ b, st.batches.get 0 = some b ∧ b.status = .pending ∧ b.reservation.batchId = 0 ∧
        b.atomicGroup = some ⟨7, 0⟩ ∧ ∀ g ∈ st.atomicGroups.get 7, g.batchIds.getLast? = some 1)
      Guard.any_implies (by decide +kernel)
    obtain ⟨b, hb, hpending, hid, htag, hlast⟩ := h
    rw [← hid] at hb
    have hnot : ¬ ∃ g, st.atomicGroups.get 7 = some g ∧
        g.batchIds.getLast? = some b.reservation.batchId := by
      rintro ⟨g, hg, hlast'⟩
      rw [hlast g hg, hid] at hlast'
      cases hlast'
    obtain ⟨⟨error, herror⟩, hne⟩ : (∃ e, (fail st b.reservation none true).1 = .error e) ∧ _ :=
      fail_of_not_last hb rfl hpending htag hnot
    exact ⟨e, st, _, error, he, hst, herror, hne⟩
  · obtain ⟨e, st, he, hst, h⟩ := Engine.exists_of_play ⟨1, 1, 1⟩
      (failedFirstChunk ++ [.write ⟨0, 0⟩ 1, .complete ⟨0, 0⟩ 1]) ⟨0, 0⟩
      (fun _ st ↦ ∃ g, st.atomicGroups.get 7 = some g ∧ g.state = .unresolved ∧
        g.batchIds = [0, 1] ∧
        g.nextSequence = 2 ∧ (∃ b, st.batches.get 0 = some b ∧ b.status = .aborted) ∧
        ∀ b ∈ st.batches.values, b.status ≠ .pending)
      Guard.any_implies (by decide +kernel)
    obtain ⟨g, hg, hopen, hids, hnext, ⟨b, hb, haborted⟩, hsettled⟩ := h
    refine ⟨e, st, g, he, hst, hg, hopen,
      fun id b hb ↦ hsettled b (mem_values_of_get hb), fun journal tp outcome ↦ ?_,
      fun intent chunk hintent hchunk ↦ ?_⟩
    · -- a decision asks for chunks that are all undecided
      rcases finalizeAtomicGroup_cases st journal tp 7 outcome with ⟨h, -⟩ |
        ⟨g', hg', -, -, hcheck, -⟩
      · exact h
      · rw [hg] at hg'
        cases hg'
        obtain ⟨b', hb', hstatus, -⟩ := checkFinalizable_eq_ok_iff.1 hcheck 0 (by simp [hids])
        rw [hb] at hb'
        cases hb'
        simp [haborted] at hstatus
    · -- only the next chunk is new
      rcases reserve_cases st intent with ⟨h, -⟩ | ⟨p, hp, hvalid, -⟩
      · exact h
      · rcases hvalid.groups with ⟨hnone, -⟩ | ⟨identity, hsome, -, -, hseq, -⟩
        · rw [hp] at hnone
          exact absurd (hintent.symm.trans hnone) (by simp)
        · rw [hp] at hsome
          obtain rfl : identity = ⟨7, chunk⟩ := some.inj (hsome.symm.trans hintent)
          rw [groupEntry, hg] at hseq
          exact absurd hseq hchunk.ne

end ShardStream
