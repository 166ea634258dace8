import ShardStream.Engine.Evolution

/-!
# What a command does to one atomic group

The companion of `KeyStep` for the group table: `GroupStep` lists what can happen to the entry of
one transaction. A group is **extended** by a pending chunk with its next sequence number,
**refused** a chunk by a replica reservation (which can leave a fresh or half-updated entry behind),
**shortened** by the definite failure of its last chunk, **decided**, or **forgotten** by retention.

In every state reached, the batches a group lists carry its transaction id (`Tagged`).
-/

namespace ShardStream

open PartitionCore DenseOrderedMap Table

variable {st : PartitionState} {identity : AtomicGroupIdentity} {bytes : Nat} {digest : Digest}
  {answer : Except EngineError Unit} {c : Command} {eff : Effect}

/-- The snapshot of an absent group is the snapshot of a new one. -/
theorem snapshotBefore_getD {intent : AppendIntent} (h : intent.atomicGroup = some identity) :
    (snapshotBefore st intent).getD ⟨.unresolved, 0, 0, 0, 0, none⟩ =
      .fromGroup (groupEntry st identity.transactionId) := by
  simp only [snapshotBefore, h, Option.bind_some, groupEntry]
  cases st.atomicGroups.get identity.transactionId <;> rfl

/-- The group an allocation extends, and by what. -/
theorem PreparedAppend.Valid.groups {p : PreparedAppend} (h : p.Valid st) :
    (p.intent.atomicGroup = none ∧ (st.allocated p).atomicGroups = st.atomicGroups) ∨
      ∃ identity, p.intent.atomicGroup = some identity ∧
        st.finalizedGroups.get identity.transactionId = none ∧
        (groupEntry st identity.transactionId).state = .unresolved ∧
        identity.chunkSequence = (groupEntry st identity.transactionId).nextSequence ∧
        (groupEntry st identity.transactionId).payloadBytes + p.intent.payloadBytes < 2 ^ 64 ∧
        (groupEntry st identity.transactionId).recordCount + p.intent.recordCount.get < 2 ^ 64 ∧
        (groupEntry st identity.transactionId).nextSequence + 1 < 2 ^ 64 ∧
        (st.allocated p).atomicGroups = st.atomicGroups.insert identity.transactionId
          ((groupEntry st identity.transactionId).withChunk p.proposal.reservation.batchId
            p.intent.payloadBytes p.intent.recordCount.get) := by
  cases hgroup : p.intent.atomicGroup with
  | none =>
    refine .inl ⟨rfl, ?_⟩
    simp only [PartitionState.allocated, installPrepared, hgroup]
  | some identity =>
    right
    have hcheck : checkAtomicGroup st p.intent.requestId identity p.intent.recordCount
        p.intent.payloadBytes p.intent.payloadDigest = .ok none :=
      (duplicate_eq_none_iff.1 h.notDuplicate).2 identity hgroup
    obtain ⟨hfin, hstate, hseq⟩ := checkAtomicGroup_eq_none_iff.1 hcheck
    have hafter := h.atomicAfter
    simp only [snapshotAfter, hgroup, snapshotBefore_getD hgroup] at hafter
    split_ifs at hafter with h₁ h₂ h₃ h₄
    have hafter := (Except.ok.inj hafter).symm
    refine ⟨identity, rfl, hfin, hstate, hseq, h₂, h₃, h₁, ?_⟩
    simp only [PartitionState.allocated, installPrepared, hgroup, hafter]
    rfl

/-- What a command can do to the entry of `txn`. -/
inductive GroupStep (st : PartitionState) (c : Command) (eff : Effect) (txn : Nat) :
    Option AtomicGroupRuntime → Option AtomicGroupRuntime → Prop
  | kept {o : Option AtomicGroupRuntime} : GroupStep st c eff txn o o
  | extended {o : Option AtomicGroupRuntime} {b : BatchRuntime}
      (hopen : (o.getD .new).state = .unresolved)
      (hget : eff.state.batches.get b.reservation.batchId = some b) (hstatus : b.status = .pending)
      (htag : b.atomicGroup = some ⟨txn, (o.getD .new).nextSequence⟩)
      (hbytes : (o.getD .new).payloadBytes + b.payloadBytes < 2 ^ 64)
      (hrecords : (o.getD .new).recordCount + b.reservation.recordCount.get < 2 ^ 64)
      (hroom : (o.getD .new).nextSequence + 1 < 2 ^ 64)
      (hnew : st.finalizedGroups.get txn = none ∧
          b.reservation.batchId = st.batches.nextKey ∨
        ∃ b₀, st.batches.get b.reservation.batchId = some b₀ ∧ b₀.status = .aborted) :
      GroupStep st c eff txn o (some ((o.getD .new).withChunk b.reservation.batchId
        b.payloadBytes b.reservation.recordCount.get))
  | refused {o : Option AtomicGroupRuntime} {g : AtomicGroupRuntime} {r : Reservation}
      {producer : Option ProducerIdentity} {group : Option AtomicGroupIdentity} {bytes : Nat}
      {digest : Digest} (hc : c = .reserveReplica r producer group bytes digest)
      (hrefused : eff.reserved = none) (hstate : g.state = (o.getD .new).state)
      (hids : g.batchIds = (o.getD .new).batchIds ∧ g.recordCount = (o.getD .new).recordCount ∨
        (o.getD .new).state = .unresolved ∧ g.batchIds = (o.getD .new).batchIds ++ [r.batchId] ∧
          g.recordCount = (o.getD .new).recordCount + r.recordCount.get)
      (hbatch : ∃ b chunk, eff.state.batches.get r.batchId = some b ∧ b.reservation = r ∧
        b.status = .pending ∧ b.atomicGroup = some ⟨txn, chunk⟩) :
      GroupStep st c eff txn o (some g)
  | shortened {g : AtomicGroupRuntime} {o : Option AtomicGroupRuntime} {r : Reservation}
      {producer : Option ProducerIdentity} {b : BatchRuntime} {chunk : Nat}
      (hc : c = .fail r producer true) (hget : st.batches.get r.batchId = some b)
      (hres : b.reservation = r) (hpending : b.status = .pending)
      (htag : b.atomicGroup = some ⟨txn, chunk⟩) (hlast : g.batchIds.getLast? = some r.batchId)
      (hseq : g.nextSequence = min (chunk + 1) (2 ^ 64 - 1))
      (ho : o = none ∧ g.batchIds.dropLast = [] ∨
        ∃ g', o = some g' ∧ g'.state = g.state ∧ g'.batchIds = g.batchIds.dropLast ∧
          g'.nextSequence = chunk ∧ g.recordCount - r.recordCount.get ≤ g'.recordCount ∧
          (b.payloadBytes ≤ g.payloadBytes → r.recordCount.get ≤ g.recordCount →
            g.batchIds.dropLast ≠ [] ∧ g'.payloadBytes = g.payloadBytes - b.payloadBytes ∧
              g'.recordCount = g.recordCount - r.recordCount.get)) :
      GroupStep st c eff txn (some g) o
  | decided {g : AtomicGroupRuntime} {outcome : AtomicGroupState}
      (hc : c = .finalizeAtomicGroup txn outcome) (hopen : g.state = .unresolved)
      (hout : outcome ≠ .unresolved)
      (hchunks : ∀ id ∈ g.batchIds, ∃ b, st.batches.get id = some b ∧ b.status = .unresolved)
      (hstatus : ∀ id ∈ g.batchIds, ∀ b, eff.state.batches.get id = some b →
        b.status = outcome.batchStatus) :
      GroupStep st c eff txn (some g) (some { g with state := outcome })
  | forgotten {g : AtomicGroupRuntime} {key : Nat} (hc : c = .truncate (st.offsetAt key))
      (hkey : eff.state.batches.firstKey = key)
      (hlast : ∀ id ∈ g.batchIds.getLast?, id < key) :
      GroupStep st c eff txn (some g) none

section GroupSteps

/-- A chunk registration made for the pending batch `b`, seen from every transaction. -/
theorem GroupStep.of_register {X : PartitionState} {r : Reservation}
    {producer : Option ProducerIdentity} {group : Option AtomicGroupIdentity} {b : BatchRuntime}
    (txn : Nat) (hc : c = .reserveReplica r producer group bytes digest)
    (hX : X.atomicGroups = st.atomicGroups)
    (heff : eff.state.atomicGroups = (registerNamedChunk X group r bytes).2.atomicGroups)
    (hget : eff.state.batches.get r.batchId = some b) (hstatus : b.status = .pending)
    (hres : b.reservation = r) (htag : b.atomicGroup = group) (hbytes : b.payloadBytes = bytes)
    (hreserved : eff.reserved = none ∨ (registerNamedChunk X group r bytes).1 = .ok ())
    (hnew : (∀ g ∈ group, st.finalizedGroups.get g.transactionId = none) ∧
        r.batchId = st.batches.nextKey ∨
      ∃ b₀, st.batches.get r.batchId = some b₀ ∧ b₀.status = .aborted) :
    GroupStep st c eff txn (st.atomicGroups.get txn) (eff.state.atomicGroups.get txn) := by
  cases group with
  | none =>
    have : eff.state.atomicGroups = st.atomicGroups := heff.trans hX
    rw [this]
    exact .kept
  | some identity =>
    obtain ⟨g', hg', hcase⟩ := registerAtomicChunk_spec X identity r bytes
    simp only [registerNamedChunk] at heff hreserved
    rw [hg'] at heff
    rw [heff, hX, get_insert]
    by_cases htxn : txn = identity.transactionId
    · subst htxn
      have hentry : groupEntry X identity.transactionId =
          (st.atomicGroups.get identity.transactionId).getD .new := by rw [groupEntry, hX]
      simp only [hentry] at hcase
      rw [if_pos rfl]
      rcases hcase with ⟨-, hopen, hseq, hsum, hcount, hroom, rfl⟩ | ⟨⟨e, herr⟩, hstate, hids⟩
      · subst hres hbytes
        refine .extended hopen hget hstatus ?_ hsum hcount hroom ?_
        · rw [htag, ← hseq]
        · exact hnew.imp_left fun h ↦ ⟨h.1 identity rfl, h.2⟩
      · have hnone : eff.reserved = none := by
          rcases hreserved with h | h
          · exact h
          · rw [herr] at h; cases h
        exact .refused hc hnone hstate hids ⟨b, _, hget, hres, hstatus, htag⟩
    · rw [if_neg htxn]
      exact .kept

/-- **The entry of a transaction**, before and after a command. -/
theorem Outcome.groupStep (h : Outcome st answer c eff) (hs : st.Sound) (txn : Nat) :
    GroupStep st c eff txn (st.atomicGroups.get txn) (eff.state.atomicGroups.get txn) := by
  obtain ⟨hl, hcur⟩ := hs
  cases h with
  | quiet => exact .kept
  | @allocated _ p hvalid =>
    rcases hvalid.groups with ⟨-, h⟩ | ⟨identity, hid, hfin, hopen, hseq, hsum, hcount, hroom, h⟩
    · simp only [h]
      exact .kept
    · simp only [h, get_insert]
      by_cases htxn : txn = identity.transactionId
      · subst htxn
        rw [if_pos rfl]
        rw [groupEntry] at hopen hseq hsum hcount hroom ⊢
        rw [← hvalid.recordCount] at hcount ⊢
        refine .extended (b := p.batch) hopen hvalid.get_allocated rfl ?_ hsum hcount hroom
          (.inl ⟨hfin, hvalid.batchId⟩)
        change p.intent.atomicGroup = _
        rw [hid, ← hseq]
      · rw [if_neg htxn]
        exact .kept
  | @appended r producer group bytes digest reserved producers hpasses hproducers hreserved =>
    have hid := hpasses.batchId hl.nextBatchId
    refine .of_register (X := st.replicaAppended producers (pendingBatch r producer group bytes
      digest)) (b := pendingBatch r producer group bytes digest) txn rfl rfl rfl ?_ rfl rfl rfl rfl
      (hreserved.imp_right And.right) (.inl ⟨fun g hg ↦ ?_, hid⟩)
    · rw [registerNamedChunk_snd]
      change (st.batches.snoc _).get _ = _
      rw [get_snoc, if_pos hid]
    · exact (hpasses.chunk g hg).1
  | @retried r producer group bytes digest b hget hstatus hmatch hreg
  | @refusedRetry r producer group bytes digest b e hget hstatus hmatch hreg =>
    obtain ⟨hres, hprod, htag, hbytes, -⟩ := BatchRuntime.matchesReplica_iff.1 hmatch
    refine .of_register (X := st.reopen r.batchId producer digest)
      (b := { b with status := .pending, payloadDigest := some digest }) txn rfl rfl rfl ?_ rfl
      hres htag hbytes (by first | exact .inr hreg | exact .inl rfl) (.inr ⟨b, hget, hstatus⟩)
    rw [registerNamedChunk_snd]
    exact get_reopen hget producer digest
  | completed | acknowledged => exact .kept
  | @frozen r producer =>
    have : (st.freezeProducer producer).atomicGroups = st.atomicGroups := by cases producer <;> rfl
    simp only [this]
    exact .kept
  | @failed r producer b hget hres hstatus =>
    set X := (st.freezeProducer producer).markedBatch r.batchId .aborted 0 with hX
    have hgroups : X.atomicGroups = st.atomicGroups := by cases producer <;> rfl
    have hbatch : X.batches.get r.batchId = some (b.marked .aborted 0) :=
      get_markedBatch_freezeProducer hget producer
    rcases rollbackAtomicChunk_spec X r with
      h | ⟨b', identity, g, hget', htag, hentry, hlast, hseq, hcase⟩
    · simp only [h, hgroups]
      exact .kept
    · rw [hbatch] at hget'
      cases hget'
      -- only the entry of the chunk's own group changes
      by_cases htxn : txn = identity.transactionId
      · subst htxn
        rw [hgroups] at hentry
        rcases hcase with ⟨hempty, h⟩ | ⟨g', h, hstate, hids, hnext, hcount, hcounters⟩
        · simp only [h, hentry, get_erase_self]
          exact .shortened rfl hget hres hstatus htag hlast hseq (.inl ⟨rfl, hempty⟩)
        · simp only [h, hentry, get_insert_self]
          exact .shortened rfl hget hres hstatus htag hlast hseq
            (.inr ⟨g', rfl, hstate, hids, hnext, hcount, hcounters⟩)
      · rcases hcase with ⟨hempty, h⟩ | ⟨g', h, -⟩
        · simp only [h, hgroups, get_erase_of_ne _ htxn]
          exact .kept
        · simp only [h, hgroups, get_insert_of_ne _ _ htxn]
          exact .kept
  | @decided txn' outcome g hanswer hget hopen hout hchunks =>
    change GroupStep st _ _ txn _
      ((st.atomicGroups.insert txn' { g with state := outcome }).get txn)
    rw [get_insert]
    by_cases htxn : txn = txn'
    · subst htxn
      rw [if_pos rfl, hget]
      refine .decided rfl hopen hout (fun id hid ↦ ?_) fun id hid b hb ↦ ?_
      · obtain ⟨b, hb, hstatus, -⟩ := hchunks id hid
        exact ⟨b, hb, hstatus⟩
      · change (setStatuses st.batches outcome.batchStatus g.batchIds).get id = some b at hb
        rw [get_setStatuses, if_pos hid] at hb
        obtain ⟨b', -, rfl⟩ := Option.map_eq_some_iff.1 hb
        rfl
    · rw [if_neg htxn]
      exact .kept
  | reconfigured | policyUpdated => exact .kept
  | @truncated key hanswer hfirst hstable =>
    change GroupStep st _ _ txn _ ((st.atomicGroups.retain _).get txn)
    rw [get_retain]
    cases hget : st.atomicGroups.get txn with
    | none => exact .kept
    | some g =>
      rw [Option.filter_some]
      split_ifs with hkeep
      · exact .kept
      · refine .forgotten rfl (firstKey_truncateBefore hfirst
          (hstable.trans hcur.stable.inPlace.le_nextKey)) fun id hid ↦ ?_
        rw [Option.mem_def] at hid
        simpa [hid] using hkeep

end GroupSteps

/-! ### Groups list their own batches -/

/-- The batches a group lists are allocated, and those still held carry the group's transaction. -/
def PartitionState.Tagged (st : PartitionState) : Prop :=
  ∀ txn g, st.atomicGroups.get txn = some g → ∀ id ∈ g.batchIds, id < st.batches.nextKey ∧
    ∀ b, st.batches.get id = some b → b.atomicGroup.map (·.transactionId) = some txn

section Tagged

/-- **Groups keep listing their own batches.** -/
theorem Outcome.tagged (h : Outcome st answer c eff) (hs : st.Sound) (ht : st.Tagged) :
    eff.state.Tagged := by
  have hnext := (h.range hs).nextKey_le
  -- a batch that was allocated before keeps its tag
  have hold : ∀ {txn id : Nat}, (id < st.batches.nextKey ∧
      ∀ b, st.batches.get id = some b → b.atomicGroup.map (·.transactionId) = some txn) →
      id < eff.state.batches.nextKey ∧ ∀ b, eff.state.batches.get id = some b →
        b.atomicGroup.map (·.transactionId) = some txn := by
    rintro txn id ⟨hlt, htag⟩
    refine ⟨by omega, fun b' hb' ↦ ?_⟩
    obtain ⟨b, hb, hsame⟩ := h.heldBefore hs hb' hlt.ne
    rw [hsame.atomicGroup]
    exact htag b hb
  -- a batch that is held now and tagged now is listed rightly
  have hnow : ∀ {txn chunk : Nat} {b : BatchRuntime} {id : Nat},
      eff.state.batches.get id = some b → b.atomicGroup = some ⟨txn, chunk⟩ →
      id < eff.state.batches.nextKey ∧ ∀ b', eff.state.batches.get id = some b' →
        b'.atomicGroup.map (·.transactionId) = some txn := by
    intro txn chunk b id hb htag
    refine ⟨(lt_nextKey_of_get hb).2, fun b' hb' ↦ ?_⟩
    rw [hb] at hb'
    cases hb'
    rw [htag]
    rfl
  have hentry : ∀ txn, ∀ id ∈ ((st.atomicGroups.get txn).getD .new).batchIds,
      id < eff.state.batches.nextKey ∧ ∀ b, eff.state.batches.get id = some b →
        b.atomicGroup.map (·.transactionId) = some txn := by
    intro txn id hid
    cases hget : st.atomicGroups.get txn with
    | none =>
      rw [hget] at hid
      simp [AtomicGroupRuntime.new] at hid
    | some g =>
      rw [hget] at hid
      exact hold (ht txn g hget id hid)
  intro txn g hg id hid
  have hstep := h.groupStep hs txn
  have hentry := hentry txn
  rw [hg] at hstep
  generalize st.atomicGroups.get txn = o at hstep hentry
  cases hstep with
  | kept => exact hentry id hid
  | extended hopen hget hstatus htag =>
    rcases List.mem_append.1 hid with hid | hid
    · exact hentry id hid
    · rw [List.mem_singleton.1 hid]
      exact hnow hget htag
  | refused hc hrefused hstate hids hbatch =>
    obtain ⟨b, chunk, hget, -, -, htag⟩ := hbatch
    rcases hids with ⟨hids, -⟩ | ⟨-, hids, -⟩
    · exact hentry id (hids ▸ hid)
    · rw [hids] at hid
      rcases List.mem_append.1 hid with hid | hid
      · exact hentry id hid
      · rw [List.mem_singleton.1 hid]
        exact hnow hget htag
  | shortened hc hget hres hpending htag hlast hseq ho =>
    obtain ⟨hnone, -⟩ | ⟨g', hg', -, hids, -⟩ := ho
    · cases hnone
    · cases hg'
      rw [hids] at hid
      exact hentry id (List.mem_of_mem_dropLast hid)
  | decided => exact hentry id hid

end Tagged

/-! ### Decisions -/

/-- A group is open although a decision of its transaction is known. -/
def PartitionState.Redecides (st : PartitionState) : Prop :=
  ∃ txn g o, st.atomicGroups.get txn = some g ∧ g.state = .unresolved ∧
    st.finalizedGroups.get txn = some o

section Decisions

/-- A decision is recorded only together with the group it decides. -/
theorem Outcome.finalizedGroups_get (h : Outcome st answer c eff) (txn : Nat) :
    eff.state.finalizedGroups.get txn = st.finalizedGroups.get txn ∨
      ∃ g outcome, c = .finalizeAtomicGroup txn outcome ∧ outcome ≠ .unresolved ∧
        st.atomicGroups.get txn = some g ∧ g.state = .unresolved ∧
        eff.state.atomicGroups.get txn = some { g with state := outcome } ∧
        eff.state.finalizedGroups.get txn = some outcome := by
  by_cases hevent : eff.event = none ∨ ∃ e, answer = .error e
  · exact .inl (by rw [(h.sameControl hevent).finalizedGroups])
  cases h with
  | quiet _ _ hquiet => exact absurd hquiet hevent
  | reconfigured | policyUpdated | truncated => exact .inl rfl
  | allocated | appended | retried | refusedRetry | completed | acknowledged | frozen | failed =>
    exact absurd (.inl rfl) hevent
  | @decided txn' outcome g hanswer hget hopen hout =>
    by_cases htxn : txn = txn'
    · subst htxn
      exact .inr ⟨g, outcome, rfl, hout, hget, hopen, get_insert_self .., get_insert_self ..⟩
    · exact .inl (get_insert_of_ne _ _ htxn)

/-- Without replica reservations no decided group is opened again. -/
theorem Outcome.not_redecides (h : Outcome st answer c eff) (hs : st.Sound)
    (hc : ∀ r producer group bytes digest, c ≠ .reserveReplica r producer group bytes digest)
    (hst : ¬ st.Redecides) : ¬ eff.state.Redecides := by
  rintro ⟨txn, g, o, hg, hopen, ho⟩
  rcases h.finalizedGroups_get txn with hsame | ⟨g₀, outcome, -, hout, -, -, hg₀, -⟩
  · rw [hsame] at ho
    have hstep := h.groupStep hs txn
    rw [hg] at hstep
    generalize hget : st.atomicGroups.get txn = entry at hstep
    cases hstep with
    | kept => exact hst ⟨txn, g, o, hget, hopen, ho⟩
    | @extended _ b _ hb hstatus _ _ _ _ hnew =>
      rcases hnew with ⟨hnone, -⟩ | ⟨b₀, hb₀, haborted⟩
      · rw [hnone] at ho
        cases ho
      · -- only a replica retry makes an aborted batch pending
        have hkey := h.keyStep hs b.reservation.batchId
        rw [hb₀, hb] at hkey
        cases hkey with
        | kept _ hkept => simp [hkept, haborted] at hstatus
        | completed _ _ _ hpending => simp [haborted] at hpending
        | failed _ _ _ hpending => simp [haborted] at hpending
        | decided _ _ _ _ _ _ _ hunresolved => simp [haborted] at hunresolved
        | reopened hreserve => exact hc _ _ _ _ _ hreserve
    | refused hreserve => exact hc _ _ _ _ _ hreserve
    | @shortened g₀ _ _ _ _ _ _ _ _ _ _ _ _ hcase =>
      obtain ⟨hnone, -⟩ | ⟨g', hg', hstate, -⟩ := hcase
      · cases hnone
      · cases hg'
        exact hst ⟨txn, g₀, o, hget, hstate ▸ hopen, ho⟩
    | decided _ _ hout => exact hout hopen
  · rw [hg] at hg₀
    cases hg₀
    exact hout hopen

end Decisions

end ShardStream
