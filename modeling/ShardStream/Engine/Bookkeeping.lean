import ShardStream.Engine.Atomicity
import ShardStream.Engine.ProducerProgress
import ShardStream.Engine.ReplicaPaths

/-!
# Group bookkeeping

An entry of the group table repeats what the batches say: which batches are the chunks of the group,
in which order, how many bytes and records they have, and whether the group is decided (`Bookkept`).
Four handlers edit the table: a registration appends a chunk, a rollback takes the last one off, a
decision changes the state together with the statuses, and retention forgets entries.

The entries stay right as long as each of them is used as it is meant (`Command.KeepsGroups`): only
the last chunk of a group is reported as not written, a replica reservation is not refused after it
has changed the partition, a retried chunk goes to the end of a group that is not decided, and the
log start is not moved between the chunks of a group. The code checks none of these.
-/

namespace ShardStream

open PartitionCore DenseOrderedMap List Table PartitionState

variable {g' g : AtomicGroupRuntime} {X st : PartitionState} {r : Reservation} {b : BatchRuntime}
  {identity : AtomicGroupIdentity} {id txn : Nat}

/-- The sum of `size` over the batches under `ids`. -/
def PartitionState.chunkSum (st : PartitionState) (size : BatchRuntime → Nat) (ids : List Nat) :
    Nat :=
  (ids.map fun id ↦ ((st.batches.get id).map size).getD 0).sum

/-- **The entry matches the batches.** -/
structure PartitionState.Bookkept (st : PartitionState) (txn : Nat)
    (g : AtomicGroupRuntime) : Prop where
  increasing : g.batchIds.Pairwise (· < ·)
  /-- The `i`-th listed batch is retained and is chunk `i` of the group. -/
  chunk : ∀ i id : Nat, g.batchIds[i]? = some id →
    ∃ b, st.batches.get id = some b ∧ b.atomicGroup = some ⟨txn, i⟩
  nextSequence : g.nextSequence = g.batchIds.length
  payloadBytes : g.payloadBytes = st.chunkSum (·.payloadBytes) g.batchIds
  recordCount : g.recordCount = st.chunkSum (·.reservation.recordCount.get) g.batchIds
  /-- The group is open exactly when no decision is known. -/
  unresolved_iff : g.state = .unresolved ↔ st.finalizedGroups.get txn = none
  /-- The chunks of a decided group have the status of the decision. -/
  decided : g.state ≠ .unresolved → ∀ id ∈ g.batchIds, ∀ b, st.batches.get id = some b →
    b.status = g.state.batchStatus
  /-- No chunk of an open group is aborted. -/
  opened : g.state = .unresolved → ∀ id ∈ g.batchIds, ∀ b, st.batches.get id = some b →
    b.status ≠ .aborted

/-- Moving the log start there would keep some chunks of a group and drop others. -/
def PartitionState.SplitsGroup (st : PartitionState) (logStart : Nat) : Prop :=
  ∃ txn g, st.atomicGroups.get txn = some g ∧
    (∃ id ∈ g.batchIds, ∃ b, st.batches.get id = some b ∧ b.reservation.firstOffset < logStart) ∧
    ∃ id ∈ g.batchIds, ∃ b, st.batches.get id = some b ∧ logStart ≤ b.reservation.firstOffset

/-- **What a command must respect** for the group table to stay right. -/
def Command.KeepsGroups (st : PartitionState) : Command → Prop
  -- a chunk that is reported as not written is the last one of its group
  | .fail r _ true => ∀ b identity, st.batches.get r.batchId = some b → b.status = .pending →
      b.atomicGroup = some identity → ∃ g, st.atomicGroups.get identity.transactionId = some g ∧
        g.batchIds.getLast? = some r.batchId
  -- a replica is not refused late, and a retried chunk goes to the end of a group without a
  -- decision
  | .reserveReplica r producer group bytes digest =>
      ¬ st.RefusesLate r producer group bytes digest ∧
        ∀ b, st.batches.get r.batchId = some b → b.status = .aborted → ∀ identity ∈ group,
          st.finalizedGroups.get identity.transactionId = none ∧
            ∀ id ∈ (groupEntry st identity.transactionId).batchIds, id < r.batchId
  -- retention does not split a group
  | .truncate logStart => ¬ st.SplitsGroup logStart
  | _ => True

/-! ### Entries and batches -/

/-- The entry matches the batches, and no chunk of an open group is committed. -/
structure PartitionState.Books (st : PartitionState) (txn : Nat)
    (g : AtomicGroupRuntime) : Prop extends st.Bookkept txn g where
  uncommitted : g.state = .unresolved → ∀ id ∈ g.batchIds, ∀ b, st.batches.get id = some b →
    b.status ≠ .committed

section Books

variable {st' : PartitionState} {ids : List Nat}

theorem AtomicGroupState.batchStatus_ne_pending (o : AtomicGroupState) :
    o.batchStatus ≠ .pending := by
  cases o <;> simp [AtomicGroupState.batchStatus]

theorem PartitionState.chunkSum_congr {size : BatchRuntime → Nat}
    (h : ∀ id ∈ ids, (st'.batches.get id).map size = (st.batches.get id).map size) :
    st'.chunkSum size ids = st.chunkSum size ids := by
  simp only [chunkSum]
  congr 1
  exact map_congr_left fun id hid ↦ by rw [h id hid]

theorem PartitionState.chunkSum_append (size : BatchRuntime → Nat) (ids : List Nat)
    (h : st.batches.get id = some b) :
    st.chunkSum size (ids ++ [id]) = st.chunkSum size ids + size b := by
  simp [chunkSum, h]

theorem PartitionState.le_chunkSum (size : BatchRuntime → Nat) (hid : id ∈ ids)
    (h : st.batches.get id = some b) : size b ≤ st.chunkSum size ids := by
  refine single_le_sum (fun _ _ ↦ Nat.zero_le _) _ (mem_map.2 ⟨id, hid, ?_⟩)
  rw [h]
  rfl

/-- A listed batch is retained and carries the transaction. -/
theorem PartitionState.Bookkept.exists_of_mem (h : st.Bookkept txn g) (hid : id ∈ g.batchIds) :
    ∃ b i, st.batches.get id = some b ∧ b.atomicGroup = some ⟨txn, i⟩ := by
  obtain ⟨i, hi⟩ := getElem?_of_mem hid
  obtain ⟨b, hb, htag⟩ := h.chunk i id hi
  exact ⟨b, i, hb, htag⟩

theorem PartitionState.Bookkept.lt_nextKey (h : st.Bookkept txn g) (hid : id ∈ g.batchIds) :
    id < st.batches.nextKey := by
  obtain ⟨b, -, hb, -⟩ := h.exists_of_mem hid
  exact (lt_nextKey_of_get hb).2

/-- The chunks of a group are fewer than the batches, so that the counter fits. -/
theorem PartitionState.Bookkept.nextSequence_lt (h : st.Bookkept txn g)
    (hl : st.Layout) : g.nextSequence < 2 ^ 64 := by
  have hsub : g.batchIds ⊆ range st.batches.nextKey := fun id hid ↦
    mem_range.2 (h.lt_nextKey hid)
  have hlen := (subperm_of_subset (h.increasing.imp Nat.ne_of_lt) hsub).length_le
  rw [length_range, ← h.nextSequence, ← hl.nextBatchId, ← hl.nextPlacementSequence] at hlen
  exact hlen.trans_lt hl.sequence_lt

/-- Two groups have no chunk in common. -/
theorem PartitionState.Bookkept.eq_of_mem {txn' : Nat} (h : st.Bookkept txn g)
    (h' : st.Bookkept txn' g') (hid : id ∈ g.batchIds) (hid' : id ∈ g'.batchIds) : txn = txn' := by
  obtain ⟨b, i, hb, htag⟩ := h.exists_of_mem hid
  obtain ⟨b', i', hb', htag'⟩ := h'.exists_of_mem hid'
  rw [hb] at hb'
  cases hb'
  rw [htag] at htag'
  cases htag'
  rfl

/-- The last chunk of a group has the last sequence. -/
theorem PartitionState.Bookkept.last (h : st.Bookkept txn g)
    (hlast : g.batchIds.getLast? = some id) :
    ∃ b i, st.batches.get id = some b ∧ b.atomicGroup = some ⟨txn, i⟩ ∧ g.nextSequence = i + 1 := by
  have hne : g.batchIds ≠ [] := by
    rintro hnil
    simp [hnil] at hlast
  have hpos := length_pos_iff.2 hne
  rw [getLast?_eq_getElem?] at hlast
  obtain ⟨b, hb, htag⟩ := h.chunk _ id hlast
  refine ⟨b, _, hb, htag, ?_⟩
  rw [h.nextSequence]
  omega

theorem PartitionState.Bookkept.last_notMem_dropLast (h : st.Bookkept txn g)
    (hlast : g.batchIds.getLast? = some id) : id ∉ g.batchIds.dropLast := by
  intro hid
  have hsplit := h.increasing
  rw [← dropLast_append_getLast? _ hlast] at hsplit
  exact lt_irrefl id ((pairwise_append.1 hsplit).2.2 id hid id (mem_singleton_self id))

/-- **Frame.** The entry still matches when its chunks are the same batches, and pending ones at
most became undecided. -/
theorem PartitionState.Books.transfer (h : st.Books txn g)
    (hbatch : ∀ id ∈ g.batchIds, ∀ b, st.batches.get id = some b → ∃ b',
      st'.batches.get id = some b' ∧ b.SameBatch b' ∧
        (b'.status = b.status ∨ b.status = .pending ∧ b'.status = .unresolved))
    (hfin : st'.finalizedGroups.get txn = st.finalizedGroups.get txn) : st'.Books txn g := by
  -- what is held now comes from what was held
  have hback : ∀ id ∈ g.batchIds, ∀ b', st'.batches.get id = some b' → ∃ b,
      st.batches.get id = some b ∧ b.SameBatch b' ∧
        (b'.status = b.status ∨ b.status = .pending ∧ b'.status = .unresolved) := by
    intro id hid b' hb'
    obtain ⟨b, -, hb, -⟩ := h.exists_of_mem hid
    obtain ⟨b'', hb'', hrel⟩ := hbatch id hid b hb
    rw [hb'] at hb''
    cases hb''
    exact ⟨b, hb, hrel⟩
  have hsum : ∀ size : BatchRuntime → Nat,
      (∀ b b' : BatchRuntime, b.SameBatch b' → size b' = size b) →
      st'.chunkSum size g.batchIds = st.chunkSum size g.batchIds := by
    intro size hsize
    refine chunkSum_congr fun id hid ↦ ?_
    obtain ⟨b, -, hb, -⟩ := h.exists_of_mem hid
    obtain ⟨b', hb', hsame, -⟩ := hbatch id hid b hb
    simp [hb, hb', hsize b b' hsame]
  refine ⟨⟨h.increasing, fun i id hi ↦ ?_, h.nextSequence, ?_, ?_, ?_, fun hne id hid b' hb' ↦ ?_,
    fun hopen id hid b' hb' ↦ ?_⟩, fun hopen id hid b' hb' ↦ ?_⟩
  · obtain ⟨b, hb, htag⟩ := h.chunk i id hi
    obtain ⟨b', hb', hsame, -⟩ := hbatch id (mem_of_getElem? hi) b hb
    exact ⟨b', hb', hsame.atomicGroup.trans htag⟩
  · rw [h.payloadBytes, hsum _ fun b b' hsame ↦ hsame.payloadBytes]
  · rw [h.recordCount, hsum _ fun b b' hsame ↦ by rw [hsame.reservation]]
  · rw [hfin]
    exact h.unresolved_iff
  · obtain ⟨b, hb, -, hstatus⟩ := hback id hid b' hb'
    have hwas := h.decided hne id hid b hb
    rcases hstatus with hstatus | ⟨hpending, -⟩
    · exact hstatus.trans hwas
    · exact absurd (hwas.symm.trans hpending) (AtomicGroupState.batchStatus_ne_pending _)
  · obtain ⟨b, hb, -, hstatus | ⟨-, hstatus⟩⟩ := hback id hid b' hb'
    · rw [hstatus]
      exact h.opened hopen id hid b hb
    · simp [hstatus]
  · obtain ⟨b, hb, -, hstatus | ⟨-, hstatus⟩⟩ := hback id hid b' hb'
    · rw [hstatus]
      exact h.uncommitted hopen id hid b hb
    · simp [hstatus]

/-- The entry still matches when its chunks are untouched. -/
theorem PartitionState.Books.of_get_eq (h : st.Books txn g)
    (hbatch : ∀ id ∈ g.batchIds, st'.batches.get id = st.batches.get id)
    (hfin : st'.finalizedGroups.get txn = st.finalizedGroups.get txn) : st'.Books txn g :=
  h.transfer (fun id hid b hb ↦ ⟨b, (hbatch id hid).trans hb, .refl b, .inl rfl⟩) hfin

/-- A fresh entry matches if no decision is known. -/
theorem PartitionState.books_new (h : st.finalizedGroups.get txn = none) : st.Books txn .new where
  increasing := .nil
  chunk i id hi := by simp [AtomicGroupRuntime.new] at hi
  nextSequence := rfl
  payloadBytes := rfl
  recordCount := rfl
  unresolved_iff := iff_of_true rfl h
  decided hne := absurd rfl hne
  opened _ id hid := by simp [AtomicGroupRuntime.new] at hid
  uncommitted _ id hid := by simp [AtomicGroupRuntime.new] at hid

/-- The entry a chunk is registered in matches, if no decision is known. -/
theorem PartitionState.books_groupEntry
    (h : ∀ g, st.atomicGroups.get txn = some g → st'.Books txn g)
    (hfin : st'.finalizedGroups.get txn = none) : st'.Books txn (groupEntry st txn) := by
  rw [groupEntry]
  cases hget : st.atomicGroups.get txn with
  | none => exact books_new hfin
  | some g => exact h g hget

/-- **One more chunk**: a pending batch with the next sequence, behind the others. -/
theorem PartitionState.Books.withChunk (h : st.Books txn g) (hopen : g.state = .unresolved)
    (hget : st.batches.get b.reservation.batchId = some b) (hstatus : b.status = .pending)
    (htag : b.atomicGroup = some ⟨txn, g.nextSequence⟩)
    (hlt : ∀ id ∈ g.batchIds, id < b.reservation.batchId) : st.Books txn
      (g.withChunk b.reservation.batchId b.payloadBytes b.reservation.recordCount.get) := by
  -- a listed batch is an earlier one or the new one
  have hmem : ∀ id ∈ g.batchIds ++ [b.reservation.batchId], ∀ b', st.batches.get id = some b' →
      id ∈ g.batchIds ∨ b' = b := by
    intro id hid b' hb'
    rcases mem_append.1 hid with hid | hid
    · exact .inl hid
    · rw [mem_singleton.1 hid, hget] at hb'
      exact .inr (Option.some.inj hb').symm
  refine ⟨⟨?_, fun i id hi ↦ ?_, ?_, ?_, ?_, h.unresolved_iff, fun hne ↦ absurd hopen hne,
    fun _ id hid b' hb' ↦ ?_⟩, fun _ id hid b' hb' ↦ ?_⟩
  · refine pairwise_append.2 ⟨h.increasing, pairwise_singleton .., fun id hid id' hid' ↦ ?_⟩
    rw [mem_singleton.1 hid']
    exact hlt id hid
  · change (g.batchIds ++ [b.reservation.batchId])[i]? = some id at hi
    by_cases hlen : i < g.batchIds.length
    · rw [getElem?_append_left hlen] at hi
      exact h.chunk i id hi
    · rw [getElem?_append_right (Nat.not_lt.1 hlen)] at hi
      rw [getElem?_singleton] at hi
      split_ifs at hi with hzero
      cases hi
      refine ⟨b, hget, ?_⟩
      rw [htag, h.nextSequence, show i = g.batchIds.length by omega]
  · change g.nextSequence + 1 = (g.batchIds ++ [_]).length
    rw [h.nextSequence, length_append]
    rfl
  · change g.payloadBytes + b.payloadBytes = st.chunkSum _ (g.batchIds ++ [_])
    rw [chunkSum_append _ _ hget, h.payloadBytes]
  · change g.recordCount + _ = st.chunkSum _ (g.batchIds ++ [_])
    rw [chunkSum_append _ _ hget, h.recordCount]
  · rcases hmem id hid b' hb' with hid | rfl
    · exact h.opened hopen id hid b' hb'
    · simp [hstatus]
  · rcases hmem id hid b' hb' with hid | rfl
    · exact h.uncommitted hopen id hid b' hb'
    · simp [hstatus]

/-- The entry without its last chunk. -/
def AtomicGroupRuntime.withoutLast (g : AtomicGroupRuntime) (bytes count : Nat) :
    AtomicGroupRuntime :=
  { g with
    batchIds := g.batchIds.dropLast
    nextSequence := g.nextSequence - 1
    payloadBytes := g.payloadBytes - bytes
    recordCount := g.recordCount - count }

/-- **One chunk less.** -/
theorem PartitionState.Books.withoutLast (h : st.Books txn g) (hget : st.batches.get id = some b)
    (hlast : g.batchIds.getLast? = some id) :
    st.Books txn (g.withoutLast b.payloadBytes b.reservation.recordCount.get) := by
  have hsplit : g.batchIds = g.batchIds.dropLast ++ [id] := (dropLast_append_getLast? _ hlast).symm
  have hmem : ∀ id ∈ g.batchIds.dropLast, id ∈ g.batchIds := fun id hid ↦ mem_of_mem_dropLast hid
  have hsum : ∀ size : BatchRuntime → Nat,
      st.chunkSum size g.batchIds = st.chunkSum size g.batchIds.dropLast + size b := by
    intro size
    conv_lhs => rw [hsplit]
    exact chunkSum_append _ _ hget
  refine ⟨⟨h.increasing.sublist (dropLast_sublist _), fun i id hi ↦ ?_, ?_, ?_, ?_,
    h.unresolved_iff, fun hne id hid ↦ h.decided hne id (hmem id hid),
    fun hopen id hid ↦ h.opened hopen id (hmem id hid)⟩,
    fun hopen id hid ↦ h.uncommitted hopen id (hmem id hid)⟩
  · change g.batchIds.dropLast[i]? = some id at hi
    rw [getElem?_dropLast] at hi
    split_ifs at hi
    exact h.chunk i id hi
  · change g.nextSequence - 1 = g.batchIds.dropLast.length
    rw [h.nextSequence, length_dropLast]
  · change g.payloadBytes - b.payloadBytes = _
    rw [h.payloadBytes, hsum]
    exact Nat.add_sub_cancel ..
  · change g.recordCount - b.reservation.recordCount.get = _
    rw [h.recordCount, hsum]
    exact Nat.add_sub_cancel ..

end Books

/-! ### Rolling back the last chunk -/

variable {config : EngineConfig}

/-- **The rollback of the last chunk** of a group that matches its batches. -/
theorem rollbackAtomicChunk_of_last (hget : X.batches.get r.batchId = some b)
    (hres : b.reservation = r) (htag : b.atomicGroup = some identity)
    (hentry : X.atomicGroups.get identity.transactionId = some g)
    (hlast : g.batchIds.getLast? = some r.batchId)
    (hseq : g.nextSequence = identity.chunkSequence + 1) (hroom : g.nextSequence < 2 ^ 64)
    (hbytes : b.payloadBytes ≤ g.payloadBytes)
    (hrecords : b.reservation.recordCount.get ≤ g.recordCount) : rollbackAtomicChunk X r = (.ok (),
      { X with
        atomicGroups := if g.batchIds.dropLast = [] then X.atomicGroups.erase identity.transactionId
          else X.atomicGroups.insert identity.transactionId
            (g.withoutLast b.payloadBytes b.reservation.recordCount.get) }) := by
  have hmin : g.nextSequence = min (identity.chunkSequence + 1) (2 ^ 64 - 1) := by omega
  have hchunk : g.nextSequence - 1 = identity.chunkSequence := by omega
  subst hres
  simp only [rollbackAtomicChunk, hget, htag, hentry]
  rw [if_neg (by rw [not_or, not_not, not_not]; exact ⟨hlast, hmin⟩), if_neg (Nat.not_lt.2 hbytes),
    if_neg (Nat.not_lt.2 hrecords)]
  split_ifs
  · rfl
  · simp only [AtomicGroupRuntime.withoutLast, hchunk]

section Step

variable {answer : Except EngineError Unit} {c : Command}

/-- A registration that is accepted, seen from every transaction. -/
theorem books_of_register {group : Option AtomicGroupIdentity} {bytes : Nat}
    (hbooks : ∀ txn g, X.atomicGroups.get txn = some g → X.Books txn g)
    (hget : X.batches.get r.batchId = some b) (hres : b.reservation = r)
    (hstatus : b.status = .pending) (htag : b.atomicGroup = group) (hbytes : b.payloadBytes = bytes)
    (htaken : ¬ X.RefusesChunk group bytes r.recordCount)
    (hend : ∀ identity ∈ group, X.finalizedGroups.get identity.transactionId = none ∧
      ∀ id ∈ (groupEntry X identity.transactionId).batchIds, id < r.batchId)
    (hg' : (registerNamedChunk X group r bytes).2.atomicGroups.get txn = some g') :
    X.Books txn g' := by
  subst hres hbytes
  cases group with
  | none => exact hbooks txn g' hg'
  | some identity =>
    obtain ⟨hfin, hlt⟩ := hend identity rfl
    have haccepts : ¬ (groupEntry X identity.transactionId).Refuses identity.chunkSequence
        b.payloadBytes b.reservation.recordCount.get := fun h ↦ htaken ⟨identity, rfl, h⟩
    simp only [AtomicGroupRuntime.Refuses, not_or, not_not, Nat.not_le] at haccepts
    obtain ⟨hopen, hseq, hsum, hrecords, hroom⟩ := haccepts
    have hreg : registerAtomicChunk X identity b.reservation b.payloadBytes = (.ok (), _) :=
      registerAtomicChunk_eq_ok hopen hseq hsum hrecords hroom
    rw [registerNamedChunk, hreg] at hg'
    rcases get_insert_eq_some_iff.1 hg' with ⟨rfl, rfl⟩ | ⟨htxn, hg'⟩
    · have hentry := books_groupEntry (hbooks identity.transactionId) hfin
      refine hentry.withChunk hopen hget hstatus ?_ hlt
      rw [htag, ← hseq]
    · exact hbooks txn g' hg'

/-- The tables do not look at the sequencer, the cursors or the producers. -/
theorem PartitionState.Books.congr (h : st.Books txn g) (hbatches : X.batches = st.batches)
    (hfin : X.finalizedGroups = st.finalizedGroups) : X.Books txn g :=
  h.of_get_eq (fun id _ ↦ by rw [hbatches]) (by rw [hfin])

/-- A batch appended at the end leaves the entries alone. -/
theorem PartitionState.Books.snoc (h : st.Books txn g) (hbatches : X.batches = st.batches.snoc b)
    (hfin : X.finalizedGroups = st.finalizedGroups) : X.Books txn g := by
  refine h.of_get_eq (fun id hid ↦ ?_) (by rw [hfin])
  obtain ⟨b, -, hb, -⟩ := h.exists_of_mem hid
  have hlt := (lt_nextKey_of_get hb).2
  rw [hbatches, get_snoc, if_neg (by omega)]

/-- A change of a batch that the entry does not list leaves it alone. -/
theorem PartitionState.Books.modify {f : BatchRuntime → BatchRuntime} (h : st.Books txn g)
    (hbatches : X.batches = st.batches.modify id f) (hfin : X.finalizedGroups = st.finalizedGroups)
    (hid : id ∉ g.batchIds) : X.Books txn g := by
  refine h.of_get_eq (fun id' hid' ↦ ?_) (by rw [hfin])
  rw [hbatches, get_modify, if_neg]
  rintro rfl
  exact hid hid'

/-- The decision of a group, together with its chunks. -/
theorem PartitionState.Books.decide {outcome : AtomicGroupState} (h : st.Books txn g)
    (hout : outcome ≠ .unresolved)
    (hbatch : ∀ id, X.batches.get id = if id ∈ g.batchIds then (st.batches.get id).map fun b ↦
      { b with status := outcome.batchStatus } else st.batches.get id)
    (hfin : X.finalizedGroups.get txn = some outcome) :
    X.Books txn { g with state := outcome } := by
  have hsum : ∀ size : BatchRuntime → Nat, (∀ b status, size { b with status } = size b) →
      X.chunkSum size g.batchIds = st.chunkSum size g.batchIds := by
    intro size hsize
    refine chunkSum_congr fun id hid ↦ ?_
    rw [hbatch, if_pos hid, Option.map_map]
    congr 1
    funext b
    exact hsize b _
  refine ⟨⟨h.increasing, fun i id hi ↦ ?_, h.nextSequence, ?_, ?_, ?_, fun _ id hid b hb ↦ ?_,
    fun hopen ↦ absurd hopen hout⟩, fun hopen ↦ absurd hopen hout⟩
  · obtain ⟨b, hb, htag⟩ := h.chunk i id hi
    refine ⟨{ b with status := outcome.batchStatus }, ?_, htag⟩
    rw [hbatch, if_pos (mem_of_getElem? hi), hb]
    rfl
  · rw [hsum _ fun _ _ ↦ rfl]
    exact h.payloadBytes
  · rw [hsum _ fun _ _ ↦ rfl]
    exact h.recordCount
  · simp [hout, hfin]
  · rw [hbatch, if_pos hid] at hb
    obtain ⟨b₀, -, rfl⟩ := Option.map_eq_some_iff.1 hb
    rfl

/-- The rollback of a failed chunk that is the last one of a group which matches its batches. -/
theorem rollback_of_failed (hl : st.Layout) (hbook : st.Bookkept identity.transactionId g)
    (hget : st.batches.get r.batchId = some b) (hres : b.reservation = r)
    (htag : b.atomicGroup = some identity)
    (hentry : st.atomicGroups.get identity.transactionId = some g)
    (hlast : g.batchIds.getLast? = some r.batchId) (producer : Option ProducerIdentity) :
    rollbackAtomicChunk ((st.freezeProducer producer).markedBatch r.batchId .aborted 0) r = (.ok (),
      { (st.freezeProducer producer).markedBatch r.batchId .aborted 0 with
        atomicGroups :=
          if g.batchIds.dropLast = [] then st.atomicGroups.erase identity.transactionId
          else st.atomicGroups.insert identity.transactionId
            (g.withoutLast b.payloadBytes b.reservation.recordCount.get) }) := by
  have hgroups : ((st.freezeProducer producer).markedBatch r.batchId .aborted 0).atomicGroups =
      st.atomicGroups := by cases producer <;> rfl
  have hmem := mem_of_getLast? hlast
  obtain ⟨b', i, hb', htag', hseq⟩ := hbook.last hlast
  rw [hget] at hb'
  cases hb'
  have hchunk : identity.chunkSequence = i := by
    rw [htag] at htag'
    exact congrArg (·.chunkSequence) (Option.some.inj htag')
  rw [← hchunk] at hseq
  have hbytes : b.payloadBytes ≤ g.payloadBytes := by
    rw [hbook.payloadBytes]
    exact le_chunkSum (·.payloadBytes) hmem hget
  have hrecords : b.reservation.recordCount.get ≤ g.recordCount := by
    rw [hbook.recordCount]
    exact le_chunkSum (·.reservation.recordCount.get) hmem hget
  rw [← hgroups] at hentry
  rw [rollbackAtomicChunk_of_last (get_markedBatch_freezeProducer hget producer) hres htag hentry
    hlast hseq (hbook.nextSequence_lt hl) hbytes hrecords, hgroups]
  rfl

/-- **A failed chunk**, the last one of its group. -/
theorem books_of_failed {producer : Option ProducerIdentity} (hl : st.Layout)
    (hbooks : ∀ txn g, st.atomicGroups.get txn = some g → st.Books txn g)
    (hget : st.batches.get r.batchId = some b) (hres : b.reservation = r)
    (hstatus : b.status = .pending) (hkeeps : (Command.fail r producer true).KeepsGroups st)
    (hg : (rollbackAtomicChunk ((st.freezeProducer producer).markedBatch r.batchId .aborted 0)
      r).2.atomicGroups.get txn = some g) :
    (rollbackAtomicChunk ((st.freezeProducer producer).markedBatch r.batchId .aborted 0)
      r).2.Books txn g := by
  set X := (st.freezeProducer producer).markedBatch r.batchId .aborted 0 with hX
  have hbatches : X.batches = st.batches.modify r.batchId (·.marked .aborted 0) := by
    cases producer <;> rfl
  have hgroups : X.atomicGroups = st.atomicGroups := by cases producer <;> rfl
  have hfin : X.finalizedGroups = st.finalizedGroups := by cases producer <;> rfl
  have hmarked : X.batches.get r.batchId = some (b.marked .aborted 0) :=
    get_markedBatch_freezeProducer hget producer
  cases htag : b.atomicGroup with
  | none =>
    -- a batch without a group is not listed
    have hroll : rollbackAtomicChunk X r = (.ok (), X) := by
      have hnone : (b.marked .aborted 0).atomicGroup = none := htag
      simp only [rollbackAtomicChunk, hmarked, hnone]
    rw [hroll] at hg ⊢
    rw [hgroups] at hg
    refine (hbooks txn g hg).modify hbatches hfin fun hid ↦ ?_
    obtain ⟨b', i, hb', htag'⟩ := (hbooks txn g hg).exists_of_mem hid
    rw [hget] at hb'
    cases hb'
    rw [htag] at htag'
    cases htag'
  | some identity =>
    obtain ⟨g₀, hentry, hlast⟩ := hkeeps b identity hget hstatus htag
    have hbook := hbooks _ g₀ hentry
    have hroll : rollbackAtomicChunk X r = (.ok (), _) :=
      rollback_of_failed hl hbook.toBookkept hget hres htag hentry hlast producer
    rw [hroll] at hg ⊢
    -- what is left of the group lists the batch no more, and neither do the other groups
    have hother : txn ≠ identity.transactionId → st.atomicGroups.get txn = some g → X.Books txn g :=
      fun hne hg ↦ (hbooks txn g hg).modify hbatches hfin fun hid ↦
        hne ((hbooks txn g hg).eq_of_mem hbook.toBookkept hid (mem_of_getLast? hlast))
    by_cases htxn : txn = identity.transactionId
    · subst htxn
      split_ifs at hg with hempty
      · rw [get_erase_self] at hg
        cases hg
      · rw [get_insert_self] at hg
        cases hg
        have hleft : X.Books _ _ := (hbook.withoutLast hget hlast).modify hbatches hfin
          (hbook.last_notMem_dropLast hlast)
        exact hleft.congr rfl rfl
    · refine (hother htxn ?_).congr rfl rfl
      split_ifs at hg with hempty
      · rwa [get_erase_of_ne _ htxn] at hg
      · rwa [get_insert_of_ne _ _ htxn] at hg

/-- **The group table stays right** under a command that respects it. -/
theorem Outcome.books {eff : Effect} (h : Outcome st answer c eff) (hs : st.Sound)
    (hbooks : ∀ txn g, st.atomicGroups.get txn = some g → st.Books txn g)
    (hkeeps : c.KeepsGroups st) (hg : eff.state.atomicGroups.get txn = some g) :
    eff.state.Books txn g := by
  have hl := hs.layout
  cases h with
  | quiet => exact (hbooks txn g hg).congr rfl rfl
  | @allocated _ p hvalid =>
    have hframe : ∀ txn g, st.atomicGroups.get txn = some g → (st.allocated p).Books txn g :=
      fun txn g hg ↦ (hbooks txn g hg).snoc rfl rfl
    rcases hvalid.groups with ⟨-, h⟩ | ⟨identity, hid, hfin, hopen, hseq, -, -, -, h⟩
    · simp only [h] at hg
      exact hframe txn g hg
    · simp only [h] at hg
      rcases get_insert_eq_some_iff.1 hg with ⟨rfl, rfl⟩ | ⟨htxn, hg⟩
      · have hentry : (st.allocated p).Books _ _ :=
          books_groupEntry (hframe identity.transactionId) hfin
        have hbefore := books_groupEntry (hbooks identity.transactionId) hfin
        rw [← hvalid.recordCount]
        refine hentry.withChunk (b := p.batch) hopen hvalid.get_allocated rfl ?_ fun id hid ↦ ?_
        · change p.intent.atomicGroup = _
          rw [hid, ← hseq]
        · -- the new batch is behind everything allocated
          change id < p.proposal.reservation.batchId
          rw [hvalid.batchId]
          exact hbefore.lt_nextKey hid
      · exact hframe txn g hg
  | @appended r producer group bytes digest reserved producers hpasses hproducers =>
    set X := st.replicaAppended producers (pendingBatch r producer group bytes digest) with hX
    have hid := hpasses.batchId hl.nextBatchId
    have hbooks' : X.Books txn g := by
      refine books_of_register (X := X) (b := pendingBatch r producer group bytes digest)
        (fun txn g hg ↦ (hbooks txn g hg).snoc rfl rfl) ?_ rfl rfl rfl rfl
        (fun hrefused ↦ hkeeps.1 (.inr ⟨hpasses, .inr hrefused⟩)) (fun identity hmem ↦ ?_) hg
      · change (st.batches.snoc _).get r.batchId = _
        rw [get_snoc, if_pos hid]
      · obtain ⟨hfin, -⟩ := hpasses.chunk identity hmem
        have hbefore := books_groupEntry (hbooks identity.transactionId) hfin
        refine ⟨hfin, fun id hmem ↦ ?_⟩
        change id < r.batchId
        rw [hid]
        exact hbefore.lt_nextKey hmem
    rw [registerNamedChunk_snd]
    exact hbooks'.congr rfl rfl
  | @retried r producer group bytes digest b hget hstatus hmatch =>
    set X := st.reopen r.batchId producer digest with hX
    obtain ⟨hres, -, htag, hbytes, -⟩ := BatchRuntime.matchesReplica_iff.1 hmatch
    have htaken : ¬ st.RefusesChunk group bytes r.recordCount := fun hrefused ↦
      hkeeps.1 (.inl ⟨b, hget, hstatus, hmatch, hrefused⟩)
    -- an aborted batch is listed by a decided group only, and that group would refuse it
    have hunlisted : ∀ txn g, st.atomicGroups.get txn = some g → r.batchId ∉ g.batchIds := by
      intro txn g hg hid
      have hbook := hbooks txn g hg
      obtain ⟨b', i, hb', htag'⟩ := hbook.exists_of_mem hid
      rw [hget] at hb'
      cases hb'
      have hdecided : g.state ≠ .unresolved := fun hopen ↦ hbook.opened hopen _ hid b hget hstatus
      refine htaken ⟨⟨txn, i⟩, htag.symm.trans htag', .inl ?_⟩
      rwa [groupEntry, hg]
    have hbooks' : X.Books txn g := by
      refine books_of_register (X := X)
        (fun txn g hg ↦ (hbooks txn g hg).modify rfl rfl (hunlisted txn g hg))
        (get_reopen hget producer digest) hres rfl htag hbytes htaken ?_ hg
      exact hkeeps.2 b hget hstatus
    rw [registerNamedChunk_snd]
    exact hbooks'.congr rfl rfl
  | @refusedRetry r producer group bytes digest b e hget hstatus hmatch hreg =>
    exact absurd (refusesLate_of_reopened hget hstatus hmatch hreg) hkeeps.1
  | @completed completion b hget hres hstatus =>
    have hbook := hbooks txn g hg
    refine hbook.transfer (fun id hid b₀ hb₀ ↦ ?_) rfl
    obtain ⟨b₁, i, hb₁, htag⟩ := hbook.exists_of_mem hid
    rw [hb₀] at hb₁
    cases hb₁
    change ∃ b', ((st.batches.modify completion.reservation.batchId _).modify
      completion.reservation.batchId _).get id = some b' ∧ _
    rw [get_modify, get_modify]
    by_cases hkey : id = completion.reservation.batchId
    · subst hkey
      rw [hget] at hb₀
      cases hb₀
      have hundecided : completedStatus (some b) = .unresolved := by simp [completedStatus, htag]
      rw [if_pos rfl, if_pos rfl, hget, hundecided]
      exact ⟨_, rfl, ⟨rfl, rfl, rfl, rfl, fun _ h ↦ h⟩, .inr ⟨hstatus, rfl⟩⟩
    · rw [if_neg hkey, if_neg hkey]
      exact ⟨b₀, hb₀, .refl b₀, .inl rfl⟩
  | @acknowledged r =>
    refine (hbooks txn g hg).transfer (fun id hid b₀ hb₀ ↦ ?_) rfl
    change ∃ b', (st.batches.modify r.batchId _).get id = some b' ∧ _
    rw [get_modify, hb₀]
    split_ifs
    · exact ⟨_, rfl, ⟨rfl, rfl, rfl, rfl, fun _ h ↦ h⟩, .inl rfl⟩
    · exact ⟨b₀, rfl, .refl b₀, .inl rfl⟩
  | @frozen r producer =>
    cases producer <;> exact (hbooks txn g hg).congr rfl rfl
  | @failed r producer b hget hres hstatus =>
    exact books_of_failed hl hbooks hget hres hstatus hkeeps hg
  | @decided txn' outcome g' hanswer hget hopen hout =>
    have hbook := hbooks txn' g' hget
    have hbatch : ∀ id, (st.decideGroup txn' g' outcome).batches.get id =
        if id ∈ g'.batchIds then (st.batches.get id).map fun b ↦
          { b with status := outcome.batchStatus } else st.batches.get id :=
      fun id ↦ get_setStatuses ..
    rcases get_insert_eq_some_iff.1 hg with ⟨rfl, rfl⟩ | ⟨htxn, hg⟩
    · exact hbook.decide hout hbatch (get_insert_self ..)
    · have hother := hbooks txn g hg
      refine hother.of_get_eq (fun id hid ↦ ?_) (get_insert_of_ne _ _ htxn)
      rw [hbatch, if_neg fun hmem ↦ htxn (hother.eq_of_mem hbook.toBookkept hid hmem)]
  | reconfigured | policyUpdated => exact (hbooks txn g hg).congr rfl rfl
  | @truncated key hanswer hfirst hstable =>
    have hnext : key ≤ st.batches.nextKey := hstable.trans hs.cursors.stable.inPlace.le_nextKey
    obtain ⟨hg, hlast⟩ := Option.filter_eq_some_iff.1 hg
    have hbook := hbooks txn g hg
    -- the last chunk is kept, so that all are
    have hkept : ∀ id ∈ g.batchIds, key ≤ id := by
      intro id hid
      by_contra hbelow
      cases hids : g.batchIds.getLast? with
      | none => simp [hids] at hlast
      | some last =>
        have hge : key ≤ last := by simpa [hids] using hlast
        have hmem := mem_of_getLast? hids
        obtain ⟨b, -, hb, -⟩ := hbook.exists_of_mem hid
        obtain ⟨b', -, hb', -⟩ := hbook.exists_of_mem hmem
        have hkey := lt_nextKey_of_get hb
        have hkey' := lt_nextKey_of_get hb'
        refine hkeeps ⟨txn, g, hg, ⟨id, hid, b, hb, ?_⟩, last, hmem, b', hb', ?_⟩
        · rw [(hl.get hb).2.2.2.1]
          exact hl.offsetAt_lt hkey.1 (Nat.not_le.1 hbelow) hnext
        · rw [(hl.get hb').2.2.2.1]
          exact hl.offsetAt_le hge hkey'.2.le
    refine hbook.of_get_eq (fun id hid ↦ ?_) rfl
    change (st.batches.truncateBefore key).get id = _
    rw [get_truncateBefore hfirst hnext, if_neg (Nat.not_lt.2 (hkept id hid))]

end Step

/-! ### Over all runs -/

/-- No decision is recorded as undecided. -/
theorem EngineReachable.finalizedGroups_ne {rule : RunRule} {e : Engine}
    (h : EngineReachable config rule e) {tp : TopicPartition} (hst : e.states.get tp = some st)
    (txn : Nat) : st.finalizedGroups.get txn ≠ some .unresolved := by
  refine h.partition_invariant
    (P := fun _ st ↦ ∀ txn, st.finalizedGroups.get txn ≠ some .unresolved) ?_ ?_ ?_ hst txn
  · intro tp shards sequencer policy _ txn hfin
    cases hfin
  · intro e tp st answer c hreach hst ih _ _ txn hfin
    rcases (c.outcome (hreach.sound_and_tagged hst).1 answer).finalizedGroups_get txn with
      hsame | ⟨g, outcome, -, hout, -, -, -, hnew⟩
    · exact ih txn (hsame ▸ hfin)
    · rw [hnew] at hfin
      exact hout (Option.some.inj hfin)
  · intro e s tp st st' hb hst ih _ hr txn hfin
    rw [hr.finalizedGroups, (hb.backed tp st hst).outcomes_get] at hfin
    exact ih txn hfin

/-- **Recovered groups match their batches.** -/
theorem Recovered.books {ctx : RecoveryContext} {E : List ExtentCatalogEntry}
    (h : Recovered ctx E st)
    (hE : E.Pairwise fun x y ↦ x.reservation.batchId < y.reservation.batchId)
    (hout : ∀ txn, ctx.outcomes.get txn ≠ some .unresolved)
    (hg : st.atomicGroups.get txn = some g) : st.Books txn g := by
  have hstatus : ∀ id ∈ g.batchIds, ∀ b, st.batches.get id = some b →
      b.status = g.state.batchStatus := fun id hid b hb ↦ by
    obtain ⟨-, x, -, -, -, hstatus⟩ := h.chunk hg hid
    exact hstatus b hb
  have hentry : g = { groupOf (chunksOf E txn) with
      state := (ctx.outcomes.get txn).getD .unresolved } := by
    rw [h.groups] at hg
    split_ifs at hg
    exact (Option.some.inj hg).symm
  have hsum : ∀ size size', (∀ x, size (recoveredBatch ctx.outcomes ctx.replicas x) = size' x) →
      ((chunksOf E txn).map size').sum = st.chunkSum size g.batchIds := by
    intro size size' hsize
    rw [hentry]
    simp only [groupOf, chunkSum, map_map]
    congr 1
    refine map_congr_left fun x hx ↦ ?_
    simp [h.entry x (mem_filter.1 hx).1, hsize]
  refine ⟨⟨?_, fun i id hi ↦ ?_, ?_, ?_, ?_, ?_, fun _ ↦ hstatus, fun hopen id hid b hb ↦ ?_⟩,
    fun hopen id hid b hb ↦ ?_⟩
  · rw [hentry]
    exact pairwise_map.2 (hE.sublist filter_sublist)
  · rw [hentry] at hi
    simp only [groupOf, getElem?_map, Option.map_eq_some_iff] at hi
    obtain ⟨x, hx, rfl⟩ := hi
    obtain ⟨hmem, hin⟩ := mem_filter.1 (mem_of_getElem? hx)
    refine ⟨_, h.entry x hmem, ?_⟩
    have hchunk := h.chunks txn i x hx
    simp only [recoveredBatch, ExtentCatalogEntry.inGroup] at hin ⊢
    cases hgroup : x.atomicGroup with
    | none => rw [hgroup] at hin; cases hin
    | some gs =>
      rw [hgroup] at hin hchunk
      simp only [Option.map_some, Option.some.injEq] at hchunk
      have htxn : gs.transactionId = txn := by simpa using hin
      simp [AtomicGroupSequence.identity, htxn, hchunk]
  · rw [hentry]
    simp [groupOf]
  · rw [← hsum (·.payloadBytes) (·.payloadBytes) fun _ ↦ rfl, hentry]
    rfl
  · rw [← hsum (·.reservation.recordCount.get) (·.reservation.recordCount.get) fun _ ↦ rfl, hentry]
    rfl
  · rw [h.finalizedGroups, hentry]
    cases hdecision : ctx.outcomes.get txn with
    | none => simp
    | some o =>
      have hne := hout txn
      rw [hdecision] at hne
      simpa using fun h : o = .unresolved ↦ hne (congrArg some h)
  · rw [hstatus id hid b hb, hopen]
    simp [AtomicGroupState.batchStatus]
  · rw [hstatus id hid b hb, hopen]
    simp [AtomicGroupState.batchStatus]

theorem CommandRun.books {start : PartitionState}
    (hrun : CommandRun (fun st c ↦ c.KeepsGroups st) start st)
    (hstart : PartitionStart config start) :
    st.Sound ∧ ∀ txn g, st.atomicGroups.get txn = some g → st.Books txn g := by
  induction hrun with
  | refl =>
    refine ⟨hstart.sound_and_exact.1, fun txn g hg ↦ ?_⟩
    cases hstart with
    | created => cases hg
    | recovered he hrec hst =>
      obtain ⟨s, st₀, hb, hst₀, -, hr⟩ := he.recovered hrec hst
      refine hr.books (hb.entries_pairwise hst₀) (fun txn ↦ ?_) hg
      rw [(hb.backed _ st₀ hst₀).outcomes_get]
      exact he.finalizedGroups_ne hst₀ txn
  | tail _ hstep ih =>
    obtain ⟨answer, c, hkeeps, rfl⟩ := hstep
    obtain ⟨hs, hbooks⟩ := ih
    have hout := c.outcome hs answer
    exact ⟨hout.core_effect.sound hs, fun txn g hg ↦ hout.books hs hbooks hkeeps hg⟩

/-- **Group bookkeeping matches the batches** in every state that commands which respect the groups
reach from a created or a recovered partition. -/
theorem groups_bookkept_of_run {config : EngineConfig} {start st : PartitionState}
    (hstart : PartitionStart config start)
    (hrun : CommandRun (fun st c ↦ c.KeepsGroups st) start st) {txn : Nat} {g : AtomicGroupRuntime}
    (hg : st.atomicGroups.get txn = some g) : st.Bookkept txn g :=
  ((hrun.books hstart).2 txn g hg).toBookkept

/-- The leader reserves the first chunk of a group. -/
def reserveChunk : Command :=
  .reserve ⟨⟨0, 0⟩, 0, none, some ⟨7, 0⟩, .one, 1, 0, none⟩

/-- The leader reserves the second chunk of the group. -/
def reserveSecondChunk : Command :=
  .reserve ⟨⟨0, 0⟩, 0, none, some ⟨7, 1⟩, .one, 1, 0, none⟩

/-- Both chunks of the group are pending. -/
def pipelined : PartitionState :=
  (reserveSecondChunk.run (reserveChunk.run oneLane (.ok ())).state (.ok ())).state

/-- The second chunk has failed. -/
def secondFailed : PartitionState :=
  (Command.run pipelined (.ok ()) (.fail secondBatch none true)).state

theorem secondFailed_run : CommandRun (fun st c ↦ c.KeepsGroups st) oneLane secondFailed := by
  have hlast : (pipelined.batches.get 1).all (·.atomicGroup == some ⟨7, 1⟩) = true ∧
      (pipelined.atomicGroups.get 7).any (·.batchIds.getLast? == some 1) = true := by decide +kernel
  have hkeeps : (Command.fail secondBatch none true).KeepsGroups pipelined := by
    intro b identity hb _ htag
    simp only [Option.all_eq_true, Option.any_eq_true, beq_iff_eq] at hlast
    obtain ⟨htags, g, hg, hlast⟩ := hlast
    obtain rfl : identity = ⟨7, 1⟩ := Option.some.inj (htag.symm.trans (htags b hb))
    exact ⟨g, hg, hlast⟩
  exact .tail (.tail (.single ⟨.ok (), reserveChunk, trivial, rfl⟩)
    ⟨.ok (), reserveSecondChunk, trivial, rfl⟩) ⟨.ok (), .fail secondBatch none true, hkeeps, rfl⟩

/-- The group of which the last chunk has failed lists the first one. -/
theorem bookkept_secondFailed : ∃ g, secondFailed.atomicGroups.get 7 = some g ∧ g.batchIds = [0] ∧
    secondFailed.Bookkept 7 g := by
  have hlisted : (secondFailed.atomicGroups.get 7).any (·.batchIds == [0]) = true := by
    decide +kernel
  simp only [Option.any_eq_true, beq_iff_eq] at hlisted
  obtain ⟨g, hg, hids⟩ := hlisted
  exact ⟨g, hg, hids, groups_bookkept_of_run oneLane_created secondFailed_run hg⟩

/-- Two chunks of one group are reserved, and the first one is reported as not written. -/
def failedFirstChunk : List Action :=
  let record : NonZeroU32 := .one
  [.create ⟨0, 0⟩ [0] ⟨1, 1, 1⟩, .reserve ⟨0, 0⟩ none (some ⟨7, 0⟩) record 1 0,
    .reserve ⟨0, 0⟩ none (some ⟨7, 1⟩) record 1 0, .fail ⟨0, 0⟩ 0]

/-- **An open group can list an aborted batch.** -/
theorem failed_first_chunk_stays_listed : ∃ e st g, EngineReachable ⟨1, 1, 1⟩ .any e ∧
    e.states.get ⟨0, 0⟩ = some st ∧ st.atomicGroups.get 7 = some g ∧ ¬ st.Bookkept 7 g := by
  obtain ⟨e, st, he, hst, h⟩ := Engine.exists_of_play ⟨1, 1, 1⟩ failedFirstChunk ⟨0, 0⟩
    (fun _ st ↦ ∃ g, st.atomicGroups.get 7 = some g ∧ g.state = .unresolved ∧ g.batchIds = [0, 1] ∧
      ∃ b, st.batches.get 0 = some b ∧ b.status = .aborted)
    Guard.any_implies (by decide +kernel)
  obtain ⟨g, hg, hopen, hids, b, hb, haborted⟩ := h
  exact ⟨e, st, g, he, hst, hg, fun hbook ↦ hbook.opened hopen 0 (by simp [hids]) b hb haborted⟩

end ShardStream
