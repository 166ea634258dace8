import ShardStream.Library.Merge
import ShardStream.Engine.Layout
import ShardStream.Storage.Fetch

/-!
# Fetching

A fetch talks to the coordinator and to every shard. The coordinator gives the bounds of what is
visible; each shard plans, from its index, the extents of the partition from the requested offset
on, within a budget; the coordinator then tells which of the planned batches are committed. The
plans are merged by offset, and from the merge the committed batches below the visible end are
selected, again within the budget. The shards read what was selected, and the batches are put in the
order of the merge.

`selectLoop_eq` says what the selection is in the ordered modes, and `contains_committedCandidates`
what the packed answer of the coordinator means.
-/

namespace ShardStream

open List

variable {candidates : List Nat} {set committed : CommittedBatchSet}
  {batchId orderedEnd maxBytes room used : Nat} {mode : FetchMode} {taken : Bool}
  {xs : List (Nat × StoredBatchMetadata)}

/-! ### Requests -/

/-- `FetchMode`. -/
inductive FetchMode where
  | ordered
  | replicated
  | asAvailable
  deriving DecidableEq

/-- `FetchRequest`, without the number the answer is tagged with. -/
structure FetchRequest where
  topicPartition : TopicPartition
  startOffset : Nat
  maxBytes : Nat
  mode : FetchMode
  deriving DecidableEq

/-- `MAX_FETCH_PLAN_BATCHES_PER_SHARD`. -/
def maxFetchPlanBatchesPerShard : Nat := 4096

/-- `impl Display for StorageError`. -/
def StorageError.display : StorageError → String
  | .io message => s!"storage I/O error: {message}"
  | .invalidInput message => s!"invalid storage input: {message}"
  | .limitExceeded message => s!"storage limit exceeded: {message}"
  | .corrupt pack offset reason => s!"corrupt storage at {pack}:{offset}: {reason}"

/-- `impl From<StorageError> for EngineError`, applied by `?`. -/
def liftStorage {α : Type} : Except StorageError α → Except EngineError α
  | .ok a => .ok a
  | .error e => .error (.storage e.display)

@[simp] theorem liftStorage_eq_ok_iff {α : Type} {x : Except StorageError α} {a : α} :
    liftStorage x = .ok a ↔ x = .ok a := by
  cases x <;> simp [liftStorage]

/-- The end of what the request may see. -/
def PartitionCore.FetchBounds.fetchEnd (bounds : PartitionCore.FetchBounds) (mode : FetchMode)
    (includeUnresolved : Bool) : Nat :=
  if includeUnresolved then bounds.physicalEnd
  else match mode with
    | .replicated => bounds.replicatedEnd
    | .ordered | .asAvailable => bounds.orderedEnd

/-- The end of what a request may see of the partition. -/
def PartitionCore.fetchEnd (st : PartitionCore) (mode : FetchMode) (includeUnresolved : Bool) :
    Nat :=
  (⟨st.contiguousLogEnd, st.lastStableOffset, st.replicatedEnd⟩ :
    PartitionCore.FetchBounds).fetchEnd mode includeUnresolved

/-! ### Committed batches -/

/-- `CommittedBatchSet`: a bit for each batch id of a window. -/
structure CommittedBatchSet where
  firstBatchId : Nat
  len : Nat
  words : List (BitVec 64)

namespace CommittedBatchSet

/-- `CommittedBatchSet::new`. -/
def new (firstBatchId len : Nat) : CommittedBatchSet :=
  ⟨firstBatchId, len, replicate ((len + 63) / 64) 0⟩

/-- The position of a batch id in the window, if it has one. -/
def relative (set : CommittedBatchSet) (batchId : Nat) : Option Nat :=
  if set.firstBatchId ≤ batchId ∧ batchId - set.firstBatchId < 2 ^ 64 ∧
      batchId - set.firstBatchId < set.len then some (batchId - set.firstBatchId)
  else none

/-- `CommittedBatchSet::insert`. -/
def insert (set : CommittedBatchSet) (batchId : Nat) : CommittedBatchSet :=
  match set.relative batchId with
  | some relative => { set with
      words := set.words.modify (relative / 64) (· ||| (1#64 <<< (relative % 64))) }
  | none => set

/-- `CommittedBatchSet::contains`. -/
def contains (set : CommittedBatchSet) (batchId : Nat) : Bool :=
  match set.relative batchId with
  | some relative => set.words.getD (relative / 64) 0 &&& (1#64 <<< (relative % 64)) != 0
  | none => false

end CommittedBatchSet

/-- The statuses that the query accepts. -/
def BatchRuntime.fetchable (includeUnresolved : Bool) (b : BatchRuntime) : Bool :=
  b.status == .committed || includeUnresolved && b.status == .unresolved

/-- The query accepts the batch with this id. -/
def PartitionCore.fetchable (st : PartitionCore) (includeUnresolved : Bool) (batchId : Nat) :
    Bool :=
  (st.batches.get batchId).any (BatchRuntime.fetchable includeUnresolved)

/-- `committed_candidates`. -/
def committedCandidates (st : PartitionCore) (candidates : List Nat) (includeUnresolved : Bool) :
    Except EngineError CommittedBatchSet :=
  match candidates.min?, candidates.max? with
  | some first, some last =>
    if 2 ^ 64 ≤ last - first + 1 then
      .error (.invalidConfig "fetch candidate window exceeds usize")
    else .ok ((candidates.filter (st.fetchable includeUnresolved)).foldl CommittedBatchSet.insert
      (.new first (last - first + 1)))
  | _, _ => .ok (.new 0 0)

/-! ### Selection -/

/-- `FetchSelection`. -/
structure FetchSelection where
  byShard : List (List StoredBatchMetadata)
  mergeOrder : List Nat

/-- The loop of `select_fetch_plan_bounded`, over the planned extents in the order in which they
leave the heap. `room` more extents may be selected, the selected ones have `used` bytes, and
`taken` tells whether there are any. -/
def selectLoop (mode : FetchMode) (orderedEnd : Nat) (committed : CommittedBatchSet)
    (maxBytes : Nat) : Nat → Nat → Bool → List (Nat × StoredBatchMetadata) →
      Except EngineError (List (Nat × StoredBatchMetadata))
  | 0, _, _, _ => .ok []
  | _, _, _, [] => .ok []
  | room + 1, used, taken, (lane, m) :: rest =>
    if mode ≠ .asAvailable ∧ orderedEnd ≤ m.reservation.lastOffset then .ok []
    else if committed.contains m.reservation.batchId = false then
      if mode ≠ .asAvailable ∧ orderedEnd ≤ m.reservation.firstOffset then .ok []
      else selectLoop mode orderedEnd committed maxBytes (room + 1) used taken rest
    else if 2 ^ 64 ≤ used + m.payloadLen then
      .error (.invalidConfig "selected fetch byte count overflow")
    else if taken ∧ maxBytes < used + m.payloadLen then .ok []
    else (selectLoop mode orderedEnd committed maxBytes room (used + m.payloadLen) true rest).map
      ((lane, m) :: ·)

/-- Where a planned extent begins. -/
def StoredBatchMetadata.firstOffset (m : StoredBatchMetadata) : Nat := m.reservation.firstOffset

/-- `select_fetch_plan_bounded`. The heap holds the next extent of each shard, and nothing of what
the loop decides changes the order in which it gives them out. -/
def selectFetchPlanBounded (shardPlans : List (List StoredBatchMetadata)) (mode : FetchMode)
    (orderedEnd : Nat) (committed : CommittedBatchSet) (maxBytes maxBatches : Nat) :
    Except EngineError FetchSelection :=
  (selectLoop mode orderedEnd committed maxBytes maxBatches 0 false
    (Lanes.merge StoredBatchMetadata.firstOffset shardPlans)).map fun selected ↦
      ⟨Lanes.deal shardPlans.length selected, selected.map Prod.fst⟩

/-- `select_fetch_plan`: `usize::MAX` batches may be selected. -/
def selectFetchPlan (shardPlans : List (List StoredBatchMetadata)) (mode : FetchMode)
    (orderedEnd : Nat) (committed : CommittedBatchSet) (maxBytes : Nat) :
    Except EngineError FetchSelection :=
  selectFetchPlanBounded shardPlans mode orderedEnd committed maxBytes (2 ^ 64 - 1)

/-- `materialize_stored_batches`. -/
def materializeStoredBatches (lanes : List (List StoredBatch)) (mergeOrder : List Nat) :
    Except EngineError (List StoredBatch) :=
  Lanes.takeTurns (.corruptState "fetch materialization did not match its plan") lanes mergeOrder

/-- `fetch_stored_internal`, on a partition and shards that do not change meanwhile. -/
def fetchStoredInternal (maxFetchBytes : Nat) (st : PartitionCore) (shards : List ShardStore)
    (request : FetchRequest) (includeUnresolved : Bool) : Except EngineError (List StoredBatch) :=
  if request.maxBytes = 0 then
    .error (.invalidConfig "invalid fetch request: InvalidRequest: max_bytes must be nonzero")
  else if maxFetchBytes < request.maxBytes then
    .error (.invalidConfig
      s!"fetch max_bytes {request.maxBytes} exceeds configured maximum {maxFetchBytes}")
  else do
    let bounds ← st.fetchBounds request.startOffset
    let shardPlans ← shards.mapM fun shard ↦ liftStorage (shard.planFetch request.topicPartition
      request.startOffset request.maxBytes maxFetchPlanBatchesPerShard)
    let committed ← committedCandidates st (shardPlans.flatten.map (·.reservation.batchId))
      includeUnresolved
    let selection ← selectFetchPlan shardPlans request.mode
      (bounds.fetchEnd request.mode includeUnresolved) committed request.maxBytes
    let shardBatches ← (shards.zip selection.byShard).mapM fun (shard, planned) ↦
      liftStorage (shard.readFetchPlan planned)
    materializeStoredBatches shardBatches selection.mergeOrder

/-! ### What the packed answer means -/

namespace CommittedBatchSet

variable {first len batchId' : Nat}

theorem and_shiftLeft_ne_zero_iff (word : BitVec 64) {i : Nat} (hi : i < 64) :
    word &&& (1#64 <<< i) ≠ 0 ↔ word.getLsbD i = true := by
  rw [← BitVec.twoPow_eq, BitVec.and_twoPow]
  split_ifs with h
  · refine iff_of_true (fun hzero ↦ ?_) h
    have hbit := BitVec.getLsbD_twoPow (w := 64) i i
    rw [hzero] at hbit
    simp [hi] at hbit
  · exact iff_of_false (by simp) h

/-- The words cover the window. -/
def Covered (set : CommittedBatchSet) : Prop := set.len ≤ 64 * set.words.length

theorem covered_new (first len : Nat) : (new first len).Covered := by
  simp only [Covered, new, length_replicate]
  omega

theorem relative_insert : (set.insert batchId).relative batchId' = set.relative batchId' := by
  unfold insert
  split <;> rfl

theorem Covered.insert (h : set.Covered) (batchId : Nat) : (set.insert batchId).Covered := by
  unfold CommittedBatchSet.insert
  split
  · simpa [Covered] using h
  · exact h

/-- The bit of a position, by cases on its word. -/
theorem getD_modify_and_ne_zero_iff {words : List (BitVec 64)} {i j : Nat}
    (hi : i < 64 * words.length) :
    (words.modify (i / 64) (· ||| (1#64 <<< (i % 64)))).getD (j / 64) 0 &&&
        (1#64 <<< (j % 64)) ≠ 0 ↔
      i = j ∨ words.getD (j / 64) 0 &&& (1#64 <<< (j % 64)) ≠ 0 := by
  have hj : j % 64 < 64 := Nat.mod_lt _ (by decide)
  rw [and_shiftLeft_ne_zero_iff _ hj, and_shiftLeft_ne_zero_iff _ hj]
  by_cases hword : i / 64 = j / 64
  · have hlt : j / 64 < words.length := by omega
    have hsame : i % 64 = j % 64 ↔ i = j := by omega
    have hi' : i % 64 < 64 := Nat.mod_lt _ (by decide)
    simp [hword, hlt, ← BitVec.twoPow_eq, hsame, hi', or_comm]
  · have hne : i ≠ j := fun h ↦ hword (by rw [h])
    simp [hword, hne]

theorem contains_insert (h : set.Covered) (hin : (set.relative batchId).isSome) :
    (set.insert batchId).contains batchId' = true ↔
      batchId = batchId' ∨ set.contains batchId' = true := by
  obtain ⟨i, hi⟩ := Option.isSome_iff_exists.1 hin
  have hi' := hi
  unfold relative at hi'
  split_ifs at hi' with hrange
  cases hi'
  rw [contains, relative_insert, contains]
  cases hj : set.relative batchId' with
  | none =>
    refine iff_of_false (by simp) ?_
    rintro (rfl | h)
    · rw [hi] at hj
      cases hj
    · cases h
  | some j =>
    have hj' := hj
    unfold relative at hj'
    split_ifs at hj' with hrange'
    cases hj'
    have hbits := @getD_modify_and_ne_zero_iff set.words (batchId - set.firstBatchId)
      (batchId' - set.firstBatchId) (by unfold Covered at h; omega)
    have heq : batchId - set.firstBatchId = batchId' - set.firstBatchId ↔ batchId = batchId' := by
      omega
    rw [heq] at hbits
    simpa [insert, hi] using hbits

theorem contains_new : (new first len).contains batchId = false := by
  unfold contains
  split
  · rename_i i hi
    have hword : (replicate ((len + 63) / 64) (0 : BitVec 64)).getD (i / 64) 0 = 0 := by
      rw [getD_eq_getElem?_getD, getElem?_replicate]
      split_ifs <;> rfl
    rw [new, hword]
    simp
  · rfl

theorem contains_foldl_insert (h : set.Covered)
    (hin : ∀ id ∈ candidates, (set.relative id).isSome) :
      (candidates.foldl insert set).contains batchId = true ↔ batchId ∈ candidates ∨
      set.contains batchId = true := by
  induction candidates generalizing set with
  | nil => simp
  | cons id candidates ih =>
    obtain ⟨hid, hin⟩ := forall_mem_cons.1 hin
    rw [foldl_cons, ih (h.insert id) fun id' hid' ↦ by rw [relative_insert]; exact hin id' hid',
      contains_insert h hid, mem_cons]
    tauto

end CommittedBatchSet

section Candidates

variable {st : PartitionCore} {includeUnresolved : Bool}

/-- **The answer to the query** holds the candidates that the coordinator accepts. -/
theorem contains_committedCandidates
    (h : committedCandidates st candidates includeUnresolved = .ok set) :
    set.contains batchId = true ↔
      batchId ∈ candidates ∧ st.fetchable includeUnresolved batchId = true := by
  unfold committedCandidates at h
  split at h
  next first last hmin hmax =>
    split_ifs at h with hspan
    cases h
    rw [CommittedBatchSet.contains_foldl_insert (CommittedBatchSet.covered_new ..),
      CommittedBatchSet.contains_new]
    · simp
    · intro id hid
      obtain ⟨hid, -⟩ := mem_filter.1 hid
      have hle := (min?_eq_some_iff.1 hmin).2 id hid
      have hge := (max?_eq_some_iff.1 hmax).2 id hid
      have hrelative : (CommittedBatchSet.new first (last - first + 1)).relative id =
          some (id - first) := if_pos ⟨hle, by dsimp only [CommittedBatchSet.new]; omega⟩
      rw [hrelative]
      rfl
  next hnone =>
    cases h
    have hempty : candidates = [] := by
      cases hmin : candidates.min? with
      | none => exact min?_eq_none_iff.1 hmin
      | some first =>
        cases hmax : candidates.max? with
        | none => exact max?_eq_none_iff.1 hmax
        | some last => exact absurd hmax (hnone first last hmin)
    simp [hempty, CommittedBatchSet.contains_new]

/-- The query is answered when the candidates lie within a window of `2 ^ 64 - 1` ids. -/
theorem exists_committedCandidates (first : Nat)
    (h : ∀ id ∈ candidates, first ≤ id ∧ id < first + (2 ^ 64 - 1)) :
    ∃ set, committedCandidates st candidates includeUnresolved = .ok set := by
  unfold committedCandidates
  split
  next least last hmin hmax =>
    have hleast := h least (min?_eq_some_iff.1 hmin).1
    have hlast := h last (max?_eq_some_iff.1 hmax).1
    exact ⟨_, if_neg (by omega)⟩
  next => exact ⟨_, rfl⟩

end Candidates

/-! ### What is selected -/

/-- In the ordered modes, what is selected is committed and lies below the end. -/
theorem selectLoop_sublist (hmode : mode ≠ .asAvailable) {ys : List (Nat × StoredBatchMetadata)}
    (h : selectLoop mode orderedEnd committed maxBytes room used taken xs = .ok ys) :
    ys.Sublist (xs.filter fun p ↦ committed.contains p.2.reservation.batchId) ∧
      ∀ p ∈ ys, p.2.reservation.lastOffset < orderedEnd := by
  induction xs generalizing room used taken ys with
  | nil => cases room <;> cases h <;> simp
  | cons p xs ih =>
    cases room with
    | zero => cases h; simp
    | succ room =>
      rw [selectLoop] at h
      split_ifs at h with hend hcommitted hstart hoverflow hfull
      · cases h; simp
      · cases h; simp
      · rw [filter_cons_of_neg (by simp [hcommitted])]
        exact ih h
      · cases h; simp
      · obtain ⟨zs, hzs, rfl⟩ := map_eq_ok_iff.1 h
        obtain ⟨hsub, hbelow⟩ := ih hzs
        rw [filter_cons_of_pos (by simpa using hcommitted)]
        refine ⟨hsub.cons_cons _, forall_mem_cons.2 ⟨?_, hbelow⟩⟩
        by_contra hle
        exact hend ⟨hmode, Nat.le_of_not_lt hle⟩

/-- **The selection in the ordered modes**: the committed ones among the extents before the first
that reaches the end, within the budget. -/
theorem selectLoop_eq (hmode : mode ≠ .asAvailable)
    (hrange : ∀ p ∈ xs, p.2.reservation.firstOffset ≤ p.2.reservation.lastOffset) :
    selectLoop mode orderedEnd committed maxBytes room used taken xs =
      Budget.takeWithin (fun p ↦ p.2.payloadLen) maxBytes
        (.invalidConfig "selected fetch byte count overflow") room used taken
        ((xs.takeWhile fun p ↦ decide (p.2.reservation.lastOffset < orderedEnd)).filter
          fun p ↦ committed.contains p.2.reservation.batchId) := by
  induction xs generalizing room used taken with
  | nil => cases room <;> rfl
  | cons p xs ih =>
    obtain ⟨lane, m⟩ := p
    obtain ⟨hm, hrange⟩ := forall_mem_cons.1 hrange
    cases room with
    | zero => rfl
    | succ room =>
      rw [selectLoop]
      by_cases hend : orderedEnd ≤ m.reservation.lastOffset
      · rw [if_pos ⟨hmode, hend⟩, takeWhile_cons_of_neg (by simpa using hend)]
        rfl
      · rw [if_neg fun h ↦ hend h.2, takeWhile_cons_of_pos (by simpa using hend)]
        have hstart : ¬ (mode ≠ .asAvailable ∧ orderedEnd ≤ m.reservation.firstOffset) := by
          dsimp only at hm
          omega
        cases hc : committed.contains m.reservation.batchId with
        | false =>
          rw [if_neg hstart, filter_cons_of_neg (by simp [hc])]
          exact ih hrange
        | true =>
          rw [if_neg (by simp), filter_cons_of_pos (by simpa using hc), Budget.takeWithin]
          split_ifs
          · rfl
          · rfl
          · rw [ih hrange]

/-! ### What is returned -/

/-- The batches come out in the order in which they were selected. -/
theorem reservation_materialize {shardPlans : List (List StoredBatchMetadata)}
    {selected : List (Nat × StoredBatchMetadata)} {shardBatches : List (List StoredBatch)}
    {batches : List StoredBatch} (hlanes : ∀ p ∈ selected, p.1 < shardPlans.length)
    (hread : shardBatches.map (map StoredBatch.reservation) =
      (Lanes.deal shardPlans.length selected).map (map (·.reservation)))
    (h : materializeStoredBatches shardBatches (selected.map Prod.fst) = .ok batches) :
    batches.map StoredBatch.reservation = selected.map (·.2.reservation) := by
  unfold materializeStoredBatches at h
  have hturns := congrArg (Except.map (map StoredBatch.reservation)) h
  rw [← Lanes.takeTurns_map, hread, Lanes.takeTurns_map, Lanes.takeTurns_deal _ hlanes] at hturns
  have heq := Except.ok.inj hturns
  rw [map_map] at heq
  exact heq.symm

end ShardStream
