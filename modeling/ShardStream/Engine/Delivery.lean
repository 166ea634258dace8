import ShardStream.Engine.Sharded

/-!
# What a fetch delivers

A fetch that nothing interferes with, on any partition and any distribution of its batches over
shards. Two cuts are made: each shard plans only so many extents and bytes (its window), and from
what the shards planned only so many bytes are taken. The cuts of the shards are made before
anything is known about the other shards and about the statuses of the batches.

`ShardLayout.fetch_spec` says what is returned: of the committed and visible extents that are within
the windows of their shards, in offset order, those that fit.
-/

namespace ShardStream

open PartitionCore List

variable {tp : TopicPartition} {startOffset maxBytes : Nat} {shard : ShardStore}
  {l : ExtentLocation} {p : Nat × StoredBatchMetadata} {mode : FetchMode}
  {checksum : ExtentChecksum} {st : PartitionState} {shards : List ShardStore}

/-- The shards hold the batches of a partition: every extent is of a batch that the partition
retains or has truncated, no extent is on two shards, and every committed batch has one. -/
structure ShardLayout (checksum : ExtentChecksum) (st : PartitionState)
    (tp : TopicPartition) (shards : List ShardStore) : Prop where
  layout : st.Layout
  holds : ∀ shard ∈ shards, ∃ front last, shard.Holds checksum front last
  known : ∀ shard ∈ shards, ∀ l ∈ shard.ix.locations tp,
    l.reservation.firstOffset ≤ l.reservation.lastOffset ∧ st.Knows l.reservation
  apart : ∀ (i j : Nat) (shard shard' : ShardStore), shards[i]? = some shard →
    shards[j]? = some shard' → i < j → ∀ l ∈ shard.ix.locations tp,
      ∀ l' ∈ shard'.ix.locations tp, l.reservation ≠ l'.reservation
  committed : ∀ key b, st.batches.get key = some b → b.status = .committed →
    ∃ shard ∈ shards, ∃ l ∈ shard.ix.locations tp, l.reservation = b.reservation

section Reachable

variable {config : EngineConfig} {s : ShardedEngine}

namespace ShardedReachable

variable (h : ShardedReachable checksum config s)

include h

theorem mem_locations_iff (hshard : shard ∈ s.shards) :
    l ∈ shard.ix.locations tp ↔ l ∈ shard.ix.byBatch ∧ l.reservation.topicPartition = tp := by
  obtain ⟨i, hi⟩ := mem_iff_getElem?.1 hshard
  obtain ⟨⟨front, last, hholds⟩, -⟩ := h.sound.shards i shard hi
  rw [(hholds.ordered.perm tp).mem_iff]
  simp

theorem places {i : Nat} (hi : s.shards[i]? = some shard) (hl : l ∈ shard.ix.locations tp) :
    s.Places i l.reservation :=
  (h.sound.shards _ _ hi).2 _ ((h.mem_locations_iff (mem_of_getElem? hi)).1 hl).1

/-- What is indexed for a partition is known to it. -/
theorem knows_location (hst : s.engine.states.get tp = some st) (hshard : shard ∈ s.shards)
    (hl : l ∈ shard.ix.locations tp) :
    l.reservation.firstOffset ≤ l.reservation.lastOffset ∧ st.Knows l.reservation := by
  obtain ⟨i, hi⟩ := mem_iff_getElem?.1 hshard
  obtain ⟨-, hrange, st', hst', hknows⟩ := h.places hi hl
  rw [((h.mem_locations_iff hshard).1 hl).2, hst] at hst'
  cases hst'
  exact ⟨hrange, hknows⟩

/-- A batch that was completed is on a shard. -/
theorem exists_location (hst : s.engine.states.get tp = some st) {key : Nat} {b : BatchRuntime}
    (hb : st.batches.get key = some b) (hstatus : b.status = .committed ∨ b.status = .unresolved) :
    ∃ shard ∈ s.shards, ∃ l ∈ shard.ix.locations tp, l.reservation = b.reservation := by
  have hsound := h.sound
  obtain ⟨x, hx, hkey⟩ := hsound.reachable.durable hst hb hstatus
  obtain ⟨htp, rfl⟩ := ExtentCatalogEntry.key_eq_iff.1 hkey
  rcases h.complete x hx with ⟨shard, hshard, l, hmem, heq⟩ | ⟨st', hst', hlt⟩
  · have hmem : l ∈ shard.ix.locations tp :=
      (h.mem_locations_iff hshard).2 ⟨hmem, by rw [heq]; exact htp⟩
    obtain ⟨held, hheld, hsame⟩ :=
      (h.knows_location hst hshard hmem).2.retains (by rw [heq]; exact hb)
    rw [heq, hb] at hheld
    cases hheld
    exact ⟨shard, hshard, l, hmem, hsame.symm⟩
  · -- a batch that is held is not below the log start
    obtain ⟨-, st'', hst'', hknows⟩ := hsound.reachable.extentsKnown x hx
    rw [htp, hst] at hst' hst''
    cases hst'
    cases hst''
    have := (hknows.retains hb).range (hsound.reachable.sound_and_tagged hst).1.layout
    omega

/-- **The shards of a reachable engine hold its batches**, through restarts and garbage
collection. -/
theorem shardLayout (hst : s.engine.states.get tp = some st) :
    ShardLayout checksum st tp s.shards := by
  refine ⟨(h.sound.reachable.sound_and_tagged hst).1.layout, fun shard hshard ↦ ?_,
    fun shard hshard l hl ↦ h.knows_location hst hshard hl, ?_,
    fun key b hb hstatus ↦ h.exists_location hst hb (.inl hstatus)⟩
  · obtain ⟨i, hi⟩ := mem_iff_getElem?.1 hshard
    exact (h.sound.shards i shard hi).1
  · -- one lane is on one shard
    intro i j shard shard' hi hj hij l hmem l' hmem' heq
    have hlane := (h.places hi hmem).1
    have hlane' := (h.places hj hmem').1
    rw [heq] at hlane
    omega

/-- **A completed batch can be read** from the shard of its lane, and from no other, through
crashes, restarts and garbage collection. -/
theorem completed_batch_read_iff (hst : s.engine.states.get tp = some st) {key i : Nat}
    {b : BatchRuntime} (hb : st.batches.get key = some b)
    (hstatus : b.status = .committed ∨ b.status = .unresolved) (hi : s.shards[i]? = some shard) :
    (∃ batch, shard.readBatch b.reservation = .ok (some batch) ∧
        batch.reservation = b.reservation) ↔
      physicalShardForLane s.shards.length b.reservation.placement.virtualLaneId = i := by
  constructor
  · rintro ⟨batch, hread, -⟩
    unfold ShardStore.readBatch at hread
    split at hread
    · cases hread
    next l hl =>
      split_ifs at hread with heq
      exact not_not.1 heq ▸ ((h.sound.shards i shard hi).2 l (mem_of_find?_eq_some hl)).1
  · rintro rfl
    obtain ⟨_, hshard, l, hl, heq⟩ := h.exists_location hst hb hstatus
    obtain ⟨j, hj⟩ := mem_iff_getElem?.1 hshard
    rw [← heq, (h.places hj hl).1, hj] at hi
    cases hi
    obtain ⟨⟨front, last, hholds⟩, -⟩ := h.sound.shards j shard hj
    obtain ⟨x, hx, hsame⟩ := hholds.exists_frame ((h.mem_locations_iff hshard).1 hl).1
    rw [← heq, hsame]
    exact ⟨_, hholds.readBatch_eq hx, rfl⟩

end ShardedReachable

/-- The second of two batches is read from the second shard. -/
theorem second_batch_read : ∃ s shard r, ShardedReachable lengthChecksum ⟨2, 1, 1⟩ s ∧
    s.shards[1]? = some shard ∧
      ∃ batch, shard.readBatch r = .ok (some batch) ∧ batch.reservation = r := by
  obtain ⟨s, hs, st, hst, b, hb, shard, hi, hstatus, hlane⟩ :=
    ShardedEngine.exists_of_play lengthChecksum ⟨2, 1, 1⟩ ⟨1000, 100⟩ 2 onTwoShards
    (fun s ↦ ∃ st, s.engine.states.get ⟨0, 0⟩ = some st ∧ ∃ b, st.batches.get 1 = some b ∧
      ∃ shard, s.shards[1]? = some shard ∧ b.status = .committed ∧
        physicalShardForLane s.shards.length b.reservation.placement.virtualLaneId = 1)
    (by decide +kernel)
  exact ⟨s, shard, _, hs, hi, (hs.completed_batch_read_iff hst hb (.inl hstatus) hi).2 hlane⟩

end Reachable

/-! ### Windows -/

/-- The extent is in the window of its shard: of the shard's extents that reach the start, those
before it leave room for it. -/
def inWindow (tp : TopicPartition) (startOffset maxBytes : Nat) (shard : ShardStore)
    (l : ExtentLocation) : Bool :=
  decide (Budget.Fits ExtentLocation.payloadLen maxBytes maxFetchPlanBatchesPerShard
      ((shard.ix.locations tp).filter fun x ↦ decide (x.reservation.firstOffset <
        l.reservation.firstOffset) && decide (startOffset ≤ x.reservation.lastOffset)) l) &&
    decide (startOffset ≤ l.reservation.lastOffset)

/-- A shard with one extent has it in its window. -/
theorem inWindow_of_single (maxBytes : Nat) (h : (shard.ix.locations tp).length ≤ 1)
    (hl : l ∈ shard.ix.locations tp) (hle : startOffset ≤ l.reservation.lastOffset) :
    inWindow tp startOffset maxBytes shard l = true := by
  obtain ⟨l', hsingle⟩ := length_eq_one_iff.1 (le_antisymm h (length_pos_of_mem hl))
  rw [hsingle] at hl
  cases mem_singleton.1 hl
  simp [inWindow, hsingle, Budget.Fits, Budget.Within, maxFetchPlanBatchesPerShard, hle]

/-- The window of a shard. -/
def ShardStore.window (tp : TopicPartition) (startOffset maxBytes : Nat) (shard : ShardStore) :
    List ExtentLocation :=
  (shard.ix.locations tp).filter (inWindow tp startOffset maxBytes shard)

/-- The extents in the windows of all shards. -/
def windows (tp : TopicPartition) (startOffset maxBytes : Nat) (shards : List ShardStore) :
    List ExtentLocation :=
  shards.flatMap (ShardStore.window tp startOffset maxBytes)

/-- The batch of the reservation is accepted by the query, reaches the start and lies below the
end. -/
def deliverable (st : PartitionState) (includeUnresolved : Bool) (startOffset endOffset : Nat)
    (r : Reservation) : Bool :=
  decide (startOffset ≤ r.lastOffset) && decide (r.lastOffset < endOffset) &&
    st.fetchable includeUnresolved r.batchId

section Window

/-- In a list in offset order, the extents that reach the start are those from the first one on. -/
theorem dropWhile_eq_filter {ls : List ExtentLocation} (hl : st.Layout) (hsorted : OffsetSorted ls)
    (hknown : ∀ l ∈ ls, l.reservation.firstOffset ≤ l.reservation.lastOffset ∧
      st.Knows l.reservation) (hstart : st.logStart ≤ startOffset) :
    ls.dropWhile (fun l ↦ decide (l.reservation.lastOffset < startOffset)) =
      ls.filter fun l ↦ decide (startOffset ≤ l.reservation.lastOffset) := by
  rw [Budget.dropWhile_eq_filter_of_pairwise]
  · simp only [← decide_not, not_lt]
  refine hsorted.imp_of_mem fun {l l'} hl₁ hl₂ hle hlt ↦ ?_
  have hlt := of_decide_eq_true hlt
  obtain ⟨-, hk⟩ := hknown l hl₁
  obtain ⟨hrange', hk'⟩ := hknown l' hl₂
  refine decide_eq_true (not_le.1 fun hstart' ↦ ?_)
  -- the earlier one would be retained, so the later one starts above the log start and ends later
  have hfirst := ((hk.retains_of_le (by omega)).range hl).1
  have := (hk'.retains_of_le (by omega)).lastOffset_le hk hl hle
  omega

namespace ShardLayout

variable (h : ShardLayout checksum st tp shards)

include h

/-- The extents of a shard that reach the start have increasing and disjoint ranges. -/
theorem pairwise_filter (hshard : shard ∈ shards) (hstart : st.logStart ≤ startOffset) :
    ((shard.ix.locations tp).filter fun l ↦
      decide (startOffset ≤ l.reservation.lastOffset)).Pairwise
        fun a b ↦ a.reservation.lastOffset < b.reservation.firstOffset := by
  obtain ⟨front, last, hholds⟩ := h.holds shard hshard
  have hkeys := pairwise_map.1 (hholds.nodup_locations tp)
  refine (((hholds.ordered.sorted tp).and hkeys).sublist filter_sublist).imp_of_mem
    fun {a b} ha hb hab ↦ ?_
  obtain ⟨ha, hsa⟩ := mem_filter.1 ha
  obtain ⟨hb, hsb⟩ := mem_filter.1 hb
  have hsa := of_decide_eq_true hsa
  have hsb := of_decide_eq_true hsb
  refine ((h.known shard hshard a ha).2.retains_of_le (by omega)).lt_of_firstOffset_le
    ((h.known shard hshard b hb).2.retains_of_le (by omega)) h.layout hab.1 fun heq ↦ hab.2 ?_
  simp only [ExtentLocation.key, heq]

theorem payloadLen_lt (hshard : shard ∈ shards) (hl : l ∈ shard.ix.locations tp) :
    l.payloadLen < 2 ^ 63 := by
  obtain ⟨front, last, hholds⟩ := h.holds shard hshard
  obtain ⟨hl, -⟩ := mem_filter.1 ((hholds.ordered.perm tp).mem_iff.1 hl)
  obtain ⟨p, -, hl⟩ := mem_flatMap.1 (hholds.byBatch.mem_iff.1 hl)
  obtain ⟨x, -, offset, rfl⟩ := exists_of_mem_locate hl
  exact x.payload_lt

/-- **The plan of a shard** is its window. -/
theorem planFetch_eq (hshard : shard ∈ shards) (hstart : st.logStart ≤ startOffset)
    (hbytes : 0 < maxBytes) (hlimit : maxBytes ≤ 2 ^ 63) :
    shard.planFetch tp startOffset maxBytes maxFetchPlanBatchesPerShard =
      .ok ((shard.window tp startOffset maxBytes).map shard.metadataFor) := by
  obtain ⟨front, last, hholds⟩ := id (h.holds shard hshard)
  set ls := (shard.ix.locations tp).filter fun l ↦ decide (startOffset ≤ l.reservation.lastOffset)
    with hls
  have hdrop : (shard.ix.locations tp).dropWhile
      (fun l ↦ decide (l.reservation.lastOffset < startOffset)) = ls :=
    dropWhile_eq_filter h.layout (hholds.ordered.sorted tp) (h.known shard hshard) hstart
  have hsize : ∀ l ∈ ls, l.payloadLen < 2 ^ 63 := fun l hl ↦
    h.payloadLen_lt hshard (mem_filter.1 hl).1
  have hsorted : ls.Pairwise fun a b ↦ a.reservation.firstOffset < b.reservation.firstOffset :=
    (h.pairwise_filter hshard hstart).imp_of_mem fun {a b} ha _ hlt ↦ by
      have := (h.known shard hshard a (mem_filter.1 ha).1).1
      omega
  obtain ⟨count, htake, hcount⟩ := Budget.takeWithin_eq_take
    (StorageError.limitExceeded "fetch byte count overflow") maxFetchPlanBatchesPerShard hsize
      hlimit
  have hwindow : ls.take count = shard.window tp startOffset maxBytes := by
    rw [Budget.take_eq_filter hsorted hcount]
    simp only [hls, filter_filter]
    rfl
  rw [ShardStore.planFetch, if_neg (by simp [maxFetchPlanBatchesPerShard]; omega), hdrop, htake,
    hwindow]
  rfl

end ShardLayout

end Window

/-! ### Plans of all shards -/

section Plans

/-- The plans of all shards. -/
def windowPlans (tp : TopicPartition) (startOffset maxBytes : Nat) (shards : List ShardStore) :
    List (List StoredBatchMetadata) :=
  shards.map fun shard ↦ (shard.window tp startOffset maxBytes).map shard.metadataFor

/-- What leaves the merge is in the window of its shard. -/
theorem exists_of_mem_merged_windowPlans
    (hp : p ∈ Planned.merged (windowPlans tp startOffset maxBytes shards)) :
    ∃ shard l, shards[p.1]? = some shard ∧ l ∈ shard.window tp startOffset maxBytes ∧
      p.2 = shard.metadataFor l := by
  obtain ⟨plan, hplan, hm⟩ := Planned.exists_of_mem_merged hp
  rw [windowPlans, getElem?_map, Option.map_eq_some_iff] at hplan
  obtain ⟨shard, hshard, rfl⟩ := hplan
  obtain ⟨l, hl, heq⟩ := mem_map.1 hm
  exact ⟨shard, l, hshard, hl, heq.symm⟩

namespace ShardLayout

variable (h : ShardLayout checksum st tp shards)

include h

theorem knows_of_mem_window (hshard : shard ∈ shards)
    (hl : l ∈ shard.window tp startOffset maxBytes) : st.Knows l.reservation :=
  (h.known shard hshard l (mem_filter.1 hl).1).2

/-- What is in a window reaches the start, so it is retained. -/
theorem retains_of_mem_window (hshard : shard ∈ shards) (hstart : st.logStart ≤ startOffset)
    (hl : l ∈ shard.window tp startOffset maxBytes) :
    startOffset ≤ l.reservation.lastOffset ∧ st.Retains l.reservation := by
  have hreaches := of_decide_eq_true (Bool.and_eq_true_iff.1 (mem_filter.1 hl).2).2
  exact ⟨hreaches, (h.knows_of_mem_window hshard hl).retains_of_le (by omega)⟩

theorem planned (hstart : st.logStart ≤ startOffset) (hbytes : 0 < maxBytes)
    (hlimit : maxBytes ≤ 2 ^ 63) :
    Planned st startOffset (windowPlans tp startOffset maxBytes shards) := by
  refine .of_planShape h.layout tp (fun plan hplan ↦ ?_) (fun plan hplan m hm ↦ ?_) ?_
  · obtain ⟨shard, hshard, rfl⟩ := mem_map.1 hplan
    obtain ⟨front, last, hholds⟩ := id (h.holds shard hshard)
    exact ⟨shard, hholds.planShape (h.planFetch_eq hshard hstart hbytes hlimit)⟩
  · obtain ⟨shard, hshard, rfl⟩ := mem_map.1 hplan
    obtain ⟨l, hl, rfl⟩ := mem_map.1 hm
    exact h.knows_of_mem_window hshard hl
  · intro i j plan plan' hi hj hlt m hm m' hm'
    rw [windowPlans, getElem?_map, Option.map_eq_some_iff] at hi hj
    obtain ⟨shard, hshard, rfl⟩ := hi
    obtain ⟨shard', hshard', rfl⟩ := hj
    obtain ⟨l, hl, rfl⟩ := mem_map.1 hm
    obtain ⟨l', hl', rfl⟩ := mem_map.1 hm'
    exact h.apart i j shard shard' hshard hshard' hlt l (mem_filter.1 hl).1 l' (mem_filter.1 hl').1

theorem retains_of_mem_merged (hstart : st.logStart ≤ startOffset)
    (hp : p ∈ Planned.merged (windowPlans tp startOffset maxBytes shards)) :
    startOffset ≤ p.2.reservation.lastOffset ∧ st.Retains p.2.reservation := by
  obtain ⟨shard, l, hshard, hl, heq⟩ := exists_of_mem_merged_windowPlans hp
  rw [heq]
  exact h.retains_of_mem_window (mem_of_getElem? hshard) hstart hl

/-- What leaves the merge has increasing and disjoint ranges. -/
theorem pairwise_merged (hstart : st.logStart ≤ startOffset) (hbytes : 0 < maxBytes)
    (hlimit : maxBytes ≤ 2 ^ 63) :
    (Planned.merged (windowPlans tp startOffset maxBytes shards)).Pairwise fun p q ↦
      p.2.reservation.lastOffset < q.2.reservation.firstOffset :=
  ((h.planned hstart hbytes hlimit).pairwise_merged h.layout).imp_of_mem fun hp hq hpq ↦
    hpq (h.retains_of_mem_merged hstart hp).2 (h.retains_of_mem_merged hstart hq).2

/-- The query about the planned batches is answered. -/
theorem exists_committed (maxBytes : Nat) (hstart : st.logStart ≤ startOffset)
    (includeUnresolved : Bool) :
    ∃ committed, committedCandidates st.toPartitionCore
      ((windowPlans tp startOffset maxBytes shards).flatten.map (·.reservation.batchId))
      includeUnresolved = .ok committed := by
  refine exists_committedCandidates 0 fun id hid ↦ ?_
  obtain ⟨m, hm, rfl⟩ := mem_map.1 hid
  obtain ⟨plan, hplan, hm⟩ := mem_flatten.1 hm
  obtain ⟨shard, hshard, rfl⟩ := mem_map.1 hplan
  obtain ⟨l, hl, rfl⟩ := mem_map.1 hm
  obtain ⟨b, hb, -⟩ := (h.retains_of_mem_window hshard hstart hl).2
  have hlt := (DenseOrderedMap.lt_nextKey_of_get hb).2
  have := h.layout.nextBatchId
  have := h.layout.nextPlacementSequence
  have := h.layout.sequence_lt
  change 0 ≤ l.reservation.batchId ∧ l.reservation.batchId < 0 + (2 ^ 64 - 1)
  omega

end ShardLayout

end Plans

/-! ### The fetch -/

/-- Where a planned extent lies. -/
def extentOf (p : Nat × StoredBatchMetadata) : ExtentLocation := p.2.toExtentLocation

/-- What a fetch returns: `extents` are the deliverable extents of the windows in offset order, and
`delivered` those of them that fit. -/
structure Delivery (st : PartitionState) (tp : TopicPartition) (shards : List ShardStore)
    (startOffset maxBytes : Nat) (deliver : Reservation → Bool)
    (extents delivered : List ExtentLocation) : Prop where
  sorted : extents.Pairwise fun a b ↦ a.reservation.lastOffset < b.reservation.firstOffset
  ranges : ∀ l ∈ extents, l.reservation.firstOffset ≤ l.reservation.lastOffset
  perm : extents.Perm
    ((windows tp startOffset maxBytes shards).filter fun l ↦ deliver l.reservation)
  isPrefix : delivered <+: extents
  mem_iff : ∀ l, l ∈ delivered ↔ l ∈ extents ∧ Budget.Within ExtentLocation.payloadLen maxBytes
    (extents.filter fun x ↦ decide (x.reservation.firstOffset < l.reservation.firstOffset)) l

section Fetch

variable {endOffset : Nat} {includeUnresolved : Bool} {committed : CommittedBatchSet}

theorem map_extentOf_merged : ((Planned.merged (windowPlans tp startOffset maxBytes shards)).map
    extentOf).Perm (windows tp startOffset maxBytes shards) := by
  have hperm := ((Lanes.merge_perm StoredBatchMetadata.firstOffset
    (windowPlans tp startOffset maxBytes shards)).map Prod.snd).map
      StoredBatchMetadata.toExtentLocation
  rw [Lanes.map_snd_tagged, map_map] at hperm
  refine hperm.trans (Perm.of_eq ?_)
  rw [windowPlans, map_flatten, map_map]
  refine congrArg _ (map_congr_left fun shard _ ↦ ?_)
  rw [Function.comp_apply, map_map]
  exact map_id'' (fun _ ↦ rfl) _

variable (h : ShardLayout checksum st tp shards)

namespace ShardLayout

variable (hstart : st.logStart ≤ startOffset) (hbytes : 0 < maxBytes) (hlimit : maxBytes ≤ 2 ^ 63)

include h hstart hbytes hlimit

/-- The batches that the selection considers. -/
theorem filter_merged (hcommitted : committedCandidates st.toPartitionCore
      ((windowPlans tp startOffset maxBytes shards).flatten.map (·.reservation.batchId))
      includeUnresolved = .ok committed) :
    ((Planned.merged (windowPlans tp startOffset maxBytes shards)).takeWhile
        fun p ↦ decide (p.2.reservation.lastOffset < endOffset)).filter
        (fun p ↦ committed.contains p.2.reservation.batchId) =
      (Planned.merged (windowPlans tp startOffset maxBytes shards)).filter fun p ↦
        deliverable st includeUnresolved startOffset endOffset (extentOf p).reservation := by
  set M := Planned.merged (windowPlans tp startOffset maxBytes shards) with hM
  have hmonotone : M.Pairwise fun p q ↦ decide (q.2.reservation.lastOffset < endOffset) = true →
      decide (p.2.reservation.lastOffset < endOffset) = true :=
    (h.pairwise_merged hstart hbytes hlimit).imp_of_mem fun {p q} _ hq hlt ↦ by
      have := ((h.retains_of_mem_merged hstart hq).2.range h.layout).2.1
      simp only [decide_eq_true_eq]
      omega
  rw [Lanes.takeWhile_eq_filter hmonotone, filter_filter]
  refine filter_congr fun p hp ↦ ?_
  have hcandidate : p.2.reservation.batchId ∈ (windowPlans tp startOffset maxBytes
      shards).flatten.map (·.reservation.batchId) := by
    obtain ⟨plan, hplan, hm⟩ := Planned.exists_of_mem_merged hp
    exact mem_map_of_mem (mem_flatten_of_mem (mem_of_getElem? hplan) hm)
  have hcontains : committed.contains p.2.reservation.batchId = true ↔ _ :=
    contains_committedCandidates hcommitted
  rw [Bool.eq_iff_iff, Bool.and_eq_true, hcontains, deliverable, extentOf]
  have hreaches := (h.retains_of_mem_merged hstart hp).1
  simp only [hcandidate, true_and, hreaches, decide_true, Bool.and_eq_true]
  exact and_comm

/-- There are fewer planned extents than offsets. -/
theorem length_filter_merged (keep : Nat × StoredBatchMetadata → Bool) :
    ((Planned.merged (windowPlans tp startOffset maxBytes shards)).filter keep).length ≤
      2 ^ 64 - 1 := by
  set Q := (Planned.merged (windowPlans tp startOffset maxBytes shards)).filter keep with hQ
  have hretains : ∀ p ∈ Q, st.Retains p.2.reservation := fun p hp ↦
    (h.retains_of_mem_merged hstart (mem_filter.1 hp).1).2
  have hnodup : (Q.map fun p ↦ p.2.reservation.firstOffset).Nodup := by
    refine pairwise_map.2 (((h.pairwise_merged hstart hbytes hlimit).sublist
      filter_sublist).imp_of_mem fun {p q} hp _ hlt ↦ ?_)
    have := ((hretains p hp).range h.layout).2.1
    omega
  have hsub : (Q.map fun p ↦ p.2.reservation.firstOffset) ⊆
      range st.sequencer.nextOffset := fun offset hmem ↦ by
    obtain ⟨p, hp, rfl⟩ := mem_map.1 hmem
    have := (hretains p hp).range h.layout
    exact mem_range.2 (by omega)
  have hle := (hnodup.subperm hsub).length_le
  rw [length_map, length_range] at hle
  have := h.layout.offset_lt
  omega

/-- **The selection.** -/
theorem exists_selected (endOffset : Nat) (hmode : mode ≠ .asAvailable)
    (hcommitted : committedCandidates st.toPartitionCore
      ((windowPlans tp startOffset maxBytes shards).flatten.map (·.reservation.batchId))
      includeUnresolved = .ok committed) :
    ∃ selected extents, selectFetchPlan (windowPlans tp startOffset maxBytes shards) mode endOffset
        committed maxBytes = .ok ⟨Lanes.deal shards.length selected, selected.map Prod.fst⟩ ∧
      (∀ p ∈ selected, p ∈ Planned.merged (windowPlans tp startOffset maxBytes shards)) ∧
      Delivery st tp shards startOffset maxBytes
        (deliverable st includeUnresolved startOffset endOffset) extents
        (selected.map extentOf) := by
  set M := Planned.merged (windowPlans tp startOffset maxBytes shards) with hM
  set Q := M.filter fun p ↦
    deliverable st includeUnresolved startOffset endOffset (extentOf p).reservation with hQ
  have hQM : ∀ p ∈ Q, p ∈ M := fun p hp ↦ (mem_filter.1 hp).1
  have hranges : ∀ p ∈ M, p.2.reservation.firstOffset ≤ p.2.reservation.lastOffset := fun p hp ↦
    ((h.retains_of_mem_merged hstart hp).2.range h.layout).2.1
  have hsize : ∀ p ∈ Q, p.2.payloadLen < 2 ^ 63 := fun p hp ↦ by
    obtain ⟨shard, l, hshard, hl, heq⟩ := exists_of_mem_merged_windowPlans (hQM p hp)
    rw [heq]
    exact h.payloadLen_lt (mem_of_getElem? hshard) (mem_filter.1 hl).1
  have hpairs : (Q.map extentOf).Pairwise
      fun a b ↦ a.reservation.lastOffset < b.reservation.firstOffset :=
    pairwise_map.2 ((h.pairwise_merged hstart hbytes hlimit).sublist filter_sublist)
  have hranges' : ∀ l ∈ Q.map extentOf, l.reservation.firstOffset ≤ l.reservation.lastOffset :=
    fun l hl ↦ by
      obtain ⟨p, hp, rfl⟩ := mem_map.1 hl
      exact hranges p (hQM p hp)
  obtain ⟨count, htake, hcount⟩ := Budget.takeWithin_eq_take
    (EngineError.invalidConfig "selected fetch byte count overflow") (2 ^ 64 - 1) hsize hlimit
  refine ⟨Q.take count, Q.map extentOf, ?_, fun p hp ↦ hQM p (mem_of_mem_take hp), hpairs,
    hranges', ?_, ?_, fun l ↦ ?_⟩
  · rw [selectFetchPlan, selectFetchPlanBounded, selectLoop_eq hmode hranges,
      h.filter_merged hstart hbytes hlimit hcommitted, htake]
    simp [Except.map, windowPlans]
  · have hmap : Q.map extentOf = (M.map extentOf).filter fun l ↦
        deliverable st includeUnresolved startOffset endOffset l.reservation := by
      rw [filter_map]
      rfl
    rw [hmap]
    exact map_extentOf_merged.filter _
  · rw [map_take]
    exact take_prefix ..
  · have hsorted : (Q.map extentOf).Pairwise
        fun a b ↦ a.reservation.firstOffset < b.reservation.firstOffset :=
      hpairs.imp_of_mem fun {a b} ha _ hlt ↦ (hranges' a ha).trans_lt hlt
    rw [map_take]
    refine Budget.mem_take_iff hsorted fun before x after heq ↦ ?_
    -- the number of extents never exhausts the room, so the bytes decide
    obtain ⟨before', rest, hsplit, rfl, hrest⟩ := map_eq_append_iff.1 heq
    obtain ⟨p, after', rfl, rfl, -⟩ := map_eq_cons_iff.1 hrest
    have hlength := h.length_filter_merged hstart hbytes hlimit fun p ↦
      deliverable st includeUnresolved startOffset endOffset (extentOf p).reservation
    rw [← hQ, hsplit, length_append, length_cons] at hlength
    rw [length_map, hcount before' p after' hsplit, Budget.Fits, Budget.Within, Budget.Within,
      map_eq_nil_iff, map_map]
    exact and_iff_right (by omega)

end ShardLayout

/-! ### Reading -/

/-- The batch that is read for a planned extent. -/
def batchOf (shards : List ShardStore) (p : Nat × StoredBatchMetadata) : StoredBatch :=
  match shards[p.1]? with
  | some shard => shard.batchAt (extentOf p)
  | none => ⟨p.2.reservation, p.2.producer, p.2.atomicGroup, []⟩

namespace ShardLayout

include h

theorem covers (hshard : shard ∈ shards) (hl : l ∈ shard.window tp startOffset maxBytes) :
    shard.Covers l := by
  obtain ⟨front, last, hholds⟩ := h.holds shard hshard
  obtain ⟨hl, -⟩ := mem_filter.1 ((hholds.ordered.perm tp).mem_iff.1 (mem_filter.1 hl).1)
  exact hholds.covers l (hholds.byBatch.mem_iff.1 hl)

/-- Every shard reads its part. -/
theorem mapM_readFetchPlan {selected : List (Nat × StoredBatchMetadata)}
    (hselected : ∀ p ∈ selected, p ∈ Planned.merged (windowPlans tp startOffset maxBytes shards)) :
    (shards.zip (Lanes.deal shards.length selected)).mapM
        (fun x ↦ liftStorage (x.1.readFetchPlan x.2)) =
      .ok (Lanes.deal shards.length (selected.map fun p ↦ (p.1, batchOf shards p))) := by
  refine mapM_eq_ok_iff.2 (forall₂_iff_get.2 ⟨by simp [Lanes.deal], fun i hi hi' ↦ ?_⟩)
  have hlt : i < shards.length := by simpa [Lanes.deal] using hi'
  set shard := shards[i] with hshard
  set part := (selected.filter (·.1 = i)).map extentOf with hpart
  have hof : ∀ p ∈ selected.filter (·.1 = i), ∃ l ∈ shard.window tp startOffset maxBytes,
      p.2 = shard.metadataFor l := fun p hp ↦ by
    obtain ⟨hp, hlane⟩ := mem_filter.1 hp
    obtain ⟨shard', l, hshard', hl, heq⟩ := exists_of_mem_merged_windowPlans (hselected p hp)
    rw [of_decide_eq_true hlane, List.getElem?_eq_getElem hlt] at hshard'
    cases hshard'
    exact ⟨l, hl, heq⟩
  have hplanned : (selected.filter (·.1 = i)).map Prod.snd = part.map shard.metadataFor := by
    rw [map_map]
    refine map_congr_left fun p hp ↦ ?_
    obtain ⟨l, -, heq⟩ := hof p hp
    rw [Function.comp_apply, extentOf, heq]
    rfl
  have hread : shard.readFetchPlan ((selected.filter (·.1 = i)).map Prod.snd) =
      .ok (part.map shard.batchAt) := by
    rw [hplanned]
    refine ShardStore.readFetchPlan_eq fun l hl ↦ ?_
    obtain ⟨p, hp, rfl⟩ := mem_map.1 hl
    obtain ⟨l, hl, heq⟩ := hof p hp
    rw [extentOf, heq]
    exact h.covers (getElem_mem hlt) hl
  have hbatches : (selected.filter (·.1 = i)).map (batchOf shards) = part.map shard.batchAt := by
    rw [map_map]
    refine map_congr_left fun p hp ↦ ?_
    rw [batchOf, of_decide_eq_true (mem_filter.1 hp).2, List.getElem?_eq_getElem hlt]
    rfl
  have hdealt : (Lanes.deal shards.length (selected.map fun p ↦ (p.1, batchOf shards p)))[i]? =
      some (part.map shard.batchAt) := by
    rw [Lanes.getElem?_deal_map hlt, hbatches]
  obtain ⟨_, hdealt⟩ := List.getElem?_eq_some_iff.1 hdealt
  rw [get_eq_getElem, get_eq_getElem, hdealt]
  simpa [Lanes.deal] using hread

theorem batchOf_eq (hp : p ∈ Planned.merged (windowPlans tp startOffset maxBytes shards)) :
    (batchOf shards p).reservation = (extentOf p).reservation ∧
      (batchOf shards p).payload.length = (extentOf p).payloadLen ∧
      (batchOf shards p).atomicGroup = (extentOf p).atomicGroup := by
  obtain ⟨shard, l, hshard, hl, heq⟩ := exists_of_mem_merged_windowPlans hp
  have hcovers := h.covers (mem_of_getElem? hshard) hl
  rw [batchOf, hshard, extentOf, heq]
  exact ⟨rfl, ShardStore.length_payloadAt hcovers, rfl⟩

/-- **What a fetch returns.** -/
theorem fetch_spec (hstart : st.logStart ≤ startOffset) (hbytes : 0 < maxBytes)
    (hlimit : maxBytes ≤ 2 ^ 63) {maxFetchBytes : Nat} (hmax : maxBytes ≤ maxFetchBytes)
    (hmode : mode ≠ .asAvailable) (includeUnresolved : Bool) : ∃ batches extents delivered,
      fetchStoredInternal maxFetchBytes st.toPartitionCore shards ⟨tp, startOffset, maxBytes, mode⟩
        includeUnresolved = .ok batches ∧
      Delivery st tp shards startOffset maxBytes
        (deliverable st includeUnresolved startOffset (st.fetchEnd mode includeUnresolved))
        extents delivered ∧
      batches.map (fun b ↦ (b.reservation, b.payload.length, b.atomicGroup)) =
        delivered.map fun l ↦ (l.reservation, l.payloadLen, l.atomicGroup) := by
  obtain ⟨committed, hcommitted⟩ := h.exists_committed maxBytes hstart includeUnresolved
  obtain ⟨selected, extents, hselection, hmerged, hdelivery⟩ :=
    h.exists_selected hstart hbytes hlimit (st.fetchEnd mode includeUnresolved) hmode hcommitted
  have hplans : (shards.mapM fun shard ↦ liftStorage (shard.planFetch tp startOffset maxBytes
      maxFetchPlanBatchesPerShard)) = .ok (windowPlans tp startOffset maxBytes shards) :=
    mapM_eq_ok fun shard hshard ↦ by rw [h.planFetch_eq hshard hstart hbytes hlimit]; rfl
  have hlanes : ∀ p ∈ selected.map fun p ↦ (p.1, batchOf shards p), p.1 < shards.length := by
    intro p hp
    obtain ⟨q, hq, rfl⟩ := mem_map.1 hp
    obtain ⟨shard, -, hshard, -⟩ := exists_of_mem_merged_windowPlans (hmerged q hq)
    exact (List.getElem?_eq_some_iff.1 hshard).1
  have hturns := Lanes.takeTurns_deal
    (EngineError.corruptState "fetch materialization did not match its plan") hlanes
  refine ⟨selected.map (batchOf shards), extents, selected.map extentOf, ?_, hdelivery, ?_⟩
  · rw [fetchStoredInternal, if_neg (by dsimp only; omega), if_neg (by dsimp only; omega)]
    dsimp only
    rw [PartitionCore.fetchBounds, if_neg (by omega)]
    refine bind_eq_ok_iff.2 ⟨_, rfl, bind_eq_ok_iff.2 ⟨_, hplans, bind_eq_ok_iff.2 ⟨_, hcommitted,
      bind_eq_ok_iff.2 ⟨_, hselection, bind_eq_ok_iff.2 ⟨_, h.mapM_readFetchPlan hmerged, ?_⟩⟩⟩⟩⟩
    rw [map_map, map_map] at hturns
    exact hturns
  · rw [map_map, map_map]
    refine map_congr_left fun p hp ↦ ?_
    obtain ⟨hreservation, hlength, hgroup⟩ := h.batchOf_eq (hmerged p hp)
    rw [Function.comp_apply, Function.comp_apply, hreservation, hlength, hgroup]

end ShardLayout

end Fetch

end ShardStream
