import ShardStream.Engine.Fetch
import ShardStream.Engine.Restart

/-!
# What a fetch selects

The shards are asked one after the other while the partition goes on, so a plan may name batches
that the coordinator has truncated meanwhile. `Planned` collects what is known of the plans when the
coordinator answers: every planned reservation is one the partition retains or has truncated, each
plan is in offset order, and no retained batch is planned twice. From this alone the committed
batches come out of the merge in offset order, with disjoint ranges.
-/

namespace ShardStream

open PartitionCore List DenseOrderedMap

variable {includeUnresolved : Bool} {startOffset : Nat} {st : PartitionState}

/-! ### Retained reservations -/

/-- The partition holds the reservation. -/
def PartitionState.Retains (st : PartitionState) (r : Reservation) : Prop :=
  ∃ b, st.batches.get r.batchId = some b ∧ b.reservation = r

section Retains

variable {r r' : Reservation}

theorem PartitionState.Retains.knows (h : st.Retains r) : st.Knows r := .inr h

/-- A known reservation with a batch in the partition is the reservation of that batch. -/
theorem PartitionState.Knows.retains {b : BatchRuntime} (h : st.Knows r)
    (hb : st.batches.get r.batchId = some b) : st.Retains r := by
  refine h.resolve_left fun ⟨hlt, _⟩ ↦ ?_
  have := (lt_nextKey_of_get hb).1
  omega

/-- A known reservation that reaches the log start is retained. -/
theorem PartitionState.Knows.retains_of_le (h : st.Knows r) (hle : st.logStart ≤ r.lastOffset) :
    st.Retains r :=
  h.resolve_left fun ⟨_, hlt⟩ ↦ by omega

theorem PartitionState.Retains.eq_of_batchId (h : st.Retains r) (h' : st.Retains r')
    (heq : r.batchId = r'.batchId) : r = r' := by
  obtain ⟨b, hb, rfl⟩ := h
  obtain ⟨b', hb', rfl⟩ := h'
  rw [heq, hb'] at hb
  cases hb
  rfl

/-- A retained range is nonempty, and lies between the log start and the next offset. -/
theorem PartitionState.Retains.range (h : st.Retains r) (hl : st.Layout) :
    st.logStart ≤ r.firstOffset ∧ r.firstOffset ≤ r.lastOffset ∧
      r.lastOffset < st.sequencer.nextOffset := by
  obtain ⟨b, hb, rfl⟩ := h
  obtain ⟨-, -, -, hfirst, -, hnext⟩ := hl.get hb
  obtain ⟨hge, hlt⟩ := lt_nextKey_of_get hb
  have hstart := hl.offsetAt_le hge hlt.le
  have hend := (hl.lastOffset_lt_iff hb (hge.trans hlt.le) le_rfl).2 hlt
  have hcount := b.reservation.recordCount.pos
  rw [offsetAt_firstKey] at hstart
  rw [hl.offsetAt_nextKey] at hend
  unfold ShardStream.nextOffset at hnext
  omega

/-- Retained ranges are disjoint, and in the order of their batches. -/
theorem PartitionState.Retains.lt_of_batchId_lt (h : st.Retains r) (h' : st.Retains r')
    (hl : st.Layout) (hlt : r.batchId < r'.batchId) : r.lastOffset < r'.firstOffset := by
  obtain ⟨b, hb, rfl⟩ := h
  obtain ⟨b', hb', rfl⟩ := h'
  rw [(hl.get hb').2.2.2.1]
  have hkeys := lt_nextKey_of_get hb'
  exact (hl.lastOffset_lt_iff hb hkeys.1 hkeys.2.le).2 hlt

theorem PartitionState.Retains.lt_of_firstOffset_le (h : st.Retains r) (h' : st.Retains r')
    (hl : st.Layout) (hle : r.firstOffset ≤ r'.firstOffset) (hne : r ≠ r') :
    r.lastOffset < r'.firstOffset := by
  refine h.lt_of_batchId_lt h' hl ?_
  rcases Nat.lt_trichotomy r.batchId r'.batchId with hlt | heq | hlt
  · exact hlt
  · exact absurd (h.eq_of_batchId h' heq) hne
  · have := h'.lt_of_batchId_lt h hl hlt
    have := (h'.range hl).2.1
    omega

/-- Of two known reservations the one that starts later ends later, when it is retained. -/
theorem PartitionState.Retains.lastOffset_le (h' : st.Retains r') (h : st.Knows r)
    (hl : st.Layout) (hle : r.firstOffset ≤ r'.firstOffset) : r.lastOffset ≤ r'.lastOffset := by
  have hrange := h'.range hl
  by_cases hstart : r.lastOffset < st.logStart
  · omega
  · by_cases heq : r = r'
    · rw [heq]
    · have := (h.retains_of_le (by omega)).lt_of_firstOffset_le h' hl hle heq
      omega

theorem PartitionState.retains_of_fetchable (h : st.Knows r)
    (hf : st.fetchable includeUnresolved r.batchId = true) :
    ∃ b, st.batches.get r.batchId = some b ∧ b.reservation = r ∧
      b.fetchable includeUnresolved = true := by
  obtain ⟨b, hb, hstatus⟩ := (Option.any_eq_true ..).1 hf
  obtain ⟨b', hb', hr⟩ := h.retains hb
  rw [hb] at hb'
  cases hb'
  exact ⟨b, hb, hr, hstatus⟩

end Retains

/-! ### Plans and their merge -/

/-- What is known of the plans of all shards, in the partition that answers which of the planned
batches are committed. -/
structure Planned (st : PartitionState) (startOffset : Nat)
    (shardPlans : List (List StoredBatchMetadata)) : Prop where
  sorted : Lanes.Sorted StoredBatchMetadata.firstOffset shardPlans
  known : ∀ plan ∈ shardPlans, ∀ m ∈ plan, st.Knows m.reservation
  once : (Lanes.tagged 0 shardPlans).Pairwise fun p q ↦
    st.Retains p.2.reservation → p.2.reservation ≠ q.2.reservation
  reaches : ∀ plan ∈ shardPlans, ∀ m ∈ plan, st.Retains m.reservation →
    startOffset ≤ m.reservation.lastOffset

/-- What the plan of one shard looks like. -/
structure PlanShape (tp : TopicPartition) (startOffset : Nat) (shard : ShardStore)
    (plan : List StoredBatchMetadata) : Prop where
  sorted : plan.Pairwise fun a b ↦ a.firstOffset ≤ b.firstOffset
  distinct : plan.Pairwise fun a b ↦ a.reservation ≠ b.reservation
  indexed : ∀ m ∈ plan, m.toExtentLocation ∈ shard.ix.byBatch ∧ m.reservation.topicPartition = tp
  head : ∀ m ∈ plan.head?, startOffset ≤ m.reservation.lastOffset

theorem ShardStore.Holds.planShape {checksum : ExtentChecksum} {shard : ShardStore}
    {front : List PackFrames} {last : PackFrames} (h : shard.Holds checksum front last)
    {tp : TopicPartition} {maxBytes maxBatches : Nat} {plan : List StoredBatchMetadata}
    (hplan : shard.planFetch tp startOffset maxBytes maxBatches = .ok plan) :
    PlanShape tp startOffset shard plan := by
  obtain ⟨ls, rfl, hpre⟩ := ShardStore.exists_of_planFetch hplan
  have hsub : ls.Sublist (shard.ix.locations tp) := hpre.sublist.trans (dropWhile_sublist _)
  refine ⟨?_, ?_, fun m hm ↦ ?_, fun m hm ↦ ?_⟩
  · exact pairwise_map.2 ((h.ordered.sorted tp).sublist hsub)
  · have hkeys := (pairwise_map.1 (h.nodup_locations tp)).sublist hsub
    refine pairwise_map.2 (hkeys.imp fun {a b} hne heq ↦ hne ?_)
    change a.reservation = b.reservation at heq
    simp only [ExtentLocation.key, heq]
  · obtain ⟨l, hl, rfl⟩ := mem_map.1 hm
    obtain ⟨hl, htp⟩ := mem_filter.1 ((h.ordered.perm tp).mem_iff.1 (hsub.subset hl))
    exact ⟨hl, of_decide_eq_true htp⟩
  · -- the first planned extent is the first that the search did not skip
    obtain ⟨rest, hrest⟩ := hpre
    cases ls with
    | nil => cases hm
    | cons l ls =>
      cases hm
      have hhead := head?_dropWhile_not
        (fun l : ExtentLocation ↦ decide (l.reservation.lastOffset < startOffset))
        (shard.ix.locations tp)
      rw [← hrest] at hhead
      change startOffset ≤ l.reservation.lastOffset
      simpa using hhead

namespace Planned

variable {shardPlans : List (List StoredBatchMetadata)} {committed : CommittedBatchSet}
  {p : Nat × StoredBatchMetadata}

/-- Plans of this shape are `Planned` in a partition that knows what they name, when no two shards
name the same. -/
theorem of_planShape (hl : st.Layout) (tp : TopicPartition)
    (hshape : ∀ plan ∈ shardPlans, ∃ shard, PlanShape tp startOffset shard plan)
    (hknown : ∀ plan ∈ shardPlans, ∀ m ∈ plan, st.Knows m.reservation)
    (hapart : ∀ (i j : Nat) (plan plan' : List StoredBatchMetadata), shardPlans[i]? = some plan →
      shardPlans[j]? = some plan' → i < j → ∀ m ∈ plan, ∀ m' ∈ plan',
        m.reservation ≠ m'.reservation) :
    Planned st startOffset shardPlans where
  sorted plan hplan := by
    obtain ⟨shard, hshape⟩ := hshape plan hplan
    exact hshape.sorted
  known := hknown
  once := by
    refine Lanes.pairwise_tagged (fun i plan hi ↦ ?_) fun p hp q hq hlt _ ↦ ?_
    · obtain ⟨shard, hshape⟩ := hshape plan (mem_of_getElem? hi)
      exact hshape.distinct.imp (S := fun a b : StoredBatchMetadata ↦
        st.Retains a.reservation → a.reservation ≠ b.reservation) fun hne _ ↦ hne
    · obtain ⟨i, plan, hi, hpi, hp⟩ := Lanes.mem_tagged_iff.1 hp
      obtain ⟨j, plan', hj, hqj, hq⟩ := Lanes.mem_tagged_iff.1 hq
      exact hapart i j plan plan' hi hj (by omega) _ hp _ hq
  reaches plan hplan m hm hretains := by
    obtain ⟨shard, hshape⟩ := hshape plan hplan
    cases plan with
    | nil => cases hm
    | cons first rest =>
      have hfirst := hshape.head first rfl
      rcases mem_cons.1 hm with rfl | hm
      · exact hfirst
      · exact hfirst.trans (hretains.lastOffset_le (hknown _ hplan first (mem_cons_self ..)) hl
          (rel_of_pairwise_cons hshape.sorted hm))

/-- The planned extents in the order of the merge. -/
abbrev merged (shardPlans : List (List StoredBatchMetadata)) : List (Nat × StoredBatchMetadata) :=
  Lanes.merge StoredBatchMetadata.firstOffset shardPlans

theorem exists_of_mem_merged (hp : p ∈ merged shardPlans) :
    ∃ plan, shardPlans[p.1]? = some plan ∧ p.2 ∈ plan := by
  obtain ⟨i, plan, hplan, heq, hm⟩ :=
    Lanes.mem_tagged_iff.1 ((Lanes.merge_perm _ shardPlans).mem_iff.1 hp)
  exact ⟨plan, by rw [heq, Nat.zero_add]; exact hplan, hm⟩

variable (h : Planned st startOffset shardPlans)

include h

theorem known_of_mem (hp : p ∈ merged shardPlans) : st.Knows p.2.reservation := by
  obtain ⟨plan, hplan, hm⟩ := exists_of_mem_merged hp
  exact h.known plan (mem_of_getElem? hplan) _ hm

theorem reaches_of_mem (hp : p ∈ merged shardPlans) (hr : st.Retains p.2.reservation) :
    startOffset ≤ p.2.reservation.lastOffset := by
  obtain ⟨plan, hplan, hm⟩ := exists_of_mem_merged hp
  exact h.reaches plan (mem_of_getElem? hplan) _ hm hr

/-- **Retained batches leave the merge in offset order.** -/
theorem pairwise_merged (hl : st.Layout) :
    (merged shardPlans).Pairwise fun p q ↦ st.Retains p.2.reservation →
      st.Retains q.2.reservation → p.2.reservation.lastOffset < q.2.reservation.firstOffset := by
  have hsymm : ∀ {p q : Nat × StoredBatchMetadata},
      (st.Retains p.2.reservation → p.2.reservation ≠ q.2.reservation) →
      st.Retains q.2.reservation → q.2.reservation ≠ p.2.reservation :=
    fun hpq hq heq ↦ hpq (heq ▸ hq) heq.symm
  have honce := ((Lanes.merge_perm StoredBatchMetadata.firstOffset shardPlans).pairwise_iff
    hsymm).2 h.once
  exact ((Lanes.merge_sorted h.sorted).and honce).imp fun ⟨hle, hne⟩ hp hq ↦
    hp.lt_of_firstOffset_le hq hl hle (hne hp)

/-- The committed batches of the merge. -/
theorem mem_filter_contains (hcommitted : committedCandidates st.toPartitionCore
      (shardPlans.flatten.map (·.reservation.batchId)) includeUnresolved = .ok committed)
    (hp : p ∈ (merged shardPlans).filter fun p ↦ committed.contains p.2.reservation.batchId) :
    startOffset ≤ p.2.reservation.lastOffset ∧
      ∃ b, st.batches.get p.2.reservation.batchId = some b ∧ b.reservation = p.2.reservation ∧
        b.fetchable includeUnresolved = true := by
  obtain ⟨hp, hcontains⟩ := mem_filter.1 hp
  have hfetchable := ((contains_committedCandidates hcommitted).1 hcontains).2
  obtain ⟨b, hb, hr, hstatus⟩ := PartitionState.retains_of_fetchable (h.known_of_mem hp) hfetchable
  exact ⟨h.reaches_of_mem hp ⟨b, hb, hr⟩, b, hb, hr, hstatus⟩

theorem pairwise_filter_contains (hl : st.Layout)
    (hcommitted : committedCandidates st.toPartitionCore
      (shardPlans.flatten.map (·.reservation.batchId)) includeUnresolved = .ok committed) :
    ((merged shardPlans).filter fun p ↦ committed.contains p.2.reservation.batchId).Pairwise
      fun p q ↦ p.2.reservation.lastOffset < q.2.reservation.firstOffset := by
  refine ((h.pairwise_merged hl).sublist filter_sublist).imp_of_mem fun hp hq hpq ↦ ?_
  obtain ⟨-, b, hb, hr, -⟩ := h.mem_filter_contains hcommitted hp
  obtain ⟨-, b', hb', hr', -⟩ := h.mem_filter_contains hcommitted hq
  exact hpq ⟨b, hb, hr⟩ ⟨b', hb', hr'⟩

end Planned

end ShardStream
