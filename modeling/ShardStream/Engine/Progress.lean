import ShardStream.Engine.Delivery

/-!
# What a consumer gets

A consumer fetches, takes the offset after the last batch it got, and fetches again. It misses
nothing and does not get stuck as long as every fetch returns a front part of the committed batches
from its start on, and a nonempty one if there are any.

Neither is so in general, because a shard cuts its plan before the statuses of the batches are known
and without regard to the other shards. A committed batch behind the window of its shard is passed
over when another shard offers a later one that fits (`Skips`); and when all windows are filled by
batches that are not committed, nothing is returned. The theorems say that these are the only ways.
-/

namespace ShardStream

open PartitionCore List

variable {r : Reservation} {l : ExtentLocation} {st : PartitionState} {includeUnresolved : Bool}
  {startOffset endOffset : Nat}

/-! ### The committed batches -/

/-- The batches that a fetch may return, in offset order. -/
def deliverableBatches (st : PartitionState) (includeUnresolved : Bool)
    (startOffset endOffset : Nat) : List Reservation :=
  st.reservations.filter (deliverable st includeUnresolved startOffset endOffset)

/-- All extents of a partition. -/
def extentsOf (tp : TopicPartition) (shards : List ShardStore) : List ExtentLocation :=
  shards.flatMap fun shard ↦ shard.ix.locations tp

/-- The extent `c` is passed over for the later extent `d`: both are of batches to be delivered, `c`
is beyond the window of its shard, and `d` is within its own and fits after those that are within
theirs. -/
structure Skips (tp : TopicPartition) (shards : List ShardStore) (startOffset maxBytes : Nat)
    (deliver : Reservation → Bool) (c d : ExtentLocation) : Prop where
  beyond : ∃ shard ∈ shards, c ∈ shard.ix.locations tp ∧
    inWindow tp startOffset maxBytes shard c = false
  skipped : deliver c.reservation = true
  within : d ∈ windows tp startOffset maxBytes shards
  delivered : deliver d.reservation = true
  before : c.reservation.firstOffset < d.reservation.firstOffset
  fits : Budget.Within ExtentLocation.payloadLen maxBytes
    ((windows tp startOffset maxBytes shards).filter fun x ↦
      decide (x.reservation.firstOffset < d.reservation.firstOffset) && deliver x.reservation) d

section Batches

theorem mem_reservations_iff (hl : st.Layout) : r ∈ st.reservations ↔ st.Retains r := by
  constructor
  · intro hr
    obtain ⟨b, hb, rfl⟩ := mem_map.1 hr
    obtain ⟨key, hget⟩ := DenseOrderedMap.exists_get_of_mem hb
    exact ⟨b, by rw [(hl.get hget).2.1]; exact hget, rfl⟩
  · rintro ⟨b, hb, rfl⟩
    exact mem_map_of_mem (DenseOrderedMap.mem_values_of_get hb)

theorem mem_deliverableBatches_iff (hl : st.Layout) :
    r ∈ deliverableBatches st includeUnresolved startOffset endOffset ↔
      st.Retains r ∧ deliverable st includeUnresolved startOffset endOffset r = true := by
  rw [deliverableBatches, mem_filter, mem_reservations_iff hl]

theorem pairwise_deliverableBatches (hl : st.Layout) :
    (deliverableBatches st includeUnresolved startOffset endOffset).Pairwise
      fun a b ↦ a.firstOffset < b.firstOffset := by
  have hall : st.reservations.Pairwise fun a b ↦ a.firstOffset < b.firstOffset := by
    refine pairwise_iff_getElem.2 fun i j hi hj hij ↦ ?_
    rw [(hl.laid.getElem (getElem?_eq_getElem hi)).2.2.2.1,
      (hl.laid.getElem (getElem?_eq_getElem hj)).2.2.2.1]
    exact hl.laid.endOffset_take_lt hij hj.le
  exact hall.sublist filter_sublist

/-- A known reservation that is to be delivered is retained. -/
theorem retains_of_deliverable (h : st.Knows r)
    (hd : deliverable st includeUnresolved startOffset endOffset r = true) : st.Retains r := by
  obtain ⟨-, hf⟩ := Bool.and_eq_true_iff.1 hd
  obtain ⟨b, hb, hr, -⟩ := PartitionState.retains_of_fetchable h hf
  exact ⟨b, hb, hr⟩

end Batches

/-- Every batch that the query accepts has an extent. -/
def Stored (st : PartitionState) (tp : TopicPartition) (shards : List ShardStore)
    (includeUnresolved : Bool) : Prop :=
  ∀ key b, st.batches.get key = some b → b.fetchable includeUnresolved = true →
    ∃ l ∈ extentsOf tp shards, l.reservation = b.reservation

section Extents

variable {checksum : ExtentChecksum} {tp : TopicPartition} {shards : List ShardStore}
  {maxBytes : Nat}

/-- **In a reachable engine every batch that a query accepts has an extent.** -/
theorem ShardedReachable.stored {config : EngineConfig} {s : ShardedEngine}
    (h : ShardedReachable checksum config s) (hst : s.engine.states.get tp = some st) :
    Stored st tp s.shards includeUnresolved := by
  intro key b hb hfetchable
  have hstatus : b.status = .committed ∨ b.status = .unresolved := by
    simp only [BatchRuntime.fetchable, Bool.or_eq_true, Bool.and_eq_true, beq_iff_eq] at hfetchable
    exact hfetchable.imp_right And.right
  obtain ⟨shard, hshard, l, hl, heq⟩ := h.exists_location hst hb hstatus
  exact ⟨l, mem_flatMap.2 ⟨shard, hshard, hl⟩, heq⟩

theorem Stored.exists_extent (h : Stored st tp shards includeUnresolved) (hr : st.Retains r)
    (hd : deliverable st includeUnresolved startOffset endOffset r = true) :
    ∃ l ∈ extentsOf tp shards, l.reservation = r := by
  obtain ⟨b, hb, rfl⟩ := hr
  obtain ⟨-, hf⟩ := Bool.and_eq_true_iff.1 hd
  obtain ⟨b', hb', hstatus⟩ := (Option.any_eq_true ..).1 hf
  rw [hb] at hb'
  cases hb'
  exact h _ b hb hstatus

namespace ShardLayout

variable (h : ShardLayout checksum st tp shards)

include h

/-- An extent is determined by its reservation, together with its shard. -/
theorem eq_of_reservation {shard shard' : ShardStore} (hshard : shard ∈ shards)
    (hshard' : shard' ∈ shards) {l' : ExtentLocation} (hl : l ∈ shard.ix.locations tp)
    (hl' : l' ∈ shard'.ix.locations tp) (heq : l.reservation = l'.reservation) :
    shard = shard' ∧ l = l' := by
  obtain ⟨i, hi⟩ := mem_iff_getElem?.1 hshard
  obtain ⟨j, hj⟩ := mem_iff_getElem?.1 hshard'
  rcases Nat.lt_trichotomy i j with hlt | rfl | hlt
  · exact absurd heq (h.apart i j shard shard' hi hj hlt l hl l' hl')
  · rw [hi] at hj
    cases hj
    obtain ⟨front, last, hholds⟩ := h.holds shard hshard
    refine ⟨rfl, inj_on_of_nodup_map (hholds.nodup_locations tp) hl hl' ?_⟩
    simp only [ExtentLocation.key, heq]
  · exact absurd heq.symm (h.apart j i shard' shard hj hi hlt l' hl' l hl)

theorem nodup_extentsOf : (extentsOf tp shards).Nodup := by
  refine nodup_flatMap.2 ⟨fun shard hshard ↦ ?_, ?_⟩
  · obtain ⟨front, last, hholds⟩ := h.holds shard hshard
    exact (hholds.nodup_locations tp).of_map _
  · refine pairwise_iff_getElem.2 fun i j hi hj hij l hl hl' ↦ ?_
    exact h.apart i j _ _ (getElem?_eq_getElem hi) (getElem?_eq_getElem hj) hij l hl l hl' rfl

theorem stored : Stored st tp shards false := by
  intro key b hb hfetchable
  obtain ⟨shard, hshard, l, hl, heq⟩ :=
    h.committed key b hb (by simpa [BatchRuntime.fetchable] using hfetchable)
  exact ⟨l, mem_flatMap.2 ⟨shard, hshard, hl⟩, heq⟩

/-- An extent to be delivered is of a retained batch. -/
theorem retains (hl : l ∈ extentsOf tp shards)
    (hd : deliverable st includeUnresolved startOffset endOffset l.reservation = true) :
    st.Retains l.reservation := by
  obtain ⟨shard, hshard, hl⟩ := mem_flatMap.1 hl
  exact retains_of_deliverable (h.known shard hshard l hl).2 hd

/-- An extent to be delivered is of a batch to be delivered. -/
theorem mem_deliverableBatches (hl : l ∈ extentsOf tp shards)
    (hd : deliverable st includeUnresolved startOffset endOffset l.reservation = true) :
    l.reservation ∈ deliverableBatches st includeUnresolved startOffset endOffset :=
  (mem_deliverableBatches_iff h.layout).2 ⟨h.retains hl hd, hd⟩

end ShardLayout

theorem mem_windows_iff : l ∈ windows tp startOffset maxBytes shards ↔
    ∃ shard ∈ shards, l ∈ shard.ix.locations tp ∧
      inWindow tp startOffset maxBytes shard l = true := by
  rw [windows, mem_flatMap]
  exact exists_congr fun shard ↦ and_congr_right fun _ ↦ mem_filter

namespace Delivery

variable {deliver : Reservation → Bool} {extents delivered : List ExtentLocation}

variable (h : Delivery st tp shards startOffset maxBytes deliver extents delivered)
  {c d : ExtentLocation}

include h

theorem mem_extents_iff :
    l ∈ extents ↔ l ∈ windows tp startOffset maxBytes shards ∧ deliver l.reservation = true := by
  rw [h.perm.mem_iff, mem_filter]

/-- What is delivered, in terms of the windows. -/
theorem mem_delivered_iff :
    l ∈ delivered ↔ l ∈ windows tp startOffset maxBytes shards ∧
      deliver l.reservation = true ∧ Budget.Within ExtentLocation.payloadLen maxBytes
        ((windows tp startOffset maxBytes shards).filter fun x ↦
          decide (x.reservation.firstOffset < l.reservation.firstOffset) && deliver x.reservation)
          l := by
  have hbefore := h.perm.filter fun x ↦
    decide (x.reservation.firstOffset < l.reservation.firstOffset)
  rw [filter_filter] at hbefore
  rw [h.mem_iff, h.mem_extents_iff, Budget.within_congr hbefore, and_assoc]

/-- What comes before a delivered extent and is in a window is delivered. -/
theorem mem_delivered_of_lt (hc : c ∈ extents) (hd : d ∈ delivered)
    (hlt : c.reservation.firstOffset < d.reservation.firstOffset) : c ∈ delivered := by
  obtain ⟨rest, hrest⟩ := h.isPrefix
  rw [← hrest] at hc
  rcases mem_append.1 hc with hc | hc
  · exact hc
  · have hsorted := h.sorted
    have hrange := h.ranges d (h.isPrefix.subset hd)
    rw [← hrest] at hsorted
    have := (pairwise_append.1 hsorted).2.2 d hd c hc
    omega

/-- The first extent is delivered whatever its size. -/
theorem delivered_eq_nil_iff :
    delivered = [] ↔
      ∀ l ∈ windows tp startOffset maxBytes shards, deliver l.reservation = false := by
  constructor
  · rintro rfl l hl
    by_contra hdeliver
    have hmem : l ∈ extents := h.mem_extents_iff.2 ⟨hl, by simpa using hdeliver⟩
    cases hextents : extents with
    | nil => rw [hextents] at hmem; cases hmem
    | cons first rest =>
      have hsorted := h.sorted
      rw [hextents] at hsorted
      have hnone : extents.filter (fun x ↦
          decide (x.reservation.firstOffset < first.reservation.firstOffset)) = [] := by
        refine filter_eq_nil_iff.2 fun x hx ↦ ?_
        rw [hextents] at hx
        rcases mem_cons.1 hx with rfl | hx
        · simp
        · have := rel_of_pairwise_cons hsorted hx
          have := h.ranges first (by rw [hextents]; exact mem_cons_self ..)
          simp only [decide_eq_true_eq]
          omega
      have hfirst := (h.mem_iff first).2 ⟨by rw [hextents]; exact mem_cons_self .., .inl hnone⟩
      cases hfirst
  · intro hnone
    refine eq_nil_iff_forall_not_mem.2 fun l hl ↦ ?_
    obtain ⟨hl, hdeliver, -⟩ := h.mem_delivered_iff.1 hl
    rw [hnone l hl] at hdeliver
    cases hdeliver

/-- What is passed over is not delivered, and what it is passed over for is. -/
theorem notMem_of_skips (hlayout : ShardLayout checksum st tp shards)
    (hskips : Skips tp shards startOffset maxBytes deliver c d) :
    c ∉ delivered ∧ d ∈ delivered := by
  obtain ⟨⟨shard, hshard, hc, hbeyond⟩, -, hwithin, hdelivered, -, hfits⟩ := hskips
  refine ⟨fun hmem ↦ ?_, h.mem_delivered_iff.2 ⟨hwithin, hdelivered, hfits⟩⟩
  obtain ⟨shard', hshard', hc', hin⟩ := mem_windows_iff.1 (h.mem_delivered_iff.1 hmem).1
  obtain ⟨rfl, -⟩ := hlayout.eq_of_reservation hshard' hshard hc' hc rfl
  rw [hin] at hbeyond
  cases hbeyond

/-- What lies before a delivered extent is delivered or passed over. -/
theorem mem_or_skips (hc : c ∈ extentsOf tp shards) (hdeliver : deliver c.reservation = true)
    (hd : d ∈ delivered) (hlt : c.reservation.firstOffset < d.reservation.firstOffset) :
    c ∈ delivered ∨ Skips tp shards startOffset maxBytes deliver c d := by
  obtain ⟨shard, hshard, hc⟩ := mem_flatMap.1 hc
  obtain ⟨hwithin, hdelivered, hfits⟩ := h.mem_delivered_iff.1 hd
  cases hin : inWindow tp startOffset maxBytes shard c with
  | true =>
    have hmem := h.mem_extents_iff.2 ⟨mem_windows_iff.2 ⟨shard, hshard, hc, hin⟩, hdeliver⟩
    exact .inl (h.mem_delivered_of_lt hmem hd hlt)
  | false => exact .inr ⟨⟨shard, hshard, hc, hin⟩, hdeliver, hwithin, hdelivered, hlt, hfits⟩

omit h in
/-- **When a front part is delivered**: when no batch to be delivered is passed over. -/
theorem isPrefix_deliverableBatches_iff (h : Delivery st tp shards startOffset maxBytes
      (deliverable st includeUnresolved startOffset endOffset) extents delivered)
    (hlayout : ShardLayout checksum st tp shards)
    (hstored : Stored st tp shards includeUnresolved) :
    delivered.map ExtentLocation.reservation <+:
        deliverableBatches st includeUnresolved startOffset endOffset ↔
      ∀ c d, ¬ Skips tp shards startOffset maxBytes
        (deliverable st includeUnresolved startOffset endOffset) c d := by
  have hsorted : (delivered.map ExtentLocation.reservation).Pairwise
      fun a b ↦ a.firstOffset < b.firstOffset :=
    pairwise_map.2 ((h.sorted.sublist h.isPrefix.sublist).imp_of_mem fun {a b} ha _ hlt ↦
      (h.ranges a (h.isPrefix.subset ha)).trans_lt hlt)
  have hsub : ∀ r ∈ delivered.map ExtentLocation.reservation,
      r ∈ deliverableBatches st includeUnresolved startOffset endOffset := fun r hr ↦ by
    obtain ⟨l, hl, rfl⟩ := mem_map.1 hr
    obtain ⟨hwindow, hdeliver, -⟩ := h.mem_delivered_iff.1 hl
    obtain ⟨shard, hshard, hl, -⟩ := mem_windows_iff.1 hwindow
    exact hlayout.mem_deliverableBatches (mem_flatMap.2 ⟨shard, hshard, hl⟩) hdeliver
  rw [Lanes.isPrefix_iff_of_pairwise hsorted (pairwise_deliverableBatches hlayout.layout) hsub]
  constructor
  · intro hclosed c d hskips
    obtain ⟨hnotMem, hd⟩ := h.notMem_of_skips hlayout hskips
    obtain ⟨shard, hshard, hc, -⟩ := hskips.beyond
    have hmem := hlayout.mem_deliverableBatches (mem_flatMap.2 ⟨shard, hshard, hc⟩) hskips.skipped
    obtain ⟨c', hc', heq⟩ := mem_map.1 (hclosed _ (mem_map_of_mem hd) _ hmem hskips.before)
    obtain ⟨shard', hshard', hc'', -⟩ := mem_windows_iff.1 (h.mem_delivered_iff.1 hc').1
    obtain ⟨-, rfl⟩ := hlayout.eq_of_reservation hshard' hshard hc'' hc heq
    exact hnotMem hc'
  · intro hskips r hr y hy hlt
    obtain ⟨d, hd, rfl⟩ := mem_map.1 hr
    obtain ⟨hretained, hdeliver⟩ := (mem_deliverableBatches_iff hlayout.layout).1 hy
    obtain ⟨c, hc, rfl⟩ := hstored.exists_extent hretained hdeliver
    exact mem_map_of_mem ((h.mem_or_skips hc hdeliver hd hlt).resolve_right (hskips c d))

end Delivery

end Extents

/-- **A fetch returns a front part of the committed and visible batches exactly when none of them is
passed over.** -/
theorem fetch_returns_front_iff {checksum : ExtentChecksum} {st : PartitionState}
    {tp : TopicPartition} {shards : List ShardStore} {startOffset maxBytes maxFetchBytes : Nat}
    {mode : FetchMode} (h : ShardLayout checksum st tp shards)
    (hstart : st.logStart ≤ startOffset) (hbytes : 0 < maxBytes) (hlimit : maxBytes < 2 ^ 32)
    (hmax : maxBytes ≤ maxFetchBytes) (hmode : mode ≠ .asAvailable) :
    ∃ batches, fetchStoredInternal maxFetchBytes st.toPartitionCore shards
        ⟨tp, startOffset, maxBytes, mode⟩ false = .ok batches ∧
      (batches.map StoredBatch.reservation <+:
          deliverableBatches st false startOffset (st.fetchEnd mode false) ↔
        ∀ c d, ¬ Skips tp shards startOffset maxBytes
          (deliverable st false startOffset (st.fetchEnd mode false)) c d) := by
  obtain ⟨batches, extents, delivered, hfetch, hdelivery, hbatches⟩ :=
    h.fetch_spec hstart hbytes (by omega) hmax hmode false
  refine ⟨batches, hfetch, ?_⟩
  have hreservations : batches.map StoredBatch.reservation =
      delivered.map ExtentLocation.reservation := by
    simpa [Function.comp_def] using congrArg (map Prod.fst) hbatches
  rw [hreservations]
  exact hdelivery.isPrefix_deliverableBatches_iff h h.stored

/-- Nothing is passed over when the batches of each shard fit. -/
theorem nothing_skipped_on_two_shards : ∃ s st, ShardedReachable lengthChecksum ⟨2, 1, 1⟩ s ∧
    s.engine.states.get ⟨0, 0⟩ = some st ∧
      deliverableBatches st false 0 (st.fetchEnd .ordered false) ≠ [] ∧ ∀ c d,
        ¬ Skips ⟨0, 0⟩ s.shards 0 10 (deliverable st false 0 (st.fetchEnd .ordered false)) c d := by
  obtain ⟨s, hs, h⟩ :=
    ShardedEngine.exists_of_play lengthChecksum ⟨2, 1, 1⟩ ⟨1000, 100⟩ 2 onTwoShards
    (fun s ↦ ∃ st, s.engine.states.get ⟨0, 0⟩ = some st ∧ ∃ batches,
      fetchStoredInternal 100 st.toPartitionCore s.shards ⟨⟨0, 0⟩, 0, 10, .ordered⟩ false =
      .ok batches ∧
        batches.map StoredBatch.reservation =
          deliverableBatches st false 0 (st.fetchEnd .ordered false) ∧ st.logStart = 0 ∧
          batches ≠ [])
    (by decide +kernel)
  obtain ⟨st, hst, batches, hfetch, hall, hstart, hsome⟩ := h
  obtain ⟨batches', hfetch', hfront⟩ := fetch_returns_front_iff (hs.shardLayout hst) hstart.le
    (by decide : 0 < 10) (by decide) (by decide : 10 ≤ 100)
      (by decide : FetchMode.ordered ≠ .asAvailable)
  rw [hfetch] at hfetch'
  cases hfetch'
  exact ⟨s, st, hs, hst, by rw [← hall]; simpa using hsome, hfront.1 (by rw [hall])⟩

/-- Four batches on two shards, of 5, 1, 100 and 1 bytes. -/
def largeThird : List ShardAction :=
  .engine (.create ⟨0, 0⟩ [0, 1] ⟨1, 1, 1⟩) :: appendedOn 0 0 [0, 0, 0, 0, 0] ++
  appendedOn 1 1 [1] ++ appendedOn 0 2 (replicate 100 2) ++ appendedOn 1 3 [3]

/-- **A committed batch is passed over**: a fetch of at most 10 bytes returns the first, the second
and the fourth batch. -/
theorem fetch_skips_third_batch : ∃ s st batches, ShardedReachable lengthChecksum ⟨2, 1, 1⟩ s ∧
    s.engine.states.get ⟨0, 0⟩ = some st ∧
    (deliverableBatches st false 0 (st.fetchEnd .ordered false)).map Reservation.batchId =
    [0, 1, 2, 3] ∧
      fetchStoredInternal 1000 st.toPartitionCore s.shards ⟨⟨0, 0⟩, 0, 10, .ordered⟩ false =
      .ok batches ∧
    batches.map (fun b ↦ b.reservation.batchId) = [0, 1, 3] := by
  obtain ⟨s, hs, h⟩ :=
    ShardedEngine.exists_of_play lengthChecksum ⟨2, 1, 1⟩ ⟨1000, 1000⟩ 2 largeThird
    (fun s ↦ ∃ st, s.engine.states.get ⟨0, 0⟩ = some st ∧
      (deliverableBatches st false 0 (st.fetchEnd .ordered false)).map Reservation.batchId =
        [0, 1, 2, 3] ∧ ∃ batches, fetchStoredInternal 1000 st.toPartitionCore s.shards
          ⟨⟨0, 0⟩, 0, 10, .ordered⟩ false = .ok batches ∧
        batches.map (fun b ↦ b.reservation.batchId) = [0, 1, 3])
    (by decide +kernel)
  obtain ⟨st, hst, hall, batches, hfetch, hids⟩ := h
  exact ⟨s, st, batches, hs, hst, hall, hfetch, hids⟩

end ShardStream
