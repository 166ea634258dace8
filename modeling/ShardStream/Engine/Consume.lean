import ShardStream.Engine.Progress

/-!
# Consuming a log

A consumer that fetches from the offset after the last batch it got, until a fetch returns nothing
(`Drains`), and the accounting of the visible payload, `retained_payload_bytes`, which is such a
consumer with the largest request the engine accepts.

Both stop at the first fetch that returns nothing, and both go on behind the last batch of a fetch
that returns something. So a consumer gets to the visible end exactly if from every offset with a
committed batch ahead some committed batch is within a window, and the accounting is right exactly
if in addition no committed batch with a payload is passed over. The windows are cut before the
aborted batches are left out, so that neither follows from there being a committed batch ahead.
-/

namespace ShardStream

open PartitionCore List Bool ExtentLocation

variable {l last : ExtentLocation} {fuel bytes maxFetchBytes : Nat} {st : PartitionState}
  {tp : TopicPartition} {shards : List ShardStore} {extents delivered : List ExtentLocation}

/-! ### Consumers -/

/-- `fetch` in ordered mode, with the batches as they are stored. -/
def orderedFetch (maxFetchBytes : Nat) (st : PartitionState) (shards : List ShardStore)
    (tp : TopicPartition) (maxBytes startOffset : Nat) : Except EngineError (List StoredBatch) :=
  fetchStoredInternal maxFetchBytes st.toPartitionCore shards ⟨tp, startOffset, maxBytes,
  .ordered⟩ false

/-- Fetching from `start`, each time from the offset after the last batch, ends at `stop` with a
fetch that returns nothing. -/
inductive Drains (fetch : Nat → Except EngineError (List StoredBatch)) : Nat → Nat → Prop
  | done {start : Nat} (h : fetch start = .ok []) : Drains fetch start start
  | next {start stop : Nat} {batches : List StoredBatch} {last : StoredBatch}
      (h : fetch start = .ok batches) (hlast : batches.getLast? = some last)
      (hrest : Drains fetch (last.reservation.lastOffset + 1) stop) : Drains fetch start stop

/-- The loop body of `retained_payload_bytes` for one batch. The conversion of the payload's length
cannot fail where a `usize` has 64 bits. -/
def accountBatch (total : Nat × Nat) (batch : StoredBatch) : Except EngineError (Nat × Nat) :=
  if 2 ^ 64 ≤ total.1 + batch.payload.length then
    .error (.invalidConfig "retained payload byte count overflow")
  else if 2 ^ 64 ≤ batch.reservation.lastOffset + 1 then
    .error (.invalidConfig "retained offset exhausted")
  else .ok (total.1 + batch.payload.length, batch.reservation.lastOffset + 1)

/-- The loop of `retained_payload_bytes`. Every round moves the offset up, so that the distance to
the last stable offset is enough fuel. -/
def retainedLoop (fetch : Nat → Except EngineError (List StoredBatch)) (lastStableOffset : Nat) :
    Nat → Nat → Nat → Except EngineError Nat
  | 0, _, bytes => .ok bytes
  | fuel + 1, offset, bytes =>
    if offset < lastStableOffset then do
      let batches ← fetch offset
      if batches = [] then .ok bytes
      else do
        let (bytes, offset) ← batches.foldlM accountBatch (bytes, offset)
        retainedLoop fetch lastStableOffset fuel offset bytes
    else .ok bytes

/-- `retained_payload_bytes`, on a partition and shards that do not change meanwhile. -/
def retainedPayloadBytes (maxFetchBytes : Nat) (st : PartitionState) (shards : List ShardStore)
    (tp : TopicPartition) (startOffset : Nat) : Except EngineError Nat :=
  if startOffset < st.logStart then .error (.offsetOutOfRange startOffset st.logStart)
  else if 2 ^ 32 ≤ maxFetchBytes then .error (.invalidConfig "max_fetch_bytes exceeds u32")
  else retainedLoop (orderedFetch maxFetchBytes st shards tp maxFetchBytes) st.lastStableOffset
    (st.lastStableOffset - startOffset) startOffset 0

/-! ### What consumers are to get -/

/-- The batch of the extent is committed, reaches the start and lies below the last stable
offset. -/
def visible (st : PartitionState) (startOffset : Nat) (l : ExtentLocation) : Bool :=
  deliverable st false startOffset st.lastStableOffset l.reservation

/-- The payload of all committed batches from the start to the last stable offset. -/
def visiblePayload (st : PartitionState) (shards : List ShardStore) (tp : TopicPartition)
    (startOffset : Nat) : Nat :=
  (((extentsOf tp shards).filter (visible st startOffset)).map payloadLen).sum

/-- The request is one that the engine accepts. -/
structure Accepts (maxFetchBytes : Nat) (st : PartitionState)
    (startOffset maxBytes : Nat) : Prop where
  logStart_le : st.logStart ≤ startOffset
  pos : 0 < maxBytes
  lt : maxBytes < 2 ^ 32
  le : maxBytes ≤ maxFetchBytes

/-- Consumers progress: a fetch returns something if there is something to return, fetching goes on
to the visible end, and the visible payload is accounted for wherever the engine's limit and the
total are numbers of their types. -/
structure ConsumersProgress (maxFetchBytes : Nat) (st : PartitionState) (shards : List ShardStore)
    (tp : TopicPartition) : Prop where
  returns : ∀ startOffset maxBytes, Accepts maxFetchBytes st startOffset maxBytes →
    deliverableBatches st false startOffset st.lastStableOffset ≠ [] →
      ∃ first rest, orderedFetch maxFetchBytes st shards tp maxBytes startOffset =
      .ok (first :: rest)
  drains : ∀ startOffset maxBytes, Accepts maxFetchBytes st startOffset maxBytes →
    ∃ stop, Drains (orderedFetch maxFetchBytes st shards tp maxBytes) startOffset stop ∧
      deliverableBatches st false stop st.lastStableOffset = []
  accounts : maxFetchBytes < 2 ^ 32 → ∀ startOffset, st.logStart ≤ startOffset →
    visiblePayload st shards tp startOffset < 2 ^ 64 →
      retainedPayloadBytes maxFetchBytes st shards tp startOffset =
        .ok (visiblePayload st shards tp startOffset)

/-- The windows suffice: if a committed batch is ahead then some committed batch is within the
window of its shard, and a committed batch that is passed over has no payload. -/
structure WindowsSuffice (maxFetchBytes : Nat) (st : PartitionState) (shards : List ShardStore)
    (tp : TopicPartition) : Prop where
  within : ∀ startOffset maxBytes, Accepts maxFetchBytes st startOffset maxBytes →
    (∃ l ∈ extentsOf tp shards, visible st startOffset l = true) →
      ∃ l ∈ windows tp startOffset maxBytes shards, visible st startOffset l = true
  skipped : maxFetchBytes < 2 ^ 32 → ∀ startOffset, st.logStart ≤ startOffset →
    visiblePayload st shards tp startOffset < 2 ^ 64 → ∀ c d,
      Skips tp shards startOffset maxFetchBytes
      (deliverable st false startOffset st.lastStableOffset) c d → c.payloadLen = 0

section Consumers

variable {checksum : ExtentChecksum} {startOffset maxBytes : Nat}
  {batches : List StoredBatch} {last : Reservation}

theorem foldlM_accountBatch {offset : Nat}
    (hsum : bytes + (batches.map fun b ↦ b.payload.length).sum < 2 ^ 64)
    (hlast : ∀ b ∈ batches, b.reservation.lastOffset + 1 < 2 ^ 64) :
    batches.foldlM accountBatch (bytes, offset) =
      .ok (bytes + (batches.map fun b ↦ b.payload.length).sum,
        (batches.getLast?.map fun b ↦ b.reservation.lastOffset + 1).getD offset) := by
  induction batches generalizing bytes offset with
  | nil => rfl
  | cons b batches ih =>
    obtain ⟨hb, hlast⟩ := forall_mem_cons.1 hlast
    simp only [map_cons, sum_cons] at hsum ⊢
    rw [foldlM_cons, accountBatch, if_neg (by dsimp only; omega), if_neg (by omega)]
    change batches.foldlM accountBatch (bytes + b.payload.length, b.reservation.lastOffset + 1) = _
    rw [ih (by omega) hlast, getLast?_cons, ← Nat.add_assoc]
    cases batches.getLast? <;> rfl

/-- The extents that are visible from the start and end no later than `last`. -/
def visibleUpTo (st : PartitionState) (shards : List ShardStore) (tp : TopicPartition)
    (startOffset : Nat) (last : Reservation) : List ExtentLocation :=
  (extentsOf tp shards).filter fun l ↦
    visible st startOffset l && decide (l.reservation.lastOffset ≤ last.lastOffset)

theorem mem_visibleUpTo_iff :
    l ∈ visibleUpTo st shards tp startOffset last ↔ l ∈ extentsOf tp shards ∧
      visible st startOffset l = true ∧ l.reservation.lastOffset ≤ last.lastOffset := by
  simp [visibleUpTo]

/-- What is visible from the start is what ends with `last`, and what is visible behind it. -/
theorem visiblePayload_eq (hle : startOffset ≤ last.lastOffset) :
    visiblePayload st shards tp startOffset =
      ((visibleUpTo st shards tp startOffset last).map payloadLen).sum +
        visiblePayload st shards tp (last.lastOffset + 1) := by
  have hsplit := (((extentsOf tp shards).filter (visible st startOffset)).filter_append_perm
    fun l ↦ decide (l.reservation.lastOffset ≤ last.lastOffset)).map payloadLen
  have hafter : ((extentsOf tp shards).filter (visible st startOffset)).filter
      (fun l ↦ !decide (l.reservation.lastOffset ≤ last.lastOffset)) =
        (extentsOf tp shards).filter (visible st (last.lastOffset + 1)) := by
    rw [filter_filter]
    refine filter_congr fun l _ ↦ ?_
    rw [Bool.eq_iff_iff]
    simp only [visible, deliverable, and_eq_true, decide_eq_true_eq, not_eq_true',
      decide_eq_false_iff_not]
    constructor
    · rintro ⟨h₁, ⟨-, h₂⟩, h₃⟩
      exact ⟨⟨by omega, h₂⟩, h₃⟩
    · rintro ⟨⟨h₁, h₂⟩, h₃⟩
      exact ⟨by omega, ⟨by omega, h₂⟩, h₃⟩
  rw [visiblePayload, ← hsplit.sum_eq, map_append, sum_append, filter_filter]
  congr 3
  exact filter_congr fun l _ ↦ and_comm ..

namespace Delivery

section Deliver

variable {deliver : Reservation → Bool}

variable (h : Delivery st tp shards startOffset maxBytes deliver extents delivered)

include h

theorem nodup : delivered.Nodup :=
  (h.sorted.sublist h.isPrefix.sublist).imp_of_mem fun {a b} ha _ hlt heq ↦ by
    have := h.ranges a (h.isPrefix.subset ha)
    rw [heq] at hlt this
    omega

theorem mem_extentsOf (hl : l ∈ delivered) :
    l ∈ extentsOf tp shards ∧ deliver l.reservation = true := by
  obtain ⟨hwindow, hdeliver, -⟩ := h.mem_delivered_iff.1 hl
  obtain ⟨shard, hshard, hl, -⟩ := mem_windows_iff.1 hwindow
  exact ⟨mem_flatMap.2 ⟨shard, hshard, hl⟩, hdeliver⟩

theorem lastOffset_le {last : ExtentLocation} (hlast : delivered.getLast? = some last)
    (hl : l ∈ delivered) : l.reservation.lastOffset ≤ last.reservation.lastOffset := by
  obtain ⟨front, rfl⟩ := getLast?_eq_some_iff.1 hlast
  rcases mem_append.1 hl with hl | hl
  · have hlt := (pairwise_append.1 (h.sorted.sublist h.isPrefix.sublist)).2.2 l hl last (by simp)
    have := h.ranges last (h.isPrefix.subset (by simp))
    omega
  · rw [mem_singleton.1 hl]

end Deliver

variable {endOffset : Nat} {c last : ExtentLocation}

/-- What ends no later than the last delivered extent is delivered or passed over. -/
theorem mem_or_skips_last (h : Delivery st tp shards startOffset maxBytes
      (deliverable st false startOffset endOffset) extents delivered)
    (hlayout : ShardLayout checksum st tp shards) (hlast : delivered.getLast? = some last)
    (hc : c ∈ extentsOf tp shards)
    (hdeliver : deliverable st false startOffset endOffset c.reservation = true)
    (hle : c.reservation.lastOffset ≤ last.reservation.lastOffset) :
    c ∈ delivered ∨ Skips tp shards startOffset maxBytes
      (deliverable st false startOffset endOffset) c last := by
  have hmem : last ∈ delivered := mem_of_getLast? hlast
  obtain ⟨hlast, hdeliver'⟩ := h.mem_extentsOf hmem
  have hretains := hlayout.retains hc hdeliver
  have hretains' := hlayout.retains hlast hdeliver'
  by_cases heq : c.reservation = last.reservation
  · obtain ⟨shard, hshard, hc⟩ := mem_flatMap.1 hc
    obtain ⟨shard', hshard', hlast⟩ := mem_flatMap.1 hlast
    obtain ⟨-, rfl⟩ := hlayout.eq_of_reservation hshard hshard' hc hlast heq
    exact .inl hmem
  · refine h.mem_or_skips hc hdeliver hmem (Nat.lt_of_not_le fun hge ↦ ?_)
    have hlt := hretains'.lt_of_firstOffset_le hretains hlayout.layout hge (Ne.symm heq)
    have := hretains.range hlayout.layout
    omega

theorem startOffset_le (h : Delivery st tp shards startOffset maxBytes
    (deliverable st false startOffset endOffset) extents delivered) (hl : l ∈ delivered) :
    startOffset ≤ l.reservation.lastOffset := by
  have hdeliver := (h.mem_extentsOf hl).2
  simp only [deliverable, and_eq_true, decide_eq_true_eq] at hdeliver
  exact hdeliver.1.1

variable
  (h : Delivery st tp shards startOffset maxBytes
      (deliverable st false startOffset st.lastStableOffset) extents delivered)

include h

/-- The delivered extents are some of those up to the last one. -/
theorem payload_le (hlast : delivered.getLast? = some last) :
    (delivered.map payloadLen).sum + visiblePayload st shards tp (last.reservation.lastOffset + 1) ≤
        visiblePayload st shards tp startOffset := by
  rw [visiblePayload_eq (h.startOffset_le (mem_of_getLast? hlast))]
  refine Nat.add_le_add_right (Budget.sum_map_le_of_nodup h.nodup fun l hl _ ↦ ?_) _
  exact mem_visibleUpTo_iff.2
    ⟨(h.mem_extentsOf hl).1, (h.mem_extentsOf hl).2, h.lastOffset_le hlast hl⟩

/-- If nothing with a payload is passed over, the delivered extents are all up to the last one. -/
theorem le_payload (hlayout : ShardLayout checksum st tp shards)
    (hlast : delivered.getLast? = some last)
    (hskips : ∀ c d, Skips tp shards startOffset maxBytes
      (deliverable st false startOffset st.lastStableOffset) c d → c.payloadLen = 0) :
    visiblePayload st shards tp startOffset ≤ (delivered.map payloadLen).sum +
      visiblePayload st shards tp (last.reservation.lastOffset + 1) := by
  rw [visiblePayload_eq (h.startOffset_le (mem_of_getLast? hlast))]
  refine Nat.add_le_add_right (Budget.sum_map_le_of_nodup (hlayout.nodup_extentsOf.filter _)
    fun l hl hne ↦ ?_) _
  obtain ⟨hl, hvisible, hle⟩ := mem_visibleUpTo_iff.1 hl
  exact (h.mem_or_skips_last hlayout hlast hl hvisible hle).resolve_right
    fun hs ↦ hne (hskips l last hs)

/-- What is passed over is missing. -/
theorem skipped_le (hlayout : ShardLayout checksum st tp shards) {d : ExtentLocation}
    (hskips : Skips tp shards startOffset maxBytes
      (deliverable st false startOffset st.lastStableOffset) c d) :
    ∃ last, delivered.getLast? = some last ∧
      (delivered.map payloadLen).sum + c.payloadLen +
        visiblePayload st shards tp (last.reservation.lastOffset + 1) ≤
          visiblePayload st shards tp startOffset := by
  obtain ⟨hnotMem, hd⟩ := h.notMem_of_skips hlayout hskips
  cases hlast : delivered.getLast? with
  | none =>
    rw [getLast?_eq_none_iff.1 hlast] at hd
    cases hd
  | some last =>
    refine ⟨last, rfl, ?_⟩
    rw [visiblePayload_eq (h.startOffset_le (mem_of_getLast? hlast))]
    have hnodup : (c :: delivered).Nodup := nodup_cons.2 ⟨hnotMem, h.nodup⟩
    have hsum : ((c :: delivered).map payloadLen).sum ≤ ((visibleUpTo st shards tp
        startOffset last.reservation).map payloadLen).sum := by
      refine Budget.sum_map_le_of_nodup hnodup fun l hl _ ↦ ?_
      rcases mem_cons.1 hl with rfl | hl
      · -- it ends before the extent it is passed over for
        obtain ⟨shard, hshard, hmem, -⟩ := hskips.beyond
        have hmem : l ∈ extentsOf tp shards := mem_flatMap.2 ⟨shard, hshard, hmem⟩
        have hle := (hlayout.retains (h.mem_extentsOf hd).1 hskips.delivered).lastOffset_le
          (hlayout.retains hmem hskips.skipped).knows hlayout.layout hskips.before.le
        exact mem_visibleUpTo_iff.2 ⟨hmem, hskips.skipped, hle.trans (h.lastOffset_le hlast hd)⟩
      · exact mem_visibleUpTo_iff.2
          ⟨(h.mem_extentsOf hl).1, (h.mem_extentsOf hl).2, h.lastOffset_le hlast hl⟩
    rw [map_cons, sum_cons] at hsum
    omega

end Delivery

/-- One round of a consumer: whether it gets anything, where that lies, and what it adds up to. -/
structure Round (st : PartitionState) (shards : List ShardStore) (tp : TopicPartition)
    (startOffset maxBytes : Nat) (batches : List StoredBatch) : Prop where
  eq_nil_iff : batches = [] ↔
    ∀ l ∈ windows tp startOffset maxBytes shards, visible st startOffset l = false
  range : ∀ b ∈ batches, startOffset ≤ b.reservation.lastOffset ∧
    b.reservation.lastOffset < st.lastStableOffset ∧ b.reservation.lastOffset + 1 < 2 ^ 64
  payload_le : ∀ last, batches.getLast? = some last →
    (batches.map fun b ↦ b.payload.length).sum +
      visiblePayload st shards tp (last.reservation.lastOffset + 1) ≤
        visiblePayload st shards tp startOffset
  le_payload : ∀ last, batches.getLast? = some last →
    (∀ c d, Skips tp shards startOffset maxBytes
      (deliverable st false startOffset st.lastStableOffset) c d → c.payloadLen = 0) →
    visiblePayload st shards tp startOffset ≤ (batches.map fun b ↦ b.payload.length).sum +
      visiblePayload st shards tp (last.reservation.lastOffset + 1)
  skipped_le : ∀ c d, Skips tp shards startOffset maxBytes
      (deliverable st false startOffset st.lastStableOffset) c d →
    ∃ last, batches.getLast? = some last ∧
    (batches.map fun b ↦ b.payload.length).sum + c.payloadLen +
      visiblePayload st shards tp (last.reservation.lastOffset + 1) ≤
        visiblePayload st shards tp startOffset

/-- **A round of a consumer**, from any offset and with any request that is accepted. -/
theorem ShardLayout.exists_round (h : ShardLayout checksum st tp shards)
    (haccepts : Accepts maxFetchBytes st startOffset maxBytes) :
    ∃ batches, orderedFetch maxFetchBytes st shards tp maxBytes startOffset = .ok batches ∧
      Round st shards tp startOffset maxBytes batches := by
  obtain ⟨hstart, hpos, hlt, hle⟩ := haccepts
  have hmode : FetchMode.ordered ≠ .asAvailable := by decide
  obtain ⟨batches, extents, delivered, hfetch, hdelivery, hmap⟩ :=
    h.fetch_spec hstart hpos (by omega) hle hmode false
  have hpayload : batches.map (fun b ↦ b.payload.length) = delivered.map payloadLen := by
    simpa [Function.comp_def] using congrArg (map (Prod.fst ∘ Prod.snd)) hmap
  have hreservation : batches.map StoredBatch.reservation =
      delivered.map reservation := by
    simpa [Function.comp_def] using congrArg (map Prod.fst) hmap
  have hlast : batches.getLast?.map StoredBatch.reservation =
      delivered.getLast?.map reservation := by
    rw [← getLast?_map, hreservation, getLast?_map]
  refine ⟨batches, hfetch, ?_, fun b hb ↦ ?_, fun b hb ↦ ?_, fun b hb hskips ↦ ?_, fun c d hskips ↦
    ?_⟩
  · have hnil : batches = [] ↔ delivered = [] := by
      rw [← map_eq_nil_iff, hreservation, map_eq_nil_iff]
    exact hnil.trans hdelivery.delivered_eq_nil_iff
  · obtain ⟨l, hl, heq⟩ := mem_map.1 (hreservation ▸ mem_map_of_mem hb)
    obtain ⟨hl, hvisible⟩ := hdelivery.mem_extentsOf hl
    have hbound := ((h.retains hl hvisible).range h.layout).2.2
    have := h.layout.offset_lt
    simp only [deliverable, and_eq_true, decide_eq_true_eq] at hvisible
    rw [heq] at hbound hvisible
    exact ⟨hvisible.1.1, hvisible.1.2, by omega⟩
  · rw [hb] at hlast
    obtain ⟨last, hl, heq⟩ := Option.map_eq_some_iff.1 hlast.symm
    rw [hpayload, ← heq]
    exact hdelivery.payload_le hl
  · rw [hb] at hlast
    obtain ⟨last, hl, heq⟩ := Option.map_eq_some_iff.1 hlast.symm
    rw [hpayload, ← heq]
    exact hdelivery.le_payload h hl hskips
  · obtain ⟨last, hl, hle⟩ := hdelivery.skipped_le h hskips
    rw [hl] at hlast
    obtain ⟨b, hb, heq⟩ := Option.map_eq_some_iff.1 hlast
    refine ⟨b, hb, ?_⟩
    rw [hpayload, heq]
    exact hle

/-! ### Many rounds -/

/-- Behind the last stable offset nothing is visible. -/
theorem visiblePayload_eq_zero (hle : st.lastStableOffset ≤ startOffset) :
    visiblePayload st shards tp startOffset = 0 := by
  have hnone : (extentsOf tp shards).filter (visible st startOffset) = [] := by
    refine filter_eq_nil_iff.2 fun l _ hvisible ↦ ?_
    simp only [visible, deliverable, and_eq_true, decide_eq_true_eq] at hvisible
    omega
  rw [visiblePayload, hnone]
  rfl

theorem Round.next_le {last : StoredBatch} (h : Round st shards tp startOffset maxBytes batches)
    (hlast : batches.getLast? = some last) :
    startOffset < last.reservation.lastOffset + 1 ∧
      last.reservation.lastOffset + 1 ≤ st.lastStableOffset := by
  obtain ⟨hstart, hstable, -⟩ := h.range last (mem_of_getLast? hlast)
  omega

/-- A round of the accounting that gets something. -/
theorem Round.retainedLoop_succ {last : StoredBatch}
    {fetch : Nat → Except EngineError (List StoredBatch)}
    (h : Round st shards tp startOffset maxBytes batches) (hfetch : fetch startOffset = .ok batches)
    (hlast : batches.getLast? = some last)
    (hbytes : bytes + visiblePayload st shards tp startOffset < 2 ^ 64) :
    retainedLoop fetch st.lastStableOffset (fuel + 1) startOffset bytes =
      retainedLoop fetch st.lastStableOffset fuel (last.reservation.lastOffset + 1)
        (bytes + (batches.map fun b ↦ b.payload.length).sum) := by
  have hne : batches ≠ [] := by
    rintro rfl
    cases hlast
  have hle := h.payload_le last hlast
  have hnext := h.next_le hlast
  rw [retainedLoop, if_pos (by omega), hfetch]
  change (if batches = [] then _ else batches.foldlM accountBatch (bytes, startOffset) >>= _) = _
  rw [if_neg hne, foldlM_accountBatch (by omega) fun b hb ↦ (h.range b hb).2.2, hlast]
  rfl

namespace ShardLayout

variable (h : ShardLayout checksum st tp shards)

include h

/-- **The accounting returns a total**, which is at most the visible payload, and equal to it if the
windows suffice. By induction on the rounds that are left: each moves the offset up. -/
theorem exists_retainedLoop (hpos : 0 < maxFetchBytes) (hlimit : maxFetchBytes < 2 ^ 32)
    (hstart : st.logStart ≤ startOffset) (hfuel : st.lastStableOffset ≤ startOffset + fuel)
    (hbytes : bytes + visiblePayload st shards tp startOffset < 2 ^ 64) :
    ∃ total,
        retainedLoop (orderedFetch maxFetchBytes st shards tp maxFetchBytes) st.lastStableOffset
        fuel startOffset bytes = .ok total ∧
      total ≤ bytes + visiblePayload st shards tp startOffset ∧
      (WindowsSuffice maxFetchBytes st shards tp →
        bytes + visiblePayload st shards tp startOffset ≤ total) := by
  induction fuel generalizing startOffset bytes with
  | zero =>
    rw [visiblePayload_eq_zero (by omega)]
    exact ⟨bytes, rfl, Nat.le_refl _, fun _ ↦ Nat.le_refl _⟩
  | succ fuel ih =>
    by_cases hstable : startOffset < st.lastStableOffset
    · have haccepts : Accepts maxFetchBytes st startOffset maxFetchBytes :=
        ⟨hstart, hpos, hlimit, Nat.le_refl _⟩
      obtain ⟨batches, hfetch, hround⟩ := h.exists_round haccepts
      cases hlast : batches.getLast? with
      | none =>
        have hnil := getLast?_eq_none_iff.1 hlast
        refine ⟨bytes, ?_, by omega, fun hsuffice ↦ ?_⟩
        · rw [retainedLoop, if_pos hstable, hfetch, hnil]
          rfl
        · -- nothing is in a window, so nothing is visible
          have hnone : (extentsOf tp shards).filter (visible st startOffset) = [] := by
            refine filter_eq_nil_iff.2 fun l hl hvisible ↦ ?_
            obtain ⟨l', hl', hvisible'⟩ := hsuffice.within _ _ haccepts ⟨l, hl, hvisible⟩
            rw [hround.eq_nil_iff.1 hnil l' hl'] at hvisible'
            cases hvisible'
          rw [visiblePayload, hnone]
          exact Nat.le_refl _
      | some last =>
        have hle := hround.payload_le last hlast
        have hnext := hround.next_le hlast
        have hrest : (bytes + (batches.map fun b ↦ b.payload.length).sum) +
            visiblePayload st shards tp (last.reservation.lastOffset + 1) < 2 ^ 64 := by omega
        obtain ⟨total, htotal, htotal_le, hle_total⟩ := ih (by omega) (by omega) hrest
        rw [hround.retainedLoop_succ hfetch hlast hbytes]
        refine ⟨total, htotal, by omega, fun hsuffice ↦ ?_⟩
        have hge := hround.le_payload last hlast
          (hsuffice.skipped hlimit startOffset hstart (by omega))
        have := hle_total hsuffice
        omega
    · rw [visiblePayload_eq_zero (by omega)]
      refine ⟨bytes, ?_, Nat.le_refl _, fun _ ↦ Nat.le_refl _⟩
      rw [retainedLoop, if_neg hstable]

/-- **Fetching again and again ends.** -/
theorem exists_drains (haccepts : Accepts maxFetchBytes st startOffset maxBytes) :
    ∃ stop, st.logStart ≤ stop ∧ orderedFetch maxFetchBytes st shards tp maxBytes stop = .ok [] ∧
      Drains (orderedFetch maxFetchBytes st shards tp maxBytes) startOffset stop := by
  -- by induction on the distance to the last stable offset
  induction hroom : st.lastStableOffset - startOffset using Nat.strong_induction_on
    generalizing startOffset with
  | _ room ih =>
    obtain ⟨batches, hfetch, hround⟩ := h.exists_round haccepts
    cases hlast : batches.getLast? with
    | none =>
      rw [getLast?_eq_none_iff.1 hlast] at hfetch
      exact ⟨startOffset, haccepts.logStart_le, hfetch, .done hfetch⟩
    | some last =>
      have hnext := hround.next_le hlast
      have haccepts' : Accepts maxFetchBytes st (last.reservation.lastOffset + 1) maxBytes :=
        ⟨haccepts.logStart_le.trans hnext.1.le, haccepts.pos, haccepts.lt, haccepts.le⟩
      obtain ⟨stop, hstop, hempty, hdrains⟩ := ih _ (by omega) haccepts' rfl
      exact ⟨stop, hstop, hempty, .next hfetch hlast hdrains⟩

/-- A fetch returns something exactly if something visible is in a window. -/
theorem orderedFetch_eq_cons_iff (haccepts : Accepts maxFetchBytes st startOffset maxBytes) :
    (∃ first rest, orderedFetch maxFetchBytes st shards tp maxBytes startOffset =
        .ok (first :: rest)) ↔
      ∃ l ∈ windows tp startOffset maxBytes shards, visible st startOffset l = true := by
  obtain ⟨batches, hfetch, hround⟩ := h.exists_round haccepts
  rw [hfetch]
  constructor
  · rintro ⟨first, rest, heq⟩
    cases heq
    by_contra hnone
    have hnil := hround.eq_nil_iff.2 fun l hl ↦ by
      by_contra hvisible
      exact hnone ⟨l, hl, by simpa using hvisible⟩
    cases hnil
  · rintro ⟨l, hl, hvisible⟩
    cases batches with
    | nil =>
      rw [hround.eq_nil_iff.1 rfl l hl] at hvisible
      cases hvisible
    | cons first rest => exact ⟨first, rest, rfl⟩

/-- A committed batch is ahead exactly if an extent of one is. -/
theorem deliverableBatches_ne_nil_iff :
    deliverableBatches st false startOffset st.lastStableOffset ≠ [] ↔
      ∃ l ∈ extentsOf tp shards, visible st startOffset l = true := by
  constructor
  · intro hne
    obtain ⟨r, hr⟩ := exists_mem_of_ne_nil _ hne
    obtain ⟨hretains, hd⟩ := (mem_deliverableBatches_iff h.layout).1 hr
    obtain ⟨l, hl, rfl⟩ := h.stored.exists_extent hretains hd
    exact ⟨l, hl, hd⟩
  · rintro ⟨l, hl, hvisible⟩
    exact ne_nil_of_mem (h.mem_deliverableBatches hl hvisible)

end ShardLayout

end Consumers

/-- **Consumers progress exactly if the windows suffice.** The engine's limit is not zero, as its
configuration is checked for. -/
theorem consumersProgress_iff {checksum : ExtentChecksum} {st : PartitionState}
    {tp : TopicPartition} {shards : List ShardStore} {maxFetchBytes : Nat}
    (h : ShardLayout checksum st tp shards) (hpos : 0 < maxFetchBytes) :
    ConsumersProgress maxFetchBytes st shards tp ↔ WindowsSuffice maxFetchBytes st shards tp := by
  constructor
  · intro hprogress
    refine ⟨fun startOffset maxBytes haccepts hahead ↦ ?_,
      fun hlimit startOffset hstart hbytes c d hskips ↦ ?_⟩
    · exact (h.orderedFetch_eq_cons_iff haccepts).1
        (hprogress.returns _ _ haccepts (h.deliverableBatches_ne_nil_iff.2 hahead))
    · -- the first round passes over `c`, and no later round makes up for it
      obtain ⟨batches, hfetch, hround⟩ :=
        h.exists_round (⟨hstart, hpos, hlimit, Nat.le_refl _⟩ :
          Accepts maxFetchBytes st startOffset maxFetchBytes)
      obtain ⟨last, hlast, hmissing⟩ := hround.skipped_le c d hskips
      have hnext := hround.next_le hlast
      have haccounts := hprogress.accounts hlimit startOffset hstart hbytes
      obtain ⟨fuel, hfuel⟩ : ∃ fuel, st.lastStableOffset - startOffset = fuel + 1 :=
        ⟨st.lastStableOffset - startOffset - 1, by omega⟩
      rw [retainedPayloadBytes, if_neg (by omega), if_neg (by omega), hfuel,
        hround.retainedLoop_succ hfetch hlast (by omega)] at haccounts
      obtain ⟨total, htotal, htotal_le, -⟩ := h.exists_retainedLoop hpos hlimit
        (hstart.trans hnext.1.le)
        (by omega : st.lastStableOffset ≤ last.reservation.lastOffset + 1 + fuel)
        (by omega : (0 + (batches.map fun b ↦ b.payload.length).sum) +
          visiblePayload st shards tp (last.reservation.lastOffset + 1) < 2 ^ 64)
      rw [htotal] at haccounts
      cases haccounts
      omega
  · intro hsuffice
    have hreturns : ∀ startOffset maxBytes, Accepts maxFetchBytes st startOffset maxBytes →
        deliverableBatches st false startOffset st.lastStableOffset ≠ [] → ∃ first rest,
          orderedFetch maxFetchBytes st shards tp maxBytes startOffset = .ok (first :: rest) :=
      fun startOffset maxBytes haccepts hne ↦ (h.orderedFetch_eq_cons_iff haccepts).2
        (hsuffice.within _ _ haccepts (h.deliverableBatches_ne_nil_iff.1 hne))
    refine ⟨hreturns, fun startOffset maxBytes haccepts ↦ ?_, fun hlimit startOffset hstart hbytes ↦
      ?_⟩
    · obtain ⟨stop, hstop, hempty, hdrains⟩ := h.exists_drains haccepts
      refine ⟨stop, hdrains, ?_⟩
      by_contra hne
      obtain ⟨first, rest, heq⟩ := hreturns stop maxBytes
        ⟨hstop, haccepts.pos, haccepts.lt, haccepts.le⟩ hne
      rw [hempty] at heq
      cases heq
    · obtain ⟨total, htotal, hle, hge⟩ := h.exists_retainedLoop hpos hlimit hstart
        (by omega : st.lastStableOffset ≤ startOffset + (st.lastStableOffset - startOffset))
        (by omega : 0 + visiblePayload st shards tp startOffset < 2 ^ 64)
      have hge := hge hsuffice
      rw [retainedPayloadBytes, if_neg (by omega), if_neg (by omega), htotal]
      congr 1
      omega

/-- Windows of one extent suffice. -/
theorem windowsSuffice_of_single (h : ∀ shard ∈ shards, (shard.ix.locations tp).length ≤ 1) :
    WindowsSuffice maxFetchBytes st shards tp := by
  have hin : ∀ {startOffset maxBytes shard l},
      shard ∈ shards → l ∈ shard.ix.locations tp → visible st startOffset l = true →
      inWindow tp startOffset maxBytes shard l = true := by
    intro startOffset maxBytes shard l hshard hl hvisible
    simp only [visible, deliverable, and_eq_true, decide_eq_true_eq] at hvisible
    exact inWindow_of_single maxBytes (h shard hshard) hl hvisible.1.1
  refine ⟨fun startOffset maxBytes _ hexists ↦ ?_, fun _ _ _ _ c d hskips ↦ ?_⟩
  · obtain ⟨l, hl, hvisible⟩ := hexists
    obtain ⟨shard, hshard, hl⟩ := mem_flatMap.1 hl
    exact ⟨l, mem_windows_iff.2 ⟨shard, hshard, hl, hin hshard hl hvisible⟩, hvisible⟩
  · obtain ⟨shard, hshard, hl, hbeyond⟩ := hskips.beyond
    rw [hin hshard hl hskips.skipped] at hbeyond
    cases hbeyond

/-- With one batch on each of two shards, consumers progress. -/
theorem consumersProgress_on_two_shards : ∃ s st, ShardedReachable lengthChecksum ⟨2, 1, 1⟩ s ∧
    s.engine.states.get ⟨0, 0⟩ = some st ∧ visiblePayload st s.shards ⟨0, 0⟩ 0 = 3 ∧
      ConsumersProgress 10 st s.shards ⟨0, 0⟩ := by
  obtain ⟨s, hs, h⟩ :=
    ShardedEngine.exists_of_play lengthChecksum ⟨2, 1, 1⟩ ⟨1000, 100⟩ 2 onTwoShards
    (fun s ↦ ∃ st, s.engine.states.get ⟨0, 0⟩ = some st ∧ visiblePayload st s.shards ⟨0, 0⟩ 0 = 3 ∧
      ∀ shard ∈ s.shards, (shard.ix.locations ⟨0, 0⟩).length ≤ 1)
    (by decide +kernel)
  obtain ⟨st, hst, hpayload, hsingle⟩ := h
  exact ⟨s, st, hs, hst, hpayload,
    (consumersProgress_iff (hs.shardLayout hst) (by decide)).2 (windowsSuffice_of_single hsingle)⟩

/-- A chunk of 20 bytes of a group that is aborted, and a plain batch of one byte, on one shard. -/
def abortedFirst : List ShardAction :=
  [.engine (.create ⟨0, 0⟩ [0] ⟨1, 1, 1⟩), .engine (.reserve ⟨0, 0⟩ none (some ⟨7, 0⟩) .one 20 0),
    .append 0 ⟨0, 0⟩ 0 (replicate 20 0), .engine (.write ⟨0, 0⟩ 0),
    .engine (.complete ⟨0, 0⟩ 0),
    .engine (.command ⟨0, 0⟩ fun _ ↦ some (.finalizeAtomicGroup 7 .aborted))] ++ appendedOn 0 1 [1]

/-- **An aborted batch stops consumers.** A committed batch is visible, but the batch of the aborted
group fills the window of the shard: a fetch returns nothing, and none of the payload is accounted
for. -/
theorem aborted_batch_stops_consumers : ∃ s st, ShardedReachable lengthChecksum ⟨1, 1, 1⟩ s ∧
    s.engine.states.get ⟨0, 0⟩ = some st ∧
    (deliverableBatches st false 0 st.lastStableOffset).map Reservation.batchId = [1] ∧
    visiblePayload st s.shards ⟨0, 0⟩ 0 = 1 ∧
    orderedFetch 10 st s.shards ⟨0, 0⟩ 10 0 = .ok [] ∧
    retainedPayloadBytes 10 st s.shards ⟨0, 0⟩ 0 = .ok 0 := by
  obtain ⟨s, hs, h⟩ :=
    ShardedEngine.exists_of_play lengthChecksum ⟨1, 1, 1⟩ ⟨1000, 100⟩ 1 abortedFirst
    (fun s ↦ ∃ st, s.engine.states.get ⟨0, 0⟩ = some st ∧
      (deliverableBatches st false 0 st.lastStableOffset).map Reservation.batchId = [1] ∧
      visiblePayload st s.shards ⟨0, 0⟩ 0 = 1 ∧
      (orderedFetch 10 st s.shards ⟨0, 0⟩ 10 0).toOption = some [] ∧
      (retainedPayloadBytes 10 st s.shards ⟨0, 0⟩ 0).toOption = some 0)
    (by decide +kernel)
  obtain ⟨st, hst, hids, hpayload, hfetch, hretained⟩ := h
  exact ⟨s, st, hs, hst, hids, hpayload, toOption_eq_some_iff.1 hfetch,
    toOption_eq_some_iff.1 hretained⟩

end ShardStream
