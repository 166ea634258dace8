import ShardStream.Engine.Progress

/-!
# Reading a log back

After a restart two loops read a partition from an offset to its contiguous end, with fetches that
also return unresolved batches: one offers the batches to the followers, the other to a sink. What
they have in common is `replayLoop`: fetch at the offset, fail if nothing comes, take the batches
one after the other, and go on behind the last one.

The batches such a loop gets are those of `Reads`. They are all batches ahead, in order, if none of
these is aborted and if no fetch on the way passes one over (`RecoveredLog.exists_reads`).
Conversely, a loop that got every extent ahead passed none over (`Reads.passesNoneOver`).
-/

namespace ShardStream

open PartitionCore List StoredBatch

/-! ### The loop -/

/-- The loop of the replays over a partition. Every round moves the offset up, so that the distance
to the end is enough fuel. -/
def replayLoop {σ : Type} (fetch : Nat → Except EngineError (List StoredBatch))
    (nothing : Nat → EngineError) (take : σ → List StoredBatch → Except EngineError σ)
    (offset : σ → Nat) (stop : Nat) : Nat → σ → Except EngineError σ
  | 0, s => .ok s
  | fuel + 1, s =>
    if offset s < stop then do
      let batches ← fetch (offset s)
      if batches = [] then .error (nothing (offset s))
      else do
        let s ← take s batches
        replayLoop fetch nothing take offset stop fuel s
    else .ok s

/-- Fetching from an offset, each time from behind the last batch and as long as the offset is below
the end, gives these batches. -/
inductive Reads (fetch : Nat → Except EngineError (List StoredBatch)) (stop : Nat) :
    Nat → List StoredBatch → Prop
  | done {o : Nat} (h : stop ≤ o) : Reads fetch stop o []
  | next {o : Nat} {batches rest : List StoredBatch} {last : StoredBatch} (h : o < stop)
      (hfetch : fetch o = .ok batches) (hlast : batches.getLast? = some last)
      (hrest : Reads fetch stop (last.reservation.lastOffset + 1) rest) :
      Reads fetch stop o (batches ++ rest)

section Loop

variable {σ : Type} {fetch : Nat → Except EngineError (List StoredBatch)}
  {nothing : Nat → EngineError} {take : σ → List StoredBatch → Except EngineError σ}
  {step : σ → StoredBatch → Except EngineError σ} {offset : σ → Nat} {stop : Nat}
  {batches : List StoredBatch}

theorem offset_of_foldlM
    (hstep : ∀ s b s', step s b = .ok s' → offset s' = b.reservation.lastOffset + 1)
    {last : StoredBatch} {s s' : σ} (hlast : batches.getLast? = some last)
    (h : batches.foldlM step s = .ok s') : offset s' = last.reservation.lastOffset + 1 := by
  obtain ⟨front, rfl⟩ := getLast?_eq_some_iff.1 hlast
  rw [foldlM_append, bind_eq_ok_iff] at h
  obtain ⟨s₁, -, h⟩ := h
  rw [foldlM_cons, bind_eq_ok_iff] at h
  obtain ⟨s₂, h, hs⟩ := h
  cases hs
  exact hstep _ _ _ h

/-- **What the loop returns**: what its body makes of the batches that are read. -/
theorem replayLoop_eq_ok_iff
    (hstep : ∀ s b s', step s b = .ok s' → offset s' = b.reservation.lastOffset + 1)
    (hahead : ∀ o batches, fetch o = .ok batches → ∀ b ∈ batches, o ≤ b.reservation.lastOffset)
    (htake : ∀ o batches s, fetch o = .ok batches → take s batches = batches.foldlM step s)
    {fuel : Nat} {s s' : σ} (hfuel : stop ≤ offset s + fuel) :
    replayLoop fetch nothing take offset stop fuel s = .ok s' ↔
      ∃ batches, Reads fetch stop (offset s) batches ∧ batches.foldlM step s = .ok s' := by
  induction fuel generalizing s with
  | zero =>
    constructor
    · intro h
      exact ⟨[], .done (by omega), h⟩
    · rintro ⟨batches, hreads, h⟩
      cases hreads with
      | done => exact h
      | next => omega
  | succ fuel ih =>
    rw [replayLoop]
    by_cases hlt : offset s < stop
    · rw [if_pos hlt]
      constructor
      · intro h
        obtain ⟨batches, hfetch, h⟩ := bind_eq_ok_iff.1 h
        split_ifs at h with hnil
        obtain ⟨s₁, hs₁, h⟩ := bind_eq_ok_iff.1 h
        rw [htake _ _ _ hfetch] at hs₁
        cases hlast : batches.getLast? with
        | none => exact absurd (getLast?_eq_none_iff.1 hlast) hnil
        | some last =>
          have hoffset := offset_of_foldlM hstep hlast hs₁
          have := hahead _ _ hfetch last (mem_of_getLast? hlast)
          obtain ⟨rest, hreads, hrest⟩ := (ih (by omega)).1 h
          rw [hoffset] at hreads
          refine ⟨batches ++ rest, .next hlt hfetch hlast hreads, ?_⟩
          rw [foldlM_append, hs₁]
          exact hrest
      · rintro ⟨all, hreads, h⟩
        cases hreads with
        | done => omega
        | @next _ batches rest last _ hfetch hlast =>
          rw [foldlM_append, bind_eq_ok_iff] at h
          obtain ⟨s₁, hs₁, h⟩ := h
          have hoffset := offset_of_foldlM hstep hlast hs₁
          have := hahead _ _ hfetch last (mem_of_getLast? hlast)
          refine bind_eq_ok_iff.2 ⟨batches, hfetch, ?_⟩
          rw [if_neg (by rintro rfl; cases hlast)]
          refine bind_eq_ok_iff.2 ⟨s₁, by rw [htake _ _ _ hfetch, hs₁], ?_⟩
          exact (ih (by omega)).2 ⟨rest, by rwa [hoffset], h⟩
    · rw [if_neg hlt]
      constructor
      · intro h
        exact ⟨[], .done (by omega), h⟩
      · rintro ⟨batches, hreads, h⟩
        cases hreads with
        | done => exact h
        | next => omega

theorem Reads.unique {o : Nat} {batches' : List StoredBatch} (h : Reads fetch stop o batches)
    (h' : Reads fetch stop o batches') : batches = batches' := by
  induction h generalizing batches' with
  | done =>
    cases h' with
    | done => rfl
    | next => omega
  | next hlt hfetch hlast _ ih =>
    cases h' with
    | done => omega
    | next _ hfetch' hlast' hrest' =>
      rw [hfetch] at hfetch'
      cases hfetch'
      rw [hlast] at hlast'
      cases hlast'
      rw [ih hrest']

/-- What is read ends at the end. -/
theorem Reads.stop_le {o : Nat} (h : Reads fetch stop o batches) :
    stop ≤ (batches.getLast?.map fun b ↦ b.reservation.lastOffset + 1).getD o := by
  induction h with
  | done h => exact h
  | @next o batches rest last _ _ hlast _ ih =>
    rw [getLast?_append, hlast]
    cases hrest : rest.getLast? with
    | none | some =>
      rw [hrest] at ih
      exact ih

end Loop

/-! ### What is ahead -/

/-- The retained batches that reach the offset. -/
def ahead (st : PartitionState) (o : Nat) : List Reservation :=
  st.reservations.filter fun r ↦ decide (o ≤ r.lastOffset)

section Ahead

variable {st : PartitionState} {o : Nat} {r : Reservation}

theorem mem_ahead_iff (hl : st.Layout) : r ∈ ahead st o ↔ st.Retains r ∧ o ≤ r.lastOffset := by
  rw [ahead, mem_filter, mem_reservations_iff hl, decide_eq_true_eq]

theorem pairwise_reservations (hl : st.Layout) :
    st.reservations.Pairwise fun a b ↦ a.lastOffset < b.firstOffset := by
  refine pairwise_iff_getElem.2 fun i j hi hj hij ↦ ?_
  have hretains : ∀ {k : Nat} (hk : k < st.reservations.length), st.Retains st.reservations[k] :=
    fun hk ↦ (mem_reservations_iff hl).1 (getElem_mem hk)
  refine (hretains hi).lt_of_batchId_lt (hretains hj) hl ?_
  rw [(hl.laid.getElem (getElem?_eq_getElem hi)).2.1,
    (hl.laid.getElem (getElem?_eq_getElem hj)).2.1]
  omega

theorem ahead_of_le (hl : st.Layout) (hle : o ≤ st.logStart) : ahead st o = st.reservations := by
  refine filter_eq_self.2 fun r hr ↦ decide_eq_true ?_
  have := ((mem_reservations_iff hl).1 hr).range hl
  omega

/-- What is ahead of the start of a batch are the batches from it on. -/
theorem offsetAt_le_lastOffset_iff (hl : st.Layout) (hr : st.Retains r) {key : Nat}
    (hkey : st.batches.firstKey ≤ key) (hkey' : key ≤ st.batches.nextKey) :
    st.offsetAt key ≤ r.lastOffset ↔ key ≤ r.batchId := by
  obtain ⟨b, hb, rfl⟩ := hr
  have := hl.lastOffset_lt_iff hb hkey hkey'
  omega

/-- Behind the end nothing is ahead. -/
theorem ahead_eq_nil_iff (hl : st.Layout) (hstart : st.logStart ≤ o) :
    ahead st o = [] ↔ st.sequencer.nextOffset ≤ o := by
  constructor
  · intro hnil
    by_contra hlt
    -- the last batch reaches the end of the log
    rw [hl.nextOffset] at hlt
    rcases eq_nil_or_concat st.reservations with hnone | ⟨front, last, hlast⟩
    · rw [hnone] at hlt
      exact hlt hstart
    · have hmem : last ∈ ahead st o := by
        rw [concat_eq_append] at hlast
        have hend : endOffset st.logStart st.reservations = nextOffset last := by
          rw [hlast, endOffset_append]
          rfl
        rw [hend, nextOffset] at hlt
        exact mem_filter.2 ⟨by rw [hlast]; simp, decide_eq_true (by omega)⟩
      rw [hnil] at hmem
      cases hmem
  · intro hle
    refine filter_eq_nil_iff.2 fun r hr ↦ ?_
    have := ((mem_reservations_iff hl).1 hr).range hl
    rw [decide_eq_true_eq]
    omega

/-- Taking a front part leaves what is ahead of its end. -/
theorem ahead_eq_append (hl : st.Layout) {front : List Reservation} {last : Reservation}
    (hfront : front <+: ahead st o) (hlast : front.getLast? = some last) :
    ahead st o = front ++ ahead st (last.lastOffset + 1) := by
  obtain ⟨rest, hrest⟩ := hfront
  have hsorted : (front ++ rest).Pairwise fun a b ↦ a.lastOffset < b.firstOffset := by
    rw [hrest]
    exact (pairwise_reservations hl).sublist filter_sublist
  have hmem : last ∈ front := mem_of_getLast? hlast
  have hretains : ∀ r ∈ front ++ rest, st.Retains r ∧ o ≤ r.lastOffset := fun r hr ↦
    (mem_ahead_iff hl).1 (hrest ▸ hr)
  have hlast' := hretains last (mem_append_left _ hmem)
  have hbehind : ahead st (last.lastOffset + 1) =
      (ahead st o).filter fun r ↦ decide (last.lastOffset + 1 ≤ r.lastOffset) := by
    rw [ahead, ahead, filter_filter]
    refine filter_congr fun r _ ↦ ?_
    rw [← Bool.decide_and]
    exact decide_eq_decide.2 ⟨fun h ↦ ⟨h, by omega⟩, And.left⟩
  have hnone : front.filter (fun r ↦ decide (last.lastOffset + 1 ≤ r.lastOffset)) = [] := by
    refine filter_eq_nil_iff.2 fun r hr ↦ ?_
    obtain ⟨init, rfl⟩ := getLast?_eq_some_iff.1 hlast
    rw [decide_eq_true_eq]
    rcases mem_append.1 hr with hr | hr
    · have hlt := (pairwise_append.1 (pairwise_append.1 hsorted).1).2.2 r hr last (by simp)
      have := hlast'.1.range hl
      omega
    · rw [mem_singleton.1 hr]
      omega
  have hall : rest.filter (fun r ↦ decide (last.lastOffset + 1 ≤ r.lastOffset)) = rest := by
    refine filter_eq_self.2 fun r hr ↦ decide_eq_true ?_
    have hlt := (pairwise_append.1 hsorted).2.2 last hmem r hr
    have := (hretains r (mem_append_right _ hr)).1.range hl
    omega
  rw [hbehind, ← hrest, filter_append, hnone, hall, nil_append]

end Ahead

/-! ### The way of a reader -/

/-- `fetch_stored_internal` as the replays call it: in ordered mode, and with unresolved batches. -/
def storedFetch (maxFetchBytes : Nat) (st : PartitionState) (shards : List ShardStore)
    (tp : TopicPartition) (maxBytes startOffset : Nat) : Except EngineError (List StoredBatch) :=
  fetchStoredInternal maxFetchBytes st.toPartitionCore shards ⟨tp, startOffset, maxBytes,
  .ordered⟩ true

/-- The batch is completed, reaches the offset and lies below the contiguous end. -/
def readable (st : PartitionState) (o : Nat) (r : Reservation) : Bool :=
  deliverable st true o st.contiguousLogEnd r

/-- A fetch from the offset returns the extent: it is within the window of its shard, and fits after
the extents before it that are within theirs. -/
structure Delivers (st : PartitionState) (tp : TopicPartition) (shards : List ShardStore)
    (maxBytes o : Nat) (d : ExtentLocation) : Prop where
  within : d ∈ windows tp o maxBytes shards
  delivered : readable st o d.reservation = true
  fits : Budget.Within ExtentLocation.payloadLen maxBytes
    ((windows tp o maxBytes shards).filter fun x ↦
      decide (x.reservation.firstOffset < d.reservation.firstOffset) && readable st o x.reservation)
        d

/-- A reader that fetches from `o` fetches from `o'` next. -/
def Continues (st : PartitionState) (tp : TopicPartition) (shards : List ShardStore)
    (maxBytes o o' : Nat) : Prop :=
  ∃ d, Delivers st tp shards maxBytes o d ∧ o' = d.reservation.lastOffset + 1 ∧
    ∀ x, Delivers st tp shards maxBytes o x →
      x.reservation.firstOffset ≤ d.reservation.firstOffset

/-- A reader that starts at one offset comes by the other. -/
def ComesBy (st : PartitionState) (tp : TopicPartition) (shards : List ShardStore)
    (maxBytes : Nat) : Nat → Nat → Prop :=
  Relation.ReflTransGen (Continues st tp shards maxBytes)

/-- At no offset that a reader comes by, a batch is passed over. -/
def PassesNoneOver (st : PartitionState) (tp : TopicPartition) (shards : List ShardStore)
    (maxBytes o : Nat) : Prop :=
  ∀ o', ComesBy st tp shards maxBytes o o' →
    ∀ c d, ¬ Skips tp shards o' maxBytes (readable st o') c d

/-- No batch ahead of the offset is aborted. -/
def NoneAborted (st : PartitionState) (o : Nat) : Prop :=
  ∀ key b, st.batches.get key = some b → o ≤ b.reservation.lastOffset → b.status ≠ .aborted

/-- A partition as recovery leaves it, and a size with which it can be read: nothing is pending, and
what is completed has an extent. -/
structure RecoveredLog (checksum : ExtentChecksum) (maxFetchBytes maxBytes : Nat)
    (st : PartitionState) (tp : TopicPartition) (shards : List ShardStore) : Prop where
  shardLayout : ShardLayout checksum st tp shards
  stored : Stored st tp shards true
  topicPartition : st.sequencer.topicPartition = tp
  settled : ∀ key b, st.batches.get key = some b → b.status ≠ .pending
  contiguousLogEnd : st.contiguousLogEnd = st.sequencer.nextOffset
  pos : 0 < maxBytes
  lt : maxBytes < 2 ^ 32
  le : maxBytes ≤ maxFetchBytes

/-- **The partitions that a restart recovers can be read.** -/
theorem ShardedReachable.recoveredLog {checksum : ExtentChecksum}
    {config : EngineConfig} {s : ShardedEngine} {states : Table TopicPartition PartitionState}
    {shards : List ShardStore} {tp : TopicPartition} {st : PartitionState}
    {maxFetchBytes maxBytes : Nat} (hs : ShardedReachable checksum config s)
    (hrec : s.engine.recover config 1 = .ok states)
    (hshards : List.Forall₂ (Survives checksum s.engine.extents) s.shards shards)
    (hst : states.get tp = some st) (hpos : 0 < maxBytes) (hlt : maxBytes < 2 ^ 32)
    (hle : maxBytes ≤ maxFetchBytes) :
    RecoveredLog checksum maxFetchBytes maxBytes st tp shards := by
  have hrestart := hs.restart hrec hshards
  obtain ⟨_, _, -, -, -, hr⟩ := hs.sound.reachable.recovered hrec hst
  exact ⟨hrestart.shardLayout hst, hrestart.stored hst,
    hrestart.sound.reachable.topicPartition_eq hst,
    fun _ _ hb ↦ hr.not_pending hb, hr.contiguousLogEnd_eq, hpos, hlt, hle⟩

section Reader

variable {checksum : ExtentChecksum} {maxFetchBytes maxBytes : Nat}
  {st : PartitionState} {tp : TopicPartition} {shards : List ShardStore} {o : Nat}

theorem readable_iff {r : Reservation} : readable st o r = true ↔
    (o ≤ r.lastOffset ∧ r.lastOffset < st.contiguousLogEnd) ∧
      st.fetchable true r.batchId = true := by
  simp [readable, deliverable]

/-- With one extent on each shard, none is passed over. -/
theorem passesNoneOver_of_single (h : ∀ shard ∈ shards, (shard.ix.locations tp).length ≤ 1) :
    PassesNoneOver st tp shards maxBytes o := by
  intro o' _ c d hskips
  obtain ⟨shard, hshard, hc, hbeyond⟩ := hskips.beyond
  rw [inWindow_of_single maxBytes (h shard hshard) hc (readable_iff.1 hskips.skipped).1.1]
    at hbeyond
  cases hbeyond

/-- One fetch of a reader. -/
structure ReadRound (st : PartitionState) (tp : TopicPartition) (shards : List ShardStore)
    (maxBytes o : Nat) (batches : List StoredBatch) : Prop where
  exists_delivery : ∃ extents delivered, Delivery st tp shards o maxBytes (readable st o) extents
    delivered ∧ batches.map reservation = delivered.map ExtentLocation.reservation
  atomicGroup : ∀ b ∈ batches, ∃ l ∈ extentsOf tp shards, l.reservation = b.reservation ∧
    l.atomicGroup = b.atomicGroup

namespace RecoveredLog

variable (h : RecoveredLog checksum maxFetchBytes maxBytes st tp shards)

include h

theorem exists_round (hstart : st.logStart ≤ o) :
    ∃ batches, storedFetch maxFetchBytes st shards tp maxBytes o = .ok batches ∧
      ReadRound st tp shards maxBytes o batches := by
  have := h.lt
  obtain ⟨batches, extents, delivered, hfetch, hdelivery, hbatches⟩ :=
    h.shardLayout.fetch_spec hstart h.pos (by omega) h.le
    (by decide : FetchMode.ordered ≠ .asAvailable) true
  refine ⟨batches, hfetch, ⟨extents, delivered, hdelivery, ?_⟩, fun b hb ↦ ?_⟩
  · simpa [Function.comp_def] using congrArg (map Prod.fst) hbatches
  · have hmem := mem_map_of_mem (f := fun b : StoredBatch ↦
      (b.reservation, b.payload.length, b.atomicGroup)) hb
    rw [hbatches] at hmem
    obtain ⟨l, hl, heq⟩ := mem_map.1 hmem
    obtain ⟨hreservation, hrest⟩ := Prod.mk.inj heq
    obtain ⟨shard, hshard, hl', -⟩ := mem_windows_iff.1 (hdelivery.mem_delivered_iff.1 hl).1
    exact ⟨l, mem_flatMap.2 ⟨shard, hshard, hl'⟩, hreservation, (Prod.mk.inj hrest).2⟩

/-- A fetch that succeeds starts at or after the log start. -/
theorem round_of_eq_ok {batches : List StoredBatch}
    (hfetch : storedFetch maxFetchBytes st shards tp maxBytes o = .ok batches) :
    st.logStart ≤ o ∧ ReadRound st tp shards maxBytes o batches := by
  have hstart : st.logStart ≤ o := by
    by_contra hlt
    have hpos := h.pos
    have hle := h.le
    rw [storedFetch, fetchStoredInternal, if_neg (by dsimp only; omega),
      if_neg (by dsimp only; omega)] at hfetch
    obtain ⟨bounds, hbounds, -⟩ := bind_eq_ok_iff.1 hfetch
    rw [fetchBounds, if_pos (by dsimp only; omega)] at hbounds
    cases hbounds
  obtain ⟨batches', hfetch', hround⟩ := h.exists_round hstart
  rw [hfetch] at hfetch'
  cases hfetch'
  exact ⟨hstart, hround⟩

end RecoveredLog

namespace ReadRound

variable {batches : List StoredBatch} {last : StoredBatch}

variable (h : ReadRound st tp shards maxBytes o batches) {b : StoredBatch}

include h

theorem mem_iff {r : Reservation} :
    r ∈ batches.map reservation ↔
      ∃ l, Delivers st tp shards maxBytes o l ∧ l.reservation = r := by
  obtain ⟨extents, delivered, hdelivery, heq⟩ := h.exists_delivery
  rw [heq, mem_map]
  refine exists_congr fun l ↦ and_congr_left fun _ ↦ ?_
  rw [hdelivery.mem_delivered_iff]
  exact ⟨fun ⟨h₁, h₂, h₃⟩ ↦ ⟨h₁, h₂, h₃⟩, fun ⟨h₁, h₂, h₃⟩ ↦ ⟨h₁, h₂, h₃⟩⟩

theorem readable (hb : b ∈ batches) : readable st o b.reservation = true := by
  obtain ⟨l, hl, heq⟩ := h.mem_iff.1 (mem_map_of_mem hb)
  rw [← heq]
  exact hl.delivered

/-- The batches come in offset order. -/
theorem pairwise :
    (batches.map reservation).Pairwise fun a b ↦ a.lastOffset < b.firstOffset := by
  obtain ⟨extents, delivered, hdelivery, heq⟩ := h.exists_delivery
  rw [heq, pairwise_map]
  exact hdelivery.sorted.sublist hdelivery.isPrefix.sublist

theorem firstOffset_le_lastOffset (hb : b ∈ batches) :
    b.reservation.firstOffset ≤ b.reservation.lastOffset := by
  obtain ⟨extents, delivered, hdelivery, heq⟩ := h.exists_delivery
  obtain ⟨l, hl, hr⟩ := mem_map.1 (heq ▸ mem_map_of_mem hb)
  rw [← hr]
  exact hdelivery.ranges l (hdelivery.isPrefix.subset hl)

/-- No batch of a round ends after its last one. -/
theorem le_last (hlast : batches.getLast? = some last) (hb : b ∈ batches) :
    b.reservation.firstOffset ≤ last.reservation.firstOffset ∧
      b.reservation.lastOffset ≤ last.reservation.lastOffset := by
  have hrange := h.firstOffset_le_lastOffset (mem_of_getLast? hlast)
  have hrange' := h.firstOffset_le_lastOffset hb
  obtain ⟨front, rfl⟩ := getLast?_eq_some_iff.1 hlast
  rcases mem_append.1 hb with hb | hb
  · have hsorted := h.pairwise
    rw [map_append] at hsorted
    have := (pairwise_append.1 hsorted).2.2 _ (mem_map_of_mem hb) last.reservation (by simp)
    omega
  · rw [mem_singleton.1 hb]
    exact ⟨le_rfl, le_rfl⟩

/-- A reader goes on behind the last batch, and nowhere else. -/
theorem continues_iff (hlast : batches.getLast? = some last) {o' : Nat} :
    Continues st tp shards maxBytes o o' ↔ o' = last.reservation.lastOffset + 1 := by
  obtain ⟨l, hl, heq⟩ := h.mem_iff.1 (mem_map_of_mem (mem_of_getLast? hlast))
  have hle : ∀ x, Delivers st tp shards maxBytes o x →
      ∃ b ∈ batches, b.reservation = x.reservation := fun x hx ↦
    mem_map.1 (h.mem_iff.2 ⟨x, hx, rfl⟩)
  constructor
  · rintro ⟨d, hd, rfl, hmax⟩
    obtain ⟨b, hb, hb'⟩ := hle d hd
    have hfirst := hmax l hl
    rw [heq] at hfirst
    obtain ⟨front, rfl⟩ := getLast?_eq_some_iff.1 hlast
    rcases mem_append.1 hb with hmem | hmem
    · -- an earlier batch does not start after the last one
      have hsorted := h.pairwise
      rw [map_append] at hsorted
      have hlt := (pairwise_append.1 hsorted).2.2 _ (mem_map_of_mem hmem) last.reservation (by simp)
      have := h.firstOffset_le_lastOffset hb
      rw [hb'] at hlt this
      omega
    · rw [← hb', mem_singleton.1 hmem]
  · rintro rfl
    refine ⟨l, hl, by rw [heq], fun x hx ↦ ?_⟩
    obtain ⟨b, hb, hb'⟩ := hle x hx
    rw [heq, ← hb']
    exact (h.le_last hlast hb).1

/-- What is passed over is not among the batches, and ends before the last of them. -/
theorem of_skips (hlayout : ShardLayout checksum st tp shards) {c d : ExtentLocation}
    (hskips : Skips tp shards o maxBytes (ShardStream.readable st o) c d) :
    c.reservation ∉ batches.map reservation ∧
      ∃ b ∈ batches, c.reservation.lastOffset ≤ b.reservation.lastOffset := by
  obtain ⟨extents, delivered, hdelivery, heq⟩ := h.exists_delivery
  obtain ⟨hnotMem, hd⟩ := hdelivery.notMem_of_skips hlayout hskips
  obtain ⟨shard, hshard, hc, -⟩ := hskips.beyond
  have hextent : ∀ l ∈ delivered, l ∈ extentsOf tp shards := fun l hl ↦ by
    obtain ⟨shard', hshard', hl', -⟩ := mem_windows_iff.1 (hdelivery.mem_delivered_iff.1 hl).1
    exact mem_flatMap.2 ⟨shard', hshard', hl'⟩
  refine ⟨fun hmem ↦ ?_, ?_⟩
  · rw [heq] at hmem
    obtain ⟨l, hl, hres⟩ := mem_map.1 hmem
    obtain ⟨shard', hshard', hl'⟩ := mem_flatMap.1 (hextent l hl)
    obtain ⟨-, rfl⟩ := hlayout.eq_of_reservation hshard' hshard hl' hc hres
    exact hnotMem hl
  · obtain ⟨b, hb, hres⟩ := mem_map.1 (heq.symm ▸ mem_map_of_mem hd)
    refine ⟨b, hb, ?_⟩
    rw [hres]
    exact (hlayout.retains (hextent d hd) hskips.delivered).lastOffset_le
      (hlayout.known shard hshard c hc).2 hlayout.layout hskips.before.le

end ReadRound

namespace RecoveredLog

variable (h : RecoveredLog checksum maxFetchBytes maxBytes st tp shards)

include h

/-- If nothing ahead is aborted, everything ahead is to be read. -/
theorem deliverableBatches_eq (hlive : NoneAborted st o) :
    deliverableBatches st true o st.contiguousLogEnd = ahead st o := by
  refine filter_congr fun r hr ↦ ?_
  obtain ⟨b, hb, rfl⟩ := (mem_reservations_iff h.shardLayout.layout).1 hr
  have hrange := PartitionState.Retains.range ⟨b, hb, rfl⟩ h.shardLayout.layout
  rw [← h.contiguousLogEnd] at hrange
  rw [deliverable, decide_eq_true hrange.2.2, Bool.and_true, fetchable, hb, Option.any_some]
  by_cases hle : o ≤ b.reservation.lastOffset
  · have hpending := h.settled _ b hb
    have haborted := hlive _ b hb hle
    rw [BatchRuntime.fetchable]
    cases hstatus : b.status <;> simp_all
  · rw [decide_eq_false hle, Bool.false_and]

/-- The first batch ahead is within the window of its shard. -/
theorem mem_windows_of_first (hstart : st.logStart ≤ o) {r : Reservation} {rest : List Reservation}
    (hahead : ahead st o = r :: rest) {l : ExtentLocation} (hl : l ∈ extentsOf tp shards)
    (heq : l.reservation = r) : l ∈ windows tp o maxBytes shards := by
  obtain ⟨shard, hshard, hl⟩ := mem_flatMap.1 hl
  have hmem : r ∈ ahead st o := by rw [hahead]; exact mem_cons_self ..
  obtain ⟨hretains, hle⟩ := (mem_ahead_iff h.shardLayout.layout).1 hmem
  have hbefore : (shard.ix.locations tp).filter (fun x ↦ decide (x.reservation.firstOffset <
      l.reservation.firstOffset) && decide (o ≤ x.reservation.lastOffset)) = [] := by
    refine filter_eq_nil_iff.2 fun x hx ↦ ?_
    rw [Bool.and_eq_true, decide_eq_true_eq, decide_eq_true_eq, heq]
    rintro ⟨hlt, hreach⟩
    have hknows := (h.shardLayout.known shard hshard x hx).2
    have hx' : x.reservation ∈ ahead st o := (mem_ahead_iff h.shardLayout.layout).2
      ⟨hknows.retains_of_le (hstart.trans hreach), hreach⟩
    have hsorted : (ahead st o).Pairwise fun a b ↦ a.lastOffset < b.firstOffset :=
      (pairwise_reservations h.shardLayout.layout).sublist filter_sublist
    rw [hahead] at hx' hsorted
    rcases mem_cons.1 hx' with heq' | hx'
    · rw [heq'] at hlt
      omega
    · have := rel_of_pairwise_cons hsorted hx'
      have := hretains.range h.shardLayout.layout
      omega
  refine mem_windows_iff.2 ⟨shard, hshard, hl, ?_⟩
  rw [inWindow, hbefore, heq, decide_eq_true hle, Bool.and_true]
  exact decide_eq_true ⟨by decide, .inl rfl⟩

/-- **A round over live batches** returns a front part of what is ahead, and a nonempty one if there
is anything. -/
theorem isPrefix_ahead (hstart : st.logStart ≤ o) (hlive : NoneAborted st o)
    (hskips : ∀ c d, ¬ Skips tp shards o maxBytes (readable st o) c d) {batches : List StoredBatch}
    (hround : ReadRound st tp shards maxBytes o batches) (hne : ahead st o ≠ []) :
    batches.map reservation <+: ahead st o ∧ batches ≠ [] := by
  have hall := h.deliverableBatches_eq hlive
  obtain ⟨extents, delivered, hdelivery, heq⟩ := hround.exists_delivery
  refine ⟨?_, fun hnil ↦ ?_⟩
  · rw [heq, ← hall]
    exact (hdelivery.isPrefix_deliverableBatches_iff h.shardLayout h.stored).2 hskips
  · cases hahead : ahead st o with
    | nil => exact hne hahead
    | cons r rest =>
      have hr : r ∈ deliverableBatches st true o st.contiguousLogEnd := by
        rw [hall, hahead]
        exact mem_cons_self ..
      obtain ⟨hretains, hdeliver⟩ := (mem_deliverableBatches_iff h.shardLayout.layout).1 hr
      obtain ⟨l, hl, hres⟩ := h.stored.exists_extent hretains hdeliver
      rw [hnil, map_nil, eq_comm, map_eq_nil_iff] at heq
      have hfalse := hdelivery.delivered_eq_nil_iff.1 heq l
        (h.mem_windows_of_first hstart hahead hl hres)
      rw [hres, readable, hdeliver] at hfalse
      cases hfalse

/-- **A log is read back**: all batches ahead, in order, if none of them is aborted and none is
passed over on the way. By induction on the distance to the end. -/
theorem exists_reads {o : Nat} (hstart : st.logStart ≤ o) (hlive : NoneAborted st o)
    (hskips : PassesNoneOver st tp shards maxBytes o) :
    ∃ batches,
      Reads (storedFetch maxFetchBytes st shards tp maxBytes) st.contiguousLogEnd o batches ∧
        batches.map reservation = ahead st o := by
  obtain ⟨n, hn⟩ : ∃ n, st.contiguousLogEnd ≤ o + n := ⟨st.contiguousLogEnd, by omega⟩
  induction n generalizing o with
  | zero =>
    refine ⟨[], .done (by omega), ?_⟩
    rw [(ahead_eq_nil_iff h.shardLayout.layout hstart).2 (by rw [← h.contiguousLogEnd]; omega)]
    rfl
  | succ n ih =>
    by_cases hlt : o < st.contiguousLogEnd
    · have hne : ahead st o ≠ [] := fun hnil ↦ by
        have := (ahead_eq_nil_iff h.shardLayout.layout hstart).1 hnil
        rw [← h.contiguousLogEnd] at this
        omega
      obtain ⟨batches, hfetch, hround⟩ := h.exists_round hstart
      obtain ⟨hfront, hsome⟩ := h.isPrefix_ahead hstart hlive (hskips o .refl) hround hne
      cases hlast : batches.getLast? with
      | none => exact absurd (getLast?_eq_none_iff.1 hlast) hsome
      | some last =>
        obtain ⟨⟨hle, -⟩, -⟩ := readable_iff.1 (hround.readable (mem_of_getLast? hlast))
        obtain ⟨rest, hreads, hrest⟩ := ih (by omega) (fun key b hb hb' ↦ hlive key b hb (by omega))
          (fun o' ho' ↦ hskips o' (.head ((hround.continues_iff hlast).2 rfl) ho')) (by omega)
        refine ⟨batches ++ rest, .next hlt hfetch hlast hreads, ?_⟩
        rw [map_append, hrest]
        exact (ahead_eq_append h.shardLayout.layout hfront (by rw [getLast?_map, hlast]; rfl)).symm
    · refine ⟨[], .done (by omega), ?_⟩
      rw [(ahead_eq_nil_iff h.shardLayout.layout hstart).2 (by rw [← h.contiguousLogEnd]; omega)]
      rfl

end RecoveredLog

namespace Reads

variable {batches : List StoredBatch}

variable (h : RecoveredLog checksum maxFetchBytes maxBytes st tp shards)
  (hreads : Reads (storedFetch maxFetchBytes st shards tp maxBytes) st.contiguousLogEnd o batches)
  {b : StoredBatch}

include h hreads

/-- What is read is to be read. -/
theorem readable (hb : b ∈ batches) : ShardStream.readable st o b.reservation = true := by
  induction hreads with
  | done => cases hb
  | @next o batches rest last hlt hfetch hlast _ ih =>
    obtain ⟨-, hround⟩ := h.round_of_eq_ok hfetch
    rcases mem_append.1 hb with hb | hb
    · exact hround.readable hb
    · have hlater := readable_iff.1 (ih hb)
      obtain ⟨⟨hle, -⟩, -⟩ := readable_iff.1 (hround.readable (mem_of_getLast? hlast))
      exact readable_iff.2 ⟨⟨by omega, hlater.1.2⟩, hlater.2⟩

theorem retains (hb : b ∈ batches) : st.Retains b.reservation := by
  induction hreads with
  | done => cases hb
  | @next o batches rest last hlt hfetch hlast _ ih =>
    obtain ⟨-, hround⟩ := h.round_of_eq_ok hfetch
    rcases mem_append.1 hb with hb | hb
    · obtain ⟨l, hl, heq⟩ := hround.mem_iff.1 (mem_map_of_mem hb)
      obtain ⟨shard, hshard, hmem, -⟩ := mem_windows_iff.1 hl.within
      rw [← heq]
      exact h.shardLayout.retains (mem_flatMap.2 ⟨shard, hshard, hmem⟩) hl.delivered
    · exact ih hb

theorem atomicGroup (hb : b ∈ batches) :
    ∃ l ∈ extentsOf tp shards, l.reservation = b.reservation ∧ l.atomicGroup = b.atomicGroup := by
  induction hreads with
  | done => cases hb
  | next hlt hfetch hlast _ ih =>
    rcases mem_append.1 hb with hb | hb
    · exact (h.round_of_eq_ok hfetch).2.atomicGroup b hb
    · exact ih hb

/-- **A reader that gets consecutive batches gets all that are ahead.** -/
theorem eq_ahead {key : Nat} (hkey : st.batches.firstKey ≤ key) (hkey' : key ≤ st.batches.nextKey)
    (ho : o = st.offsetAt key)
    (hdense : batches.map (fun b ↦ b.reservation.batchId) = range' key batches.length) :
    batches.map reservation = ahead st o := by
  have hl := h.shardLayout.layout
  have hretains : ∀ r ∈ batches.map reservation, st.Retains r := fun r hr ↦ by
    obtain ⟨b, hb, rfl⟩ := mem_map.1 hr
    exact hreads.retains h hb
  have hsub : ∀ r ∈ batches.map reservation, r ∈ ahead st o := fun r hr ↦ by
    obtain ⟨b, hb, rfl⟩ := mem_map.1 hr
    exact (mem_ahead_iff hl).2 ⟨hreads.retains h hb, (readable_iff.1 (hreads.readable h hb)).1.1⟩
  have hsorted : (batches.map reservation).Pairwise fun a b ↦ a.firstOffset < b.firstOffset := by
    have hids : (batches.map fun b ↦ b.reservation.batchId).Pairwise (· < ·) := by
      rw [hdense]
      exact pairwise_lt_range' _
    refine pairwise_map.2 ((pairwise_map.1 hids).imp_of_mem fun {a b} ha hb hlt ↦ ?_)
    have := (hreads.retains h ha).lt_of_batchId_lt (hreads.retains h hb) hl hlt
    have := (hreads.retains h ha).range hl
    omega
  have hsorted' : (ahead st o).Pairwise fun a b ↦ a.firstOffset < b.firstOffset :=
    ((pairwise_reservations hl).imp_of_mem fun {a b} ha _ hlt ↦ by
      have := ((mem_reservations_iff hl).1 ha).range hl
      omega).sublist filter_sublist
  have hfront : batches.map reservation <+: ahead st o := by
    refine (Lanes.isPrefix_iff_of_pairwise hsorted hsorted' hsub).2 fun r hr y hy hlt ↦ ?_
    -- what lies before a batch that is read has an id between the first one and that of the batch
    obtain ⟨hy, hreach⟩ := (mem_ahead_iff hl).1 hy
    rw [ho, offsetAt_le_lastOffset_iff hl hy hkey hkey'] at hreach
    have hid : y.batchId < r.batchId := by
      by_contra hge
      rcases Nat.eq_or_lt_of_le (Nat.le_of_not_lt hge) with heq | hgt
      · rw [hy.eq_of_batchId (hretains r hr) heq.symm] at hlt
        omega
      · have := (hretains r hr).lt_of_batchId_lt hy hl hgt
        have := (hretains r hr).range hl
        omega
    obtain ⟨b, hb, rfl⟩ := mem_map.1 hr
    have hrange : b.reservation.batchId ∈ range' key batches.length := by
      rw [← hdense]
      exact mem_map_of_mem hb
    have hmem : y.batchId ∈ range' key batches.length := by
      rw [mem_range'_1] at hrange ⊢
      omega
    rw [← hdense] at hmem
    obtain ⟨b', hb', heq⟩ := mem_map.1 hmem
    rw [hy.eq_of_batchId (hreads.retains h hb') heq.symm]
    exact mem_map_of_mem hb'
  have hstart : st.logStart ≤ o := by
    rw [ho, ← offsetAt_firstKey st.toPartitionCore]
    exact hl.offsetAt_le hkey hkey'
  have hstop := hreads.stop_le
  rw [h.contiguousLogEnd] at hstop
  cases hlast : batches.getLast? with
  | none =>
    rw [hlast] at hstop
    rw [(ahead_eq_nil_iff hl hstart).2 hstop, getLast?_eq_none_iff.1 hlast]
    rfl
  | some last =>
    rw [hlast, Option.map_some, Option.getD_some] at hstop
    have hreach := (readable_iff.1 (hreads.readable h (mem_of_getLast? hlast))).1.1
    rw [ahead_eq_append hl hfront (show _ = some last.reservation by rw [getLast?_map, hlast]; rfl),
      (ahead_eq_nil_iff hl (by omega)).2 hstop, append_nil]

/-- If all that is ahead is read, none of it is aborted. -/
theorem noneAborted (hall : batches.map reservation = ahead st o) :
    NoneAborted st o := by
  have hl := h.shardLayout.layout
  intro key b hb hreach haborted
  have hkey := (hl.get hb).2.1
  have hmem : b.reservation ∈ ahead st o :=
    (mem_ahead_iff hl).2 ⟨⟨b, by rw [hkey]; exact hb, rfl⟩, hreach⟩
  rw [← hall] at hmem
  obtain ⟨b', hb', heq⟩ := mem_map.1 hmem
  obtain ⟨-, hfetchable⟩ := readable_iff.1 (hreads.readable h hb')
  rw [heq, hkey, fetchable, hb, Option.any_some, BatchRuntime.fetchable, haborted] at hfetchable
  cases hfetchable

/-- **A reader that gets every extent ahead passes none over.** By induction on the rounds: what a
round passes over ends before its last batch, and is not read later. -/
theorem passesNoneOver
    (hall : ∀ c ∈ extentsOf tp shards, ShardStream.readable st o c.reservation = true →
      c.reservation ∈ batches.map reservation) :
    PassesNoneOver st tp shards maxBytes o := by
  induction hreads with
  | @done o =>
    have hnone : ∀ r, ShardStream.readable st o r ≠ true := fun r hr ↦ by
      have := readable_iff.1 hr
      omega
    intro o' ho' c d hskips
    rcases ho'.cases_head with rfl | ⟨o₁, ⟨x, hx, -⟩, -⟩
    · exact hnone _ hskips.skipped
    · exact hnone _ hx.delivered
  | @next o batches rest last hlt hfetch hlast hrest ih =>
    obtain ⟨-, hround⟩ := h.round_of_eq_ok hfetch
    have hmem := mem_of_getLast? hlast
    -- what is read later reaches behind the last batch of this round
    have hlater : ∀ r ∈ rest.map reservation,
        last.reservation.lastOffset + 1 ≤ r.lastOffset := fun r hr ↦ by
      obtain ⟨b, hb, rfl⟩ := mem_map.1 hr
      exact (readable_iff.1 (hrest.readable h hb)).1.1
    intro o' ho' c d hskips
    rcases ho'.cases_head with rfl | ⟨o₁, hnext, ho'⟩
    · obtain ⟨hnotMem, b, hb, hle⟩ := hround.of_skips h.shardLayout hskips
      obtain ⟨shard, hshard, hc, -⟩ := hskips.beyond
      have hread := hall c (mem_flatMap.2 ⟨shard, hshard, hc⟩) hskips.skipped
      rw [map_append] at hread
      rcases mem_append.1 hread with hread | hread
      · exact hnotMem hread
      · have := hlater _ hread
        have := (hround.le_last hlast hb).2
        omega
    · rw [(hround.continues_iff hlast).1 hnext] at ho'
      refine ih (fun c hc hreadable ↦ ?_) o' ho' c d hskips
      obtain ⟨⟨hle, hend⟩, hfetchable⟩ := readable_iff.1 hreadable
      obtain ⟨⟨hle', -⟩, -⟩ := readable_iff.1 (hround.readable hmem)
      have hread := hall c hc (readable_iff.2 ⟨⟨by omega, hend⟩, hfetchable⟩)
      rw [map_append] at hread
      refine (mem_append.1 hread).resolve_left fun hread ↦ ?_
      obtain ⟨b, hb, heq⟩ := mem_map.1 hread
      have := (hround.le_last hlast hb).2
      rw [heq] at this
      omega

end Reads

end Reader

end ShardStream
