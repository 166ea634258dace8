import ShardStream.Engine.Partition

/-!
# The layout of the retained batches

The retained batches of a partition form one unbroken run: consecutive batch ids, equal placement
sequences, offset ranges that meet end to end, starting at the log start and ending where the
sequencer continues. `Laid` states this for a list of reservations by recursion on the list, and
`Layout` ties it to a partition. It speaks of reservations only, so a command that changes nothing
but statuses keeps it for free.

The watermark walk is then computed in closed form (`walk_eq`): on a laid-out list it stops exactly
after the longest ready prefix, since the offset comparison it makes on the way never fails.
-/

namespace ShardStream

open DenseOrderedMap List

variable {id off j : Nat} {r : Reservation} {st : PartitionCore} {tp : TopicPartition}
  {rs : List Reservation}

/-! ### Runs of reservations -/

/-- The offset reached after a run of reservations that starts at `start`. -/
def endOffset (start : Nat) : List Reservation → Nat
  | [] => start
  | r :: rs => endOffset (nextOffset r) rs

/-- The reservations lie end to end from batch id `id` and offset `off`. -/
def Laid (tp : TopicPartition) (id off : Nat) : List Reservation → Prop
  | [] => True
  | r :: rs =>
    r.topicPartition = tp ∧ r.batchId = id ∧ r.placement.sequence = id ∧ r.firstOffset = off ∧
      nextOffset r = off + r.recordCount.get ∧ Laid tp (id + 1) (nextOffset r) rs

@[simp] theorem endOffset_nil (start : Nat) : endOffset start [] = start := rfl

@[simp] theorem endOffset_cons (start : Nat) (r : Reservation) (rs : List Reservation) :
    endOffset start (r :: rs) = endOffset (nextOffset r) rs := rfl

@[simp] theorem laid_nil (tp : TopicPartition) (id off : Nat) : Laid tp id off [] := trivial

theorem laid_cons : Laid tp id off (r :: rs) ↔
      r.topicPartition = tp ∧ r.batchId = id ∧ r.placement.sequence = id ∧ r.firstOffset = off ∧
        nextOffset r = off + r.recordCount.get ∧ Laid tp (id + 1) (nextOffset r) rs := Iff.rfl

theorem endOffset_append (rs ss : List Reservation) :
    ∀ start, endOffset start (rs ++ ss) = endOffset (endOffset start rs) ss := by
  induction rs with
  | nil => intro start; rfl
  | cons r rs ih => intro start; exact ih (nextOffset r)

theorem laid_append {ss : List Reservation} :
    ∀ {id off : Nat}, Laid tp id off (rs ++ ss) ↔
      Laid tp id off rs ∧ Laid tp (id + rs.length) (endOffset off rs) ss := by
  induction rs with
  | nil => simp
  | cons r rs ih =>
    intro id off
    have hlen : id + (r :: rs).length = id + 1 + rs.length := by simp; omega
    rw [cons_append, laid_cons, laid_cons, ih, endOffset_cons, hlen]
    simp only [and_assoc]

section Run

variable {i : Nat}

theorem Laid.take (h : Laid tp id off rs) (n : Nat) : Laid tp id off (rs.take n) := by
  rw [← take_append_drop n rs, laid_append] at h
  exact h.1

theorem Laid.drop (h : Laid tp id off rs) {n : Nat} (hn : n ≤ rs.length) :
    Laid tp (id + n) (endOffset off (rs.take n)) (rs.drop n) := by
  rw [← take_append_drop n rs, laid_append] at h
  simpa [Nat.min_eq_left hn] using h.2

theorem Laid.le_endOffset : ∀ {rs : List Reservation} {id off : Nat}, Laid tp id off rs →
    off + rs.length ≤ endOffset off rs
  | [], _, _, _ => by simp
  | r :: rs, id, off, h => by
    obtain ⟨-, -, -, -, hnext, hrest⟩ := h
    have hcount := r.recordCount.pos
    have hle := hrest.le_endOffset
    rw [endOffset_cons, length_cons]
    omega

/-- The reservation at position `i` sits where the `i` before it end. -/
theorem Laid.getElem (h : Laid tp id off rs) (hr : rs[i]? = some r) :
    r.topicPartition = tp ∧ r.batchId = id + i ∧ r.placement.sequence = id + i ∧
      r.firstOffset = endOffset off (rs.take i) ∧
      nextOffset r = r.firstOffset + r.recordCount.get ∧
      nextOffset r = endOffset off (rs.take (i + 1)) := by
  obtain ⟨hi, rfl⟩ := List.getElem?_eq_some_iff.1 hr
  have hdrop := h.drop (Nat.le_of_lt hi)
  rw [drop_eq_getElem_cons hi] at hdrop
  obtain ⟨h₁, h₂, h₃, h₄, h₅, -⟩ := hdrop
  refine ⟨h₁, h₂, h₃, h₄, h₄ ▸ h₅, ?_⟩
  rw [take_add_one, hr, endOffset_append]
  rfl

/-- Later positions start strictly later. -/
theorem Laid.endOffset_take_lt (h : Laid tp id off rs) (hij : i < j) (hj : j ≤ rs.length) :
    endOffset off (rs.take i) < endOffset off (rs.take j) := by
  have hsplit : rs.take j = rs.take i ++ (rs.take j).drop i := by
    conv_lhs => rw [← take_append_drop i (rs.take j), take_take, Nat.min_eq_left hij.le]
  have hlaid := h.take j
  rw [hsplit, laid_append] at hlaid
  have hle := hlaid.2.le_endOffset
  rw [hsplit, endOffset_append]
  have : ((rs.take j).drop i).length = j - i := by
    rw [length_drop, length_take]; omega
  omega

theorem Laid.endOffset_take_le (h : Laid tp id off rs) (hij : i ≤ j) (hj : j ≤ rs.length) :
    endOffset off (rs.take i) ≤ endOffset off (rs.take j) := by
  rcases Nat.eq_or_lt_of_le hij with rfl | hlt
  · exact le_rfl
  · exact (h.endOffset_take_lt hlt hj).le

end Run

/-! ### Layout of a partition -/

namespace PartitionCore

/-- The reservations of the retained batches. -/
def reservations (st : PartitionCore) : List Reservation := st.batches.values.map (·.reservation)

@[simp] theorem length_reservations (st : PartitionCore) :
    st.reservations.length = st.batches.values.length := length_map ..

/-- The offset at which the batch with key `key` starts, or would start. -/
def offsetAt (st : PartitionCore) (key : Nat) : Nat :=
  endOffset st.logStart (st.reservations.take (key - st.batches.firstKey))

/-- **Layout.** The retained batches run from the log start to the sequencer. -/
structure Layout (st : PartitionCore) : Prop where
  /-- The batches lie end to end. -/
  laid : Laid st.sequencer.topicPartition st.batches.firstKey st.logStart st.reservations
  /-- The sequencer continues with the next dense key. -/
  nextBatchId : st.sequencer.nextBatchId = st.batches.nextKey
  /-- Placement sequences and batch ids advance together. -/
  nextPlacementSequence : st.sequencer.nextPlacementSequence = st.sequencer.nextBatchId
  /-- The sequencer continues at the offset where the batches end. -/
  nextOffset : st.sequencer.nextOffset = endOffset st.logStart st.reservations
  /-- Offsets fit in 64 bits. -/
  offset_lt : st.sequencer.nextOffset < 2 ^ 64
  /-- Placement sequences, and with them batch ids, fit in 64 bits. -/
  sequence_lt : st.sequencer.nextPlacementSequence < 2 ^ 64

/-- Layout reads the sequencer's partition and counters, the log start, the first key and the
reservations; two cores that agree on these are laid out alike. -/
theorem Layout.congr {st' : PartitionCore} (h : st.Layout)
    (htp : st'.sequencer.topicPartition = st.sequencer.topicPartition)
    (hid : st'.sequencer.nextBatchId = st.sequencer.nextBatchId)
    (hoff : st'.sequencer.nextOffset = st.sequencer.nextOffset)
    (hseq : st'.sequencer.nextPlacementSequence = st.sequencer.nextPlacementSequence)
    (hstart : st'.logStart = st.logStart) (hkey : st'.batches.firstKey = st.batches.firstKey)
    (hres : st'.reservations = st.reservations) : st'.Layout where
  laid := by rw [htp, hstart, hkey, hres]; exact h.laid
  nextBatchId := by
    have hlen : st'.batches.values.length = st.batches.values.length := by
      rw [← length_reservations, hres, length_reservations]
    rw [hid, h.nextBatchId, nextKey, nextKey, hkey, hlen]
  nextPlacementSequence := by rw [hseq, hid]; exact h.nextPlacementSequence
  nextOffset := by rw [hoff, hstart, hres]; exact h.nextOffset
  offset_lt := by rw [hoff]; exact h.offset_lt
  sequence_lt := by rw [hseq]; exact h.sequence_lt

theorem Layout.of_batches (h : st.Layout) {batches : DenseOrderedMap BatchRuntime}
    (hkey : batches.firstKey = st.batches.firstKey)
    (hres : batches.values.map (·.reservation) = st.reservations) :
    ({ st with batches } : PartitionCore).Layout :=
  h.congr rfl rfl rfl rfl rfl hkey hres

section Layout

variable {key i : Nat} {b : BatchRuntime}

theorem getElem?_reservations (st : PartitionCore) (i : Nat) :
    st.reservations[i]? = (st.batches.get (st.batches.firstKey + i)).map (·.reservation) := by
  rw [reservations, getElem?_map, get_add]

/-- The coordinates of a retained batch are determined by its key. -/
theorem Layout.get (h : st.Layout) (hb : st.batches.get key = some b) :
    b.reservation.topicPartition = st.sequencer.topicPartition ∧
      b.reservation.batchId = key ∧ b.reservation.placement.sequence = key ∧
      b.reservation.firstOffset = st.offsetAt key ∧
      ShardStream.nextOffset b.reservation = st.offsetAt (key + 1) ∧
      ShardStream.nextOffset b.reservation =
        b.reservation.firstOffset + b.reservation.recordCount.get := by
  obtain ⟨i, rfl⟩ := Nat.exists_eq_add_of_le (lt_nextKey_of_get hb).1
  have hr : st.reservations[i]? = some b.reservation := by
    rw [getElem?_reservations, hb]; rfl
  obtain ⟨h₁, h₂, h₃, h₄, h₅, h₆⟩ := h.laid.getElem hr
  refine ⟨h₁, h₂, h₃, ?_, ?_, h₅⟩
  · rw [h₄, offsetAt, Nat.add_sub_cancel_left]
  · rw [h₆, offsetAt, Nat.add_assoc, Nat.add_sub_cancel_left]

theorem Layout.offsetAt_lt (h : st.Layout) (hi : st.batches.firstKey ≤ i) (hij : i < j)
    (hj : j ≤ st.batches.nextKey) : st.offsetAt i < st.offsetAt j :=
  h.laid.endOffset_take_lt (by omega) (by rw [length_reservations]; unfold nextKey at hj; omega)

theorem Layout.offsetAt_le (h : st.Layout) (hij : i ≤ j) (hj : j ≤ st.batches.nextKey) :
    st.offsetAt i ≤ st.offsetAt j :=
  h.laid.endOffset_take_le (by omega) (by rw [length_reservations]; unfold nextKey at hj; omega)

/-- Keys and offsets are ordered alike. -/
theorem Layout.offsetAt_le_iff (h : st.Layout) (hj : st.batches.firstKey ≤ j)
    (hi' : i ≤ st.batches.nextKey) (hj' : j ≤ st.batches.nextKey) :
    st.offsetAt i ≤ st.offsetAt j ↔ i ≤ j := by
  constructor
  · by_contra hlt
    have := h.offsetAt_lt hj (by omega) hi'
    omega
  · exact fun hle ↦ h.offsetAt_le hle hj'

theorem offsetAt_firstKey (st : PartitionCore) :
    st.offsetAt st.batches.firstKey = st.logStart := by
  simp [offsetAt]

theorem Layout.offsetAt_nextKey (h : st.Layout) :
    st.offsetAt st.batches.nextKey = st.sequencer.nextOffset := by
  rw [h.nextOffset, offsetAt, nextKey, Nat.add_sub_cancel_left, ← length_reservations, take_length]

theorem Layout.lastOffset_lt_iff (h : st.Layout) (hb : st.batches.get key = some b) {k : Nat}
    (hk : st.batches.firstKey ≤ k) (hk' : k ≤ st.batches.nextKey) :
    b.reservation.lastOffset < st.offsetAt k ↔ key < k := by
  have hkey := lt_nextKey_of_get hb
  have hnext := (h.get hb).2.2.2.2.1
  have hiff := h.offsetAt_le_iff (i := key + 1) hk (by omega) hk'
  unfold ShardStream.nextOffset at hnext
  omega

/-- An allocation keeps the layout: the batch is pushed where the sequencer stood. -/
theorem Layout.allocate (h : st.Layout) {count : NonZeroU32} {epoch : Nat}
    (hb : b.reservation = st.sequencer.nextReservation count epoch)
    (hoff : st.sequencer.nextOffset + count.get < 2 ^ 64)
    (hseq : st.sequencer.nextPlacementSequence + 1 < 2 ^ 64) :
    ({ st with
      sequencer := st.sequencer.advanced count epoch
      batches := st.batches.snoc b } : PartitionCore).Layout := by
  have hcount := count.pos
  have hres : ({ st with
      sequencer := st.sequencer.advanced count epoch
      batches := st.batches.snoc b } : PartitionCore).reservations =
        st.reservations ++ [st.sequencer.nextReservation count epoch] := by
    simp [reservations, hb]
  have hend : ShardStream.nextOffset (st.sequencer.nextReservation count epoch) =
      st.sequencer.nextOffset + count.get := by
    simp only [ShardStream.nextOffset, TopicSequencer.nextReservation]
    omega
  constructor
  · rw [hres]
    refine laid_append.2 ⟨h.laid, ?_⟩
    have hkey : st.batches.firstKey + st.reservations.length = st.sequencer.nextBatchId := by
      rw [h.nextBatchId, length_reservations, nextKey]
    rw [← h.nextOffset]
    simp only [firstKey_snoc, hkey]
    exact ⟨rfl, rfl, h.nextPlacementSequence, rfl, hend, trivial⟩
  · simp [TopicSequencer.advanced, h.nextBatchId]
  · simp [TopicSequencer.advanced, h.nextPlacementSequence]
  · rw [hres, endOffset_append, endOffset_cons, hend]
    rfl
  · exact hoff
  · exact hseq

/-- Dropping a prefix of the batches, and moving the log start to its end, keeps the layout. -/
theorem Layout.dropBefore (h : st.Layout) (h₁ : st.batches.firstKey ≤ key)
    (h₂ : key ≤ st.batches.nextKey) :
    ({ st with
      logStart := st.offsetAt key
      batches := st.batches.truncateBefore key } : PartitionCore).Layout := by
  have hlen : key - st.batches.firstKey ≤ st.reservations.length := by
    rw [length_reservations]; unfold nextKey at h₂; omega
  have hres : ({ st with
      logStart := st.offsetAt key
      batches := st.batches.truncateBefore key } : PartitionCore).reservations =
        st.reservations.drop (key - st.batches.firstKey) := by
    simp only [reservations, values_truncateBefore h₁ h₂, map_drop]
  constructor
  · rw [hres, firstKey_truncateBefore h₁ h₂]
    have := h.laid.drop hlen
    rwa [Nat.add_sub_cancel' h₁] at this
  · rw [nextKey_truncateBefore h₁ h₂]
    exact h.nextBatchId
  · exact h.nextPlacementSequence
  · rw [hres]
    rw [offsetAt, ← endOffset_append, take_append_drop, h.nextOffset]
  · exact h.offset_lt
  · exact h.sequence_lt

theorem offsetAt_dropBefore (h₁ : st.batches.firstKey ≤ key) (h₂ : key ≤ st.batches.nextKey)
    (hj : key ≤ j) :
    ({ st with
      logStart := st.offsetAt key
      batches := st.batches.truncateBefore key } : PartitionCore).offsetAt j = st.offsetAt j := by
  have hsplit : st.reservations.take (j - st.batches.firstKey) =
      st.reservations.take (key - st.batches.firstKey) ++
        (st.reservations.drop (key - st.batches.firstKey)).take (j - key) := by
    rw [← take_add]
    congr 1
    omega
  have hoff : st.offsetAt j = endOffset (st.offsetAt key)
      ((st.reservations.drop (key - st.batches.firstKey)).take (j - key)) := by
    rw [offsetAt, hsplit, endOffset_append, offsetAt]
  rw [hoff]
  simp only [offsetAt, reservations, firstKey_truncateBefore h₁ h₂,
    values_truncateBefore h₁ h₂, map_drop]

end Layout

end PartitionCore

end ShardStream
