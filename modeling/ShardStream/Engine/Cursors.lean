import Mathlib.Data.List.TakeWhile
import ShardStream.Engine.Layout

/-!
# Watermark cursors

What the three cursors of a laid-out partition can be. A cursor is **in place** (`InPlace`) when its
key is within the retained range and its offset is where that key starts; it is **blocked** when the
batch under it, if there is one, is not ready; it has **passed** what is below it when all of that
is ready. Advancing a cursor that is in place leaves it in place and blocked, and moves it only over
ready batches (`advanceCursor_spec`). A cursor that is blocked and has passed everything below it is
exactly the end of the longest ready prefix, which is what makes rebuilding it from the log start
harmless (`CursorOk.le_of_ready`).
-/

namespace ShardStream

open List DenseOrderedMap

/-- The element right after the longest satisfying prefix does not satisfy. -/
theorem getElem?_length_takeWhile {α : Type} {p : α → Bool} :
    ∀ {l : List α} {a : α}, l[(l.takeWhile p).length]? = some a → p a = false
  | [], _, h => by simp at h
  | x :: l, a, h => by
    cases hx : p x with
    | false => simp_all
    | true =>
      simp only [takeWhile_cons, hx, if_true, length_cons, getElem?_cons_succ] at h
      exact getElem?_length_takeWhile h

/-- The walk stops after the longest ready prefix: on a laid-out run its offset test never fails. -/
theorem walk_eq {tp : TopicPartition} {ready : BatchRuntime → Bool} :
    ∀ {bs : List BatchRuntime} {id off : Nat}, Laid tp id off (bs.map (·.reservation)) →
      walk ready bs ⟨id, off⟩ = ⟨id + (bs.takeWhile ready).length,
          endOffset off ((bs.takeWhile ready).map (·.reservation))⟩
  | [], _, _, _ => rfl
  | b :: bs, id, off, h => by
    obtain ⟨-, -, -, hfirst, -, hrest⟩ := h
    cases hb : ready b with
    | false => simp [walk, hb]
    | true =>
      have hwalk : walk ready (b :: bs) ⟨id, off⟩ =
          walk ready bs ⟨id + 1, nextOffset b.reservation⟩ := by
        simp [walk, hb, hfirst]
      rw [hwalk, walk_eq hrest]
      simp only [takeWhile_cons, hb, if_true, length_cons, map_cons,
        endOffset_cons, Nat.add_assoc, Nat.add_comm 1]

namespace PartitionCore

/-- The cursor stands at the start of a retained batch, or at the end. -/
structure InPlace (st : PartitionCore) (c : Cursor) : Prop where
  firstKey_le : st.batches.firstKey ≤ c.nextBatch
  le_nextKey : c.nextBatch ≤ st.batches.nextKey
  offset_eq : c.offset = st.offsetAt c.nextBatch

/-- Being in place depends on the log start, the first key and the reservations only. -/
theorem InPlace.congr {st st' : PartitionCore} {c : Cursor} (h : st.InPlace c)
    (hstart : st'.logStart = st.logStart) (hkey : st'.batches.firstKey = st.batches.firstKey)
    (hres : st'.reservations = st.reservations) : st'.InPlace c where
  firstKey_le := by rw [hkey]; exact h.firstKey_le
  le_nextKey := by
    have := h.le_nextKey
    rw [nextKey, ← length_reservations] at this ⊢
    rwa [hres, hkey]
  offset_eq := by rw [offsetAt, hstart, hres, hkey]; exact h.offset_eq

theorem InPlace.logStart_le {st : PartitionCore} {c : Cursor} (h : st.InPlace c) (hl : st.Layout) :
    st.logStart ≤ c.offset := by
  have := hl.offsetAt_le h.firstKey_le h.le_nextKey
  rwa [offsetAt_firstKey, ← h.offset_eq] at this

/-- The batch under the cursor is not ready. -/
def Blocked (st : PartitionCore) (ready : BatchRuntime → Bool) (c : Cursor) : Prop :=
  ∀ b, st.batches.get c.nextBatch = some b → ready b = false

/-- Every retained batch below the cursor is ready. -/
def Passed (st : PartitionCore) (ready : BatchRuntime → Bool) (c : Cursor) : Prop :=
  ∀ key b, key < c.nextBatch → st.batches.get key = some b → ready b = true

/-- **Advancing.** From a cursor in place the walk ends in place and blocked, and every batch it
moved over is ready. -/
theorem advanceCursor_spec {st : PartitionCore} (h : st.Layout) {ready : BatchRuntime → Bool}
    {c : Cursor} (hc : st.InPlace c) :
    st.InPlace (st.advanceCursor ready c) ∧ c.nextBatch ≤ (st.advanceCursor ready c).nextBatch ∧
      st.Blocked ready (st.advanceCursor ready c) ∧
      ∀ key b, c.nextBatch ≤ key → key < (st.advanceCursor ready c).nextBatch →
        st.batches.get key = some b → ready b = true := by
  obtain ⟨i, hi⟩ := Nat.exists_eq_add_of_le hc.firstKey_le
  have hlen : i ≤ st.reservations.length := by
    have := hc.le_nextKey
    rw [length_reservations]; unfold nextKey at this; omega
  have hscan : st.batches.scanFrom c.nextBatch = st.batches.values.drop i := by
    rw [hi, scanFrom_add]
  have hlaid : Laid st.sequencer.topicPartition c.nextBatch c.offset
      ((st.batches.values.drop i).map (·.reservation)) := by
    have hdrop := h.laid.drop hlen
    rw [hc.offset_eq, hi, offsetAt, Nat.add_sub_cancel_left]
    rwa [reservations, ← map_drop] at hdrop
  set n := ((st.batches.values.drop i).takeWhile ready).length with hn
  have hpre : (st.batches.values.drop i).takeWhile ready =
      (st.batches.values.drop i).take n := prefix_iff_eq_take.1 ( takeWhile_prefix ready)
  have hn_le : i + n ≤ st.batches.values.length := by
    have := ( takeWhile_prefix ready (l := st.batches.values.drop i)).length_le
    rw [length_drop] at this
    rw [length_reservations] at hlen
    omega
  have hwalk : st.advanceCursor ready c =
      ⟨c.nextBatch + n, endOffset c.offset ((st.reservations.drop i).take n)⟩ := by
    rw [advanceCursor, hscan, walk_eq hlaid, hpre, map_take, map_drop]
    simp only [length_take, length_drop, Cursor.mk.injEq]
    exact ⟨by omega, rfl⟩
  -- position `i + j` of the list is the batch under key `c.nextBatch + j`
  have hget : ∀ j, st.batches.get (c.nextBatch + j) = (st.batches.values.drop i)[j]? := by
    intro j
    rw [hi, Nat.add_assoc, get_add, getElem?_drop]
  rw [hwalk]
  refine ⟨⟨by dsimp only; omega, ?_, ?_⟩, by dsimp only; omega, ?_, ?_⟩
  · simp only [nextKey]
    omega
  · rw [hc.offset_eq, offsetAt, offsetAt, hi, Nat.add_sub_cancel_left, Nat.add_assoc,
      Nat.add_sub_cancel_left, ← endOffset_append, ← take_add]
  · intro b hb
    rw [hget] at hb
    exact getElem?_length_takeWhile hb
  · intro key b hle hlt hb
    obtain ⟨j, rfl⟩ := Nat.exists_eq_add_of_le hle
    rw [hget] at hb
    have hj : j < n := by simpa using hlt
    have hmem : b ∈ (st.batches.values.drop i).takeWhile ready := by
      rw [hpre]
      exact mem_of_getElem? (by rw [getElem?_take, if_pos hj, hb])
    exact mem_takeWhile_imp hmem

/-- A cursor that an advance left behind: in place, and blocked. -/
structure CursorOk (st : PartitionCore) (ready : BatchRuntime → Bool) (c : Cursor) : Prop where
  inPlace : st.InPlace c
  blocked : st.Blocked ready c

/-- A blocked cursor is at least as far as any prefix of ready batches reaches. -/
theorem CursorOk.le_of_ready {st : PartitionCore} {ready : BatchRuntime → Bool} {c : Cursor}
    (h : st.CursorOk ready c) {k : Nat} (hk : k ≤ st.batches.nextKey)
    (hready : ∀ key b, key < k → st.batches.get key = some b → ready b = true) :
    k ≤ c.nextBatch := by
  by_contra hlt
  obtain ⟨b, hb⟩ := exists_get h.inPlace.firstKey_le (by omega)
  have := hready _ b (by omega) hb
  rw [h.blocked b hb] at this
  cases this

/-- All three cursors are in place. -/
structure InPlaces (st : PartitionCore) : Prop where
  contiguous : st.InPlace st.contiguous
  stable : st.InPlace st.stable
  replicated : st.InPlace st.replicated

/-- **Cursors.** All three cursors are in place and blocked. -/
structure Cursors (st : PartitionCore) : Prop where
  contiguous : st.CursorOk BatchRuntime.settled st.contiguous
  stable : st.CursorOk BatchRuntime.stable st.stable
  replicated : st.CursorOk st.replicatedReady st.replicated

/-- **Exactness.** Every batch below a cursor is ready for it. -/
structure Exact (st : PartitionCore) : Prop where
  contiguous : st.Passed BatchRuntime.settled st.contiguous
  stable : st.Passed BatchRuntime.stable st.stable
  replicated : st.Passed st.replicatedReady st.replicated

section Advance

variable {st : PartitionCore}

theorem Cursors.inPlaces (h : st.Cursors) : st.InPlaces :=
  ⟨h.contiguous.inPlace, h.stable.inPlace, h.replicated.inPlace⟩

theorem cursorOk_advanceCursor (h : st.Layout) {ready : BatchRuntime → Bool} {c : Cursor}
    (hc : st.InPlace c) : st.CursorOk ready (st.advanceCursor ready c) :=
  have hspec := @advanceCursor_spec st h ready _ hc
  ⟨hspec.1, hspec.2.2.1⟩

theorem passed_advanceCursor (h : st.Layout) {ready : BatchRuntime → Bool} {c : Cursor}
    (hc : st.InPlace c) (hp : st.Passed ready c) :
    st.Passed ready (st.advanceCursor ready c) := by
  intro key b hlt hb
  rcases Nat.lt_or_ge key c.nextBatch with hkey | hkey
  · exact hp key b hkey hb
  · exact (advanceCursor_spec h hc).2.2.2 key b hkey hlt hb

/-- Advancing cursors that are in place makes them blocked. -/
theorem cursors_advance (h : st.Layout) (hc : st.InPlaces) : st.advance.Cursors := by
  have hok : ∀ {ready c}, st.InPlace c →
      st.advance.CursorOk ready (st.advanceCursor ready c) := fun hc ↦
    have hspec := cursorOk_advanceCursor h hc
    ⟨hspec.inPlace.congr rfl rfl rfl, hspec.blocked⟩
  exact ⟨hok hc.contiguous, hok hc.stable, hok hc.replicated⟩

/-- Advancing keeps exactness. -/
theorem exact_advance (h : st.Layout) (hc : st.InPlaces) (he : st.Exact) : st.advance.Exact where
  contiguous := passed_advanceCursor h hc.contiguous he.contiguous
  stable := passed_advanceCursor h hc.stable he.stable
  replicated := passed_advanceCursor h hc.replicated he.replicated

theorem inPlace_startCursor (st : PartitionCore) : st.InPlace st.startCursor where
  firstKey_le := le_rfl
  le_nextKey := Nat.le_add_right ..
  offset_eq := (offsetAt_firstKey st).symm

theorem inPlaces_rewind (st : PartitionCore) : st.rewind.InPlaces :=
  have hstart : st.rewind.InPlace st.startCursor := (inPlace_startCursor st).congr rfl rfl rfl
  ⟨hstart, hstart, hstart⟩

theorem passed_startCursor (st : PartitionCore) (ready : BatchRuntime → Bool) :
    st.Passed ready st.startCursor := by
  intro key b hlt hb
  have := (lt_nextKey_of_get hb).1
  simp only [startCursor] at hlt
  omega

theorem exact_rewind (st : PartitionCore) : st.rewind.Exact :=
  ⟨passed_startCursor st _, passed_startCursor st _, passed_startCursor st _⟩

theorem Layout.rewind (h : st.Layout) : st.rewind.Layout :=
  h.congr rfl rfl rfl rfl rfl rfl rfl

theorem Layout.advance (h : st.Layout) : st.advance.Layout :=
  h.congr rfl rfl rfl rfl rfl rfl rfl

/-- Rebuilding the cursors from the log start gives blocked and exact cursors. -/
theorem cursors_rewind_advance (h : st.Layout) : st.rewind.advance.Cursors :=
  cursors_advance h.rewind (inPlaces_rewind st)

theorem exact_rewind_advance (h : st.Layout) : st.rewind.advance.Exact :=
  exact_advance h.rewind (inPlaces_rewind st) (exact_rewind st)

end Advance

/-- Offsets reached by two cursors in place compare as their keys do. -/
theorem InPlace.offset_le {st : PartitionCore} (h : st.Layout) {c c' : Cursor}
    (hc : st.InPlace c) (hc' : st.InPlace c') (hle : c.nextBatch ≤ c'.nextBatch) :
    c.offset ≤ c'.offset := by
  rw [hc.offset_eq, hc'.offset_eq]
  exact h.offsetAt_le hle hc'.le_nextKey

end PartitionCore

end ShardStream
