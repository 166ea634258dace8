import ShardStream.Library.Budget
import ShardStream.Storage.Reopen

/-!
# Reading from a shard store

A fetch has two halves. Planning walks the index of a partition from the requested offset and takes
extents within a budget of bytes; reading opens the packs and copies the payloads. Extents of one
pack that lie close together are read with one call and cut out of the buffer afterwards; what comes
out is what reading each payload by itself would give (`ShardStore.readFetchPlan_eq`).

A plan carries the token and the epoch of the store that made it. The variants with a budget of
their own add charges and clock checks only and are not modelled.
-/

namespace ShardStream

open List PreparedExtent

variable {store : ShardStore} {tp : TopicPartition}
  {startOffset maxBytes maxBatches fuel pack : Nat} {planned : List StoredBatchMetadata}
  {l : ExtentLocation} {checksum : ExtentChecksum} {front : List PackFrames}
  {last : PackFrames} {xs : List PreparedExtent} {config : ShardStoreConfig} {ops : List StoreOp}

/-- `StoredBatchMetadata`. -/
structure StoredBatchMetadata extends ExtentLocation where
  storeToken : Nat
  planEpoch : Nat
  deriving DecidableEq

/-- `StoredBatch`. -/
structure StoredBatch where
  reservation : Reservation
  producer : Option ProducerSequence
  atomicGroup : Option AtomicGroupSequence
  payload : Bytes
  deriving DecidableEq

namespace ShardStore

/-! ### Planning -/

variable (store : ShardStore)

/-- `metadata_for`. -/
def metadataFor (l : ExtentLocation) : StoredBatchMetadata :=
  { toExtentLocation := l, storeToken := store.storeToken, planEpoch := store.planEpoch }

/-- `plan_fetch`. The extents of a partition are in offset order, so the binary search for the first
one that ends at or after the start skips those that end before it. -/
def planFetch (tp : TopicPartition) (startOffset maxBytes maxBatches : Nat) :
    Except StorageError (List StoredBatchMetadata) :=
  if maxBytes = 0 ∨ maxBatches = 0 then
    .error (.invalidInput "fetch byte and batch limits must be nonzero")
  else
    (Budget.takeWithin ExtentLocation.payloadLen maxBytes
      (.limitExceeded "fetch byte count overflow") maxBatches 0 false
      ((store.ix.locations tp).dropWhile fun l ↦
        decide (l.reservation.lastOffset < startOffset))).map (map store.metadataFor)

/-- A plan is a front part of the extents from the start on. -/
theorem exists_of_planFetch {store : ShardStore}
    (h : store.planFetch tp startOffset maxBytes maxBatches = .ok planned) :
    ∃ ls, planned = ls.map store.metadataFor ∧ ls <+: (store.ix.locations tp).dropWhile fun l ↦
      decide (l.reservation.lastOffset < startOffset) := by
  unfold planFetch at h
  split_ifs at h
  obtain ⟨ls, hls, rfl⟩ := map_eq_ok_iff.1 h
  exact ⟨ls, rfl, Budget.takeWithin_prefix hls⟩

/-! ### Reading -/

/-- `MAX_COALESCED_READ_GAP`. -/
def maxCoalescedReadGap : Nat := 4 * 1024

/-- `coalesces`: the next payload joins the read that began with `first`. -/
def coalesces (first next : StoredBatchMetadata) (rangeEnd : Nat) : Bool :=
  decide (next.packSequence = first.packSequence ∧ rangeEnd ≤ next.payloadOffset ∧
    next.payloadOffset - rangeEnd ≤ maxCoalescedReadGap)

/-- `payload_end`. -/
def payloadEnd (m : StoredBatchMetadata) : Except StorageError Nat :=
  if 2 ^ 64 ≤ m.payloadOffset + m.payloadLen then .error (.limitExceeded "payload end overflow")
  else .ok (m.payloadOffset + m.payloadLen)

/-- The inner loop of `read_fetch_plan`: how many extents join the read that began with `first`, and
where the range then ends. -/
def coalescedRun (first : StoredBatchMetadata) :
    Nat → List StoredBatchMetadata → Except StorageError (Nat × Nat)
  | rangeEnd, [] => .ok (0, rangeEnd)
  | rangeEnd, next :: rest =>
    if coalesces first next rangeEnd then do
      let rangeEnd ← payloadEnd next
      let (count, rangeEnd) ← coalescedRun first rangeEnd rest
      pure (count + 1, rangeEnd)
    else .ok (0, rangeEnd)

/-- One read, and the payloads cut out of its buffer. -/
def readRange (packSequence rangeStart rangeEnd : Nat)
    (run : List StoredBatchMetadata) : Except StorageError (List StoredBatch) :=
  match store.files.find? (·.sequence = packSequence) with
  | none => .error (.invalidInput "planned pack is missing")
  | some file =>
    let buffer := (file.contents.drop rangeStart).take (rangeEnd - rangeStart)
    if buffer.length < rangeEnd - rangeStart then
      .error (.io "planned extent ended before its payload")
    else .ok (run.map fun m ↦ ⟨m.reservation, m.producer, m.atomicGroup,
      (buffer.drop (m.payloadOffset - rangeStart)).take m.payloadLen⟩)

/-- The outer loop of `read_fetch_plan`. Every turn reads at least one extent. -/
def readRuns (store : ShardStore) :
    Nat → List StoredBatchMetadata → Except StorageError (List StoredBatch)
  | _, [] => .ok []
  | 0, _ => .ok []
  | fuel + 1, first :: rest => do
    let rangeEnd ← payloadEnd first
    let (count, rangeEnd) ← coalescedRun first rangeEnd rest
    let batches ← store.readRange first.packSequence first.payloadOffset rangeEnd
      (first :: rest.take count)
    let others ← store.readRuns fuel (rest.drop count)
    pure (batches ++ others)

/-- `read_fetch_plan`. -/
def readFetchPlan (planned : List StoredBatchMetadata) : Except StorageError (List StoredBatch) :=
  if planned.any fun m ↦
    decide (m.storeToken ≠ store.storeToken ∨ m.planEpoch ≠ store.planEpoch) then
    .error (.invalidInput "fetch plan does not belong to the current store generation")
  else store.readRuns planned.length planned

/-- `read_batch`. -/
def readBatch (r : Reservation) : Except StorageError (Option StoredBatch) :=
  match store.ix.byBatch.find? (·.key = (r.topicPartition, r.batchId)) with
  | none => .ok none
  | some l =>
    if l.reservation ≠ r then
      .error (.invalidInput s!"batch {r.batchId} metadata does not match indexed extent")
    else (store.readFetchPlan [store.metadataFor l]).map getLast?

/-! ### What is read -/

/-- The payload of the extent, read by itself. -/
def payloadAt (l : ExtentLocation) : Bytes :=
  match store.files.find? (·.sequence = l.packSequence) with
  | none => []
  | some file => (file.contents.drop l.payloadOffset).take l.payloadLen

/-- The batch of an extent. -/
def batchAt (l : ExtentLocation) : StoredBatch :=
  ⟨l.reservation, l.producer, l.atomicGroup, store.payloadAt l⟩

/-- The payload lies within a file of the store. -/
def Covers (l : ExtentLocation) : Prop :=
  ∃ file, store.files.find? (·.sequence = l.packSequence) = some file ∧
    l.payloadOffset + l.payloadLen ≤ file.contents.length ∧ file.contents.length < 2 ^ 64

theorem length_payloadAt {store : ShardStore} (h : store.Covers l) :
    (store.payloadAt l).length = l.payloadLen := by
  obtain ⟨file, hfile, hle, -⟩ := h
  rw [payloadAt, hfile]
  simp only [length_take, length_drop]
  omega

section Read

variable {store : ShardStore} {first : StoredBatchMetadata} {rest : List StoredBatchMetadata}
  {rangeEnd : Nat} {file : PackFile} {batches : List StoredBatch}

theorem payloadEnd_of_covers {m : StoredBatchMetadata} (h : store.Covers m.toExtentLocation) :
    payloadEnd m = .ok (m.payloadOffset + m.payloadLen) := by
  obtain ⟨file, -, hle, hlt⟩ := h
  exact if_neg (by omega)

/-- The extents that join a read lie within its range, and the range within the file. -/
theorem exists_coalescedRun
    (hfile : store.files.find? (·.sequence = first.packSequence) = some file)
    (hcovers : ∀ m ∈ rest, store.Covers m.toExtentLocation)
    (hstart : first.payloadOffset ≤ rangeEnd) (hend : rangeEnd ≤ file.contents.length) :
    ∃ count rangeEnd', coalescedRun first rangeEnd rest = .ok (count, rangeEnd') ∧
      rangeEnd ≤ rangeEnd' ∧ rangeEnd' ≤ file.contents.length ∧
      ∀ m ∈ rest.take count, m.packSequence = first.packSequence ∧
        first.payloadOffset ≤ m.payloadOffset ∧ m.payloadOffset + m.payloadLen ≤ rangeEnd' := by
  induction rest generalizing rangeEnd with
  | nil => exact ⟨0, rangeEnd, rfl, le_rfl, hend, by simp⟩
  | cons next rest ih =>
    have hnext := hcovers next (mem_cons_self ..)
    rw [coalescedRun]
    split_ifs with hjoin
    · obtain ⟨hpack, hafter, -⟩ := of_decide_eq_true hjoin
      have hwithin : next.payloadOffset + next.payloadLen ≤ file.contents.length := by
        obtain ⟨file', hfile', hle, -⟩ := hnext
        rw [hpack, hfile] at hfile'
        cases hfile'
        exact hle
      obtain ⟨count, rangeEnd', hrun, hle, hle', hall⟩ :=
        @ih (next.payloadOffset + next.payloadLen)
          (fun m hm ↦ hcovers m (mem_cons_of_mem _ hm)) (by omega) hwithin
      refine ⟨count + 1, rangeEnd', ?_, by omega, hle', fun m hm ↦ ?_⟩
      · rw [payloadEnd_of_covers hnext]
        change ((coalescedRun _ _ _).bind _) = _
        rw [hrun]
        rfl
      · rcases mem_cons.1 hm with rfl | hm
        · exact ⟨hpack, by omega, hle⟩
        · exact hall m hm
    · exact ⟨0, rangeEnd, rfl, le_rfl, hend, by simp⟩

/-- Cutting a payload out of a buffer. -/
theorem slice_buffer {contents : Bytes} {start stop offset len : Nat} (hstart : start ≤ offset)
    (hstop : offset + len ≤ stop) :
    (((contents.drop start).take (stop - start)).drop (offset - start)).take len =
      (contents.drop offset).take len := by
  rw [drop_take, take_take, drop_drop, min_eq_left (by omega), Nat.add_sub_cancel' hstart]

theorem readRange_eq {run : List StoredBatchMetadata}
    (hfile : store.files.find? (·.sequence = first.packSequence) = some file)
    (hend : rangeEnd ≤ file.contents.length)
    (hrun : ∀ m ∈ run, m.packSequence = first.packSequence ∧
      first.payloadOffset ≤ m.payloadOffset ∧ m.payloadOffset + m.payloadLen ≤ rangeEnd) :
    store.readRange first.packSequence first.payloadOffset rangeEnd run =
      .ok (run.map fun m ↦ store.batchAt m.toExtentLocation) := by
  have hlength : ((file.contents.drop first.payloadOffset).take
      (rangeEnd - first.payloadOffset)).length = rangeEnd - first.payloadOffset := by
    rw [length_take, length_drop]
    omega
  rw [readRange, hfile]
  simp only [hlength, lt_irrefl, if_false]
  refine congrArg _ (map_congr_left fun m hm ↦ ?_)
  obtain ⟨hpack, hstart, hstop⟩ := hrun m hm
  rw [batchAt, payloadAt, hpack, hfile, slice_buffer hstart hstop]

/-- **Coalesced reads return the payloads.** -/
theorem readRuns_eq (hcovers : ∀ m ∈ planned, store.Covers m.toExtentLocation)
    (hfuel : planned.length ≤ fuel) :
    store.readRuns fuel planned = .ok (planned.map fun m ↦ store.batchAt m.toExtentLocation) := by
  induction fuel generalizing planned with
  | zero =>
    obtain rfl := length_eq_zero_iff.1 (Nat.le_zero.1 hfuel)
    rfl
  | succ fuel ih =>
    cases planned with
    | nil => rfl
    | cons first rest =>
      have hrange := payloadEnd_of_covers (hcovers first (mem_cons_self ..))
      obtain ⟨file, hfile, hle, -⟩ := hcovers first (mem_cons_self ..)
      obtain ⟨count, rangeEnd, hrun, hstop, hend, hall⟩ := exists_coalescedRun hfile
        (fun m hm ↦ hcovers m (mem_cons_of_mem _ hm)) (Nat.le_add_right ..) hle
      have hread : store.readRange first.packSequence first.payloadOffset rangeEnd
          (first :: rest.take count) = .ok _ :=
        readRange_eq hfile hend (forall_mem_cons.2 ⟨⟨rfl, le_rfl, hstop⟩, hall⟩)
      have hothers : store.readRuns fuel (rest.drop count) = .ok _ :=
        ih (fun m hm ↦ hcovers m (mem_cons_of_mem _ (mem_of_mem_drop hm)))
          (by rw [length_drop]; simp only [length_cons] at hfuel; omega)
      rw [readRuns, hrange]
      change ((coalescedRun _ _ _).bind _) = _
      rw [hrun]
      change ((readRange ..).bind _) = _
      rw [hread]
      rw [hothers]
      change Except.ok _ = _
      rw [← map_append, cons_append, take_append_drop]

theorem readRuns_reservation (hfuel : planned.length ≤ fuel)
    (h : store.readRuns fuel planned = .ok batches) :
    batches.map StoredBatch.reservation = planned.map (·.reservation) := by
  induction fuel generalizing planned batches with
  | zero =>
    obtain rfl := length_eq_zero_iff.1 (Nat.le_zero.1 hfuel)
    cases h
    rfl
  | succ fuel ih =>
    cases planned with
    | nil =>
      cases h
      rfl
    | cons first rest =>
      obtain ⟨rangeEnd, -, h⟩ := bind_eq_ok_iff.1 h
      obtain ⟨⟨count, rangeEnd'⟩, -, h⟩ := bind_eq_ok_iff.1 h
      obtain ⟨read, hread, h⟩ := bind_eq_ok_iff.1 h
      obtain ⟨others, hothers, h⟩ := bind_eq_ok_iff.1 h
      cases h
      have hlength : (rest.drop count).length ≤ fuel := by
        rw [length_drop]
        simp only [length_cons] at hfuel
        omega
      have hread' : read.map StoredBatch.reservation =
          (first :: rest.take count).map (·.reservation) := by
        unfold readRange at hread
        split at hread
        · cases hread
        · dsimp only at hread
          split_ifs at hread
          cases hread
          rw [map_map]
          rfl
      rw [map_append, hread', ih hlength hothers, ← map_append, cons_append, take_append_drop]

/-- Whatever a plan reads has the planned reservations. -/
theorem readFetchPlan_reservation (h : store.readFetchPlan planned = .ok batches) :
    batches.map StoredBatch.reservation = planned.map (·.reservation) := by
  unfold readFetchPlan at h
  split_ifs at h
  exact readRuns_reservation le_rfl h

/-- A plan of the store itself reads the batches of its extents. -/
theorem readFetchPlan_eq {ls : List ExtentLocation} (hcovers : ∀ l ∈ ls, store.Covers l) :
    store.readFetchPlan (ls.map store.metadataFor) = .ok (ls.map store.batchAt) := by
  have hgeneration : ((ls.map store.metadataFor).any fun m ↦
      decide (m.storeToken ≠ store.storeToken ∨ m.planEpoch ≠ store.planEpoch)) = false := by
    simp [metadataFor]
  have hread : store.readRuns (ls.map store.metadataFor).length (ls.map store.metadataFor) =
      .ok ((ls.map store.metadataFor).map fun m ↦ store.batchAt m.toExtentLocation) := by
    refine readRuns_eq (fun m hm ↦ ?_) le_rfl
    obtain ⟨l, hl, rfl⟩ := mem_map.1 hm
    exact hcovers l hl
  rw [readFetchPlan, hgeneration, hread, map_map]
  rfl

end Read

end ShardStore

/-! ### Reading what a store holds -/

/-- The batch that a frame stores. -/
def PreparedExtent.batch (x : PreparedExtent) : StoredBatch :=
  ⟨x.reservation, x.producer, x.atomicGroup, x.payload⟩

section Held

variable {p : PackFrames}

/-- Where keys do not repeat, an element is found under its key. -/
theorem find?_key_eq {α κ : Type} [DecidableEq κ] {key : α → κ} {as : List α} {a : α}
    (hnodup : (as.map key).Nodup) (h : a ∈ as) : as.find? (key · = key a) = some a := by
  induction as with
  | nil => cases h
  | cons b as ih =>
    obtain ⟨hb, hnodup⟩ := nodup_cons.1 hnodup
    rcases mem_cons.1 h with rfl | h
    · rw [find?_cons_of_pos (by simp)]
    · have hne : key b ≠ key a := fun heq ↦ hb (heq ▸ mem_map_of_mem h)
      rw [find?_cons_of_neg (by simpa using hne), ih hnodup h]

/-- A payload within a file. -/
def Slice (contents : Bytes) (l : ExtentLocation) (payload : Bytes) : Prop :=
  l.payloadOffset + l.payloadLen ≤ contents.length ∧
    (contents.drop l.payloadOffset).take l.payloadLen = payload

theorem slice_location (x : PreparedExtent) (pre post : Bytes) :
    Slice (pre ++ x.frame checksum ++ post) (x.location pack pre.length) x.payload := by
  have hbytes : pre ++ x.frame checksum ++ post = (pre ++ x.header) ++ (x.payload ++
      (.le checksumLen (checksum x.header x.payload).toNat ++ post)) := by
    simp [frame]
  have hlength : (pre ++ x.header).length = pre.length + headerLen := by
    rw [length_append, x.length_header]
  rw [hbytes]
  constructor
  · rw [length_append, hlength, length_append, location]
    dsimp only
    omega
  · rw [location]
    rw [drop_left' hlength, take_left' rfl]

/-- The payloads of the frames of a pack lie where the index says. -/
theorem slices_locate (pre : Bytes) (xs : List PreparedExtent) :
    List.Forall₂ (fun l x ↦ (∃ offset, l = x.location pack offset) ∧
      Slice (pre ++ packBytes checksum xs) l x.payload) (locate pack pre.length xs) xs := by
  induction xs generalizing pre with
  | nil => exact .nil
  | cons x xs ih =>
    have hrest := ih (pre ++ x.frame checksum)
    have hlength : (pre ++ x.frame checksum).length = pre.length + x.frameLen := by
      rw [length_append, x.length_frame]
    rw [hlength] at hrest
    rw [packBytes_cons, ← append_assoc]
    exact .cons ⟨⟨_, rfl⟩, slice_location ..⟩ hrest

namespace ShardStore.Holds

variable (h : store.Holds checksum front last)

include h

theorem find?_file (hp : p ∈ front ++ [last]) :
    store.files.find? (·.sequence = p.sequence) = some (p.file checksum) := by
  have hnodup : (store.files.map PackFile.sequence).Nodup := by
    rw [h.files, map_map]
    exact h.sequences.imp fun hlt ↦ hlt.ne
  have hmem : p.file checksum ∈ store.files := by
    rw [h.files]
    exact mem_map_of_mem hp
  exact find?_key_eq hnodup hmem

theorem batchAt_located (hp : p ∈ front ++ [last]) :
    List.Forall₂ (fun l x ↦ store.Covers l ∧ store.batchAt l = x.batch) p.located p.frames := by
  have hfile := h.find?_file hp
  have hlength : (p.file checksum).contents.length < 2 ^ 64 := by
    rw [PackFrames.file, length_packBytes]
    exact h.framesLen_lt p hp
  have hslices : List.Forall₂ (fun l x ↦ (∃ offset, l = x.location p.sequence offset) ∧
      Slice (packBytes checksum p.frames) l x.payload) p.located p.frames :=
    slices_locate [] p.frames
  refine hslices.imp fun l x hl ↦ ?_
  obtain ⟨⟨offset, rfl⟩, hwithin, hslice⟩ := hl
  refine ⟨⟨p.file checksum, hfile, hwithin, hlength⟩, ?_⟩
  have hpayload : store.payloadAt (x.location p.sequence offset) = x.payload := by
    rw [payloadAt, location, hfile]
    exact hslice
  rw [batchAt, hpayload]
  rfl

theorem forall₂_heldLocations :
    List.Forall₂ (fun l x ↦ store.Covers l ∧ store.batchAt l = x.batch)
      (heldLocations (front ++ [last])) (heldFrames (front ++ [last])) := by
  have hpacks : ∀ packs : List PackFrames, packs ⊆ front ++ [last] →
      List.Forall₂ (fun l x ↦ store.Covers l ∧ store.batchAt l = x.batch)
        (heldLocations packs) (heldFrames packs) := by
    intro packs
    induction packs with
    | nil => exact fun _ ↦ .nil
    | cons p packs ih =>
      intro hsub
      rw [cons_subset] at hsub
      exact rel_append (h.batchAt_located hsub.1) (ih hsub.2)
  exact hpacks _ (Subset.refl _)

/-- **Every extent that is held can be read.** -/
theorem covers : ∀ l ∈ heldLocations (front ++ [last]), store.Covers l := by
  have := h.forall₂_heldLocations
  generalize heldLocations (front ++ [last]) = ls, heldFrames (front ++ [last]) = xs at this ⊢
  induction this with
  | nil => simp
  | cons hl _ ih => exact forall_mem_cons.2 ⟨hl.1, ih⟩

/-- **Reading gives the batches that were appended.** -/
theorem map_batchAt :
    (heldLocations (front ++ [last])).map store.batchAt =
      (heldFrames (front ++ [last])).map batch := by
  have := h.forall₂_heldLocations
  generalize heldLocations (front ++ [last]) = ls, heldFrames (front ++ [last]) = xs at this ⊢
  induction this with
  | nil => rfl
  | cons hl _ ih => rw [map_cons, map_cons, hl.2, ih]

theorem nodup_byBatch : (store.ix.byBatch.map ExtentLocation.key).Nodup := by
  rw [(h.byBatch.map ExtentLocation.key).nodup_iff, map_key_heldLocations]
  exact h.keys

/-- The keys of a partition's extents are distinct. -/
theorem nodup_locations (tp : TopicPartition) :
    ((store.ix.locations tp).map ExtentLocation.key).Nodup := by
  rw [((h.ordered.perm tp).map _).nodup_iff]
  exact h.nodup_byBatch.sublist (filter_sublist.map _)

/-- **A held batch is read by its reservation.** -/
theorem readBatch_eq {x : PreparedExtent} (hx : x ∈ heldFrames (front ++ [last])) :
    store.readBatch x.reservation = .ok (some x.batch) := by
  have hbatch : x.batch ∈ (heldLocations (front ++ [last])).map store.batchAt := by
    rw [h.map_batchAt]
    exact mem_map_of_mem hx
  obtain ⟨l, hl, heq⟩ := mem_map.1 hbatch
  have hreservation : l.reservation = x.reservation := congrArg StoredBatch.reservation heq
  have hfind : store.ix.byBatch.find?
      (·.key = (x.reservation.topicPartition, x.reservation.batchId)) = some l := by
    rw [← hreservation]
    exact find?_key_eq h.nodup_byBatch (h.byBatch.mem_iff.2 hl)
  have hread : store.readFetchPlan [store.metadataFor l] = .ok [store.batchAt l] :=
    readFetchPlan_eq (forall_mem_singleton.2 (h.covers l hl))
  rw [readBatch, hfind]
  dsimp only
  rw [if_neg (not_not.2 hreservation), hread, heq]
  rfl

end ShardStore.Holds

end Held

/-! ### What a plan takes -/

/-- The batch that an input stores. -/
def ExtentInput.batch (x : ExtentInput) : StoredBatch :=
  ⟨x.reservation, x.producer, x.atomicGroup, x.payload⟩

/-- The ranges of the partition's extents are not empty and do not overlap, as those that its
coordinator allocates. The store itself checks batch ids only. -/
structure DisjointRanges (tp : TopicPartition) (xs : List ExtentInput) : Prop where
  range : ∀ x ∈ xs, x.reservation.topicPartition = tp →
    x.reservation.firstOffset ≤ x.reservation.lastOffset
  disjoint : ∀ x ∈ xs, ∀ y ∈ xs, x.reservation.topicPartition = tp →
    y.reservation.topicPartition = tp → x = y ∨
      x.reservation.lastOffset < y.reservation.firstOffset ∨
      y.reservation.lastOffset < x.reservation.firstOffset

section Plan

namespace ShardStore.Holds

variable (h : store.Holds checksum front last)

include h

theorem mem_locations_iff :
    l ∈ store.ix.locations tp ↔
      l ∈ heldLocations (front ++ [last]) ∧ l.reservation.topicPartition = tp := by
  rw [(h.ordered.perm tp).mem_iff, mem_filter, h.byBatch.mem_iff, decide_eq_true_eq]

theorem batchAt_mem (hl : l ∈ heldLocations (front ++ [last])) :
    ∃ y ∈ heldFrames (front ++ [last]), y.toExtentInput.batch = store.batchAt l := by
  have hbatch : store.batchAt l ∈ (heldFrames (front ++ [last])).map batch := by
    rw [← h.map_batchAt]
    exact mem_map_of_mem hl
  exact mem_map.1 hbatch

/-- The index of a partition with disjoint ranges has them in order. -/
theorem locations_pairwise {xs : List ExtentInput} (hranges : DisjointRanges tp xs)
    (hxs : ∀ y ∈ heldFrames (front ++ [last]), y.toExtentInput ∈ xs) :
    (store.ix.locations tp).Pairwise fun a b ↦
      a.reservation.lastOffset < b.reservation.firstOffset ∧
        b.reservation.firstOffset ≤ b.reservation.lastOffset := by
  have hinput : ∀ l ∈ store.ix.locations tp,
      ∃ x ∈ xs, x.reservation.topicPartition = tp ∧ x.reservation = l.reservation := by
    intro l hl
    obtain ⟨hl, htp⟩ := h.mem_locations_iff.1 hl
    obtain ⟨y, hy, hbatch⟩ := h.batchAt_mem hl
    have hreservation : y.reservation = l.reservation := congrArg StoredBatch.reservation hbatch
    exact ⟨_, hxs y hy, by rw [hreservation, htp], hreservation⟩
  refine ((h.ordered.sorted tp).and (pairwise_map.1 (h.nodup_locations tp))).imp_of_mem
    fun {a b} ha hb hab ↦ ?_
  obtain ⟨x, hx, hxtp, hxa⟩ := hinput a ha
  obtain ⟨y, hy, hytp, hyb⟩ := hinput b hb
  have hrange := hranges.range y hy hytp
  rw [← hxa, ← hyb]
  rcases hranges.disjoint x hx y hy hxtp hytp with rfl | hlt | hlt
  · exact absurd (by rw [ExtentLocation.key, ExtentLocation.key, ← hxa, ← hyb]) hab.2
  · exact ⟨hlt, hrange⟩
  · have hle : x.reservation.firstOffset ≤ y.reservation.firstOffset := by
      rw [hxa, hyb]
      exact hab.1
    omega

/-- A plan, read as the batches it leads to. -/
theorem planFetch_batches (hbytes : 0 < maxBytes) (hbatches : 0 < maxBatches)
    (hpairwise : (store.ix.locations tp).Pairwise fun a b ↦
      a.reservation.lastOffset < b.reservation.firstOffset ∧
        b.reservation.firstOffset ≤ b.reservation.lastOffset) (startOffset : Nat) :
    (store.planFetch tp startOffset maxBytes maxBatches).map
        (map fun m ↦ store.batchAt m.toExtentLocation) =
      Budget.takeWithin (fun b : StoredBatch ↦ b.payload.length) maxBytes
        (.limitExceeded "fetch byte count overflow") maxBatches 0 false
        (((store.ix.locations tp).filter fun l ↦
          !decide (l.reservation.lastOffset < startOffset)).map store.batchAt) := by
  have hdrop : (store.ix.locations tp).dropWhile
      (fun l ↦ decide (l.reservation.lastOffset < startOffset)) = _ :=
    Budget.dropWhile_eq_filter_of_pairwise (hpairwise.imp fun {a b} hab hb ↦ by
      have hb := of_decide_eq_true hb
      exact decide_eq_true (by omega))
  have hsize : ∀ l ∈ (store.ix.locations tp).filter
      (fun l ↦ !decide (l.reservation.lastOffset < startOffset)),
      l.payloadLen = ((fun b : StoredBatch ↦ b.payload.length) ∘ store.batchAt) l := by
    intro l hl
    exact (length_payloadAt (h.covers l (h.mem_locations_iff.1 (mem_filter.1 hl).1).1)).symm
  rw [planFetch, if_neg (by omega), hdrop, Budget.takeWithin_map, Budget.takeWithin_congr hsize]
  cases Budget.takeWithin _ maxBytes _ maxBatches 0 false _ with
  | error e => rfl
  | ok ls => exact congrArg Except.ok (map_map ..)

end ShardStore.Holds

/-- **A plan is the longest prefix within its limits.** After any run of successful calls, in any
order of batch ids and offsets: of the partition's extents that end at or after the start, in offset
order, a plan leads to as many as the limits allow, a first one larger than the byte limit by
itself. Planning fails only where their bytes pass what a machine word can count. -/
theorem planFetch_longest_prefix (run : StoreRun checksum config ops store)
    (hranges : DisjointRanges tp (ops.flatMap StoreOp.extents)) (startOffset : Nat)
    (hbytes : 0 < maxBytes) (hbatches : 0 < maxBatches) :
    ∃ batches : List StoredBatch,
      batches.Pairwise (fun a b ↦ a.reservation.lastOffset < b.reservation.firstOffset) ∧
      (∀ b ∈ batches, startOffset ≤ b.reservation.lastOffset ∧
        ∃ op ∈ ops, ∃ x ∈ op.extents, x.reservation.topicPartition = tp ∧ x.batch = b) ∧
      (∀ op ∈ ops, ∀ x ∈ op.extents, x.reservation.topicPartition = tp →
        startOffset ≤ x.reservation.lastOffset → x.batch ∈ batches ∨ ∃ op' ∈ ops, op'.Collects x) ∧
      ((∃ planned, store.planFetch tp startOffset maxBytes maxBatches = .ok planned ∧
          planned.map (fun m ↦ store.batchAt m.toExtentLocation) <+: batches ∧
          Budget.Limited (fun b ↦ b.payload.length) maxBytes maxBatches 0 false
            (planned.map fun m ↦ store.batchAt m.toExtentLocation) ∧
          ∀ others, others <+: batches →
            Budget.Limited (fun b ↦ b.payload.length) maxBytes maxBatches 0 false others →
            others <+: planned.map fun m ↦ store.batchAt m.toExtentLocation) ∨
        store.planFetch tp startOffset maxBytes maxBatches =
            .error (.limitExceeded "fetch byte count overflow") ∧
          ∃ planned next, planned ++ [next] <+: batches ∧
            2 ^ 64 ≤ (planned.map fun b ↦ b.payload.length).sum + next.payload.length) := by
  obtain ⟨front, last, hheld, -, -, horigin, hkept⟩ := run.exists_held
  have hpairwise := hheld.locations_pairwise hranges fun y hy ↦ by
    obtain ⟨op, hop, hy⟩ := horigin y hy
    exact mem_flatMap.2 ⟨op, hop, hy⟩
  have hplan := hheld.planFetch_batches hbytes hbatches hpairwise startOffset
  set ls := (store.ix.locations tp).filter fun l ↦
    !decide (l.reservation.lastOffset < startOffset) with hls
  have hmem : ∀ l, l ∈ ls ↔ l ∈ heldLocations (front ++ [last]) ∧
      l.reservation.topicPartition = tp ∧ startOffset ≤ l.reservation.lastOffset := by
    intro l
    rw [mem_filter, hheld.mem_locations_iff]
    simp [and_assoc]
  refine ⟨ls.map store.batchAt, ?_, fun b hb ↦ ?_, fun op hop x hx htp hstart ↦ ?_, ?_⟩
  · exact pairwise_map.2 ((hpairwise.sublist filter_sublist).imp And.left)
  · obtain ⟨l, hl, rfl⟩ := mem_map.1 hb
    obtain ⟨hl, htp, hstart⟩ := (hmem l).1 hl
    obtain ⟨y, hy, hbatch⟩ := hheld.batchAt_mem hl
    obtain ⟨op, hop, hx⟩ := horigin y hy
    have hreservation : y.reservation = l.reservation := congrArg StoredBatch.reservation hbatch
    exact ⟨hstart, op, hop, _, hx, by rw [hreservation, htp], hbatch⟩
  · refine (hkept op hop x hx).imp_left fun ⟨y, hy, heq⟩ ↦ ?_
    have hbatch : x.batch ∈ (heldLocations (front ++ [last])).map store.batchAt := by
      rw [hheld.map_batchAt, ← heq]
      exact mem_map_of_mem hy
    obtain ⟨l, hl, hl'⟩ := mem_map.1 hbatch
    have hreservation : l.reservation = x.reservation := congrArg StoredBatch.reservation hl'
    rw [← hl']
    exact mem_map_of_mem ((hmem l).2 ⟨hl, by rw [hreservation, htp], by rwa [hreservation]⟩)
  · rcases Budget.takeWithin_longest (fun b : StoredBatch ↦ b.payload.length) maxBytes
        (StorageError.limitExceeded "fetch byte count overflow") maxBatches 0 false
        (ls.map store.batchAt) with
      ⟨taken, htake, hpre, hlimited, hlongest⟩ | ⟨herror, taken, next, hpre, -, hsum⟩
    · rw [htake] at hplan
      obtain ⟨planned, hplanned, rfl⟩ := map_eq_ok_iff.1 hplan
      exact .inl ⟨planned, hplanned, hpre, hlimited, hlongest⟩
    · rw [herror] at hplan
      refine .inr ⟨?_, taken, next, hpre, by simpa using hsum⟩
      cases hplanned : store.planFetch tp startOffset maxBytes maxBatches with
      | error e => rw [hplanned] at hplan; cases hplan; rfl
      | ok planned => rw [hplanned] at hplan; cases hplan

end Plan

/-- Appends of records, in the order of the list. -/
def recordAppends (ids : List (Fin 16)) : List StoreOp :=
  ids.map fun id ↦ .append (recordExtent id).toExtentInput

/-- Three batches of one, two and three bytes, the last one appended first, and a plan for four
bytes: it takes the first two. -/
theorem planFetch_longest_prefix_cut :
    ∃ (store : ShardStore) (batches : List StoredBatch) (planned : _),
    StoreRun lengthChecksum ⟨1000, 16⟩ (recordAppends [2, 0, 1]) store ∧
      store.planFetch ⟨0, 0⟩ 0 4 10 = .ok planned ∧
    planned.map (fun m ↦ (m.reservation.batchId, m.payloadLen)) = [(0, 1), (1, 2)] ∧
    planned.map (fun m ↦ store.batchAt m.toExtentLocation) <+: batches ∧
    (recordExtent 2).toExtentInput.batch ∈ batches := by
  obtain ⟨store, run, h⟩ := StoreRun.exists_of_runStore lengthChecksum ⟨1000, 16⟩
    (recordAppends [2, 0, 1]) (fun store ↦ decide (((store.planFetch ⟨0, 0⟩ 0 4 10).map
      (map fun m ↦ (m.reservation.batchId, m.payloadLen))).toOption = some [(0, 1), (1, 2)]))
    (by decide +kernel)
  have hranges : DisjointRanges ⟨0, 0⟩ ((recordAppends [2, 0, 1]).flatMap StoreOp.extents) := by
    have hmem : ∀ x ∈ (recordAppends [2, 0, 1]).flatMap StoreOp.extents,
        ∃ id, x = (recordExtent id).toExtentInput := fun x hx ↦ by
      obtain ⟨op, hop, hx⟩ := mem_flatMap.1 hx
      obtain ⟨id, -, rfl⟩ := mem_map.1 hop
      exact ⟨id, mem_singleton.1 hx⟩
    refine ⟨fun x hx _ ↦ ?_, fun x hx y hy _ _ ↦ ?_⟩ <;> obtain ⟨id, rfl⟩ := hmem x hx
    · exact le_rfl
    · obtain ⟨id', rfl⟩ := hmem y hy
      rcases lt_trichotomy id id' with hlt | rfl | hlt
      exacts [.inr (.inl hlt), .inl rfl, .inr (.inr hlt)]
  obtain ⟨batches, -, -, hall, hplan⟩ :=
    planFetch_longest_prefix run hranges 0 (Nat.succ_pos 3) (Nat.succ_pos 9)
  rcases hplan with ⟨planned, hplan, hpre, -⟩ | ⟨hplan, -⟩ <;> rw [hplan] at h
  · refine ⟨store, batches, planned, run, hplan, Option.some.inj (of_decide_eq_true h), hpre,
      (hall (.append (recordExtent 2).toExtentInput) ?_ _ (mem_singleton.2 rfl) rfl
        (Nat.zero_le _)).resolve_right ?_⟩
    · exact mem_map_of_mem (mem_cons_self ..)
    · rintro ⟨op, hop, logStarts, start, rfl, -⟩
      simp [recordAppends] at hop
  · cases h

/-- A batch over the offsets up to the last one. -/
def leadingExtent (batchId lastOffset : Fin 16) : ExtentInput :=
  { firstInput with
    reservation := ⟨0, 0, batchId, 0, lastOffset, ⟨lastOffset + 1, by omega, by omega⟩,
      ⟨0, 1, 0, batchId⟩⟩
    reservation_typed := by constructor <;> simp <;> omega }

/-- **Overlapping ranges.** The search skips nothing, since the ranges it probes reach the start;
behind them lies one that ends before it. -/
theorem planFetch_before_start : ∃ store, StoreRun lengthChecksum ⟨1000, 16⟩
      [.append (leadingExtent 2 9), .append (leadingExtent 3 8), .append secondExtent] store ∧
    ((store.planFetch ⟨0, 0⟩ 5 100 10).map (map fun m ↦ m.reservation.lastOffset)).toOption =
      some [8, 9, 2] := by
  obtain ⟨store, run, h⟩ := StoreRun.exists_of_runStore lengthChecksum ⟨1000, 16⟩
    [.append (leadingExtent 2 9), .append (leadingExtent 3 8), .append secondExtent]
    (fun store ↦ decide (((store.planFetch ⟨0, 0⟩ 5 100 10).map
      (map fun m ↦ m.reservation.lastOffset)).toOption = some [8, 9, 2])) (by decide +kernel)
  exact ⟨store, run, of_decide_eq_true h⟩

/-! ### Plans that are read later -/

/-- What calls leave of the plans made before them: the plans are stale, or their extents are
there. -/
structure ShardStore.Keeps (store store' : ShardStore) : Prop where
  storeToken : store'.storeToken = store.storeToken
  planEpoch : store.planEpoch ≤ store'.planEpoch
  byBatch : store'.planEpoch = store.planEpoch → store.ix.byBatch ⊆ store'.ix.byBatch

section Later

variable {later : List StoreOp} {store' store'' : ShardStore}

namespace ShardStore

theorem Keeps.refl (store : ShardStore) : store.Keeps store :=
  ⟨rfl, le_rfl, fun _ ↦ Subset.refl _⟩

theorem Keeps.trans (h : store.Keeps store') (h' : store'.Keeps store'') : store.Keeps store'' where
  storeToken := h'.storeToken.trans h.storeToken
  planEpoch := h.planEpoch.trans h'.planEpoch
  byBatch heq := by
    have hle := h.planEpoch
    have hle' := h'.planEpoch
    exact Subset.trans (h.byBatch (by omega)) (h'.byBatch (by omega))

theorem keeps_rotate (hok : store.rotate = .ok store') : store.Keeps store' := by
  unfold rotate at hok
  split_ifs at hok
  cases hok
  exact ⟨rfl, le_rfl, fun _ ↦ Subset.refl _⟩

theorem keeps_rotateIfFull {frameLen : Nat} (hok : store.rotateIfFull frameLen = .ok store') :
    store.Keeps store' := by
  unfold rotateIfFull at hok
  split_ifs at hok
  · exact keeps_rotate hok
  · cases hok
    exact .refl _

theorem keeps_appendPreparedSegment (store : ShardStore) (xs : List PreparedExtent) :
    store.Keeps (store.appendPreparedSegment checksum xs) := by
  refine ⟨rfl, le_rfl, fun _ ↦ ?_⟩
  rw [appendPreparedSegment, byBatch_foldl_installLocation]
  exact subset_append_left ..

theorem keeps_appendSegments (hok : appendSegments checksum fuel store xs = .ok store') :
    store.Keeps store' := by
  induction fuel generalizing store xs with
  | zero => cases xs <;> cases hok <;> exact .refl _
  | succ fuel ih =>
    cases xs with
    | nil =>
      cases hok
      exact .refl _
    | cons x xs =>
      obtain ⟨rotated, hrotated, hok⟩ := bind_eq_ok_iff.1 hok
      obtain ⟨count, -, hok⟩ := bind_eq_ok_iff.1 hok
      exact (keeps_rotateIfFull hrotated).trans ((keeps_appendPreparedSegment ..).trans (ih hok))

/-- A collection that removes packs makes the plans stale. -/
theorem keeps_garbageCollect {logStarts : Table TopicPartition Nat}
    (hok : store.garbageCollect logStarts = .ok store') : store.Keeps store' := by
  simp only [garbageCollect] at hok
  rw [ite_error_eq_ok_iff] at hok
  obtain ⟨-, hok⟩ := hok
  cases hok
  by_cases hnone : store.removedPacks logStarts = []
  · refine ⟨rfl, by simp [hnone], fun _ ↦ ?_⟩
    simp [dropPacks, hnone]
  · refine ⟨rfl, by simp [hnone], fun heq ↦ ?_⟩
    simp [hnone] at heq

theorem keeps_apply {op : StoreOp} (hop : ∀ storeToken, op ≠ .reopen storeToken)
    (hok : op.apply checksum store = .ok store') : store.Keeps store' := by
  cases op with
  | append x =>
    obtain ⟨prepared, -, hok⟩ := bind_eq_ok_iff.1 hok
    obtain ⟨rotated, hrotated, hok⟩ := bind_eq_ok_iff.1 hok
    split_ifs at hok
    cases hok
    exact (keeps_rotateIfFull hrotated).trans (keeps_appendPreparedSegment ..)
  | appendPreparedGroup prepared =>
    obtain ⟨u, -, hok⟩ := bind_eq_ok_iff.1 hok
    exact keeps_appendSegments hok
  | rotate => exact keeps_rotate hok
  | sealActive =>
    change (if _ then _ else _) = _ at hok
    split_ifs at hok
    · cases hok
      exact .refl _
    · exact keeps_rotate hok
  | garbageCollect logStarts => exact keeps_garbageCollect hok
  | reopen storeToken => exact absurd rfl (hop storeToken)

end ShardStore

theorem StoreRun.foldlM_apply (run : StoreRun checksum config ops store)
    (hlater : ∀ op ∈ later, ∀ storeToken, op ≠ .reopen storeToken)
    (hok : later.foldlM (StoreOp.apply checksum) store = .ok store') :
    (∃ ops', StoreRun checksum config ops' store') ∧ store.Keeps store' := by
  induction later generalizing ops store with
  | nil =>
    cases hok
    exact ⟨⟨ops, run⟩, .refl _⟩
  | cons op later ih =>
    obtain ⟨hop, hlater⟩ := forall_mem_cons.1 hlater
    obtain ⟨next, hnext, hok⟩ := bind_eq_ok_iff.1 hok
    obtain ⟨hrun, hkeeps⟩ := ih (run.step hnext) hlater hok
    exact ⟨hrun, (ShardStore.keeps_apply hop hnext).trans hkeeps⟩

/-- The frame of a location, within the bytes of its pack. -/
theorem exists_frame_of_mem_locate (checksum : ExtentChecksum) (pre : Bytes)
    (h : l ∈ locate pack pre.length xs) : ∃ (x : PreparedExtent) (front back : Bytes),
      l = x.location pack front.length ∧
        pre ++ packBytes checksum xs = front ++ x.frame checksum ++ back := by
  induction xs generalizing pre with
  | nil => cases h
  | cons x xs ih =>
    rw [packBytes_cons, ← append_assoc]
    rcases mem_cons.1 h with rfl | h
    · exact ⟨x, pre, _, rfl, rfl⟩
    · refine ih _ ?_
      rwa [length_append, x.length_frame]

/-- **Coalesced reads equal single reads.** Whatever is appended, sealed and collected after a plan
was made, the store refuses the plan as stale if packs were collected and the plan is not empty, and
otherwise returns the planned batches in order, each as its frame decodes by itself. A call that
fails part way leaves what shorter calls leave. A frame decodes unless its range and its record
count disagree, which no append checks. -/
theorem coalesced_reads_decode {tp : TopicPartition} {startOffset maxBytes maxBatches : Nat}
    {planned : List StoredBatchMetadata} (run : StoreRun checksum config ops store)
    (hplan : store.planFetch tp startOffset maxBytes maxBatches = .ok planned)
    (later : List StoreOp) (hlater : ∀ op ∈ later, ∀ storeToken, op ≠ .reopen storeToken)
    (hok : later.foldlM (StoreOp.apply checksum) store = .ok store') :
    (store'.planEpoch ≠ store.planEpoch ∧ planned ≠ [] ∧ store'.readFetchPlan planned =
        .error (.invalidInput "fetch plan does not belong to the current store generation")) ∨
      (store'.planEpoch = store.planEpoch ∨ planned = []) ∧
      ∃ batches, store'.readFetchPlan planned = .ok batches ∧ List.Forall₂ (fun m b ↦
        ∃ file front frame back, store'.files.find? (·.sequence = m.packSequence) = some file ∧
          file.contents = front ++ frame ++ back ∧
          m.payloadOffset = front.length + headerLen ∧
          b = ⟨m.reservation, m.producer, m.atomicGroup, (frame.drop headerLen).take m.payloadLen⟩ ∧
          ∀ l, decodeExtent checksum m.packSequence front.length frame = .ok l ↔
            m.reservation.Counted ∧ l = { m.toExtentLocation with packSequence := 0 })
        planned batches := by
  obtain ⟨ls, rfl, hfront⟩ := ShardStore.exists_of_planFetch hplan
  obtain ⟨⟨ops', run'⟩, hkeeps⟩ := run.foldlM_apply hlater hok
  by_cases hstale : store'.planEpoch = store.planEpoch ∨ ls = []
  swap
  · obtain ⟨hepoch, hne⟩ := not_or.1 hstale
    obtain ⟨l, ls, rfl⟩ := exists_cons_of_ne_nil hne
    refine .inl ⟨hepoch, cons_ne_nil _ _, ?_⟩
    rw [ShardStore.readFetchPlan, if_pos]
    exact any_eq_true.2 ⟨_, mem_cons_self .., decide_eq_true (.inr (Ne.symm hepoch))⟩
  obtain ⟨front, last, hheld, -⟩ := run.exists_held
  obtain ⟨front', last', hheld', -⟩ := run'.exists_held
  have hmem : ∀ l ∈ ls, l ∈ heldLocations (front' ++ [last']) := by
    intro l hl
    rcases hstale with hepoch | rfl
    · have hindexed := (dropWhile_suffix _).subset (hfront.subset hl)
      rw [← hheld'.byBatch.mem_iff]
      exact hkeeps.byBatch hepoch (hheld.byBatch.mem_iff.2 (hheld.mem_locations_iff.1 hindexed).1)
    · cases hl
  have hmetadata : ls.map store.metadataFor = ls.map store'.metadataFor := by
    rcases hstale with hepoch | rfl
    · refine map_congr_left fun l _ ↦ ?_
      rw [ShardStore.metadataFor, ShardStore.metadataFor, hkeeps.storeToken, hepoch]
    · rfl
  rw [hmetadata]
  refine .inr ⟨hstale.imp_right (congrArg _), _, ShardStore.readFetchPlan_eq fun l hl ↦
    hheld'.covers l (hmem l hl), ?_⟩
  rw [forall₂_map_left_iff, forall₂_map_right_iff, forall₂_same]
  intro l hl
  obtain ⟨p, hp, hl⟩ := mem_flatMap.1 (hmem l hl)
  obtain ⟨x, before, back, rfl, hbytes⟩ := exists_frame_of_mem_locate checksum [] hl
  have hfile := hheld'.find?_file hp
  have hslice : Slice (packBytes checksum p.frames) (x.location p.sequence before.length)
      (((x.frame checksum).drop headerLen).take x.payload.length) := by
    rw [← nil_append (packBytes ..), hbytes, frame, drop_left' x.length_header, take_left' rfl]
    exact slice_location x before back
  refine ⟨_, before, x.frame checksum, back, hfile, hbytes, rfl, ?_, fun l ↦ ⟨fun h ↦ ?_, ?_⟩⟩
  · rw [ShardStore.batchAt, ShardStore.payloadAt, location, hfile]
    exact congrArg (StoredBatch.mk _ _ _) hslice.2
  · have hcounted := x.counted_of_decodeExtent_frame checksum h
    rw [x.decodeExtent_frame checksum hcounted] at h
    cases h
    exact ⟨hcounted, rfl⟩
  · rintro ⟨hcounted, rfl⟩
    exact x.decodeExtent_frame checksum hcounted ..

end Later

/-- Two neighbouring batches in one coalesced read, made after a rotation. -/
theorem coalesced_reads_decode_rotated : ∃ store store' planned batches,
    StoreRun lengthChecksum ⟨1000, 16⟩ (recordAppends [1, 2]) store ∧
    store.planFetch ⟨0, 0⟩ 0 100 10 = .ok planned ∧
    planned.Pairwise (fun a b ↦ ShardStore.coalesces a b (a.payloadOffset + a.payloadLen)) ∧
    store.rotate = .ok store' ∧ store'.readFetchPlan planned = .ok batches ∧
    batches.map (·.payload) = [[1, 1], [2, 2, 2]] := by
  obtain ⟨store, run, h⟩ := StoreRun.exists_of_runStore lengthChecksum ⟨1000, 16⟩
    (recordAppends [1, 2]) (fun store ↦ decide (∃ planned,
      store.planFetch ⟨0, 0⟩ 0 100 10 = .ok planned ∧ planned.Pairwise (fun a b ↦
        ShardStore.coalesces a b (a.payloadOffset + a.payloadLen)) ∧
      ∃ store', store.rotate = .ok store' ∧ store'.planEpoch = store.planEpoch ∧
        (store'.readFetchPlan planned).toOption.map (map (·.payload)) = some [[1, 1], [2, 2, 2]]))
    (by decide +kernel)
  obtain ⟨planned, hplan, hcoalesces, store', hrotate, hepoch, hread⟩ := of_decide_eq_true h
  rcases coalesced_reads_decode run hplan [.rotate] (by simp)
    (bind_eq_ok_iff.2 ⟨store', hrotate, rfl⟩) with ⟨hne, -⟩ | ⟨-, batches, hok, -⟩
  · exact absurd hepoch hne
  · rw [hok] at hread
    exact ⟨store, store', planned, batches, run, hplan, hcoalesces, hrotate, hok,
      Option.some.inj hread⟩

end ShardStream
