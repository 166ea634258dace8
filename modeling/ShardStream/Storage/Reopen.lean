import ShardStream.Storage.Store

/-!
# What a store holds, and reopening it

A store **holds** a list of packs, each a list of frames: its files are the frames written one after
the other, its index lists where they lie, and no key occurs twice (`ShardStore.Holds`). Every
operation that succeeds keeps this, and says which frames are held afterwards. Opening the directory
of such a store finds the same extents again.

The one thing that the operations do not ensure is that the frames can be decoded: an append does
not compare the offset range with the record count. `Holds` is therefore stated without it, and
reopening asks for it.
-/

namespace ShardStream

open List ExtentIndex ShardStore PreparedExtent

variable {x : PreparedExtent} {store store' : ShardStore} {pack storeToken : Nat}
  {xs ys : List PreparedExtent} {config : ShardStoreConfig} {op : StoreOp}
  {checksum : ExtentChecksum} {ops : List StoreOp} {ix : ExtentIndex}
  {l : ExtentLocation} {front : List PackFrames} {last : PackFrames}

/-! ### Indexes -/

/-- The extents are in the order of their first offsets. -/
def OffsetSorted (locations : List ExtentLocation) : Prop :=
  locations.Pairwise fun a b ↦ a.reservation.firstOffset ≤ b.reservation.firstOffset

section Index

variable {ls : List ExtentLocation} {tp : TopicPartition}

theorem ExtentIndex.locations_push (ix : ExtentIndex) (l : ExtentLocation) (tp : TopicPartition) :
    (ix.push l).locations tp =
      ix.locations tp ++ [l].filter fun l ↦ decide (l.reservation.topicPartition = tp) := by
  simp only [locations, push, Table.get_insert]
  by_cases h : tp = l.reservation.topicPartition
  · subst h
    simp
  · rw [if_neg h, filter_cons_of_neg (by simpa using fun heq ↦ h heq.symm)]
    simp

theorem ExtentIndex.byBatch_foldl_push (ix : ExtentIndex) (ls : List ExtentLocation) :
    (ls.foldl push ix).byBatch = ix.byBatch ++ ls := by
  induction ls generalizing ix with
  | nil => simp
  | cons l ls ih => rw [foldl_cons, ih, push, append_assoc]; rfl

theorem ExtentIndex.locations_foldl_push (ix : ExtentIndex) (ls : List ExtentLocation)
    (tp : TopicPartition) :
    (ls.foldl push ix).locations tp =
      ix.locations tp ++ ls.filter fun l ↦ decide (l.reservation.topicPartition = tp) := by
  induction ls generalizing ix with
  | nil => simp
  | cons l ls ih =>
    rw [foldl_cons, ih, locations_push, append_assoc, ← filter_append]
    rfl

theorem ShardStore.byBatch_foldl_installLocation (ix : ExtentIndex) (ls : List ExtentLocation) :
    (ls.foldl installLocation ix).byBatch = ix.byBatch ++ ls := by
  induction ls generalizing ix with
  | nil => simp
  | cons l ls ih => rw [foldl_cons, ih, installLocation, append_assoc]; rfl

theorem ShardStore.insertLocation_perm (l : ExtentLocation) (ls : List ExtentLocation) :
    (insertLocation l ls).Perm (l :: ls) := by
  unfold insertLocation
  split_ifs
  · exact perm_append_singleton l ls
  · refine perm_middle.trans ?_
    rw [takeWhile_append_dropWhile]

/-- Inserting before the first extent that does not start earlier keeps the order. -/
theorem offsetSorted_insert (h : OffsetSorted ls) :
    OffsetSorted (ls.takeWhile (fun a ↦
        decide (a.reservation.firstOffset < l.reservation.firstOffset)) ++
      l :: ls.dropWhile fun a ↦
        decide (a.reservation.firstOffset < l.reservation.firstOffset)) := by
  have hinsert := h.orderedInsert l
  rw [orderedInsert_eq_take_drop] at hinsert
  simpa only [OffsetSorted, not_le] using hinsert

theorem ShardStore.insertLocation_sorted (h : OffsetSorted ls) :
    OffsetSorted (insertLocation l ls) := by
  unfold insertLocation
  split_ifs with hlast
  · refine pairwise_append.2 ⟨h, pairwise_singleton _ _, fun a ha b hb ↦ ?_⟩
    rw [mem_singleton.1 hb]
    -- the last extent comes after `a` and before the new one
    obtain ⟨front, last, rfl⟩ := eq_nil_or_concat' ls |>.resolve_left (ne_nil_of_mem ha)
    rw [getLast?_concat] at hlast
    have hlt := of_decide_eq_true hlast
    rcases mem_append.1 ha with ha | ha
    · exact ((pairwise_append.1 h).2.2 a ha last (mem_singleton.2 rfl)).trans hlt.le
    · rw [mem_singleton.1 ha]
      exact hlt.le
  · exact offsetSorted_insert h

/-- Each partition lists its extents in offset order. -/
structure ExtentIndex.Ordered (ix : ExtentIndex) : Prop where
  sorted : ∀ tp, OffsetSorted (ix.locations tp)
  perm : ∀ tp, (ix.locations tp).Perm
    (ix.byBatch.filter fun l ↦ decide (l.reservation.topicPartition = tp))

theorem ExtentIndex.ordered_empty : empty.Ordered :=
  ⟨fun _ ↦ Pairwise.nil, fun _ ↦ Perm.nil⟩

theorem ExtentIndex.Ordered.install (h : ix.Ordered) (l : ExtentLocation) :
    (installLocation ix l).Ordered := by
  have hlocations : ∀ tp, (installLocation ix l).locations tp =
      if tp = l.reservation.topicPartition then insertLocation l (ix.locations tp)
      else ix.locations tp := by
    intro tp
    simp only [locations, installLocation, Table.get_insert]
    split_ifs with htp
    · subst htp
      rfl
    · rfl
  constructor
  · intro tp
    rw [hlocations]
    split_ifs
    · exact insertLocation_sorted (h.sorted tp)
    · exact h.sorted tp
  · intro tp
    change List.Perm _ (filter _ (ix.byBatch ++ [l]))
    rw [hlocations, filter_append]
    split_ifs with htp
    · rw [filter_cons_of_pos (by simpa using htp.symm)]
      exact (insertLocation_perm ..).trans
        (((h.perm tp).cons l).trans (perm_append_singleton ..).symm)
    · rw [filter_cons_of_neg (by simpa using fun heq ↦ htp heq.symm), filter_nil, append_nil]
      exact h.perm tp

theorem ShardStore.locations_dropPacks (removed : List Nat) (ix : ExtentIndex)
    (tp : TopicPartition) : (dropPacks removed ix).locations tp =
      (ix.locations tp).filter (·.packSequence ∉ removed) := by
  simp only [locations, dropPacks, Table.get_retain, Table.get_map]
  cases ix.index.get tp with
  | none => rfl
  | some locations =>
    rw [Option.map_some, Option.getD_some]
    cases locations.filter (·.packSequence ∉ removed) <;> rfl

/-- Forgetting the extents of some packs keeps the order. -/
theorem ExtentIndex.Ordered.dropPacks (h : ix.Ordered) (removed : List Nat) :
    (ShardStore.dropPacks removed ix).Ordered := by
  constructor
  · intro tp
    rw [locations_dropPacks]
    exact (h.sorted tp).sublist filter_sublist
  · intro tp
    rw [locations_dropPacks]
    refine ((h.perm tp).filter _).trans (List.Perm.of_eq ?_)
    rw [ShardStore.dropPacks, filter_filter, filter_filter]
    exact filter_congr fun l _ ↦ Bool.and_comm ..

theorem ExtentIndex.Ordered.installAll (h : ix.Ordered) (ls : List ExtentLocation) :
    (ls.foldl installLocation ix).Ordered := by
  induction ls generalizing ix with
  | nil => exact h
  | cons l ls ih => exact ih (h.install l)

end Index

/-! ### Packs of frames -/

/-- A pack, as the frames it holds. -/
structure PackFrames where
  sequence : Nat
  frames : List PreparedExtent

/-- The file of the pack. -/
def PackFrames.file (checksum : ExtentChecksum) (p : PackFrames) : PackFile :=
  ⟨p.sequence, packBytes checksum p.frames⟩

/-- Where the frames of the pack lie. -/
def PackFrames.located (p : PackFrames) : List ExtentLocation := locate p.sequence 0 p.frames

/-- All frames of the packs. -/
def heldFrames (packs : List PackFrames) : List PreparedExtent := packs.flatMap PackFrames.frames

/-- Where all frames of the packs lie. -/
def heldLocations (packs : List PackFrames) : List ExtentLocation :=
  packs.flatMap PackFrames.located

section Packs

variable {packs : List PackFrames} {offset : Nat}

theorem locate_append : locate pack offset (xs ++ ys) =
    locate pack offset xs ++ locate pack (offset + framesLen xs) ys := by
  induction xs generalizing offset with
  | nil => rfl
  | cons x xs ih => rw [cons_append, locate, ih, Nat.add_assoc]; rfl

theorem framesLen_append : framesLen (xs ++ ys) = framesLen xs + framesLen ys := by
  simp [framesLen]

theorem map_key_locate : (locate pack offset xs).map ExtentLocation.key =
    xs.map key := by
  induction xs generalizing offset with
  | nil => rfl
  | cons x xs ih => rw [locate, map_cons, ih]; rfl

theorem exists_location_mem_locate (h : x ∈ xs) :
    ∃ offset', x.location pack offset' ∈ locate pack offset xs := by
  induction xs generalizing offset with
  | nil => cases h
  | cons y xs ih =>
    rcases mem_cons.1 h with rfl | h
    · exact ⟨offset, mem_cons_self ..⟩
    · obtain ⟨offset', hmem⟩ := @ih (offset + y.frameLen) h
      exact ⟨offset', mem_cons_of_mem _ hmem⟩

theorem exists_of_mem_locate (h : l ∈ locate pack offset xs) :
    ∃ x ∈ xs, ∃ offset', l = x.location pack offset' := by
  induction xs generalizing offset with
  | nil => cases h
  | cons x xs ih =>
    rcases mem_cons.1 h with rfl | h
    · exact ⟨x, mem_cons_self .., offset, rfl⟩
    · obtain ⟨y, hy, hl⟩ := ih h
      exact ⟨y, mem_cons_of_mem _ hy, hl⟩

theorem packSequence_of_mem_locate (h : l ∈ locate pack offset xs) : l.packSequence = pack := by
  obtain ⟨x, -, offset, rfl⟩ := exists_of_mem_locate h
  rfl

@[simp] theorem heldFrames_append (packs packs' : List PackFrames) :
    heldFrames (packs ++ packs') = heldFrames packs ++ heldFrames packs' := flatMap_append ..

@[simp] theorem heldFrames_nil : heldFrames [] = [] := rfl

@[simp] theorem heldFrames_cons (p : PackFrames) (packs : List PackFrames) :
    heldFrames (p :: packs) = p.frames ++ heldFrames packs := flatMap_cons ..

@[simp] theorem heldLocations_append (packs packs' : List PackFrames) :
    heldLocations (packs ++ packs') = heldLocations packs ++ heldLocations packs' :=
  flatMap_append ..

@[simp] theorem heldLocations_nil : heldLocations [] = [] := rfl

@[simp] theorem heldLocations_cons (p : PackFrames) (packs : List PackFrames) :
    heldLocations (p :: packs) = p.located ++ heldLocations packs := flatMap_cons ..

theorem map_key_heldLocations (packs : List PackFrames) :
    (heldLocations packs).map ExtentLocation.key = (heldFrames packs).map key := by
  induction packs with
  | nil => rfl
  | cons p packs ih =>
    rw [heldLocations_cons, heldFrames_cons, map_append, map_append, ih,
      PackFrames.located, map_key_locate]

/-- Extents are kept or removed with their pack. -/
theorem filter_heldLocations (stays : Nat → Bool) (packs : List PackFrames) :
    (heldLocations packs).filter (fun l ↦ stays l.packSequence) =
      heldLocations (packs.filter fun p ↦ stays p.sequence) := by
  induction packs with
  | nil => rfl
  | cons p packs ih =>
    have hseq : ∀ l ∈ p.located, stays l.packSequence = stays p.sequence := fun l hl ↦
      congrArg stays (packSequence_of_mem_locate hl)
    rw [heldLocations_cons, filter_append, ih, filter_congr hseq]
    cases hp : stays p.sequence <;> simp [hp]

theorem packBytes_append (checksum : ExtentChecksum) (xs ys : List PreparedExtent) :
    packBytes checksum (xs ++ ys) = packBytes checksum xs ++ packBytes checksum ys := by
  simp [packBytes]

end Packs

/-! ### What a store holds -/

/-- The store holds the frames of the sealed packs `front` and of the active pack `last`. -/
structure ShardStore.Holds (checksum : ExtentChecksum) (store : ShardStore)
    (front : List PackFrames) (last : PackFrames) : Prop where
  sealedPacks : store.sealedPacks = front.map (PackFrames.file checksum)
  active : store.active = last.file checksum
  byBatch : store.ix.byBatch.Perm (heldLocations (front ++ [last]))
  keys : ((heldFrames (front ++ [last])).map key).Nodup
  sequences : ((front ++ [last]).map PackFrames.sequence).Pairwise (· < ·)
  ordered : store.ix.Ordered
  /-- Every payload was within the limit of the store. -/
  payload_le : ∀ x ∈ heldFrames (front ++ [last]), x.payload.length ≤ store.config.maxBatchBytes
  /-- Every position in a pack fits in 64 bits. -/
  framesLen_lt : ∀ p ∈ front ++ [last], framesLen p.frames < 2 ^ 64

/-- Sealing a pack leaves the index as it is. -/
theorem ShardStore.ix_sealActive (h : store.sealActive = .ok store') : store'.ix = store.ix := by
  unfold sealActive rotate at h
  split_ifs at h <;> cases h <;> rfl

/-- The extents that the index has for a pack. -/
def ShardStore.extentsOf (store : ShardStore) (sequence : Nat) : List ExtentLocation :=
  store.ix.byBatch.filter (·.packSequence = sequence)

/-- A collection removes a sealed pack with these extents. -/
def Removes (logStarts : Table TopicPartition Nat) (ls : List ExtentLocation) : Prop :=
  ls ≠ [] ∧ ∀ l ∈ ls, ∃ start, logStarts.get l.reservation.topicPartition = some start ∧
    l.reservation.lastOffset < start

theorem ShardStore.removable_iff_removes {pack : PackFile} {logStarts : Table TopicPartition Nat} :
    store.removable logStarts pack = true ↔ Removes logStarts (store.extentsOf pack.sequence) := by
  rw [removable, Bool.and_eq_true, Bool.not_eq_true', isEmpty_eq_false_iff, all_eq_true]
  exact and_congr_right' (forall₂_congr fun l _ ↦
    (Option.any_eq_true ..).trans (exists_congr fun _ ↦ and_congr_right' decide_eq_true_iff))

theorem ShardStore.mem_removedPacks_iff_removes {logStarts : Table TopicPartition Nat}
    {sequence : Nat} : sequence ∈ store.removedPacks logStarts ↔
      sequence ∈ store.sealedPacks.map PackFile.sequence ∧
        Removes logStarts (store.extentsOf sequence) := by
  simp only [removedPacks, mem_map, mem_filter, removable_iff_removes]
  constructor
  · rintro ⟨pack, ⟨hpack, hremoves⟩, rfl⟩
    exact ⟨⟨pack, hpack, rfl⟩, hremoves⟩
  · rintro ⟨⟨pack, hpack, rfl⟩, hremoves⟩
    exact ⟨pack, ⟨hpack, hremoves⟩, rfl⟩

namespace ShardStore.Holds

variable {p : PackFrames} {count : Nat} {logStarts : Table TopicPartition Nat}

/-- After the rotation there is room for the first extent. -/
theorem preparedSegmentEnd_pos (hrotated : store.rotateIfFull x.frameLen = .ok store')
    (hok : preparedSegmentEnd store'.config.targetPackBytes store'.active.contents.length
      maxExtentsPerWrite (x :: xs) = .ok count) : 0 < count := by
  have hroom : ¬ (0 < store'.active.contents.length ∧ store'.config.targetPackBytes <
      store'.active.contents.length + x.frameLen) := by
    unfold rotateIfFull at hrotated
    split_ifs at hrotated with hfull
    · unfold rotate at hrotated
      split_ifs at hrotated
      cases hrotated
      simp
    · cases hrotated
      omega
  rw [maxExtentsPerWrite, preparedSegmentEnd] at hok
  split_ifs at hok
  obtain ⟨rest, -, hcount⟩ := bind_eq_ok_iff.1 hok
  cases hcount
  omega

/-- What goes into one write ends within 64 bits. -/
theorem preparedSegmentEnd_room {targetPackBytes packLen room : Nat}
    (hok : preparedSegmentEnd targetPackBytes packLen room xs = .ok count)
    (hlen : packLen < 2 ^ 64) : packLen + framesLen (xs.take count) < 2 ^ 64 := by
  induction xs generalizing packLen room count with
  | nil => simpa [framesLen] using hlen
  | cons x xs ih =>
    cases room with
    | zero =>
      cases hok
      simpa [framesLen] using hlen
    | succ room =>
      rw [preparedSegmentEnd] at hok
      split_ifs at hok with hoverflow hfull
      · cases hok
        simpa [framesLen] using hlen
      · obtain ⟨rest, hrest, hcount⟩ := bind_eq_ok_iff.1 hok
        cases hcount
        have := ih hrest (not_le.1 hoverflow)
        rw [take_succ_cons, framesLen_cons]
        omega

theorem garbageCollect_eq_ok (hok : store.garbageCollect logStarts = .ok store') :
    ∃ planEpoch, store' = { store with
      planEpoch
      sealedPacks := store.sealedPacks.filter (·.sequence ∉ store.removedPacks logStarts)
      ix := dropPacks (store.removedPacks logStarts) store.ix } := by
  simp only [garbageCollect] at hok
  by_cases hfull : store.removedPacks logStarts ≠ [] ∧ 2 ^ 64 ≤ store.planEpoch + 1
  · rw [if_pos hfull] at hok
    cases hok
  · rw [if_neg hfull] at hok
    cases hok
    exact ⟨_, rfl⟩

variable (h : store.Holds checksum front last)

include h

theorem files : store.files = (front ++ [last]).map (PackFrames.file checksum) := by
  rw [ShardStore.files, h.sealedPacks, h.active, map_append]
  rfl

theorem getLast?_files :
    store.files.getLast?.getD ⟨0, []⟩ = last.file checksum := by
  rw [h.files, map_append, map_singleton, getLast?_concat, Option.getD_some]

theorem dropLast_files :
    store.files.dropLast = front.map (PackFrames.file checksum) := by
  rw [h.files, map_append, map_singleton, dropLast_concat]

/-- The catalog lists what the store holds. -/
theorem catalog_perm :
    store.catalog.Perm ((heldLocations (front ++ [last])).map catalogEntry) :=
  (perm_insertionSort _ _).trans (h.byBatch.map _)

theorem hasKey_iff (key : TopicPartition × Nat) :
    store.ix.hasKey key = true ↔
      key ∈ (heldFrames (front ++ [last])).map PreparedExtent.key := by
  rw [← map_key_heldLocations, hasKey, any_eq_true, mem_map]
  simp only [decide_eq_true_eq, h.byBatch.mem_iff]

/-- An indexed extent is that of a frame. -/
theorem exists_frame (hl : l ∈ store.ix.byBatch) :
    ∃ x ∈ heldFrames (front ++ [last]), l.reservation = x.reservation := by
  obtain ⟨p, hp, hl⟩ := mem_flatMap.1 (h.byBatch.mem_iff.1 hl)
  obtain ⟨x, hx, offset, rfl⟩ := exists_of_mem_locate hl
  exact ⟨x, mem_flatMap.2 ⟨p, hp, hx⟩, rfl⟩

/-- Every frame is indexed. -/
theorem exists_location (hx : x ∈ heldFrames (front ++ [last])) :
    ∃ l ∈ store.ix.byBatch, l.reservation = x.reservation := by
  obtain ⟨p, hp, hx⟩ := mem_flatMap.1 hx
  obtain ⟨offset, hl⟩ : ∃ offset, x.location p.sequence offset ∈ p.located :=
    exists_location_mem_locate hx
  exact ⟨_, h.byBatch.mem_iff.2 (mem_flatMap.2 ⟨p, hp, hl⟩), rfl⟩

/-- A new active pack. -/
theorem rotate (hok : store.rotate = .ok store') :
    store'.Holds checksum (front ++ [last]) ⟨last.sequence + 1, []⟩ ∧
      store'.config = store.config := by
  have hseq : store.active.sequence = last.sequence := by rw [h.active]; rfl
  unfold ShardStore.rotate at hok
  split_ifs at hok
  cases hok
  refine ⟨⟨h.files, by rw [hseq]; rfl, ?_, ?_, ?_, h.ordered, ?_, ?_⟩, rfl⟩
  · simpa [PackFrames.located, locate] using h.byBatch
  · simpa using h.keys
  · rw [map_append, pairwise_append]
    refine ⟨h.sequences, pairwise_singleton _ _, fun a ha b hb ↦ ?_⟩
    rw [map_singleton, mem_singleton] at hb
    subst hb
    rw [map_append, mem_append, map_singleton, mem_singleton] at ha
    rcases ha with ha | rfl
    · have := h.sequences
      rw [map_append, pairwise_append] at this
      exact (this.2.2 a ha last.sequence (by simp)).trans (Nat.lt_succ_self _)
    · exact Nat.lt_succ_self _
  · simpa using h.payload_le
  · intro p hp
    rcases mem_append.1 hp with hp | hp
    · exact h.framesLen_lt p hp
    · rw [mem_singleton.1 hp]
      exact Nat.two_pow_pos 64

theorem rotateIfFull {frameLen : Nat} (hok : store.rotateIfFull frameLen = .ok store') :
    ∃ front' last', store'.Holds checksum front' last' ∧ store'.config = store.config ∧
      heldFrames (front' ++ [last']) = heldFrames (front ++ [last]) := by
  unfold ShardStore.rotateIfFull at hok
  split_ifs at hok
  · obtain ⟨h', hconfig⟩ := h.rotate hok
    exact ⟨_, _, h', hconfig, by simp⟩
  · cases hok
    exact ⟨front, last, h, rfl, rfl⟩

theorem sealActive (hok : store.sealActive = .ok store') :
    ∃ front' last', store'.Holds checksum front' last' ∧ store'.config = store.config ∧
      heldFrames (front' ++ [last']) = heldFrames (front ++ [last]) := by
  unfold ShardStore.sealActive at hok
  split_ifs at hok
  · cases hok
    exact ⟨front, last, h, rfl, rfl⟩
  · obtain ⟨h', hconfig⟩ := h.rotate hok
    exact ⟨_, _, h', hconfig, by simp⟩

/-- Frames written at the end of the active pack. -/
theorem appendPreparedSegment (hkeys : ((heldFrames (front ++ [last]) ++ xs).map key).Nodup)
    (hpayload : ∀ x ∈ xs, x.payload.length ≤ store.config.maxBatchBytes)
    (hroom : store.active.contents.length + framesLen xs < 2 ^ 64) :
    (store.appendPreparedSegment checksum xs).Holds checksum front
      ⟨last.sequence, last.frames ++ xs⟩ := by
  have hseq : store.active.sequence = last.sequence := by rw [h.active]; rfl
  have hcontents : store.active.contents = packBytes checksum last.frames := by
    rw [h.active]; rfl
  have hheld : heldFrames (front ++ [⟨last.sequence, last.frames ++ xs⟩]) =
      heldFrames (front ++ [last]) ++ xs := by simp
  refine ⟨h.sealedPacks, ?_, ?_, ?_, ?_, h.ordered.installAll _, ?_, ?_⟩
  · rw [ShardStore.appendPreparedSegment, hseq, hcontents, ← packBytes_append]
    rfl
  · rw [ShardStore.appendPreparedSegment, byBatch_foldl_installLocation, hseq, hcontents,
      length_packBytes]
    have hlocated : heldLocations (front ++ [⟨last.sequence, last.frames ++ xs⟩]) =
        heldLocations (front ++ [last]) ++ locate last.sequence (framesLen last.frames) xs := by
      simp [PackFrames.located, locate_append]
    rw [hlocated]
    exact h.byBatch.append_right _
  · rw [hheld]
    exact hkeys
  · simpa using h.sequences
  · rw [hheld]
    intro x hx
    rcases mem_append.1 hx with hx | hx
    · exact h.payload_le x hx
    · exact hpayload x hx
  · intro p hp
    rcases mem_append.1 hp with hp | hp
    · exact h.framesLen_lt p (mem_append_left _ hp)
    · rw [mem_singleton.1 hp, framesLen_append]
      rw [hcontents, length_packBytes] at hroom
      exact hroom

/-- What `validate_append` checks. -/
theorem validateAppend_eq_ok_iff {x : ExtentInput} :
    store.validateAppend x = .ok () ↔ x.payload.length ≤ store.config.maxBatchBytes ∧
      (x.reservation.topicPartition, x.reservation.batchId) ∉
        (heldFrames (front ++ [last])).map PreparedExtent.key := by
  rw [← h.hasKey_iff, validateAppend]
  split_ifs with hlen hkey
  · simp only [false_iff]
    omega
  · simp [hkey]
  · simp [hkey]
    omega

theorem validateGroup_eq_ok {seen : List (TopicPartition × Nat)}
    (hok : store.validateGroup seen xs = .ok ()) :
    (xs.map key).Nodup ∧ ∀ x ∈ xs, x.key ∉ seen ∧
      x.payload.length ≤ store.config.maxBatchBytes ∧
      x.key ∉ (heldFrames (front ++ [last])).map key := by
  induction xs generalizing seen with
  | nil => simp
  | cons x xs ih =>
    obtain ⟨u, hvalid, hok⟩ := bind_eq_ok_iff.1 hok
    split_ifs at hok with hseen
    obtain ⟨hnodup, hrest⟩ := ih hok
    obtain ⟨hpayload, hkey⟩ := h.validateAppend_eq_ok_iff.1 hvalid
    refine ⟨?_, fun y hy ↦ ?_⟩
    · rw [map_cons, nodup_cons]
      refine ⟨fun hmem ↦ ?_, hnodup⟩
      obtain ⟨y, hy, heq⟩ := mem_map.1 hmem
      exact (hrest y hy).1 (heq ▸ mem_cons_self ..)
    · rcases mem_cons.1 hy with rfl | hy
      · exact ⟨hseen, hpayload, hkey⟩
      · exact ⟨fun hmem ↦ (hrest y hy).1 (mem_cons_of_mem _ hmem), (hrest y hy).2⟩

theorem contents_lt : store.active.contents.length < 2 ^ 64 := by
  rw [h.active, PackFrames.file, length_packBytes]
  exact h.framesLen_lt last (by simp)

theorem appendSegments {fuel : Nat} (hkeys : ((heldFrames (front ++ [last]) ++ xs).map key).Nodup)
    (hpayload : ∀ x ∈ xs, x.payload.length ≤ store.config.maxBatchBytes) (hfuel : xs.length ≤ fuel)
    (hok : appendSegments checksum fuel store xs = .ok store') :
    ∃ front' last', store'.Holds checksum front' last' ∧ store'.config = store.config ∧
      heldFrames (front' ++ [last']) = heldFrames (front ++ [last]) ++ xs := by
  induction fuel generalizing store front last xs with
  | zero =>
    cases xs with
    | nil =>
      cases hok
      exact ⟨front, last, h, rfl, by simp⟩
    | cons x xs => simp at hfuel
  | succ fuel ih =>
    cases xs with
    | nil =>
      cases hok
      exact ⟨front, last, h, rfl, by simp⟩
    | cons x xs =>
      obtain ⟨rotated, hrotated, hok⟩ := bind_eq_ok_iff.1 hok
      obtain ⟨count, hcount, hok⟩ := bind_eq_ok_iff.1 hok
      have hpos := preparedSegmentEnd_pos hrotated hcount
      obtain ⟨front₁, last₁, h₁, hconfig, hheld⟩ := h.rotateIfFull hrotated
      have hsplit := take_append_drop count (x :: xs)
      have hkeys₁ : ((heldFrames (front₁ ++ [last₁]) ++ (x :: xs).take count ++
          (x :: xs).drop count).map key).Nodup := by
        rw [append_assoc, hsplit, hheld]
        exact hkeys
      have hkeys₂ : ((heldFrames (front₁ ++ [last₁]) ++ (x :: xs).take count).map key).Nodup := by
        rw [map_append] at hkeys₁
        exact (nodup_append'.1 hkeys₁).1
      have h₂ := h₁.appendPreparedSegment hkeys₂
        (fun y hy ↦ by rw [hconfig]; exact hpayload y (mem_of_mem_take hy))
        (preparedSegmentEnd_room hcount h₁.contents_lt)
      have hheld₂ : heldFrames (front₁ ++ [⟨last₁.sequence, last₁.frames ++
          (x :: xs).take count⟩]) = heldFrames (front₁ ++ [last₁]) ++ (x :: xs).take count := by
        simp
      obtain ⟨front₃, last₃, h₃, hconfig₃, hheld₃⟩ := ih h₂ (by rw [hheld₂]; exact hkeys₁)
        (fun y hy ↦ by
          rw [show (rotated.appendPreparedSegment checksum ((x :: xs).take count)).config =
            store.config from hconfig]
          exact hpayload y (mem_of_mem_drop hy))
        (by rw [length_drop]; simp only [length_cons] at hfuel ⊢; omega) hok
      refine ⟨front₃, last₃, h₃, hconfig₃.trans hconfig, ?_⟩
      rw [hheld₃, hheld₂, append_assoc, hsplit, hheld]

/-- A group written in full. -/
theorem appendPreparedGroup (hok : store.appendPreparedGroup checksum xs = .ok store') :
    ∃ front' last', store'.Holds checksum front' last' ∧ store'.config = store.config ∧
      heldFrames (front' ++ [last']) = heldFrames (front ++ [last]) ++ xs := by
  obtain ⟨u, hvalid, hok⟩ := bind_eq_ok_iff.1 hok
  obtain ⟨hnodup, hxs⟩ := h.validateGroup_eq_ok hvalid
  refine h.appendSegments ?_ (fun x hx ↦ (hxs x hx).2.1) le_rfl hok
  rw [map_append]
  refine nodup_append'.2 ⟨h.keys, hnodup, fun key hkey hmem ↦ ?_⟩
  obtain ⟨x, hx, rfl⟩ := mem_map.1 hmem
  exact (hxs x hx).2.2 hkey

/-- One extent, through `append_atomic`. -/
theorem appendAtomic {x : ExtentInput} (hok : store.appendAtomic checksum x = .ok store') :
    ∃ front' last' prepared, prepared.toExtentInput = x ∧
      store'.Holds checksum front' last' ∧ store'.config = store.config ∧
      heldFrames (front' ++ [last']) = heldFrames (front ++ [last]) ++ [prepared] := by
  obtain ⟨prepared, hprepared, hok⟩ := bind_eq_ok_iff.1 hok
  obtain ⟨u, hvalid, hprepared⟩ := bind_eq_ok_iff.1 hprepared
  obtain ⟨rotated, hrotated, hok⟩ := bind_eq_ok_iff.1 hok
  split_ifs at hok with hoverflow
  cases hok
  obtain ⟨front₁, last₁, h₁, hconfig, hheld⟩ := h.rotateIfFull hrotated
  obtain ⟨hpayload, hkey⟩ := h.validateAppend_eq_ok_iff.1 hvalid
  obtain rfl : prepared.toExtentInput = x := by
    unfold prepareExtent at hprepared
    split_ifs at hprepared
    cases hprepared
    rfl
  refine ⟨front₁, _, prepared, rfl, h₁.appendPreparedSegment ?_ ?_ ?_, hconfig, ?_⟩
  · rw [hheld, map_append]
    exact nodup_append'.2 ⟨h.keys, nodup_singleton _,
      by rw [map_singleton, disjoint_singleton]; exact hkey⟩
  · rw [hconfig]
    simpa using hpayload
  · simpa [framesLen] using hoverflow
  · rw [← hheld]
    simp

/-- Only sealed packs are removed. -/
theorem sequence_last_notMem_removedPacks (logStarts : Table TopicPartition Nat) :
    last.sequence ∉ store.removedPacks logStarts := by
  intro hmem
  obtain ⟨pack, hpack, hseq⟩ := mem_map.1 hmem
  rw [h.sealedPacks] at hpack
  obtain ⟨p, hp, rfl⟩ := mem_map.1 (mem_filter.1 hpack).1
  have hpairs := h.sequences
  rw [map_append, pairwise_append] at hpairs
  have := hpairs.2.2 p.sequence (mem_map_of_mem hp) last.sequence (by simp)
  exact this.ne hseq

/-- The extents that the index has for a pack are those of its frames. -/
theorem mem_byBatch_filter_iff (hp : p ∈ front ++ [last]) :
    l ∈ store.ix.byBatch.filter (·.packSequence = p.sequence) ↔ l ∈ p.located := by
  rw [mem_filter, h.byBatch.mem_iff, decide_eq_true_eq]
  constructor
  · rintro ⟨hl, hseq⟩
    obtain ⟨q, hq, hl⟩ := mem_flatMap.1 hl
    have hnodup : ((front ++ [last]).map PackFrames.sequence).Nodup :=
      h.sequences.imp fun hlt ↦ hlt.ne
    obtain rfl : q = p := inj_on_of_nodup_map hnodup hq hp
      ((packSequence_of_mem_locate hl).symm.trans hseq)
    exact hl
  · exact fun hl ↦ ⟨mem_flatMap.2 ⟨p, hp, hl⟩, packSequence_of_mem_locate hl⟩

/-- Which packs are removed: those with frames, all of them below the log starts. -/
theorem mem_removedPacks_iff (logStarts : Table TopicPartition Nat) (hp : p ∈ front) :
    p.sequence ∈ store.removedPacks logStarts ↔
      p.frames ≠ [] ∧ ∀ x ∈ p.frames, ∃ start,
        logStarts.get x.reservation.topicPartition = some start ∧
          x.reservation.lastOffset < start := by
  have hsealed : p.sequence ∈ store.sealedPacks.map PackFile.sequence := by
    rw [h.sealedPacks, map_map]
    exact mem_map_of_mem hp
  have hmem : ∀ l, l ∈ store.extentsOf p.sequence ↔ l ∈ p.located :=
    fun l ↦ h.mem_byBatch_filter_iff (mem_append_left _ hp)
  have hlocated : ∀ x ∈ p.frames, ∃ offset, x.location p.sequence offset ∈ p.located :=
    fun x hx ↦ exists_location_mem_locate hx
  rw [mem_removedPacks_iff_removes, and_iff_right hsealed, Removes]
  simp only [ne_eq, eq_nil_iff_forall_not_mem, not_forall_not, hmem]
  constructor
  · rintro ⟨⟨l, hl⟩, hall⟩
    obtain ⟨x, hx, -⟩ := exists_of_mem_locate hl
    refine ⟨⟨x, hx⟩, fun x hx ↦ ?_⟩
    obtain ⟨offset, hl⟩ := hlocated x hx
    exact hall _ hl
  · rintro ⟨⟨x, hx⟩, hall⟩
    obtain ⟨offset, hl⟩ := hlocated x hx
    refine ⟨⟨_, hl⟩, fun l hl ↦ ?_⟩
    obtain ⟨x, hx, offset, rfl⟩ := exists_of_mem_locate hl
    exact hall x hx

/-- The store without some of its sealed packs. -/
theorem drop {removed : List Nat} (hlast : last.sequence ∉ removed) (planEpoch : Nat) :
    ShardStore.Holds checksum
      { store with
        planEpoch
        sealedPacks := store.sealedPacks.filter (·.sequence ∉ removed)
        ix := dropPacks removed store.ix }
      (front.filter fun p ↦ decide (p.sequence ∉ removed)) last := by
  set packs := (front ++ [last]).filter fun p ↦ decide (p.sequence ∉ removed) with hpacks
  have hlast : packs = (front.filter fun p ↦ decide (p.sequence ∉ removed)) ++ [last] := by
    rw [hpacks, filter_append, filter_cons_of_pos, filter_nil]
    exact decide_eq_true hlast
  have hsublist : packs.Sublist (front ++ [last]) := filter_sublist
  have hheld : (heldFrames packs).Sublist (heldFrames (front ++ [last])) := hsublist.flatMap _
  refine ⟨?_, h.active, ?_, ?_, ?_, h.ordered.dropPacks _, ?_, ?_⟩
  · rw [h.sealedPacks, filter_map]
    rfl
  · rw [← hlast, ← filter_heldLocations fun n ↦ decide (n ∉ removed)]
    exact h.byBatch.filter _
  · rw [← hlast]
    exact h.keys.sublist (hheld.map _)
  · rw [← hlast]
    exact h.sequences.sublist (hsublist.map _)
  · rw [← hlast]
    exact fun x hx ↦ h.payload_le x (hheld.subset hx)
  · rw [← hlast]
    exact fun p hp ↦ h.framesLen_lt p (hsublist.subset hp)

/-- The packs that garbage collection leaves. -/
theorem garbageCollect (hok : store.garbageCollect logStarts = .ok store') :
    store'.Holds checksum
        (front.filter fun p ↦ decide (p.sequence ∉ store.removedPacks logStarts)) last ∧
      store'.config = store.config := by
  obtain ⟨planEpoch, rfl⟩ := garbageCollect_eq_ok hok
  exact ⟨h.drop (h.sequence_last_notMem_removedPacks logStarts) planEpoch, rfl⟩

end ShardStore.Holds

/-! ### Reopening -/

section Reopen

variable {maxBatchBytes : Nat}

theorem ExtentIndex.Fresh.append (h : ix.Fresh (xs ++ ys)) (pack offset : Nat) :
    ((locate pack offset xs).foldl push ix).Fresh ys := by
  induction xs generalizing ix offset with
  | nil => exact h
  | cons x xs ih => exact ih (h.tail offset) _

/-- The frames of a pack are found; a pack without frames is scanned under every limit. -/
theorem scanPack_held {repair : Bool} (hstorable : ∀ x ∈ xs, x.Storable maxBatchBytes ∧
      headerLen + maxBatchBytes + checksumLen < 2 ^ 64) (hfresh : ix.Fresh xs) :
    scanPack checksum maxBatchBytes pack repair (packBytes checksum xs) ix =
      .ok ⟨(locate pack 0 xs).foldl push ix, framesLen xs⟩ := by
  cases xs with
  | nil => exact scanLoop_nil
  | cons x xs =>
    exact scanPack_frames (fun y hy ↦ (hstorable y hy).1) (hstorable x mem_cons_self).2 hfresh

/-- The packs are scanned one after the other. -/
theorem scanPacks_files (hstorable : ∀ x ∈ heldFrames (front ++ [last]), x.Storable maxBatchBytes ∧
      headerLen + maxBatchBytes + checksumLen < 2 ^ 64)
    (hfresh : ix.Fresh (heldFrames (front ++ [last]))) :
    scanPacks checksum maxBatchBytes (last.file checksum)
        (front.map (PackFrames.file checksum)) ix =
      .ok ((heldLocations (front ++ [last])).foldl push ix, last.file checksum) := by
  induction front generalizing ix with
  | nil =>
    rw [nil_append, heldFrames_cons, heldFrames_nil, append_nil] at hstorable hfresh
    have hscan : scanPack checksum maxBatchBytes last.sequence true
        (packBytes checksum last.frames) ix =
          .ok ⟨last.located.foldl push ix, framesLen last.frames⟩ :=
      scanPack_held hstorable hfresh
    rw [map_nil, scanPacks, PackFrames.file, hscan]
    simp
  | cons p front ih =>
    have hscan : scanPack checksum maxBatchBytes p.sequence false (packBytes checksum p.frames) ix =
          .ok ⟨p.located.foldl push ix, framesLen p.frames⟩ :=
      scanPack_held (fun x hx ↦ hstorable x (mem_append_left _ hx))
        (hfresh.of_prefix (prefix_append ..))
    rw [map_cons, scanPacks, PackFrames.file, hscan]
    change scanPacks _ _ _ _ (p.located.foldl push ix) = _
    have hrest : (p.located.foldl push ix).Fresh (heldFrames (front ++ [last])) := hfresh.append _ _
    rw [ih (fun x hx ↦ hstorable x (mem_append_right _ hx)) hrest, cons_append,
      heldLocations_cons, foldl_append]

/-- The index that opening leaves when the scans find the extents `ls`. -/
def ExtentIndex.scanned (ls : List ExtentLocation) : ExtentIndex :=
  { ls.foldl push .empty with
    index := (ls.foldl push .empty).index.map fun _ locations ↦ sortLocations locations }

theorem ExtentIndex.byBatch_scanned (ls : List ExtentLocation) :
    (scanned ls).byBatch = ls :=
  byBatch_foldl_push .empty ls

theorem ExtentIndex.ordered_scanned (ls : List ExtentLocation) :
    (scanned ls).Ordered := by
  have hlocations : ∀ tp, (scanned ls).locations tp = sortLocations
      (ls.filter fun l ↦ decide (l.reservation.topicPartition = tp)) := by
    intro tp
    have hfound := locations_foldl_push .empty ls tp
    rw [show empty.locations tp = [] from rfl, nil_append] at hfound
    rw [← hfound, scanned, locations, locations, Table.get_map]
    cases (ls.foldl push empty).index.get tp <;> rfl
  constructor
  · intro tp
    rw [hlocations]
    exact pairwise_insertionSort _ _
  · intro tp
    rw [hlocations, byBatch_scanned]
    exact perm_insertionSort _ _

/-- Reopening, when the frames can be stored. -/
theorem ShardStore.Holds.reopen_of_storable (h : store.Holds checksum front last)
    (hvalid : store.config.validate = .ok ())
    (hstorable : ∀ x ∈ heldFrames (front ++ [last]), x.Storable store.config.maxBatchBytes ∧
      headerLen + store.config.maxBatchBytes + checksumLen < 2 ^ 64) (storeToken : Nat) :
    ∃ reopened, openInner checksum store.config storeToken store.files = .ok reopened ∧
      reopened.Holds checksum front last ∧ reopened.config = store.config := by
  refine ⟨{ config := store.config, storeToken, planEpoch := 0
            sealedPacks := front.map (PackFrames.file checksum)
            active := last.file checksum
            ix := .scanned (heldLocations (front ++ [last])) }, ?_, ?_, rfl⟩
  · rw [openInner, hvalid, h.getLast?_files, h.dropLast_files]
    change Except.bind (scanPacks ..) _ = _
    rw [scanPacks_files hstorable ⟨h.keys, fun _ _ ↦ rfl⟩]
    rfl
  · exact ⟨rfl, rfl, Perm.of_eq (byBatch_scanned _), h.keys, h.sequences,
      ordered_scanned _, h.payload_le, h.framesLen_lt⟩

/-- **Reopening finds the same extents**, if their ranges match their record counts. -/
theorem ShardStore.Holds.reopen (h : store.Holds checksum front last)
    (hvalid : store.config.validate = .ok ())
    (hlimit : headerLen + store.config.maxBatchBytes + checksumLen < 2 ^ 64)
    (hcounted : ∀ x ∈ heldFrames (front ++ [last]), x.reservation.Counted) (storeToken : Nat) :
    ∃ reopened, openInner checksum store.config storeToken store.files = .ok reopened ∧
      reopened.Holds checksum front last ∧ reopened.config = store.config :=
  h.reopen_of_storable hvalid (fun x hx ↦ ⟨⟨hcounted x hx, h.payload_le x hx⟩, hlimit⟩) storeToken

/-- A scan that goes through has found frames that can be stored, under a limit that leaves room. -/
theorem storable_of_scanPacks {result : ExtentIndex × PackFile}
    (hpayload : ∀ x ∈ heldFrames (front ++ [last]), x.payload.length ≤ maxBatchBytes)
    (hok : scanPacks checksum maxBatchBytes (last.file checksum)
      (front.map (PackFrames.file checksum)) ix = .ok result) :
    ∀ x ∈ heldFrames (front ++ [last]), x.Storable maxBatchBytes ∧
      headerLen + maxBatchBytes + checksumLen < 2 ^ 64 := by
  induction front generalizing ix with
  | nil =>
    obtain ⟨scanned, hscan, -⟩ := bind_eq_ok_iff.1 hok
    rw [nil_append, heldFrames_cons, heldFrames_nil, append_nil] at hpayload ⊢
    exact storable_of_scanPack hpayload hscan
  | cons p front ih =>
    obtain ⟨scanned, hscan, hrest⟩ := bind_eq_ok_iff.1 hok
    intro x hx
    rcases mem_append.1 hx with hx | hx
    · exact storable_of_scanPack (fun y hy ↦ hpayload y (mem_append_left _ hy)) hscan x hx
    · exact ih (fun y hy ↦ hpayload y (mem_append_right _ hy)) hrest x hx

/-- **Whenever the directory of a store opens, the same extents are found.** -/
theorem ShardStore.Holds.of_openInner (h : store.Holds checksum front last) {reopened : ShardStore}
    (hok : openInner checksum store.config storeToken store.files = .ok reopened) :
    reopened.Holds checksum front last ∧ reopened.config = store.config := by
  obtain ⟨⟨⟩, hvalid, hscan⟩ := bind_eq_ok_iff.1 hok
  rw [h.getLast?_files, h.dropLast_files] at hscan
  obtain ⟨result, hresult, -⟩ := bind_eq_ok_iff.1 hscan
  obtain ⟨reopened', hok', h', hconfig⟩ :=
    h.reopen_of_storable hvalid (storable_of_scanPacks h.payload_le hresult) storeToken
  cases hok'.symm.trans hok
  exact ⟨h', hconfig⟩

/-- A store on an empty directory holds one empty pack. -/
theorem ShardStore.holds_of_openInner_nil
    (h : openInner checksum config storeToken [] = .ok store) :
    store.Holds checksum [] ⟨0, []⟩ ∧ store.config = config ∧ config.validate = .ok () := by
  obtain ⟨u, hvalid, h⟩ := bind_eq_ok_iff.1 h
  cases h
  refine ⟨⟨rfl, rfl, .nil, ?_, ?_, ordered_empty, ?_, ?_⟩, rfl, hvalid⟩ <;>
    simp [framesLen]

end Reopen

/-! ### Runs of a store -/

/-- A call to a store. -/
inductive StoreOp where
  | append (x : ExtentInput)
  | appendPreparedGroup (prepared : List PreparedExtent)
  | rotate
  | sealActive
  | garbageCollect (logStarts : Table TopicPartition Nat)
  /-- The store is closed and opened again. -/
  | reopen (storeToken : Nat)

namespace StoreOp

/-- What the call does. -/
def apply (checksum : ExtentChecksum) (store : ShardStore) :
    StoreOp → Except StorageError ShardStore
  | append x => store.appendAtomic checksum x
  | appendPreparedGroup prepared => store.appendPreparedGroup checksum prepared
  | rotate => store.rotate
  | sealActive => store.sealActive
  | garbageCollect logStarts => store.garbageCollect logStarts
  | reopen storeToken => openInner checksum store.config storeToken store.files

/-- The extents that the call appends. -/
def extents : StoreOp → List ExtentInput
  | append x => [x]
  | appendPreparedGroup prepared => prepared.map toExtentInput
  | _ => []

/-- The appended ranges match the record counts. -/
def Counted (op : StoreOp) : Prop := ∀ x ∈ op.extents, x.reservation.Counted

/-- The call permits the removal of the extent. -/
def Collects (op : StoreOp) (x : ExtentInput) : Prop :=
  ∃ logStarts start, op = garbageCollect logStarts ∧
    logStarts.get x.reservation.topicPartition = some start ∧ x.reservation.lastOffset < start

/-- What the call does to the frames in the store: `xs` were there before and `ys` are there
after. -/
structure Effect (op : StoreOp) (xs ys : List PreparedExtent) : Prop where
  new : ∀ y ∈ ys, y ∈ xs ∨ y.toExtentInput ∈ op.extents
  kept : ∀ x ∈ xs, x ∈ ys ∨ op.Collects x.toExtentInput
  appended : ∀ x ∈ op.extents, ∃ y ∈ ys, y.toExtentInput = x

theorem Effect.append {zs : List PreparedExtent}
    (h : op.extents = zs.map toExtentInput) (xs : List PreparedExtent) :
    op.Effect xs (xs ++ zs) where
  new y hy := (mem_append.1 hy).imp_right fun hy ↦ h ▸ mem_map_of_mem hy
  kept _ hx := .inl (mem_append_left _ hx)
  appended x hx := by
    rw [h] at hx
    obtain ⟨z, hz, rfl⟩ := mem_map.1 hx
    exact ⟨z, mem_append_right _ hz, rfl⟩

theorem Effect.same (h : op.extents = []) (xs : List PreparedExtent) : op.Effect xs xs where
  new _ hy := .inl hy
  kept _ hx := .inl hx
  appended x hx := by simp [h] at hx

end StoreOp

/-- The calls all succeed on a store that begins with an empty directory, and leave `store`. -/
inductive StoreRun (checksum : ExtentChecksum) (config : ShardStoreConfig) :
    List StoreOp → ShardStore → Prop
  | opened {storeToken : Nat} {store : ShardStore}
      (h : openInner checksum config storeToken [] = .ok store) :
      StoreRun checksum config [] store
  | step {ops : List StoreOp} {op : StoreOp} {store store' : ShardStore}
      (run : StoreRun checksum config ops store)
      (h : op.apply checksum store = .ok store') :
      StoreRun checksum config (ops ++ [op]) store'

section Runs

/-- A frame stays, unless its pack is removed, and then the collection was allowed to remove it. -/
theorem ShardStore.Holds.mem_heldFrames_filter (h : store.Holds checksum front last)
    {logStarts : Table TopicPartition Nat} {gone : List Nat}
    (hgone : gone ⊆ store.removedPacks logStarts) (hx : x ∈ heldFrames (front ++ [last])) :
    x ∈ heldFrames ((front.filter fun p ↦ decide (p.sequence ∉ gone)) ++ [last]) ∨
      (StoreOp.garbageCollect logStarts).Collects x.toExtentInput := by
  obtain ⟨p, hp, hx⟩ := mem_flatMap.1 hx
  rcases mem_append.1 hp with hp | hp
  · by_cases hseq : p.sequence ∈ gone
    · obtain ⟨start, hstart, hlt⟩ := ((h.mem_removedPacks_iff logStarts hp).1 (hgone hseq)).2 x hx
      exact .inr ⟨logStarts, start, rfl, hstart, hlt⟩
    · exact .inl (mem_flatMap.2 ⟨p, mem_append_left _ (mem_filter.2 ⟨hp, decide_eq_true hseq⟩), hx⟩)
  · exact .inl (mem_flatMap.2 ⟨p, mem_append_right _ hp, hx⟩)

/-- **What a call does to the frames of a store.** -/
theorem ShardStore.Holds.apply (h : store.Holds checksum front last)
    (hok : op.apply checksum store = .ok store') :
    ∃ front' last', store'.Holds checksum front' last' ∧ store'.config = store.config ∧
      op.Effect (heldFrames (front ++ [last])) (heldFrames (front' ++ [last'])) := by
  cases op with
  | append x =>
    obtain ⟨front', last', prepared, rfl, h', hconfig, hheld⟩ := h.appendAtomic hok
    exact ⟨front', last', h', hconfig, hheld ▸ .append rfl _⟩
  | appendPreparedGroup prepared =>
    obtain ⟨front', last', h', hconfig, hheld⟩ := h.appendPreparedGroup hok
    exact ⟨front', last', h', hconfig, hheld ▸ .append rfl _⟩
  | rotate =>
    obtain ⟨h', hconfig⟩ := h.rotate hok
    refine ⟨_, _, h', hconfig, ?_⟩
    simpa using StoreOp.Effect.same rfl (heldFrames (front ++ [last]))
  | sealActive =>
    obtain ⟨front', last', h', hconfig, hheld⟩ := h.sealActive hok
    exact ⟨front', last', h', hconfig, hheld ▸ .same rfl _⟩
  | garbageCollect logStarts =>
    obtain ⟨h', hconfig⟩ := h.garbageCollect hok
    refine ⟨_, last, h', hconfig, fun y hy ↦ .inl ?_, fun x hx ↦ ?_, fun x hx ↦ by cases hx⟩
    · exact ((filter_sublist.append_right _).flatMap _).subset hy
    · exact h.mem_heldFrames_filter (Subset.refl _) hx
  | reopen storeToken =>
    obtain ⟨h', hconfig⟩ := h.of_openInner hok
    exact ⟨front, last, h', hconfig, .same rfl _⟩

/-- A run leaves extents that it appended, and every one that it did not collect. -/
theorem StoreRun.exists_held (run : StoreRun checksum config ops store) :
    ∃ front last, store.Holds checksum front last ∧ store.config = config ∧
      config.validate = .ok () ∧
      (∀ y ∈ heldFrames (front ++ [last]), ∃ op ∈ ops, y.toExtentInput ∈ op.extents) ∧
      ∀ op ∈ ops, ∀ x ∈ op.extents, (∃ y ∈ heldFrames (front ++ [last]), y.toExtentInput = x) ∨
        ∃ op' ∈ ops, op'.Collects x := by
  induction run with
  | opened h =>
    obtain ⟨hholds, hconfig, hvalid⟩ := holds_of_openInner_nil h
    exact ⟨[], ⟨0, []⟩, hholds, hconfig, hvalid, by simp, by simp⟩
  | @step ops op store store' run hok ih =>
    obtain ⟨front, last, hholds, hconfig, hvalid, horigin, hkept⟩ := ih
    obtain ⟨front', last', hholds', hconfig', heffect⟩ := hholds.apply hok
    have hop : op ∈ ops ++ [op] := mem_append_right _ (mem_singleton.2 rfl)
    refine ⟨front', last', hholds', hconfig'.trans hconfig, hvalid, fun y hy ↦ ?_,
      fun op' hop' x hx ↦ ?_⟩
    · rcases heffect.new y hy with hy | hy
      · obtain ⟨op', hop', hy⟩ := horigin y hy
        exact ⟨op', mem_append_left _ hop', hy⟩
      · exact ⟨op, hop, hy⟩
    · rcases mem_append.1 hop' with hop' | hop'
      · rcases hkept op' hop' x hx with ⟨y, hy, rfl⟩ | ⟨collect, hcollect, hx⟩
        · exact (heffect.kept y hy).imp (fun hy ↦ ⟨y, hy, rfl⟩) fun hy ↦ ⟨op, hop, hy⟩
        · exact .inr ⟨collect, mem_append_left _ hcollect, hx⟩
      · rw [mem_singleton.1 hop'] at hx
        exact .inl (heffect.appended x hx)

end Runs

/-- The entry describes the extent, wherever it lies. -/
def StoreCatalogEntry.Describes (entry : StoreCatalogEntry) (x : ExtentInput) : Prop :=
  entry.reservation = x.reservation ∧ entry.producer = x.producer ∧
    entry.atomicGroup = x.atomicGroup ∧ entry.payloadBytes = x.payload.length

/-- **What a store accepts it can reopen.** After any run of successful calls that append only
ranges with as many offsets as records, opening the directory succeeds and gives the same catalog,
and in it every appended extent that no garbage collection was allowed to remove. -/
theorem store_reopens {checksum : ExtentChecksum} {config : ShardStoreConfig}
    {ops : List StoreOp} {store : ShardStore} (run : StoreRun checksum config ops store)
    (hlimit : headerLen + config.maxBatchBytes + checksumLen < 2 ^ 64)
    (hcounted : ∀ op ∈ ops, op.Counted) (storeToken : Nat) :
    ∃ reopened, openInner checksum config storeToken store.files = .ok reopened ∧
      reopened.catalog.Perm store.catalog ∧
      ∀ op ∈ ops, ∀ x ∈ op.extents, (∃ entry ∈ reopened.catalog, entry.Describes x) ∨
        ∃ op' ∈ ops, op'.Collects x := by
  obtain ⟨front, last, h, rfl, hvalid, horigin, hkept⟩ := run.exists_held
  obtain ⟨reopened, hopen, h', -⟩ := h.reopen hvalid hlimit (fun y hy ↦ by
    obtain ⟨op, hop, hy⟩ := horigin y hy
    exact hcounted op hop _ hy) storeToken
  refine ⟨reopened, hopen, h'.catalog_perm.trans h.catalog_perm.symm, fun op hop x hx ↦ ?_⟩
  refine (hkept op hop x hx).imp_left fun ⟨y, hy, heq⟩ ↦ ?_
  obtain ⟨p, hp, hy⟩ := mem_flatMap.1 hy
  obtain ⟨offset, hl⟩ : ∃ offset, y.location p.sequence offset ∈ p.located :=
    exists_location_mem_locate hy
  refine ⟨catalogEntry (y.location p.sequence offset), ?_, ?_⟩
  · exact h'.catalog_perm.mem_iff.2 (mem_map_of_mem (mem_flatMap.2 ⟨p, hp, hl⟩))
  · rw [← heq]
    exact ⟨rfl, rfl, rfl, rfl⟩

/-- The calls, one after the other, on a store that begins with an empty directory. -/
def runStore (checksum : ExtentChecksum) (config : ShardStoreConfig)
    (storeToken : Nat) (ops : List StoreOp) : Except StorageError ShardStore := do
  let store ← openInner checksum config storeToken []
  ops.foldlM (StoreOp.apply checksum) store

theorem StoreRun.of_runStore (h : runStore checksum config storeToken ops = .ok store) :
    StoreRun checksum config ops store := by
  induction ops using reverseRecOn generalizing store with
  | nil =>
    obtain ⟨opened, hopened, h⟩ := bind_eq_ok_iff.1 h
    cases h
    exact .opened hopened
  | append_singleton ops op ih =>
    obtain ⟨opened, hopened, h⟩ := bind_eq_ok_iff.1 h
    rw [foldlM_append] at h
    obtain ⟨before, hbefore, h⟩ := bind_eq_ok_iff.1 h
    obtain ⟨after, hafter, h⟩ := bind_eq_ok_iff.1 h
    cases h
    exact .step (ih (bind_eq_ok_iff.2 ⟨opened, hopened, hbefore⟩)) hafter

/-- A run, and what is observed of the store it leaves. -/
theorem StoreRun.exists_of_runStore (checksum : ExtentChecksum)
    (config : ShardStoreConfig) (ops : List StoreOp) (p : ShardStore → Bool)
    (h : ((runStore checksum config 0 ops).map p).toOption = some true) :
    ∃ store, StoreRun checksum config ops store ∧ p store = true := by
  cases hrun : runStore checksum config 0 ops with
  | error e => rw [hrun] at h; cases h
  | ok store =>
    rw [hrun] at h
    exact ⟨store, .of_runStore hrun, Option.some.inj h⟩

/-- Two records after those of `firstExtent`. -/
def secondExtent : ExtentInput :=
  { firstInput with
    reservation := ⟨0, 0, 1, 1, 2, ⟨2, by decide, by decide⟩, ⟨0, 1, 0, 1⟩⟩
    reservation_typed := by constructor <;> decide }

/-- A run that appends, begins a new pack and appends again. -/
theorem store_reopens_two_packs : ∃ store reopened, StoreRun lengthChecksum ⟨1000, 16⟩
      [.append firstExtent.toExtentInput, .rotate, .append secondExtent] store ∧
    openInner lengthChecksum ⟨1000, 16⟩ 1 store.files = .ok reopened ∧
    reopened.catalog.Perm store.catalog := by
  obtain ⟨store, run, -⟩ := StoreRun.exists_of_runStore lengthChecksum ⟨1000, 16⟩
    [.append firstExtent.toExtentInput, .rotate, .append secondExtent] (fun _ ↦ true)
    (by decide +kernel)
  obtain ⟨reopened, hopen, hperm, -⟩ := store_reopens run (by decide) (by
    simp only [forall_mem_cons, not_mem_nil, false_implies, implies_true, and_true]
    refine ⟨?_, ?_, ?_⟩ <;> simp [StoreOp.Counted, StoreOp.extents, secondExtent, firstExtent] <;>
      rfl) 1
  exact ⟨store, reopened, run, hopen, hperm⟩

/-- One record that takes the offsets from zero to five. -/
def stretchedExtent : ExtentInput :=
  { firstInput with
    reservation := ⟨0, 0, 0, 0, 5, .one, ⟨0, 1, 0, 0⟩⟩
    reservation_typed := by constructor <;> decide }

/-- **What a store accepts and cannot reopen.** A range with more offsets than records is appended,
and opening the directory fails; and under a limit on batches that leaves no room for the frame
lengths, any extent is appended, and opening the directory fails. -/
theorem store_does_not_reopen :
    (∃ store, StoreRun lengthChecksum ⟨1000, 16⟩ [.append stretchedExtent] store ∧
      (openInner lengthChecksum ⟨1000, 16⟩ 1 store.files).toOption.isNone = true) ∧
    ∃ store, StoreRun lengthChecksum ⟨1000, 2 ^ 64 - 1⟩ [.append firstExtent.toExtentInput] store ∧
      (openInner lengthChecksum ⟨1000, 2 ^ 64 - 1⟩ 1 store.files).toOption.isNone =
        true :=
  ⟨StoreRun.exists_of_runStore _ _ _ (fun store ↦ (openInner lengthChecksum ⟨1000, 16⟩ 1
      store.files).toOption.isNone) (by decide +kernel),
    StoreRun.exists_of_runStore _ _ _ (fun store ↦ (openInner lengthChecksum
      ⟨1000, 2 ^ 64 - 1⟩ 1 store.files).toOption.isNone) (by decide +kernel)⟩

end ShardStream
