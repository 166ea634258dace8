import ShardStream.Library.Table
import ShardStream.Storage.Extent

/-!
# Scanning a pack

Opening a store reads every pack from its beginning, frame by frame, and indexes what it finds. A
crash may have cut the newest pack anywhere, so an incomplete frame at its end is removed; in an
older pack, which was synced before the next one was created, it is an error.

The scan of a sequence of frames cut after `n` bytes finds exactly the frames that end within the
first `n` bytes (`scanPack_take`). A complete frame whose checksum does not match is refused,
whichever pack it is in, provided its length field is intact: the length field is what tells a
complete frame from an incomplete one.

The variant with a deadline adds clock checks only; it is not modelled.
-/

namespace ShardStream

open List

variable {result : ScanResult} {pre : List PreparedExtent} {checksum : ExtentChecksum}
  {maxBatchBytes pack offset : Nat} {permitTailRepair : Bool} {x : PreparedExtent}

/-! ### The index -/

/-- The key of an extent in a store. -/
def ExtentLocation.key (l : ExtentLocation) : TopicPartition × Nat :=
  (l.reservation.topicPartition, l.reservation.batchId)

/-- The two indexes of a store: per partition the extents in scan or offset order, and all extents
by key. The second is a hash map in the source, and is never read in an order that matters. -/
structure ExtentIndex where
  index : Table TopicPartition (List ExtentLocation)
  byBatch : List ExtentLocation

/-- The index of an empty directory. -/
def ExtentIndex.empty : ExtentIndex := ⟨.empty, []⟩

/-- The extents of a partition. -/
def ExtentIndex.locations (ix : ExtentIndex) (tp : TopicPartition) : List ExtentLocation :=
  (ix.index.get tp).getD []

/-- `by_batch` has an extent under the key. -/
def ExtentIndex.hasKey (ix : ExtentIndex) (key : TopicPartition × Nat) : Bool :=
  ix.byBatch.any (·.key = key)

/-- The index with one more extent, at the end of its partition. -/
def ExtentIndex.push (ix : ExtentIndex) (l : ExtentLocation) : ExtentIndex :=
  { index := ix.index.insert l.reservation.topicPartition
      (ix.locations l.reservation.topicPartition ++ [l])
    byBatch := ix.byBatch ++ [l] }

/-- `index_recovered_extent`. -/
def indexRecoveredExtent (pack offset : Nat) (location : ExtentLocation) (ix : ExtentIndex) :
    Except StorageError ExtentIndex :=
  let location := { location with packSequence := pack }
  if ix.hasKey location.key then .error (.corrupt pack offset "duplicate batch ID")
  else .ok (ix.push location)

/-! ### The scan -/

/-- `validate_prefix`, on the first sixteen bytes of a frame. -/
def validatePrefix (pack offset : Nat) (bytes : Bytes) : Except StorageError Unit :=
  if bytes.take 4 ≠ extentMagic then .error (.corrupt pack offset "invalid extent magic")
  else if Bytes.ofLe ((bytes.drop 4).take 1) ≠ extentVersion then
    .error (.corrupt pack offset
      s!"unsupported extent version {Bytes.ofLe ((bytes.drop 4).take 1)}")
  else if Bytes.ofLe ((bytes.drop 5).take 1) ≠ extentFlags then
    .error (.corrupt pack offset "unsupported flags")
  else if Bytes.ofLe ((bytes.drop 6).take 2) ≠ headerLen then
    .error (.corrupt pack offset "unexpected header length")
  else .ok ()

/-- What one turn of the loop of `scan_pack` finds. -/
inductive ScanStep where
  /-- The end of the file. -/
  | done
  /-- An incomplete frame that may be removed. -/
  | torn
  /-- A frame and its length. -/
  | frame (location : ExtentLocation) (frameLen : Nat)
  deriving DecidableEq

/-- The rest of a turn, once the length of the frame is known. -/
def scanFrame (checksum : ExtentChecksum) (maxBatchBytes pack : Nat)
    (permitTailRepair : Bool) (offset : Nat) (bytes : Bytes) (frameLen : Nat) :
    Except StorageError ScanStep :=
  if 2 ^ 64 ≤ headerLen + maxBatchBytes + checksumLen then
    .error (.limitExceeded "configured frame limit overflow")
  else if frameLen < headerLen + checksumLen ∨
    headerLen + maxBatchBytes + checksumLen < frameLen then
    .error (.corrupt pack offset s!"invalid frame length {frameLen}")
  else if bytes.length < frameLen then
    if permitTailRepair then .ok .torn
    else .error (.corrupt pack offset "truncated frame in sealed pack")
  else (decodeExtent checksum pack offset (bytes.take frameLen)).map (.frame · frameLen)

/-- One turn of the loop of `scan_pack`, on the bytes from `offset` on. -/
def scanStep (checksum : ExtentChecksum) (maxBatchBytes pack : Nat)
    (permitTailRepair : Bool) (offset : Nat) (bytes : Bytes) : Except StorageError ScanStep :=
  if bytes.length = 0 then .ok .done
  else if bytes.length < prefixLen then
    if permitTailRepair then .ok .torn
    else .error (.corrupt pack offset "truncated prefix in sealed pack")
  else do
    validatePrefix pack offset (bytes.take prefixLen)
    scanFrame checksum maxBatchBytes pack permitTailRepair offset bytes
      (Bytes.ofLe ((bytes.drop 8).take 8))

/-- What a scan leaves: the index, and how many bytes of the file are kept. -/
structure ScanResult where
  index : ExtentIndex
  kept : Nat

/-- The loop of `scan_pack`, on the bytes from `offset` on. Every frame is longer than one byte, so
the number of bytes bounds the number of turns. -/
def scanLoop (checksum : ExtentChecksum) (maxBatchBytes pack : Nat)
    (permitTailRepair : Bool) : Nat → Nat → Bytes → ExtentIndex → Except StorageError ScanResult
  | 0, offset, _, ix => .ok ⟨ix, offset⟩
  | fuel + 1, offset, bytes, ix => do
    match ← scanStep checksum maxBatchBytes pack permitTailRepair offset bytes with
    | .done | .torn => pure ⟨ix, offset⟩
    | .frame location frameLen =>
      let ix ← indexRecoveredExtent pack offset location ix
      scanLoop checksum maxBatchBytes pack permitTailRepair fuel (offset + frameLen)
        (bytes.drop frameLen) ix

/-- `scan_pack`. The file is cut to the bytes that are kept. -/
def scanPack (checksum : ExtentChecksum) (maxBatchBytes pack : Nat)
    (permitTailRepair : Bool) (file : Bytes) (ix : ExtentIndex) : Except StorageError ScanResult :=
  scanLoop checksum maxBatchBytes pack permitTailRepair (file.length + 1) 0 file ix

/-! ### One frame -/

/-- The length field of a frame. -/
theorem lengthField_extentPrefix {frameLen : Nat} (h : frameLen < 2 ^ 64) (bytes : Bytes) :
    Bytes.ofLe (((extentPrefix frameLen ++ bytes).drop 8).take 8) = frameLen := by
  have hdrop : (extentPrefix frameLen ++ bytes).drop 8 = Bytes.le 8 frameLen ++ bytes := rfl
  rw [hdrop, take_left' (Bytes.length_le ..), Bytes.ofLe_le (by simpa using h)]

section Frame

/-- A frame that a scan accepts: the range matches the record count, and the payload is within the
limit of the store. -/
structure PreparedExtent.Storable (maxBatchBytes : Nat) (x : PreparedExtent) : Prop where
  counted : x.reservation.Counted
  payload_le : x.payload.length ≤ maxBatchBytes

theorem PreparedExtent.Storable.frameLen_within (hx : x.Storable maxBatchBytes) :
    ¬ (x.frameLen < headerLen + checksumLen ∨
      headerLen + maxBatchBytes + checksumLen < x.frameLen) := by
  have := hx.payload_le
  simp only [PreparedExtent.frameLen]
  omega

/-- The bytes of a frame after its prefix. -/
theorem PreparedExtent.exists_frame_eq (checksum : ExtentChecksum)
    (x : PreparedExtent) : ∃ bytes, x.frame checksum = extentPrefix x.frameLen ++ bytes :=
  ⟨_, by rw [PreparedExtent.frame, PreparedExtent.header, append_assoc]⟩

theorem PreparedExtent.prefixLen_lt_frameLen (x : PreparedExtent) : prefixLen < x.frameLen := by
  have := x.headerLen_le_frameLen
  simp only [headerLen, checksumLen] at this ⊢
  omega

theorem PreparedExtent.lengthField_frame (checksum : ExtentChecksum)
    (x : PreparedExtent) (rest : Bytes) :
    Bytes.ofLe (((x.frame checksum ++ rest).drop 8).take 8) = x.frameLen := by
  obtain ⟨bytes, hbytes⟩ := x.exists_frame_eq checksum
  rw [hbytes, append_assoc, lengthField_extentPrefix x.frameLen_lt]

/-- **A complete frame is found.** -/
theorem scanStep_frame (hx : x.Storable maxBatchBytes)
    (hlimit : headerLen + maxBatchBytes + checksumLen < 2 ^ 64) (rest : Bytes) :
    scanStep checksum maxBatchBytes pack permitTailRepair offset
      (x.frame checksum ++ rest) = .ok (.frame (x.location 0 offset) x.frameLen) := by
  have hlength : (x.frame checksum ++ rest).length = x.frameLen + rest.length := by
    rw [length_append, PreparedExtent.length_frame]
  have hwhole : (x.frame checksum ++ rest).take x.frameLen = x.frame checksum :=
    take_left' (PreparedExtent.length_frame ..)
  have hcomplete : ¬ (x.frame checksum ++ rest).length < x.frameLen := by omega
  rw [scanStep, x.lengthField_frame]
  rw [scanFrame, if_neg (not_le.2 hlimit), if_neg hx.frameLen_within, if_neg hcomplete, hwhole,
    x.decodeExtent_frame checksum hx.counted]
  rfl

/-- Only a frame that can be stored is found, under a limit that leaves room for it. -/
theorem storable_of_scanStep_frame {step : ScanStep} {rest : Bytes}
    (hpayload : x.payload.length ≤ maxBatchBytes)
    (h : scanStep checksum maxBatchBytes pack permitTailRepair offset
      (x.frame checksum ++ rest) = .ok step) :
    x.Storable maxBatchBytes ∧ headerLen + maxBatchBytes + checksumLen < 2 ^ 64 := by
  have hwhole : (x.frame checksum ++ rest).take x.frameLen = x.frame checksum :=
    take_left' (PreparedExtent.length_frame ..)
  have hcomplete : ¬ (x.frame checksum ++ rest).length < x.frameLen := by
    rw [length_append, PreparedExtent.length_frame]
    omega
  obtain ⟨-, -, hframe⟩ := bind_eq_ok_iff.1 h
  rw [x.lengthField_frame, scanFrame, hwhole] at hframe
  split at hframe
  · cases hframe
  next hlimit =>
    split at hframe
    · cases hframe
    · obtain ⟨l, hl, -⟩ := map_eq_ok_iff.1 hframe
      exact ⟨⟨x.counted_of_decodeExtent_frame checksum hl, hpayload⟩, not_le.1 hlimit⟩

/-- **A cut frame is torn**, and an error where no repair is permitted. -/
theorem scanStep_take (hx : x.Storable maxBatchBytes)
    (hlimit : headerLen + maxBatchBytes + checksumLen < 2 ^ 64) {n : Nat} (hpos : 0 < n)
    (hcut : n < x.frameLen) :
    (permitTailRepair = true → scanStep checksum maxBatchBytes pack permitTailRepair offset
      ((x.frame checksum).take n) = .ok .torn) ∧
    (permitTailRepair = false → ∃ e, scanStep checksum maxBatchBytes pack permitTailRepair
      offset ((x.frame checksum).take n) = .error e) := by
  obtain ⟨bytes, hbytes⟩ := x.exists_frame_eq checksum
  have hlength : ((x.frame checksum).take n).length = n := by
    rw [length_take, PreparedExtent.length_frame]
    omega
  have hnonempty : ¬ ((x.frame checksum).take n).length = 0 := by omega
  rw [scanStep, if_neg hnonempty, hlength]
  by_cases hshort : n < prefixLen
  · rw [if_pos hshort]
    constructor
    · rintro rfl
      rfl
    · rintro rfl
      exact ⟨_, rfl⟩
  · have hpre : ((x.frame checksum).take n).take prefixLen = extentPrefix x.frameLen := by
      rw [take_take, min_eq_left (by omega), hbytes, take_left' (length_extentPrefix _)]
    have hfield : Bytes.ofLe ((((x.frame checksum).take n).drop 8).take 8) = x.frameLen := by
      obtain ⟨rest, hrest⟩ : ∃ rest, (x.frame checksum).take n =
          extentPrefix x.frameLen ++ rest := by
        refine ⟨((x.frame checksum).take n).drop prefixLen, ?_⟩
        rw [← hpre, take_append_drop]
      rw [hrest, lengthField_extentPrefix x.frameLen_lt]
    have hstep : scanFrame checksum maxBatchBytes pack permitTailRepair offset
        ((x.frame checksum).take n) x.frameLen = if permitTailRepair then .ok .torn
          else .error (.corrupt pack offset "truncated frame in sealed pack") := by
      rw [scanFrame, if_neg (not_le.2 hlimit), if_neg hx.frameLen_within, hlength, if_pos hcut]
    rw [if_neg hshort, hpre, hfield, hstep]
    constructor
    · rintro rfl
      rfl
    · rintro rfl
      exact ⟨_, rfl⟩

end Frame

/-! ### Many frames -/

/-- The bytes of the frames, one after the other. -/
def packBytes (checksum : ExtentChecksum) (xs : List PreparedExtent) : Bytes :=
  (xs.map (PreparedExtent.frame checksum)).flatten

/-- How many bytes the frames take. -/
def framesLen (xs : List PreparedExtent) : Nat := (xs.map PreparedExtent.frameLen).sum

/-- Where the frames lie in a pack, the first one at `offset`. -/
def locate (pack : Nat) : Nat → List PreparedExtent → List ExtentLocation
  | _, [] => []
  | offset, x :: xs => x.location pack offset :: locate pack (offset + x.frameLen) xs

/-- The frames that lie wholly within the first `n` bytes. -/
def framesWithin : Nat → List PreparedExtent → List PreparedExtent
  | _, [] => []
  | n, x :: xs => if x.frameLen ≤ n then x :: framesWithin (n - x.frameLen) xs else []

/-- The key under which the frame is indexed. -/
def PreparedExtent.key (x : PreparedExtent) : TopicPartition × Nat :=
  (x.reservation.topicPartition, x.reservation.batchId)

/-- No two of the frames have one key, and none has a key of the index. -/
def ExtentIndex.Fresh (ix : ExtentIndex) (xs : List PreparedExtent) : Prop :=
  (xs.map PreparedExtent.key).Nodup ∧ ∀ x ∈ xs, ix.hasKey x.key = false

section Frames

variable {fuel n : Nat} {xs : List PreparedExtent} {ix : ExtentIndex}

@[simp] theorem packBytes_cons : packBytes checksum (x :: xs) =
    x.frame checksum ++ packBytes checksum xs := rfl

@[simp] theorem framesLen_cons : framesLen (x :: xs) = x.frameLen + framesLen xs := by
  simp [framesLen]

@[simp] theorem length_packBytes (xs : List PreparedExtent) :
    (packBytes checksum xs).length = framesLen xs := by
  induction xs with
  | nil => rfl
  | cons x xs ih => rw [packBytes_cons, length_append, PreparedExtent.length_frame, ih,
      framesLen_cons]

theorem length_le_framesLen (xs : List PreparedExtent) : xs.length ≤ framesLen xs := by
  induction xs with
  | nil => exact Nat.zero_le _
  | cons x xs ih =>
    have := x.prefixLen_lt_frameLen
    rw [length_cons, framesLen_cons]
    omega

theorem framesWithin_prefix (n : Nat) (xs : List PreparedExtent) : framesWithin n xs <+: xs := by
  induction xs generalizing n with
  | nil => exact nil_prefix
  | cons x xs ih =>
    rw [framesWithin]
    split_ifs
    · exact (prefix_cons_inj x).2 (ih _)
    · exact nil_prefix

/-- **A cut file** consists of the frames that lie wholly within it and a piece of the next one. -/
theorem take_packBytes (checksum : ExtentChecksum) (n : Nat) (xs : List PreparedExtent) :
    ∃ rest, (packBytes checksum xs).take n = packBytes checksum (framesWithin n xs) ++ rest ∧
      (rest = [] ∨ ∃ x ∈ xs, ∃ m, 0 < m ∧ m < x.frameLen ∧
        rest = (x.frame checksum).take m) := by
  induction xs generalizing n with
  | nil => exact ⟨[], by simp [packBytes, framesWithin], .inl rfl⟩
  | cons x xs ih =>
    have hlength := x.length_frame checksum
    rw [framesWithin]
    split_ifs with hle
    · obtain ⟨rest, hrest, hcases⟩ := ih (n - x.frameLen)
      refine ⟨rest, ?_, hcases.imp_right fun ⟨y, hy, h⟩ ↦ ⟨y, mem_cons_of_mem _ hy, h⟩⟩
      rw [packBytes_cons, take_append, hlength, hrest, packBytes_cons,
        take_of_length_le (by omega), append_assoc]
    · refine ⟨(x.frame checksum).take n, ?_, ?_⟩
      · rw [packBytes_cons, take_append_of_le_length (by omega)]
        rfl
      · rcases Nat.eq_zero_or_pos n with rfl | hpos
        · exact .inl rfl
        · exact .inr ⟨x, mem_cons_self .., n, hpos, by omega, rfl⟩

theorem ExtentIndex.hasKey_push (ix : ExtentIndex) (l : ExtentLocation)
    (key : TopicPartition × Nat) :
    (ix.push l).hasKey key = (ix.hasKey key || decide (l.key = key)) := by
  simp [ExtentIndex.hasKey, ExtentIndex.push]

theorem ExtentIndex.Fresh.tail (h : ix.Fresh (x :: xs)) (offset : Nat) :
    (ix.push (x.location pack offset)).Fresh xs := by
  obtain ⟨hnodup, hnew⟩ := h
  rw [map_cons, nodup_cons] at hnodup
  refine ⟨hnodup.2, fun y hy ↦ ?_⟩
  have hne : x.key ≠ y.key := fun heq ↦ hnodup.1 (heq ▸ mem_map_of_mem hy)
  rw [ExtentIndex.hasKey_push, hnew y (mem_cons_of_mem _ hy)]
  simpa [PreparedExtent.location, ExtentLocation.key, PreparedExtent.key] using hne

theorem ExtentIndex.Fresh.of_prefix {ys : List PreparedExtent} (h : ix.Fresh xs)
    (hpre : ys <+: xs) : ix.Fresh ys :=
  ⟨h.1.sublist (hpre.sublist.map _), fun y hy ↦ h.2 y (hpre.subset hy)⟩

/-- A scan that goes through has found frames that can be stored, under a limit that leaves room. -/
theorem storable_of_scanLoop (hpayload : ∀ x ∈ xs, x.payload.length ≤ maxBatchBytes)
    (hfuel : xs.length ≤ fuel)
    (h : scanLoop checksum maxBatchBytes pack permitTailRepair fuel offset
      (packBytes checksum xs) ix = .ok result) :
    ∀ x ∈ xs, x.Storable maxBatchBytes ∧ headerLen + maxBatchBytes + checksumLen < 2 ^ 64 := by
  induction xs generalizing fuel offset ix with
  | nil => simp
  | cons x xs ih =>
    obtain ⟨fuel, rfl⟩ : ∃ n, fuel = n + 1 := ⟨fuel - 1, by simp at hfuel; omega⟩
    rw [packBytes_cons] at h
    obtain ⟨step, hstep, h⟩ := bind_eq_ok_iff.1 h
    have hx := storable_of_scanStep_frame (hpayload x (mem_cons_self ..)) hstep
    rw [scanStep_frame hx.1 hx.2] at hstep
    cases hstep
    obtain ⟨ix', -, h⟩ := bind_eq_ok_iff.1 h
    rw [drop_left' (PreparedExtent.length_frame ..)] at h
    exact forall_mem_cons.2 ⟨hx,
      ih (fun y hy ↦ hpayload y (mem_cons_of_mem _ hy)) (by simpa using hfuel) h⟩

theorem storable_of_scanPack (hpayload : ∀ x ∈ xs, x.payload.length ≤ maxBatchBytes)
    (h : scanPack checksum maxBatchBytes pack permitTailRepair (packBytes checksum xs)
      ix = .ok result) :
    ∀ x ∈ xs, x.Storable maxBatchBytes ∧ headerLen + maxBatchBytes + checksumLen < 2 ^ 64 := by
  refine storable_of_scanLoop hpayload ?_ h
  have := length_le_framesLen xs
  rw [length_packBytes]
  omega

/-- A scan of nothing but a piece of a frame. -/
theorem scanLoop_piece (hx : x.Storable maxBatchBytes)
    (hlimit : headerLen + maxBatchBytes + checksumLen < 2 ^ 64) {m : Nat} (hpos : 0 < m)
    (hcut : m < x.frameLen) :
    scanLoop checksum maxBatchBytes pack true (fuel + 1) offset
        ((x.frame checksum).take m) ix = .ok ⟨ix, offset⟩ ∧
      ∃ e, scanLoop checksum maxBatchBytes pack false (fuel + 1) offset
        ((x.frame checksum).take m) ix = .error e := by
  constructor
  · have hstep : scanStep checksum maxBatchBytes pack true offset
        ((x.frame checksum).take m) = .ok .torn :=
      (scanStep_take hx hlimit hpos hcut).1 rfl
    rw [scanLoop, hstep]
    rfl
  · obtain ⟨e, he⟩ : ∃ e, scanStep checksum maxBatchBytes pack false offset
        ((x.frame checksum).take m) = .error e :=
      (scanStep_take hx hlimit hpos hcut).2 rfl
    refine ⟨e, ?_⟩
    rw [scanLoop, he]
    rfl

theorem scanLoop_nil :
    scanLoop checksum maxBatchBytes pack permitTailRepair fuel offset [] ix =
      .ok ⟨ix, offset⟩ := by
  cases fuel <;> rfl

section Storable

variable (hstorable : ∀ x ∈ xs, x.Storable maxBatchBytes)
  (hlimit : headerLen + maxBatchBytes + checksumLen < 2 ^ 64) (hfresh : ix.Fresh xs)

include hstorable hlimit hfresh

/-- **The scan walks over complete frames.** -/
theorem scanLoop_packBytes (rest : Bytes) :
    scanLoop checksum maxBatchBytes pack permitTailRepair (fuel + xs.length) offset
        (packBytes checksum xs ++ rest) ix =
      scanLoop checksum maxBatchBytes pack permitTailRepair fuel (offset + framesLen xs) rest
        ((locate pack offset xs).foldl ExtentIndex.push ix) := by
  induction xs generalizing offset ix with
  | nil => rfl
  | cons x xs ih =>
    have hstep : scanStep checksum maxBatchBytes pack permitTailRepair offset
        (x.frame checksum ++ (packBytes checksum xs ++ rest)) =
          .ok (.frame (x.location 0 offset) x.frameLen) :=
      scanStep_frame (hstorable x (mem_cons_self ..)) hlimit _
    have hindex : indexRecoveredExtent pack offset (x.location 0 offset) ix =
        .ok (ix.push (x.location pack offset)) :=
      if_neg (by
        have := hfresh.2 x (mem_cons_self ..)
        simpa [PreparedExtent.location, ExtentLocation.key, PreparedExtent.key] using this)
    rw [length_cons, ← Nat.add_assoc, packBytes_cons, append_assoc, scanLoop, hstep]
    change ((indexRecoveredExtent pack offset (x.location 0 offset) ix).bind _) = _
    rw [hindex]
    change scanLoop _ _ _ _ _ _ (drop _ _) _ = _
    rw [drop_left' (PreparedExtent.length_frame ..),
      ih (fun y hy ↦ hstorable y (mem_cons_of_mem _ hy)) (hfresh.tail offset), Nat.add_assoc]
    rfl

variable (checksum pack permitTailRepair) in
/-- The scan of a file that begins with complete frames. -/
theorem scanPack_packBytes (rest : Bytes) :
    ∃ fuel, scanPack checksum maxBatchBytes pack permitTailRepair
        (packBytes checksum xs ++ rest) ix =
      scanLoop checksum maxBatchBytes pack permitTailRepair (fuel + 1) (framesLen xs) rest
        ((locate pack 0 xs).foldl ExtentIndex.push ix) := by
  have hle := length_le_framesLen xs
  have hfuel : (packBytes checksum xs ++ rest).length + 1 =
      framesLen xs + rest.length - xs.length + 1 + xs.length := by
    rw [length_append, length_packBytes]
    omega
  refine ⟨framesLen xs + rest.length - xs.length, ?_⟩
  rw [scanPack, hfuel, scanLoop_packBytes hstorable hlimit hfresh rest, Nat.zero_add]

/-- **The scan of whole frames** finds all of them and keeps the file. -/
theorem scanPack_frames :
    scanPack checksum maxBatchBytes pack permitTailRepair (packBytes checksum xs) ix =
      .ok ⟨(locate pack 0 xs).foldl ExtentIndex.push ix, framesLen xs⟩ := by
  obtain ⟨fuel, h⟩ := scanPack_packBytes checksum pack permitTailRepair hstorable hlimit hfresh []
  rw [append_nil] at h
  rw [h, scanLoop_nil]

/-- **The scan of a cut file** finds the frames that lie wholly within it and keeps no more. -/
theorem scanPack_take (n : Nat) :
    scanPack checksum maxBatchBytes pack true ((packBytes checksum xs).take n) ix =
      .ok ⟨(locate pack 0 (framesWithin n xs)).foldl ExtentIndex.push ix,
        framesLen (framesWithin n xs)⟩ := by
  have hwithin := framesWithin_prefix n xs
  obtain ⟨rest, hrest, hcases⟩ := take_packBytes checksum n xs
  obtain ⟨fuel, h⟩ := scanPack_packBytes checksum pack true
    (fun x hx ↦ hstorable x (hwithin.subset hx)) hlimit (hfresh.of_prefix hwithin) rest
  rw [hrest, h]
  rcases hcases with rfl | ⟨x, hx, m, hpos, hcut, rfl⟩
  · exact scanLoop_nil
  · exact (scanLoop_piece (hstorable x hx) hlimit hpos hcut).1

/-- **A cut strictly inside a frame is refused** where no repair is permitted. -/
theorem scanPack_cut {post : List PreparedExtent} (hxs : xs = pre ++ x :: post)
    (hlt : framesLen pre < n) (hcut : n < framesLen pre + x.frameLen) :
    ∃ e, scanPack checksum maxBatchBytes pack false ((packBytes checksum xs).take n)
    ix =
      .error e := by
  have htake : (packBytes checksum xs).take n =
      packBytes checksum pre ++ (x.frame checksum).take (n - framesLen pre) := by
    rw [hxs, packBytes, map_append, flatten_append, ← packBytes, ← packBytes,
      packBytes_cons, take_append, length_packBytes,
      take_of_length_le (by rw [length_packBytes]; omega),
      take_append_of_le_length (by rw [PreparedExtent.length_frame]; omega)]
  have hpre : pre <+: xs := ⟨x :: post, hxs.symm⟩
  have hx : x ∈ xs := by rw [hxs]; simp
  obtain ⟨fuel, h⟩ := scanPack_packBytes checksum pack false
    (fun x hx ↦ hstorable x (hpre.subset hx)) hlimit (hfresh.of_prefix hpre)
    ((x.frame checksum).take (n - framesLen pre))
  rw [htake, h]
  exact (scanLoop_piece (hstorable x hx) hlimit (by omega) (by omega)).2

end Storable

/-- The checksum at the end of a frame is that of its header and payload. -/
def ChecksumMatches (checksum : ExtentChecksum) (frame : Bytes) : Prop :=
  (checksum (frame.take headerLen)
    ((frame.take (frame.length - checksumLen)).drop headerLen)).toNat =
      Bytes.ofLe (frame.drop (frame.length - checksumLen))

/-- The eight bytes of a frame that hold its length. -/
def lengthField (frame : Bytes) : Bytes := (frame.drop 8).take 8

/-- **A damaged frame is refused**, as long as its length field is intact. -/
theorem scanPack_damaged {damaged : Bytes} (hstorable : ∀ x ∈ pre, x.Storable maxBatchBytes)
    (hx : x.Storable maxBatchBytes) (hlimit : headerLen + maxBatchBytes + checksumLen < 2 ^ 64)
    (hfresh : ix.Fresh pre) (hlength : damaged.length = x.frameLen)
    (hfield : lengthField damaged = lengthField (x.frame checksum))
    (hchecksum : ¬ ChecksumMatches checksum damaged) (rest : Bytes) :
    ∃ e, scanPack checksum maxBatchBytes pack permitTailRepair
      (packBytes checksum pre ++ (damaged ++ rest)) ix = .error e := by
  obtain ⟨bytes, hbytes⟩ := x.exists_frame_eq checksum
  have hlong := x.prefixLen_lt_frameLen
  simp only [prefixLen] at hlong
  have hnumber : Bytes.ofLe (((damaged ++ rest).drop 8).take 8) = x.frameLen := by
    rw [drop_append_of_le_length (by omega), take_append_of_le_length (by rw [length_drop]; omega)]
    change Bytes.ofLe (lengthField damaged) = _
    rw [hfield, lengthField, hbytes, lengthField_extentPrefix x.frameLen_lt]
  -- the frame is taken as a whole, and its checksum is compared first
  have hdecode : decodeExtent checksum pack (framesLen pre) damaged =
      .error (.corrupt pack (framesLen pre) "extent checksum mismatch") := by
    rw [decodeExtent, if_neg (by rw [hlength]; exact not_lt.2 x.headerLen_le_frameLen), if_pos]
    exact hchecksum
  have hstep : ∃ e, scanStep checksum maxBatchBytes pack permitTailRepair (framesLen pre)
      (damaged ++ rest) = .error e := by
    have hbeyond : (damaged ++ rest).length = x.frameLen + rest.length := by
      rw [length_append, hlength]
    rw [scanStep, if_neg (by omega), if_neg (by simp only [prefixLen]; omega), hnumber]
    cases hpre : validatePrefix pack (framesLen pre) ((damaged ++ rest).take prefixLen) with
    | error e => exact ⟨e, rfl⟩
    | ok u =>
      refine ⟨.corrupt pack (framesLen pre) "extent checksum mismatch", ?_⟩
      change scanFrame .. = _
      rw [scanFrame, if_neg (not_le.2 hlimit), if_neg hx.frameLen_within, if_neg (by omega),
        take_left' hlength, hdecode]
      rfl
  obtain ⟨e, he⟩ := hstep
  obtain ⟨fuel, h⟩ := scanPack_packBytes checksum pack permitTailRepair hstorable hlimit
    hfresh (damaged ++ rest)
  refine ⟨e, ?_⟩
  rw [h, scanLoop, he]
  rfl

end Frames

/-! ### Crash recovery of a pack -/

/-- **Crash recovery keeps exactly the complete frames.** For frames with distinct keys that the
store can hold, cut after any number of bytes: the newest pack is cut back to the complete frames
and these are indexed, a second scan changes nothing; an older pack cut inside a frame is refused; a
complete frame with a wrong checksum and an intact length field is refused in every pack. -/
theorem scan_keeps_complete_frames (checksum : ExtentChecksum)
    {maxBatchBytes : Nat} {xs : List PreparedExtent} {ix : ExtentIndex}
    (hstorable : ∀ x ∈ xs, x.Storable maxBatchBytes)
    (hlimit : headerLen + maxBatchBytes + checksumLen < 2 ^ 64) (hfresh : ix.Fresh xs)
    (pack n : Nat) :
    (∃ result, result.index = (locate pack 0 (framesWithin n xs)).foldl ExtentIndex.push ix ∧
      result.kept = framesLen (framesWithin n xs) ∧
      scanPack checksum maxBatchBytes pack true ((packBytes checksum xs).take n) ix = .ok result ∧
      scanPack checksum maxBatchBytes pack true
        (((packBytes checksum xs).take n).take result.kept) ix = .ok result) ∧
    (∀ pre x post, xs = pre ++ x :: post → framesLen pre < n → n < framesLen pre + x.frameLen →
      ∃ e, scanPack checksum maxBatchBytes pack false
        ((packBytes checksum xs).take n) ix = .error e) ∧
    ∀ pre x post (damaged rest : Bytes) permitTailRepair, xs = pre ++ x :: post →
      damaged.length = x.frameLen → lengthField damaged = lengthField (x.frame checksum) →
      ¬ ChecksumMatches checksum damaged →
      ∃ e, scanPack checksum maxBatchBytes pack permitTailRepair
        (packBytes checksum pre ++ (damaged ++ rest)) ix = .error e := by
  refine ⟨⟨_, rfl, rfl, scanPack_take hstorable hlimit hfresh n, ?_⟩, ?_, ?_⟩
  · have hwithin := framesWithin_prefix n xs
    obtain ⟨rest, hrest, -⟩ := take_packBytes checksum n xs
    rw [hrest, take_left' (length_packBytes _)]
    exact scanPack_frames (fun x hx ↦ hstorable x (hwithin.subset hx)) hlimit
      (hfresh.of_prefix hwithin)
  · intro pre x post hxs hlt hcut
    exact scanPack_cut hstorable hlimit hfresh hxs hlt hcut
  · intro pre x post damaged rest permitTailRepair hxs hlength hfield hchecksum
    have hpre : pre <+: xs := ⟨x :: post, hxs.symm⟩
    have hx : x ∈ xs := by rw [hxs]; simp
    exact scanPack_damaged (fun x hx ↦ hstorable x (hpre.subset hx)) (hstorable x hx) hlimit
      (hfresh.of_prefix hpre) hlength hfield hchecksum rest

/-- Three frames, the last of them cut after a hundred bytes: the other two are kept. -/
theorem scan_drops_cut_frame : ∃ result : ScanResult,
    result.kept = framesLen [recordExtent 0, recordExtent 1] ∧ result.index.byBatch.length = 2 ∧
    scanPack (fun _ _ ↦ 0) 16 0 true ((packBytes (fun _ _ ↦ 0)
      ([0, 1, 2].map recordExtent)).take (framesLen [recordExtent 0, recordExtent 1] + 100))
      .empty = .ok result := by
  have hstorable : ∀ x ∈ [0, 1, 2].map recordExtent, x.Storable 16 := by
    rw [forall_mem_map]
    exact fun i _ ↦ ⟨rfl, by simp [recordExtent]⟩
  have hfresh : ExtentIndex.empty.Fresh ([0, 1, 2].map recordExtent) := ⟨by decide, fun _ _ ↦ rfl⟩
  obtain ⟨⟨result, hindex, hkept, hscan, -⟩, -⟩ := scan_keeps_complete_frames (fun _ _ ↦ 0)
    hstorable (by decide) hfresh 0 (framesLen [recordExtent 0, recordExtent 1] + 100)
  exact ⟨result, by rw [hkept]; decide +kernel, by rw [hindex]; decide +kernel, hscan⟩

instance (checksum : ExtentChecksum) (frame : Bytes) :
    Decidable (ChecksumMatches checksum frame) := inferInstanceAs (Decidable (_ = _))

/-- A checksum that depends on the length field. -/
def lengthChecksum (header _payload : Bytes) : UInt64 := (header.getD 8 0).toUInt64

/-- The frame of `firstExtent` with one byte of its length field altered. -/
def damagedFrame : Bytes := (firstExtent.frame lengthChecksum).set 8 233

/-- **What a scan does not do.** Two frames with one key are refused; a complete frame whose length
field was altered is taken for a cut one and dropped, although its checksum does not match; and no
frame is accepted when the configured limit on batches leaves no room for the frame lengths. -/
theorem scan_exceptions :
    (scanPack lengthChecksum 16 0 true (packBytes lengthChecksum [firstExtent, firstExtent])
      .empty).toOption.isNone = true ∧
    (damagedFrame.length = firstExtent.frameLen ∧ ¬ ChecksumMatches lengthChecksum damagedFrame ∧
      (scanPack lengthChecksum 16 0 true damagedFrame .empty).toOption.map (·.kept) = some 0) ∧
    (scanPack lengthChecksum (2 ^ 64 - 1) 0 true (packBytes lengthChecksum [firstExtent])
      .empty).toOption.isNone = true := by
  decide +kernel

end ShardStream
