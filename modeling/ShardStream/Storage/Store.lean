import Mathlib.Data.List.Sort
import ShardStream.Storage.Pack

/-!
# The shard store

A `ShardStore` owns a directory of packs. The newest pack is active: appends write frames at its
end, and move on to a new pack when the frame would exceed the target size. Garbage collection
removes sealed packs all of whose extents lie below the log start of their partition. Opening a
directory scans all packs and rebuilds the index.

The model keeps the contents of the files; a write that succeeds has written the whole frame, and
operations that fail are not continued. What concerns durability only (`sync`, directory syncs, the
lock file, the two-step removal of a pack) leaves no trace in it.
-/

namespace ShardStream

/-- `ShardStoreConfig`, without the directory and the shard's number. -/
structure ShardStoreConfig where
  targetPackBytes : Nat
  maxBatchBytes : Nat

/-- `ShardStoreConfig::validate`. -/
def ShardStoreConfig.validate (config : ShardStoreConfig) : Except StorageError Unit :=
  if config.targetPackBytes = 0 then .error (.invalidInput "target_pack_bytes must be nonzero")
  else if config.maxBatchBytes = 0 then .error (.invalidInput "max_batch_bytes must be nonzero")
  else .ok ()

/-- A pack file: its sequence and its contents. -/
structure PackFile where
  sequence : Nat
  contents : Bytes
  deriving DecidableEq

/-- `ShardStore`, with the contents of its files. `sealedPacks` is in the order of the sequences. -/
structure ShardStore where
  config : ShardStoreConfig
  storeToken : Nat
  planEpoch : Nat
  sealedPacks : List PackFile
  active : PackFile
  ix : ExtentIndex

/-- `ExtentCatalogEntry`, as a store returns it. -/
structure StoreCatalogEntry where
  reservation : Reservation
  producer : Option ProducerSequence
  atomicGroup : Option AtomicGroupSequence
  payloadBytes : Nat
  packSequence : Nat
  objectDurable : Bool
  deriving DecidableEq

/-- The order in which `catalog` sorts: topic, partition, first offset. -/
def StoreCatalogEntry.NotAfter (a b : StoreCatalogEntry) : Prop :=
  a.reservation.topicId < b.reservation.topicId ∨ a.reservation.topicId = b.reservation.topicId ∧
    (a.reservation.partitionId < b.reservation.partitionId ∨
      a.reservation.partitionId = b.reservation.partitionId ∧
        a.reservation.firstOffset ≤ b.reservation.firstOffset)

instance : DecidableRel StoreCatalogEntry.NotAfter := fun _ _ ↦
  inferInstanceAs (Decidable (_ ∨ _ ∧ (_ ∨ _ ∧ _)))

namespace ShardStore

variable (store : ShardStore)

/-- The directory. -/
def files : List PackFile := store.sealedPacks ++ [store.active]

/-! ### Opening -/

/-- The scans of `open_inner`: tail repair is permitted in the last pack only. The result is the
index and the last pack as the scan leaves it. -/
def scanPacks (checksum : ExtentChecksum) (maxBatchBytes : Nat) (last : PackFile) :
    List PackFile → ExtentIndex → Except StorageError (ExtentIndex × PackFile)
  | [], ix => do
    let result ← scanPack checksum maxBatchBytes last.sequence true last.contents ix
    pure (result.index, ⟨last.sequence, last.contents.take result.kept⟩)
  | pack :: packs, ix => do
    let result ← scanPack checksum maxBatchBytes pack.sequence false pack.contents ix
    scanPacks checksum maxBatchBytes last packs result.index

/-- `sort_by_key` on the first offset. -/
def sortLocations (locations : List ExtentLocation) : List ExtentLocation :=
  locations.insertionSort fun a b ↦ a.reservation.firstOffset ≤ b.reservation.firstOffset

section

variable (checksum : ExtentChecksum)

/-- `open_inner`, on the packs of a directory in the order of their sequences. -/
def openInner (config : ShardStoreConfig)
    (storeToken : Nat) (directory : List PackFile) : Except StorageError ShardStore := do
  config.validate
  -- an empty directory gets its first pack
  let last := directory.getLast?.getD ⟨0, []⟩
  let (ix, active) ← scanPacks checksum config.maxBatchBytes last directory.dropLast .empty
  pure { config, storeToken, planEpoch := 0, sealedPacks := directory.dropLast, active
         ix := { ix with index := ix.index.map fun _ locations ↦ sortLocations locations } }

/-! ### Appending -/

/-- `validate_append`. -/
def validateAppend (x : ExtentInput) : Except StorageError Unit :=
  if store.config.maxBatchBytes < x.payload.length then
    .error (.limitExceeded
      s!"batch has {x.payload.length} bytes, maximum is {store.config.maxBatchBytes}")
  else if store.ix.hasKey (x.reservation.topicPartition, x.reservation.batchId) then
    .error (.invalidInput s!"batch {x.reservation.batchId} already exists")
  else .ok ()

/-- `rotate`. -/
def rotate : Except StorageError ShardStore :=
  if store.active.sequence + 1 < 2 ^ 64 then
    .ok { store with sealedPacks := store.files, active := ⟨store.active.sequence + 1, []⟩ }
  else .error (.limitExceeded "pack sequence exhausted")

/-- The rotation before a frame that would exceed the target size of a pack with frames. -/
def rotateIfFull (frameLen : Nat) : Except StorageError ShardStore :=
  if 0 < store.active.contents.length ∧ (2 ^ 64 ≤ store.active.contents.length + frameLen ∨
      store.config.targetPackBytes < store.active.contents.length + frameLen) then store.rotate
  else .ok store

/-- Where `install_location` puts an extent in the list of its partition. -/
def insertLocation (l : ExtentLocation) (locations : List ExtentLocation) : List ExtentLocation :=
  if locations.getLast?.all fun last ↦
      decide (last.reservation.firstOffset < l.reservation.firstOffset) then locations ++ [l]
  else
    let before := fun existing : ExtentLocation ↦
      decide (existing.reservation.firstOffset < l.reservation.firstOffset)
    locations.takeWhile before ++ l :: locations.dropWhile before

/-- `install_location`. -/
def installLocation (ix : ExtentIndex) (l : ExtentLocation) : ExtentIndex :=
  { index := ix.index.insert l.reservation.topicPartition
      (insertLocation l (ix.locations l.reservation.topicPartition))
    byBatch := ix.byBatch ++ [l] }

/-- `append_prepared_segment`: the frames are written at the end of the active pack and
installed. -/
def appendPreparedSegment (store : ShardStore) (segment : List PreparedExtent) : ShardStore :=
  { store with
    active := ⟨store.active.sequence, store.active.contents ++ packBytes checksum segment⟩
    ix := (locate store.active.sequence store.active.contents.length segment).foldl
      installLocation store.ix }

/-- `MAX_EXTENTS_PER_WRITE`. -/
def maxExtentsPerWrite : Nat := 128

/-- `prepared_segment_end`: how many of the extents go into one write, when `packLen` bytes are in
the pack and `room` more extents may join. -/
def preparedSegmentEnd (targetPackBytes : Nat) :
    Nat → Nat → List PreparedExtent → Except StorageError Nat
  | _, _, [] => .ok 0
  | _, 0, _ => .ok 0
  | packLen, room + 1, x :: xs =>
    if 2 ^ 64 ≤ packLen + x.frameLen then .error (.limitExceeded "pack length overflow")
    else if 0 < packLen ∧ targetPackBytes < packLen + x.frameLen then .ok 0
    else do
      let count ← preparedSegmentEnd targetPackBytes (packLen + x.frameLen) room xs
      pure (count + 1)

/-- The loop of `append_prepared_group`. Every turn writes at least one extent, so their number
bounds the number of turns. -/
def appendSegments (checksum : ExtentChecksum) :
    Nat → ShardStore → List PreparedExtent → Except StorageError ShardStore
  | _, store, [] => .ok store
  | 0, store, _ => .ok store
  | fuel + 1, store, x :: xs => do
    let store ← store.rotateIfFull x.frameLen
    let count ← preparedSegmentEnd store.config.targetPackBytes store.active.contents.length
      maxExtentsPerWrite (x :: xs)
    appendSegments checksum fuel
      (store.appendPreparedSegment checksum ((x :: xs).take count)) ((x :: xs).drop count)

/-- The checks of `append_prepared_group`: every extent may be appended, and no key occurs twice. -/
def validateGroup (store : ShardStore) :
    List (TopicPartition × Nat) → List PreparedExtent → Except StorageError Unit
  | _, [] => .ok ()
  | seen, x :: xs => do
    store.validateAppend x.toExtentInput
    if x.key ∈ seen then
      .error (.invalidInput
        s!"batch {x.reservation.batchId} appears more than once in an append group")
    else store.validateGroup (x.key :: seen) xs

/-- `append_prepared_group`. -/
def appendPreparedGroup (store : ShardStore)
    (prepared : List PreparedExtent) : Except StorageError ShardStore := do
  store.validateGroup [] prepared
  appendSegments checksum prepared.length store prepared

/-- The check of `encode_extent`, with the input it accepted. -/
def prepareExtent (x : ExtentInput) : Except StorageError PreparedExtent :=
  if h : ∀ p ∈ x.producer, p.digestAlgorithm = digestXxh3128 then .ok { x with supported := h }
  else .error (.invalidInput "unsupported producer payload digest algorithm")

/-- `prepare_append_atomic`. -/
def prepareAppendAtomic (x : ExtentInput) : Except StorageError PreparedExtent := do
  store.validateAppend x
  prepareExtent x

/-- `append_atomic`. The write and the index update of `append_encoded` are those of a segment of
one extent. -/
def appendAtomic (store : ShardStore) (x : ExtentInput) : Except StorageError ShardStore := do
  let prepared ← store.prepareAppendAtomic x
  let store ← store.rotateIfFull prepared.frameLen
  if 2 ^ 64 ≤ store.active.contents.length + prepared.frameLen then
    .error (.limitExceeded "pack length overflow")
  else pure (store.appendPreparedSegment checksum [prepared])

end

/-- `seal_active`. -/
def sealActive : Except StorageError ShardStore :=
  if store.active.contents.length = 0 then .ok store else store.rotate

/-! ### Garbage collection -/

section

variable (logStarts : Table TopicPartition Nat)

/-- `gc_location_before_start`. -/
def gcLocationBeforeStart (l : ExtentLocation) : Bool :=
  (logStarts.get l.reservation.topicPartition).any fun start ↦
    decide (l.reservation.lastOffset < start)

/-- The sealed packs that `garbage_collect` removes: they hold extents, and all of these lie below
the log starts. -/
def removable (pack : PackFile) : Bool :=
  let locations := store.ix.byBatch.filter (·.packSequence = pack.sequence)
  !locations.isEmpty && locations.all (gcLocationBeforeStart logStarts)

/-- The sequences of the packs that `garbage_collect` removes. -/
def removedPacks : List Nat :=
  (store.sealedPacks.filter (store.removable logStarts)).map (·.sequence)

/-- The index without the extents of the removed packs. -/
def dropPacks (removed : List Nat) (ix : ExtentIndex) : ExtentIndex :=
  { index := (ix.index.map fun _ locations ↦ locations.filter (·.packSequence ∉ removed)).retain
      (fun locations ↦ !locations.isEmpty)
    byBatch := ix.byBatch.filter (·.packSequence ∉ removed) }

/-- `garbage_collect`, without its statistics. -/
def garbageCollect : Except StorageError ShardStore :=
  let removed := store.removedPacks logStarts
  if removed ≠ [] ∧ 2 ^ 64 ≤ store.planEpoch + 1 then
    .error (.limitExceeded "fetch plan epoch exhausted")
  else
    .ok { store with
      planEpoch := if removed = [] then store.planEpoch else store.planEpoch + 1
      sealedPacks := store.sealedPacks.filter (·.sequence ∉ removed)
      ix := dropPacks removed store.ix }

end

/-! ### The catalog -/

/-- The catalog entry of an extent. -/
def catalogEntry (l : ExtentLocation) : StoreCatalogEntry where
  reservation := l.reservation
  producer := l.producer
  atomicGroup := l.atomicGroup
  payloadBytes := l.payloadLen
  packSequence := l.packSequence
  objectDurable := false

/-- `catalog`. Entries that the sort does not tell apart have no fixed order in the source. -/
def catalog : List StoreCatalogEntry :=
  (store.ix.byBatch.map catalogEntry).insertionSort StoreCatalogEntry.NotAfter

end ShardStore

end ShardStream
