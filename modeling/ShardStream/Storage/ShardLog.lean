import ShardStream.Storage.Fetch

/-!
# The embedded log

A `ShardLog` is a shard store with one stream of one-record batches. The caller numbers the records;
opening the log checks that the retained numbers have no gap.

The log is described by an abstract one, a first sequence and a list of payloads (`RecordLog`). As
long as every group continues the log, each call does to the store what it does to the abstract log
(`ShardLog.Represents.step`), and reopening the directory gives a log that represents the same
records. The append itself does not check that a group continues the log.

`sync` and the flag that asks for it leave no trace in the model, and neither do the receipts'
statistics of removed packs.
-/

namespace ShardStream

open List

variable {sequence : Nat} {l : RecordLog} {front : List PackFrames} {last : PackFrames}
  {log log' : ShardLog} {checksum : ExtentChecksum} {config : ShardLogConfig}
  {ops : List ShardLogOp}

/-! ### Records as batches -/

/-- `SHARDLOG_TOPIC_ID`. -/
def shardLogTopicId : Nat := 0x53484152444c4f475f563100

/-- `SHARDLOG_PARTITION_ID`. -/
def shardLogPartitionId : Nat := 0

/-- `SHARDLOG_SHARD_ID`. -/
def shardLogShardId : Nat := 0

/-- A payload as the source's `Bytes`: at most `isize::MAX` bytes. -/
structure RecordPayload where
  bytes : Bytes
  length_lt : bytes.length < 2 ^ 63

/-- `ShardLogRecord`. -/
structure ShardLogRecord where
  sequence : Nat
  payload : Bytes
  deriving DecidableEq

/-- `ShardLogConfig`, without the directory. -/
structure ShardLogConfig where
  targetPackBytes : Nat
  maxRecordBytes : Nat

/-- The configuration of the store below the log. -/
def ShardLogConfig.store (config : ShardLogConfig) : ShardStoreConfig :=
  ⟨config.targetPackBytes, config.maxRecordBytes⟩

/-- `ShardLog`. -/
structure ShardLog where
  inner : ShardStore

/-- `ShardLogAppendReceipt`. -/
structure ShardLogAppendReceipt where
  firstSequence : Nat
  lastSequence : Nat
  recordCount : Nat
  payloadBytes : Nat
  deriving DecidableEq

namespace ShardLog

/-- `topic_partition`. -/
def topicPartition : TopicPartition := ⟨shardLogTopicId, shardLogPartitionId⟩

/-- `reservation`: the record with the sequence is a batch of its own. -/
def reservation (sequence : Nat) : Reservation where
  topicId := shardLogTopicId
  partitionId := shardLogPartitionId
  batchId := sequence
  firstOffset := sequence
  lastOffset := sequence
  recordCount := .one
  placement := ⟨shardLogShardId, 1, 0, sequence⟩

theorem reservation_typed (h : sequence < 2 ^ 64) : (reservation sequence).Typed where
  topicId := (by decide : shardLogTopicId < 2 ^ 128)
  partitionId := (by decide : shardLogPartitionId < 2 ^ 32)
  batchId := h.trans (by decide)
  firstOffset := h
  lastOffset := h
  virtualLaneId := (by decide : shardLogShardId < 2 ^ 32)
  ringEpoch := (by decide : 1 < 2 ^ 64)
  leaderEpoch := (by decide : 0 < 2 ^ 64)
  sequence := h

theorem reservation_counted (sequence : Nat) : (reservation sequence).Counted := rfl

/-- What `append_group` gives to `prepare_append` for one record. -/
def recordInput (sequence : Nat) (h : sequence < 2 ^ 64) (payload : RecordPayload) :
    ExtentInput where
  reservation := reservation sequence
  producer := none
  atomicGroup := none
  payload := payload.bytes
  reservation_typed := reservation_typed h
  producer_typed := typed_of_no_producer
  atomicGroup_typed := typed_of_no_group
  payload_lt := payload.length_lt

/-- `sequence_overflow`. -/
def sequenceOverflow : StorageError := .limitExceeded "ShardLog sequence or byte count overflow"

/-- `validate_catalog_entry`. -/
def validateCatalogEntry (r : Reservation) : Except StorageError Nat :=
  if r.topicId ≠ shardLogTopicId ∨ r.partitionId ≠ shardLogPartitionId ∨ r.recordCount.get ≠ 1 ∨
      r.firstOffset ≠ r.lastOffset then
    .error (.invalidInput "ShardLog directory contains records outside its canonical stream")
  else .ok r.firstOffset

/-! ### The log -/

/-- The loop of `retained_bounds` over neighbouring sequences. -/
def checkContiguous : List Nat → Except StorageError Unit
  | a :: b :: rest =>
    if 2 ^ 64 ≤ a + 1 then .error sequenceOverflow
    else if b ≠ a + 1 then .error (.invalidInput "ShardLog retained sequence contains a gap")
    else checkContiguous (b :: rest)
  | _ => .ok ()

/-- `retained_bounds`. -/
def retainedBounds (sequences : List Nat) : Except StorageError (Option (Nat × Nat)) :=
  match sequences.insertionSort (· ≤ ·) with
  | [] => .ok none
  | first :: rest => do
    checkContiguous (first :: rest)
    if 2 ^ 64 ≤ rest.getLastD first + 1 then .error sequenceOverflow
    else .ok (some (first, rest.getLastD first + 1))

/-- `bounds`. -/
def bounds (log : ShardLog) : Except StorageError (Option (Nat × Nat)) := do
  let sequences ← log.inner.catalog.mapM fun entry ↦ validateCatalogEntry entry.reservation
  retainedBounds sequences

/-- `open`. -/
def openLog (checksum : ExtentChecksum) (config : ShardLogConfig) (storeToken : Nat)
    (directory : List PackFile) : Except StorageError ShardLog := do
  let inner ← ShardStore.openInner checksum config.store storeToken directory
  let _ ← bounds ⟨inner⟩
  pure ⟨inner⟩

/-- The loop of `append_group`: the prepared extents, and the sum of their payload bytes. -/
def prepareRecords (store : ShardStore) :
    Nat → Nat → List RecordPayload → Except StorageError (List PreparedExtent × Nat)
  | _, payloadBytes, [] => .ok ([], payloadBytes)
  | sequence, payloadBytes, payload :: rest =>
    if h : sequence < 2 ^ 64 then
      if 2 ^ 64 ≤ payloadBytes + payload.bytes.length then .error sequenceOverflow
      else do
        let prepared ← store.prepareAppendAtomic (recordInput sequence h payload)
        let (others, total) ←
          prepareRecords store (sequence + 1) (payloadBytes + payload.bytes.length) rest
        pure (prepared :: others, total)
    else .error sequenceOverflow

/-- `append_group`. -/
def appendGroup (checksum : ExtentChecksum) (log : ShardLog) (firstSequence : Nat)
    (records : List RecordPayload) : Except StorageError (ShardLog × ShardLogAppendReceipt) :=
  if records.length = 0 then .error (.invalidInput "ShardLog append group cannot be empty")
  else if 2 ^ 64 ≤ firstSequence + (records.length - 1) then .error sequenceOverflow
  else do
    let (prepared, payloadBytes) ← prepareRecords log.inner firstSequence 0 records
    let inner ← log.inner.appendPreparedGroup checksum prepared
    pure (⟨inner⟩, ⟨firstSequence, firstSequence + (records.length - 1), records.length,
      payloadBytes⟩)

/-- `record_from_batch`. -/
def recordFromBatch (batch : StoredBatch) : Except StorageError ShardLogRecord := do
  let sequence ← validateCatalogEntry batch.reservation
  pure ⟨sequence, batch.payload⟩

/-- `read_from`. -/
def readFrom (log : ShardLog) (startSequence maxBytes maxRecords : Nat) :
    Except StorageError (List ShardLogRecord) := do
  let plan ← log.inner.planFetch topicPartition startSequence maxBytes maxRecords
  let batches ← log.inner.readFetchPlan plan
  batches.mapM recordFromBatch

/-- `compact_before`. -/
def compactBefore (log : ShardLog) (sequence : Nat) : Except StorageError ShardLog := do
  let inner ← log.inner.sealActive
  let inner ← inner.garbageCollect (Table.empty.insert topicPartition sequence)
  pure ⟨inner⟩

end ShardLog

/-! ### The abstract log -/

/-- Records with consecutive sequences. -/
def recordsFrom : Nat → List Bytes → List ShardLogRecord
  | _, [] => []
  | sequence, payload :: rest => ⟨sequence, payload⟩ :: recordsFrom (sequence + 1) rest

/-- A log as its users see it: the sequence of the first record, and the payloads. -/
structure RecordLog where
  first : Nat
  payloads : List Bytes

namespace RecordLog

/-- The records. -/
def records (l : RecordLog) : List ShardLogRecord := recordsFrom l.first l.payloads

/-- The sequence after the last record. -/
def next (l : RecordLog) : Nat := l.first + l.payloads.length

/-- The half-open range of the retained sequences. -/
def bounds (l : RecordLog) : Option (Nat × Nat) :=
  if l.payloads = [] then none else some (l.first, l.next)

/-- The records from a sequence on, within a budget. -/
def readFrom (l : RecordLog) (startSequence maxBytes maxRecords : Nat) :
    Except StorageError (List ShardLogRecord) :=
  if maxBytes = 0 ∨ maxRecords = 0 then
    .error (.invalidInput "fetch byte and batch limits must be nonzero")
  else
    Budget.takeWithin (fun r ↦ r.payload.length) maxBytes
      (.limitExceeded "fetch byte count overflow") maxRecords 0 false
      (l.records.dropWhile fun r ↦ decide (r.sequence < startSequence))

/-- The log with more records at its end. An empty log begins where the records begin. -/
def append (l : RecordLog) (firstSequence : Nat) (payloads : List Bytes) : RecordLog :=
  ⟨if l.payloads = [] then firstSequence else l.first, l.payloads ++ payloads⟩

/-- The log without its first records. -/
def drop (l : RecordLog) (count : Nat) : RecordLog := ⟨l.first + count, l.payloads.drop count⟩

end RecordLog

section Records

variable {n k : Nat} {ps qs : List Bytes}

theorem recordsFrom_append :
    recordsFrom n (ps ++ qs) = recordsFrom n ps ++ recordsFrom (n + ps.length) qs := by
  induction ps generalizing n with
  | nil => rfl
  | cons p ps ih =>
    rw [cons_append, recordsFrom, ih, recordsFrom, cons_append, length_cons,
      Nat.add_assoc, Nat.add_comm 1]

theorem recordsFrom_drop : recordsFrom (n + k) (ps.drop k) = (recordsFrom n ps).drop k := by
  induction ps generalizing n k with
  | nil => cases k <;> rfl
  | cons p ps ih =>
    cases k with
    | zero => rfl
    | succ k =>
      rw [drop_succ_cons, recordsFrom, drop_succ_cons, ← ih, Nat.add_assoc, Nat.add_comm 1]

theorem map_sequence_recordsFrom :
    (recordsFrom n ps).map ShardLogRecord.sequence = range' n ps.length := by
  induction ps generalizing n with
  | nil => rfl
  | cons p ps ih => rw [recordsFrom, map_cons, ih, length_cons, range'_succ]

/-- The records from a sequence on. -/
theorem dropWhile_recordsFrom (start : Nat) :
    (recordsFrom n ps).dropWhile (fun r ↦ decide (r.sequence < start)) =
      (recordsFrom n ps).drop (start - n) := by
  induction ps generalizing n with
  | nil => rw [recordsFrom, dropWhile_nil, drop_nil]
  | cons p ps ih =>
    rw [recordsFrom]
    by_cases hlt : n < start
    · rw [dropWhile_cons_of_pos (by simpa using hlt), ih,
        show start - n = start - (n + 1) + 1 by omega, drop_succ_cons]
    · rw [dropWhile_cons_of_neg (by simpa using hlt), Nat.sub_eq_zero_of_le (not_lt.1 hlt),
        drop_zero]

theorem map_payload_recordsFrom : (recordsFrom n ps).map ShardLogRecord.payload = ps := by
  induction ps generalizing n with
  | nil => rfl
  | cons p ps ih => rw [recordsFrom, map_cons, ih]

/-- **A read returns consecutive records**, at least one if there is one, as long as the limit
leaves room for the sum of two payloads. -/
theorem RecordLog.exists_readFrom_eq (hpayload : ∀ p ∈ l.payloads, p.length < 2 ^ 63)
    {startSequence maxBytes maxRecords : Nat} (hbytes : 0 < maxBytes) (hlimit : maxBytes ≤ 2 ^ 63)
    (hrecords : 0 < maxRecords) : ∃ count > 0, l.readFrom startSequence maxBytes maxRecords =
      .ok ((l.records.drop (startSequence - l.first)).take count) := by
  rw [RecordLog.readFrom, if_neg (by omega), RecordLog.records, dropWhile_recordsFrom]
  set rs := (recordsFrom l.first l.payloads).drop (startSequence - l.first)
  have hsize : ∀ r ∈ rs, r.payload.length < 2 ^ 63 := fun r hr ↦ by
    refine hpayload _ ?_
    rw [← @map_payload_recordsFrom l.first l.payloads]
    exact mem_map_of_mem (mem_of_mem_drop hr)
  obtain ⟨count, htake, hcount⟩ := Budget.takeWithin_eq_take
    (StorageError.limitExceeded "fetch byte count overflow") maxRecords hsize hlimit
  rw [htake]
  rcases rs with _ | ⟨r, rest⟩
  · exact ⟨1, Nat.one_pos, by simp⟩
  · exact ⟨count, (hcount [] r rest rfl).2 ⟨hrecords, .inl rfl⟩, rfl⟩

end Records

/-! ### Bounds -/

namespace ShardLog

theorem validateCatalogEntry_reservation (sequence : Nat) :
    validateCatalogEntry (reservation sequence) = .ok sequence := by
  simp [validateCatalogEntry, reservation, NonZeroU32.one]

theorem checkContiguous_range' {first n : Nat} (h : first + n < 2 ^ 64) :
    checkContiguous (range' first n) = .ok () := by
  induction n generalizing first with
  | zero => rfl
  | succ n ih =>
    cases n with
    | zero => rfl
    | succ n =>
      have hrest := @ih (first + 1) (by omega)
      rw [range'_succ, range'_succ, checkContiguous, if_neg (by omega), if_neg (not_not.2 rfl)]
      exact hrest

/-- The bounds of consecutive sequences, in whatever order the catalog has them. -/
theorem retainedBounds_of_perm {sequences : List Nat}
    (hperm : sequences.Perm (range' l.first l.payloads.length)) (hnext : l.next < 2 ^ 64) :
    retainedBounds sequences = .ok l.bounds := by
  have hsorted : sequences.insertionSort (· ≤ ·) = range' l.first l.payloads.length := by
    refine ((perm_insertionSort _ _).trans hperm).eq_of_pairwise (fun a b _ _ ↦ le_antisymm)
      (pairwise_insertionSort _ _) ?_
    exact (pairwise_lt_range' _).imp le_of_lt
  unfold retainedBounds RecordLog.bounds
  rw [hsorted]
  cases hps : l.payloads with
  | nil => rfl
  | cons p ps =>
    rw [RecordLog.next, hps, length_cons] at hnext
    have hcheck : checkContiguous (l.first :: range' (l.first + 1) ps.length) = .ok () :=
      checkContiguous_range' hnext
    have hlast : (range' (l.first + 1) ps.length).getLastD l.first = l.first + ps.length := by
      rw [getLastD_eq_getLast?, getLast?_range']
      split_ifs with hnil
      · rw [hnil]
        rfl
      · simp only [Option.getD_some]
        omega
    have hnext' : l.next = l.first + ps.length + 1 := by
      rw [RecordLog.next, hps, length_cons, Nat.add_assoc]
    rw [length_cons, range'_succ, hnext']
    dsimp only
    rw [hcheck, hlast]
    exact if_neg (by omega)

end ShardLog

/-! ### Logs and what they represent -/

section Maps

variable {α β γ δ : Type} {xs : List α} {ys : List β} {f : α → γ} {g : β → γ}

theorem map_comp_eq (k : γ → δ) (h : xs.map f = ys.map g) : xs.map (k ∘ f) = ys.map (k ∘ g) := by
  simpa using congrArg (map k) h

theorem exists_of_map_eq (h : xs.map f = ys.map g) {x : α} (hx : x ∈ xs) : ∃ y, f x = g y := by
  have hmem : f x ∈ xs.map f := mem_map_of_mem hx
  rw [h] at hmem
  obtain ⟨y, -, heq⟩ := mem_map.1 hmem
  exact ⟨y, heq.symm⟩

end Maps

/-- What a frame of the log stores. -/
def PreparedExtent.stored (x : PreparedExtent) : Reservation × Bytes := (x.reservation, x.payload)

/-- How a record is stored. -/
def ShardLogRecord.stored (r : ShardLogRecord) : Reservation × Bytes :=
  (ShardLog.reservation r.sequence, r.payload)

/-- The store below the log holds the records of the abstract log, in order. -/
structure ShardLog.Represents (checksum : ExtentChecksum) (config : ShardLogConfig)
    (log : ShardLog) (l : RecordLog) (front : List PackFrames) (last : PackFrames) : Prop where
  holds : log.inner.Holds checksum front last
  config_eq : log.inner.config = config.store
  validate : config.store.validate = .ok ()
  frames : (heldFrames (front ++ [last])).map PreparedExtent.stored =
    l.records.map ShardLogRecord.stored
  next_lt : l.next < 2 ^ 64

namespace ShardLog.Represents

/-- The record of an extent. -/
def recordAt (store : ShardStore) (location : ExtentLocation) : ShardLogRecord :=
  ⟨location.reservation.firstOffset, store.payloadAt location⟩

variable (h : log.Represents checksum config l front last) {location : ExtentLocation}

include h

theorem map_reservation_frames :
    (heldFrames (front ++ [last])).map (fun x ↦ x.reservation) =
      (range' l.first l.payloads.length).map reservation := by
  rw [← map_sequence_recordsFrom, map_map]
  exact map_comp_eq Prod.fst h.frames

/-- The extents of the log, in the order in which they were appended. -/
theorem map_reservation :
    (heldLocations (front ++ [last])).map ExtentLocation.reservation =
      (range' l.first l.payloads.length).map reservation :=
  (map_comp_eq StoredBatch.reservation h.holds.map_batchAt).trans h.map_reservation_frames

theorem map_lastOffset_frames :
    (heldFrames (front ++ [last])).map (fun x ↦ x.reservation.lastOffset) =
      range' l.first l.payloads.length :=
  (map_comp_eq Reservation.lastOffset h.map_reservation_frames).trans (map_id _)

theorem exists_sequence (hl : location ∈ heldLocations (front ++ [last])) :
    ∃ sequence, location.reservation = reservation sequence :=
  exists_of_map_eq h.map_reservation hl

theorem exists_sequence_frame {x : PreparedExtent} (hx : x ∈ heldFrames (front ++ [last])) :
    ∃ sequence, x.reservation = reservation sequence :=
  exists_of_map_eq h.map_reservation_frames hx

theorem counted : ∀ x ∈ heldFrames (front ++ [last]), x.reservation.Counted := fun x hx ↦ by
  obtain ⟨sequence, heq⟩ := h.exists_sequence_frame hx
  rw [heq]
  exact reservation_counted sequence

theorem map_firstOffset :
    (heldLocations (front ++ [last])).map (fun location ↦ location.reservation.firstOffset) =
      range' l.first l.payloads.length :=
  (map_comp_eq Reservation.firstOffset h.map_reservation).trans (map_id _)

/-- The store lists the extents of the log in the same order. -/
theorem locations : log.inner.ix.locations topicPartition = heldLocations (front ++ [last]) := by
  have hincreasing : (heldLocations (front ++ [last])).Pairwise fun a b ↦
      a.reservation.firstOffset < b.reservation.firstOffset := by
    rw [← pairwise_map, h.map_firstOffset]
    exact pairwise_lt_range' _
  have hall : (heldLocations (front ++ [last])).filter
      (fun location ↦ decide (location.reservation.topicPartition = topicPartition)) =
        heldLocations (front ++ [last]) := by
    refine filter_eq_self.2 fun location hl ↦ decide_eq_true ?_
    obtain ⟨sequence, heq⟩ := h.exists_sequence hl
    rw [heq]
    rfl
  have hperm : (log.inner.ix.locations topicPartition).Perm (heldLocations (front ++ [last])) := by
    refine (h.holds.ordered.perm topicPartition).trans ((h.holds.byBatch.filter _).trans ?_)
    rw [hall]
  refine hperm.eq_of_pairwise (fun a b ha hb hab hba ↦ ?_) (h.holds.ordered.sorted topicPartition)
    (hincreasing.imp le_of_lt)
  have hnodup : ((heldLocations (front ++ [last])).map
      fun location ↦ location.reservation.firstOffset).Nodup := by
    rw [h.map_firstOffset]
    exact nodup_range'
  exact inj_on_of_nodup_map hnodup (hperm.mem_iff.1 ha) hb (le_antisymm hab hba)

theorem payload_lt : ∀ payload ∈ l.payloads, payload.length < 2 ^ 63 := by
  have hpayloads : (heldFrames (front ++ [last])).map (fun x ↦ x.payload) = l.payloads :=
    (map_comp_eq Prod.snd h.frames).trans map_payload_recordsFrom
  intro payload hpayload
  rw [← hpayloads] at hpayload
  obtain ⟨x, -, rfl⟩ := mem_map.1 hpayload
  exact x.payload_lt

/-- **The bounds are those of the abstract log.** -/
theorem bounds_eq : log.bounds = .ok l.bounds := by
  have hperm := h.holds.catalog_perm
  have hvalid : log.inner.catalog.mapM (fun entry ↦ validateCatalogEntry entry.reservation) =
      .ok (log.inner.catalog.map fun entry ↦ entry.reservation.firstOffset) := by
    refine mapM_eq_ok fun entry hentry ↦ ?_
    obtain ⟨location, hl, rfl⟩ := mem_map.1 (hperm.mem_iff.1 hentry)
    obtain ⟨sequence, heq⟩ := h.exists_sequence hl
    change validateCatalogEntry location.reservation = .ok location.reservation.firstOffset
    rw [heq]
    exact validateCatalogEntry_reservation sequence
  have hsequences : (log.inner.catalog.map fun entry ↦ entry.reservation.firstOffset).Perm
      (range' l.first l.payloads.length) := by
    rw [← h.map_firstOffset]
    exact (hperm.map _).trans (Perm.of_eq (map_map ..))
  rw [bounds, hvalid]
  exact retainedBounds_of_perm hsequences h.next_lt

theorem map_recordAt : (heldLocations (front ++ [last])).map (recordAt log.inner) = l.records := by
  have hbatches := map_comp_eq (fun b : StoredBatch ↦
    ShardLogRecord.mk b.reservation.firstOffset b.payload) h.holds.map_batchAt
  have hframes := map_comp_eq (fun stored : Reservation × Bytes ↦
    ShardLogRecord.mk stored.1.firstOffset stored.2) h.frames
  exact hbatches.trans (hframes.trans (map_id _))

theorem recordFromBatch_batchAt (hl : location ∈ heldLocations (front ++ [last])) :
    recordFromBatch (log.inner.batchAt location) = .ok (recordAt log.inner location) := by
  obtain ⟨sequence, heq⟩ := h.exists_sequence hl
  rw [recordFromBatch, ShardStore.batchAt, recordAt, heq, validateCatalogEntry_reservation]
  rfl

/-- The records from a sequence on are the extents that do not end before it. -/
theorem dropWhile_records (startSequence : Nat) :
    l.records.dropWhile (fun r ↦ decide (r.sequence < startSequence)) =
      ((heldLocations (front ++ [last])).dropWhile fun location ↦
        decide (location.reservation.lastOffset < startSequence)).map (recordAt log.inner) := by
  have hsame : ∀ location ∈ heldLocations (front ++ [last]),
      location.reservation.lastOffset = (recordAt log.inner location).sequence := by
    intro location hl
    obtain ⟨sequence, heq⟩ := h.exists_sequence hl
    rw [recordAt, heq]
    rfl
  rw [← h.map_recordAt]
  generalize heldLocations (front ++ [last]) = ls at hsame
  induction ls with
  | nil => rfl
  | cons location ls ih =>
    obtain ⟨hl, hls⟩ := forall_mem_cons.1 hsame
    rw [map_cons, dropWhile_cons, dropWhile_cons, ← hl, ih hls]
    split_ifs <;> rfl

/-- **Reading is reading the abstract log.** -/
theorem readFrom_eq (startSequence maxBytes maxRecords : Nat) :
    log.readFrom startSequence maxBytes maxRecords =
      l.readFrom startSequence maxBytes maxRecords := by
  rw [readFrom, ShardStore.planFetch, RecordLog.readFrom]
  split_ifs with hzero
  · rfl
  · rw [h.locations, h.dropWhile_records, Budget.takeWithin_map]
    set ls := (heldLocations (front ++ [last])).dropWhile fun location ↦
      decide (location.reservation.lastOffset < startSequence) with hls
    have hheld : ∀ location ∈ ls, location ∈ heldLocations (front ++ [last]) :=
      fun location hl ↦ (dropWhile_sublist _).subset hl
    have hsizes : Budget.takeWithin ((fun r ↦ r.payload.length) ∘ recordAt log.inner) maxBytes
        (StorageError.limitExceeded "fetch byte count overflow") maxRecords 0 false ls =
          Budget.takeWithin ExtentLocation.payloadLen maxBytes
            (StorageError.limitExceeded "fetch byte count overflow") maxRecords 0 false ls :=
      Budget.takeWithin_congr fun location hl ↦
        ShardStore.length_payloadAt (h.holds.covers location (hheld location hl))
    rw [hsizes]
    cases htake : Budget.takeWithin ExtentLocation.payloadLen maxBytes
        (StorageError.limitExceeded "fetch byte count overflow") maxRecords 0 false ls with
    | error e => rfl
    | ok ys =>
      have hys : ∀ location ∈ ys, location ∈ heldLocations (front ++ [last]) :=
        fun location hl ↦ hheld location ((Budget.takeWithin_prefix htake).subset hl)
      change (log.inner.readFetchPlan (ys.map log.inner.metadataFor)).bind _ = _
      rw [ShardStore.readFetchPlan_eq fun location hl ↦ h.holds.covers location (hys location hl)]
      change (ys.map log.inner.batchAt).mapM recordFromBatch = _
      rw [mapM_map]
      exact mapM_eq_ok fun location hl ↦ h.recordFromBatch_batchAt (hys location hl)

end ShardLog.Represents

/-! ### Calls -/

/-- A call to a log. -/
inductive ShardLogOp where
  | appendGroup (firstSequence : Nat) (records : List RecordPayload)
  | readFrom (startSequence maxBytes maxRecords : Nat)
  | compactBefore (sequence : Nat)
  | sealActive
  /-- The log is closed and opened again. -/
  | reopen (storeToken : Nat)

namespace ShardLogOp

/-- The log after the call. -/
def apply (checksum : ExtentChecksum) (config : ShardLogConfig) (log : ShardLog) :
    ShardLogOp → Except StorageError ShardLog
  | appendGroup firstSequence records =>
    (log.appendGroup checksum firstSequence records).map Prod.fst
  | readFrom startSequence maxBytes maxRecords =>
    (log.readFrom startSequence maxBytes maxRecords).map fun _ ↦ log
  | compactBefore sequence => log.compactBefore sequence
  | sealActive => log.inner.sealActive.map ShardLog.mk
  | reopen storeToken => ShardLog.openLog checksum config storeToken log.inner.files

/-- The sequence is the one after the retained records, if there are any. -/
def extendsBounds (sequence : Nat) : Except StorageError (Option (Nat × Nat)) → Bool
  | .ok none => true
  | .ok (some (_, next)) => decide (next = sequence)
  | .error _ => false

/-- An appended group begins where the log ends, or the log is empty; and the sequence after the
group is still a number of 64 bits. -/
def Continues (log : ShardLog) : ShardLogOp → Prop
  | appendGroup firstSequence records =>
    extendsBounds firstSequence log.bounds = true ∧ firstSequence + records.length < 2 ^ 64
  | _ => True

instance (log : ShardLog) : DecidablePred (Continues log)
  | appendGroup .. => inferInstanceAs (Decidable (_ ∧ _))
  | readFrom .. | compactBefore _ | sealActive | reopen _ => isTrue trivial

/-- What the call does to the abstract log. Compaction removes some of the records below the
sequence, depending on where the packs end. -/
def Effect : ShardLogOp → RecordLog → RecordLog → Prop
  | appendGroup firstSequence records, l, l' =>
    l' = l.append firstSequence (records.map RecordPayload.bytes)
  | compactBefore sequence, l, l' => ∃ count ≤ l.payloads.length,
    (count = 0 ∨ l.first + count ≤ sequence) ∧ l' = l.drop count
  | _, l, l' => l' = l

end ShardLogOp

/-- Of packs whose frames come in ascending order, those that lie wholly below a bound are the first
ones: removing them removes the first frames. -/
theorem heldFrames_filter_eq_drop {low : PreparedExtent → Prop} (gone : PackFrames → Bool)
    (hlow : (heldFrames (front ++ [last])).Pairwise fun x y ↦ low y → low x)
    (hgone : ∀ p ∈ front, gone p = true ↔ p.frames ≠ [] ∧ ∀ x ∈ p.frames, low x) :
    ∃ count ≤ (heldFrames (front ++ [last])).length,
      heldFrames (front.filter (fun p ↦ !gone p) ++ [last]) =
        (heldFrames (front ++ [last])).drop count ∧
      ∀ x ∈ (heldFrames (front ++ [last])).take count, low x := by
  induction front with
  | nil => exact ⟨0, Nat.zero_le _, rfl, by simp⟩
  | cons p front ih =>
    rw [cons_append, heldFrames_cons] at hlow ⊢
    obtain ⟨-, hrest, hcross⟩ := pairwise_append.1 hlow
    obtain ⟨hp, hfront⟩ := forall_mem_cons.1 hgone
    obtain ⟨count, hle, hdrop, htake⟩ := ih hrest hfront
    by_cases hgo : gone p = true
    · refine ⟨p.frames.length + count, ?_, ?_, ?_⟩
      · rw [length_append]
        exact Nat.add_le_add_left hle _
      · rw [filter_cons_of_neg (by simpa using hgo), hdrop, drop_append,
          drop_of_length_le (Nat.le_add_right ..), Nat.add_sub_cancel_left, nil_append]
      · rw [take_append, take_of_length_le (Nat.le_add_right ..), Nat.add_sub_cancel_left]
        exact fun x hx ↦ (mem_append.1 hx).elim ((hp.1 hgo).2 x) (htake x)
    · rw [filter_cons_of_pos (by simpa using hgo), cons_append, heldFrames_cons]
      by_cases hempty : p.frames = []
      · rw [hempty]
        exact ⟨count, hle, hdrop, htake⟩
      · -- a frame of this pack stays, and so does everything after it
        obtain ⟨x, hx, hhigh⟩ : ∃ x ∈ p.frames, ¬ low x := by
          by_contra hall
          exact hgo (hp.2 ⟨hempty, fun x hx ↦ not_not.1 fun hhigh ↦ hall ⟨x, hx, hhigh⟩⟩)
        have hstays : front.filter (fun p ↦ !gone p) = front := by
          refine filter_eq_self.2 fun q hq ↦ ?_
          rw [Bool.not_eq_true', ← Bool.not_eq_true]
          intro hgo
          obtain ⟨hne, hall⟩ := (hfront q hq).1 hgo
          obtain ⟨y, hy⟩ := exists_mem_of_ne_nil _ hne
          have hmem : y ∈ heldFrames (front ++ [last]) :=
            mem_flatMap.2 ⟨q, mem_append_left _ hq, hy⟩
          exact hhigh (hcross x hx y hmem (hall y hy))
        exact ⟨0, Nat.zero_le _, by rw [hstays]; rfl, by simp⟩

namespace ShardLog

section Calls

variable {op : ShardLogOp} {records : List RecordPayload}

theorem prepareRecords_eq_ok {store : ShardStore} {payloadBytes total : Nat}
    {prepared : List PreparedExtent}
    (h : prepareRecords store sequence payloadBytes records = .ok (prepared, total)) :
    prepared.map PreparedExtent.stored =
      (recordsFrom sequence (records.map RecordPayload.bytes)).map ShardLogRecord.stored := by
  induction records generalizing sequence payloadBytes prepared total with
  | nil =>
    cases h
    rfl
  | cons payload rest ih =>
    rw [prepareRecords] at h
    split_ifs at h with hsequence hbytes
    obtain ⟨x, hx, h⟩ := bind_eq_ok_iff.1 h
    obtain ⟨⟨others, total'⟩, hothers, h⟩ := bind_eq_ok_iff.1 h
    cases h
    obtain ⟨u, -, hx⟩ := bind_eq_ok_iff.1 hx
    cases hx
    rw [map_cons, ih hothers]
    rfl

variable (h : log.Represents checksum config l front last)

include h

/-- **A group that continues the log is appended to the abstract log.** -/
theorem Represents.appendGroup {firstSequence : Nat}
    (hcontinues : (ShardLogOp.appendGroup firstSequence records).Continues log)
    {receipt : ShardLogAppendReceipt}
    (hok : log.appendGroup checksum firstSequence records = .ok (log', receipt)) :
    ∃ front' last', log'.Represents checksum config
      (l.append firstSequence (records.map RecordPayload.bytes)) front' last' := by
  rw [ShardLog.appendGroup] at hok
  split_ifs at hok
  obtain ⟨⟨prepared, payloadBytes⟩, hprepared, hok⟩ := bind_eq_ok_iff.1 hok
  obtain ⟨inner, hinner, hok⟩ := bind_eq_ok_iff.1 hok
  cases hok
  obtain ⟨front', last', hholds, hconfig, hheld⟩ := h.holds.appendPreparedGroup hinner
  obtain ⟨hbegin, hnext⟩ := hcontinues
  -- where the records begin in the abstract log
  have hfirst : firstSequence =
      (if l.payloads = [] then firstSequence else l.first) + l.payloads.length := by
    rw [h.bounds_eq, RecordLog.bounds] at hbegin
    split_ifs at hbegin ⊢ with hempty
    · rw [hempty]
      rfl
    · exact (of_decide_eq_true hbegin).symm
  refine ⟨front', last', hholds, hconfig.trans h.config_eq, h.validate, ?_, ?_⟩
  · have hrecords : (l.append firstSequence (records.map RecordPayload.bytes)).records =
        l.records ++ recordsFrom firstSequence (records.map RecordPayload.bytes) := by
      rw [RecordLog.records, RecordLog.append, recordsFrom_append, ← hfirst, RecordLog.records]
      split_ifs with hempty
      · rw [hempty]
        rfl
      · rfl
    rw [hheld, map_append, h.frames, hrecords, map_append, prepareRecords_eq_ok hprepared]
  · rw [RecordLog.next, RecordLog.append, length_append, length_map, ← Nat.add_assoc, ← hfirst]
    exact hnext

/-- The packs that compaction removes. -/
theorem Represents.mem_removedPacks_iff (sequence : Nat) {p : PackFrames} (hp : p ∈ front) :
    p.sequence ∈ log.inner.removedPacks (Table.empty.insert topicPartition sequence) ↔
      p.frames ≠ [] ∧ ∀ x ∈ p.frames, x.reservation.lastOffset < sequence := by
  rw [h.holds.mem_removedPacks_iff _ hp]
  refine and_congr_right' (forall₂_congr fun x hx ↦ ?_)
  obtain ⟨n, heq⟩ := h.exists_sequence_frame (mem_flatMap.2 ⟨p, mem_append_left _ hp, hx⟩)
  have htp : x.reservation.topicPartition = topicPartition := by
    rw [heq]
    rfl
  simp [htp]

/-- **Compaction removes first records below the sequence.** -/
theorem Represents.compactBefore (hok : log.compactBefore sequence = .ok log') :
    ∃ l' front' last', (ShardLogOp.compactBefore sequence).Effect l l' ∧
      log'.Represents checksum config l' front' last' := by
  obtain ⟨sealedStore, hsealed, hok⟩ := bind_eq_ok_iff.1 hok
  obtain ⟨inner, hinner, hok⟩ := bind_eq_ok_iff.1 hok
  cases hok
  obtain ⟨front₁, last₁, hholds₁, hconfig₁, hheld₁⟩ := h.holds.sealActive hsealed
  obtain ⟨hholds₂, hconfig₂⟩ := hholds₁.garbageCollect hinner
  have h₁ : ShardLog.Represents checksum config ⟨sealedStore⟩ l front₁ last₁ :=
    ⟨hholds₁, hconfig₁.trans h.config_eq, h.validate, hheld₁ ▸ h.frames, h.next_lt⟩
  have hlow : (heldFrames (front₁ ++ [last₁])).Pairwise fun x y ↦
      y.reservation.lastOffset < sequence → x.reservation.lastOffset < sequence := by
    have : (heldFrames (front₁ ++ [last₁])).Pairwise fun x y ↦
        x.reservation.lastOffset < y.reservation.lastOffset := by
      rw [← pairwise_map, h₁.map_lastOffset_frames]
      exact pairwise_lt_range' _
    exact this.imp fun hlt ↦ hlt.trans
  set removed := sealedStore.removedPacks (Table.empty.insert topicPartition sequence)
  obtain ⟨count, hle, hdrop, htake⟩ := heldFrames_filter_eq_drop
    (fun p ↦ decide (p.sequence ∈ removed)) hlow
    fun p hp ↦ decide_eq_true_iff.trans (h₁.mem_removedPacks_iff sequence hp)
  have hfilter : front₁.filter (fun p ↦ decide (p.sequence ∉ removed)) =
      front₁.filter fun p ↦ !decide (p.sequence ∈ removed) :=
    filter_congr fun _ _ ↦ decide_not
  have hlength : (heldFrames (front₁ ++ [last₁])).length = l.payloads.length := by
    have := congrArg length h₁.map_lastOffset_frames
    rwa [length_map, length_range'] at this
  rw [hlength] at hle
  refine ⟨l.drop count, _, last₁, ⟨count, hle, ?_, rfl⟩, hholds₂,
    hconfig₂.trans h₁.config_eq, h.validate, ?_, ?_⟩
  · -- the last of the removed records lies below the sequence
    have hsequences : ((heldFrames (front₁ ++ [last₁])).take count).map
        (fun x ↦ x.reservation.lastOffset) = range' l.first count := by
      rw [map_take, h₁.map_lastOffset_frames, take_range'_of_length_ge hle]
    rcases Nat.eq_zero_or_pos count with hzero | hpos
    · exact .inl hzero
    · have hmem : l.first + (count - 1) ∈ range' l.first count :=
        mem_range'_1.2 ⟨by omega, by omega⟩
      rw [← hsequences] at hmem
      obtain ⟨x, hx, heq⟩ := mem_map.1 hmem
      have := htake x hx
      omega
  · rw [hfilter, hdrop, map_drop, h₁.frames, ← map_drop, RecordLog.records,
      RecordLog.records, RecordLog.drop, recordsFrom_drop]
  · have := h.next_lt
    simp only [RecordLog.next, RecordLog.drop, length_drop] at this ⊢
    omega

/-- **Reopening gives a log that represents the same records.** -/
theorem Represents.reopen (hlimit : headerLen + config.maxRecordBytes + checksumLen < 2 ^ 64)
    (storeToken : Nat) :
    ∃ reopened, openLog checksum config storeToken log.inner.files = .ok reopened ∧
      reopened.Represents checksum config l front last := by
  obtain ⟨inner, hopen, hholds, hconfig⟩ := h.holds.reopen (by rw [h.config_eq]; exact h.validate)
    (by rw [h.config_eq]; exact hlimit) h.counted storeToken
  have h' : Represents checksum config ⟨inner⟩ l front last :=
    ⟨hholds, hconfig.trans h.config_eq, h.validate, h.frames, h.next_lt⟩
  rw [h.config_eq] at hopen
  refine ⟨⟨inner⟩, ?_, h'⟩
  rw [openLog, hopen]
  change (bounds ⟨inner⟩).bind _ = _
  rw [h'.bounds_eq]
  rfl

/-- **Every call does to the store what it does to the abstract log.** -/
theorem Represents.step (hlimit : headerLen + config.maxRecordBytes + checksumLen < 2 ^ 64)
    (hcontinues : op.Continues log) (hok : op.apply checksum config log = .ok log') :
    ∃ l' front' last', op.Effect l l' ∧
      log'.Represents checksum config l' front' last' := by
  cases op with
  | appendGroup firstSequence records =>
    obtain ⟨⟨after, receipt⟩, happend, rfl⟩ := map_eq_ok_iff.1 hok
    obtain ⟨front', last', h'⟩ := h.appendGroup hcontinues happend
    exact ⟨_, front', last', rfl, h'⟩
  | readFrom startSequence maxBytes maxRecords =>
    obtain ⟨records, -, rfl⟩ := map_eq_ok_iff.1 hok
    exact ⟨l, front, last, rfl, h⟩
  | compactBefore sequence => exact h.compactBefore hok
  | sealActive =>
    obtain ⟨inner, hsealed, rfl⟩ := map_eq_ok_iff.1 hok
    obtain ⟨front', last', hholds, hconfig, hheld⟩ := h.holds.sealActive hsealed
    exact ⟨l, front', last', rfl, hholds, hconfig.trans h.config_eq, h.validate,
      hheld ▸ h.frames, h.next_lt⟩
  | reopen storeToken =>
    obtain ⟨reopened, hopen, h'⟩ := h.reopen hlimit storeToken
    cases hopen.symm.trans hok
    exact ⟨l, front, last, rfl, h'⟩

end Calls

end ShardLog

/-! ### Runs of a log -/

/-- The calls all succeed on a log that begins with an empty directory, and leave `log`. Every call
is one that `permitted` allows in the state it meets. -/
inductive ShardLogRun (checksum : ExtentChecksum) (config : ShardLogConfig)
    (permitted : ShardLog → ShardLogOp → Prop) : List ShardLogOp → ShardLog → Prop
  | opened {storeToken : Nat} {log : ShardLog}
      (h : ShardLog.openLog checksum config storeToken [] = .ok log) :
      ShardLogRun checksum config permitted [] log
  | step {ops : List ShardLogOp} {op : ShardLogOp} {log log' : ShardLog}
      (run : ShardLogRun checksum config permitted ops log) (hop : permitted log op)
      (h : op.apply checksum config log = .ok log') :
      ShardLogRun checksum config permitted (ops ++ [op]) log'

/-- What the calls do to the abstract log, one after the other. -/
inductive RecordLog.Run : List ShardLogOp → RecordLog → Prop
  | empty (first : Nat) : RecordLog.Run [] ⟨first, []⟩
  | step {ops : List ShardLogOp} {op : ShardLogOp} {l l' : RecordLog} (run : RecordLog.Run ops l)
      (heffect : op.Effect l l') : RecordLog.Run (ops ++ [op]) l'

section Runs

theorem ShardLogRun.exists_represents
    (run : ShardLogRun checksum config (fun log op ↦ op.Continues log) ops log)
    (hlimit : headerLen + config.maxRecordBytes + checksumLen < 2 ^ 64) :
    ∃ l front last, RecordLog.Run ops l ∧ log.Represents checksum config l front last := by
  induction run with
  | opened h =>
    obtain ⟨inner, hinner, h⟩ := bind_eq_ok_iff.1 h
    obtain ⟨b, -, h⟩ := bind_eq_ok_iff.1 h
    cases h
    obtain ⟨hholds, hconfig, hvalid⟩ := ShardStore.holds_of_openInner_nil hinner
    exact ⟨⟨0, []⟩, [], ⟨0, []⟩, .empty 0, hholds, hconfig, hvalid, rfl, Nat.two_pow_pos 64⟩
  | step run hop hok ih =>
    obtain ⟨l, front, last, hrun, h⟩ := ih
    obtain ⟨l', front', last', heffect, h'⟩ := h.step hlimit hop hok
    exact ⟨l', front', last', hrun.step heffect, h'⟩

end Runs

/-- **A log survives its history.** After any run of successful calls in which every group continues
the log, opening the directory succeeds; the log before and after shows the records of one abstract
log, the one that the calls build: the same bounds, and the same answer to every read. A read
returns consecutive records from the requested sequence on, at least one if there is one; only under
limits beyond `2 ^ 63` bytes may the sum of the payloads overflow. -/
theorem shardLog_survives_reopen {checksum : ExtentChecksum} {config : ShardLogConfig}
    {ops : List ShardLogOp} {log : ShardLog}
    (run : ShardLogRun checksum config (fun log op ↦ op.Continues log) ops log)
    (hlimit : headerLen + config.maxRecordBytes + checksumLen < 2 ^ 64) (storeToken : Nat) :
    ∃ reopened l, ShardLog.openLog checksum config storeToken log.inner.files =
        .ok reopened ∧ RecordLog.Run ops l ∧
      log.bounds = .ok l.bounds ∧ reopened.bounds = .ok l.bounds ∧
      (∀ startSequence maxBytes maxRecords, log.readFrom startSequence maxBytes maxRecords =
          l.readFrom startSequence maxBytes maxRecords ∧
        reopened.readFrom startSequence maxBytes maxRecords =
          l.readFrom startSequence maxBytes maxRecords) ∧
      ∀ startSequence maxBytes maxRecords, 0 < maxBytes → maxBytes ≤ 2 ^ 63 → 0 < maxRecords →
        ∃ count > 0, l.readFrom startSequence maxBytes maxRecords =
          .ok ((l.records.drop (startSequence - l.first)).take count) := by
  obtain ⟨l, front, last, hrun, h⟩ := run.exists_represents hlimit
  obtain ⟨reopened, hopen, h'⟩ := h.reopen hlimit storeToken
  refine ⟨reopened, l, hopen, hrun, h.bounds_eq, h'.bounds_eq, ?_, ?_⟩
  · exact fun startSequence maxBytes maxRecords ↦ ⟨h.readFrom_eq .., h'.readFrom_eq ..⟩
  · exact fun startSequence maxBytes maxRecords hbytes hle hrecords ↦
      RecordLog.exists_readFrom_eq h.payload_lt hbytes hle hrecords

theorem ShardLogRun.imp {p q : ShardLog → ShardLogOp → Prop}
    (run : ShardLogRun checksum config p ops log) (h : ∀ log op, p log op → q log op) :
    ShardLogRun checksum config q ops log := by
  induction run with
  | opened hopen => exact .opened hopen
  | step _ hop hok ih => exact .step ih (h _ _ hop) hok

/-- The calls, one after the other, as long as they are permitted and succeed. -/
def runLog (checksum : ExtentChecksum) (config : ShardLogConfig)
    (permitted : ShardLog → ShardLogOp → Bool) : ShardLog → List ShardLogOp → Option ShardLog
  | log, [] => some log
  | log, op :: ops =>
    if permitted log op then
      (op.apply checksum config log).toOption.bind fun log ↦
        runLog checksum config permitted log ops
    else none

theorem ShardLogRun.runLog {permitted : ShardLog → ShardLogOp → Bool} {before : List ShardLogOp}
    (run : ShardLogRun checksum config (fun log op ↦ permitted log op = true) before log)
    (h : runLog checksum config permitted log ops = some log') :
    ShardLogRun checksum config (fun log op ↦ permitted log op = true) (before ++ ops)
      log' := by
  induction ops generalizing before log with
  | nil =>
    cases h
    rwa [append_nil]
  | cons op ops ih =>
    rw [ShardStream.runLog] at h
    split_ifs at h with hop
    cases hok : op.apply checksum config log with
    | error e => rw [hok] at h; cases h
    | ok next =>
      rw [hok] at h
      have := ih (run.step hop hok) h
      rwa [append_assoc] at this

/-- A run, and what opening the directory it leaves gives. -/
theorem ShardLogRun.exists_of_runLog (checksum : ExtentChecksum)
    (config : ShardLogConfig) (permitted : ShardLog → ShardLogOp → Bool) (ops : List ShardLogOp)
    (p : Except StorageError ShardLog → Bool)
    (h : (((ShardLog.openLog checksum config 0 []).toOption.bind fun log ↦
      ShardStream.runLog checksum config permitted log ops).map fun log ↦
        p (ShardLog.openLog checksum config 1 log.inner.files)) = some true) :
    ∃ log, ShardLogRun checksum config (fun log op ↦ permitted log op = true) ops log ∧
      p (ShardLog.openLog checksum config 1 log.inner.files) = true := by
  cases hopen : ShardLog.openLog checksum config 0 [] with
  | error e => rw [hopen] at h; cases h
  | ok log =>
    rw [hopen] at h
    obtain ⟨log', hrun, hp⟩ := Option.map_eq_some_iff.1 h
    exact ⟨log', (ShardLogRun.opened hopen).runLog hrun, hp⟩

/-- A payload of one byte. -/
def byteRecord (byte : UInt8) : RecordPayload := ⟨[byte], by simp⟩

/-- A run of two groups, a compaction and one more group. -/
def continuingCalls : List ShardLogOp :=
  [.appendGroup 7 [byteRecord 1, byteRecord 2], .appendGroup 9 [byteRecord 3], .compactBefore 9,
    .appendGroup 10 [byteRecord 4], .readFrom 9 100 100]

/-- The log of `continuingCalls` has the same bounds after it was opened again. -/
theorem continuing_log_survives : ∃ log reopened : ShardLog,
    ShardLogRun lengthChecksum ⟨300, 16⟩ (fun log op ↦ op.Continues log) continuingCalls log ∧
      ShardLog.openLog lengthChecksum ⟨300, 16⟩ 1 log.inner.files = .ok reopened ∧
      reopened.bounds = log.bounds := by
  obtain ⟨log, run, -⟩ := ShardLogRun.exists_of_runLog lengthChecksum ⟨300, 16⟩
    (fun log op ↦ decide (op.Continues log)) continuingCalls (fun _ ↦ true) (by decide +kernel)
  have run' := run.imp fun log op hop ↦ of_decide_eq_true hop
  obtain ⟨reopened, l, hopen, -, hbounds, hbounds', -⟩ :=
    shardLog_survives_reopen run' (by decide) 1
  exact ⟨log, reopened, run', hopen, hbounds'.trans hbounds.symm⟩

/-- **What a log accepts and does not survive.** A group that leaves a gap is appended, and so is a
record with the last sequence of 64 bits; in both cases opening the directory fails. -/
theorem gap_and_last_sequence_accepted :
    (∃ log, ShardLogRun lengthChecksum ⟨1000, 16⟩ (fun _ _ ↦ true = true)
        [.appendGroup 0 [byteRecord 1], .appendGroup 5 [byteRecord 2]] log ∧
      (ShardLog.openLog lengthChecksum ⟨1000, 16⟩ 1 log.inner.files).toOption.isNone = true) ∧
    ∃ log, ShardLogRun lengthChecksum ⟨1000, 16⟩ (fun _ _ ↦ true = true)
        [.appendGroup (2 ^ 64 - 1) [byteRecord 1]] log ∧
      (ShardLog.openLog lengthChecksum ⟨1000, 16⟩ 1 log.inner.files).toOption.isNone = true :=
  ⟨ShardLogRun.exists_of_runLog _ _ (fun _ _ ↦ true) _ (·.toOption.isNone) (by decide +kernel),
    ShardLogRun.exists_of_runLog _ _ (fun _ _ ↦ true) _ (·.toOption.isNone) (by decide +kernel)⟩

end ShardStream
