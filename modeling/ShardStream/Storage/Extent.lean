import ShardStream.Engine.Types
import ShardStream.Library.Bytes

/-!
# Extent frames

A batch is stored as one frame of a pack file: a header of fixed length, the payload, and a checksum
over both. The header begins with a prefix (magic, version, flags, header length, frame length) and
goes on with the reservation, the producer record, the group record and the payload length. Absent
records are written as zeros.

Decoding a frame that was encoded gives the values back (`decodeExtent_frame`), for every producer
and group record and under every checksum function. The one condition on the values is that the
reserved range has as many offsets as records: the decoder checks it, the encoder does not.

Values of the source's machine types are natural numbers with their bounds (`ExtentInput`); paths in
error values are the sequence numbers of the packs.
-/

namespace ShardStream

open List

variable {pack offset : Nat} {l : ExtentLocation} {producer : Option ProducerSequence}
  {atomicGroup : Option AtomicGroupSequence}

/-- `StorageError`, with the variants the modelled functions return. -/
inductive StorageError where
  | io (message : String)
  | invalidInput (message : String)
  | limitExceeded (message : String)
  | corrupt (pack offset : Nat) (message : String)
  deriving DecidableEq

/-! ### Layout -/

/-- `EXTENT_MAGIC`, the letters `SSE8`. -/
def extentMagic : Bytes := [83, 83, 69, 56]

/-- `EXTENT_VERSION`. -/
def extentVersion : Nat := 8

/-- `EXTENT_FLAGS`. -/
def extentFlags : Nat := 0

/-- `PREFIX_LEN`. -/
def prefixLen : Nat := 4 + 1 + 1 + 2 + 8

/-- `PRODUCER_FIXED_LEN`. -/
def producerFixedLen : Nat := 1 + 3 + 16 + 4 + 8 + 1 + 3 + 16 + 1 + 3 + 16

/-- `GROUP_FIXED_LEN`. -/
def groupFixedLen : Nat := 1 + 3 + 16 + 8 + 16

/-- `BODY_FIXED_LEN`. -/
def bodyFixedLen : Nat :=
  16 + 4 + 16 + 8 + 8 + 4 + 4 + 8 + 8 + 8 + producerFixedLen + groupFixedLen + 8

/-- `HEADER_LEN`. -/
def headerLen : Nat := prefixLen + bodyFixedLen

/-- `CHECKSUM_LEN`. -/
def checksumLen : Nat := 8

/-! ### Machine values -/

/-- The numbers of the reservation fit the types of its fields. -/
structure Reservation.Typed (r : Reservation) : Prop where
  topicId : r.topicId < 2 ^ 128
  partitionId : r.partitionId < 2 ^ 32
  batchId : r.batchId < 2 ^ 128
  firstOffset : r.firstOffset < 2 ^ 64
  lastOffset : r.lastOffset < 2 ^ 64
  virtualLaneId : r.placement.virtualLaneId < 2 ^ 32
  ringEpoch : r.placement.ringEpoch < 2 ^ 64
  leaderEpoch : r.placement.leaderEpoch < 2 ^ 64
  sequence : r.placement.sequence < 2 ^ 64

/-- The numbers of the producer record fit the types of its fields. -/
structure ProducerSequence.Typed (p : ProducerSequence) : Prop where
  producerId : p.producerId < 2 ^ 128
  epoch : p.epoch < 2 ^ 32
  firstSequence : p.firstSequence < 2 ^ 64
  eventId : ∀ id ∈ p.eventId, id < 2 ^ 128
  digestAlgorithm : p.digestAlgorithm < 2 ^ 8

/-- The numbers of the group record fit the types of its fields. -/
structure AtomicGroupSequence.Typed (g : AtomicGroupSequence) : Prop where
  transactionId : g.transactionId < 2 ^ 128
  chunkSequence : g.chunkSequence < 2 ^ 64

/-- What an append stores: a reservation, the two optional records and the payload, all of them
values of the source's types. A slice has at most `isize::MAX` bytes. -/
structure ExtentInput where
  reservation : Reservation
  producer : Option ProducerSequence
  atomicGroup : Option AtomicGroupSequence
  payload : Bytes
  reservation_typed : reservation.Typed
  producer_typed : ∀ p ∈ producer, p.Typed
  atomicGroup_typed : ∀ g ∈ atomicGroup, g.Typed
  payload_lt : payload.length < 2 ^ 63

theorem typed_of_no_producer : ∀ p ∈ (none : Option ProducerSequence), p.Typed := by simp

theorem typed_of_no_group : ∀ g ∈ (none : Option AtomicGroupSequence), g.Typed := by simp

/-! ### Encoding -/

/-- `k` zero bytes. -/
def zeros (k : Nat) : Bytes := replicate k 0

/-- The event id within the producer record. -/
def eventBytes : Option Nat → Bytes
  | some eventId => .le 1 1 ++ (zeros 3 ++ .le 16 eventId)
  | none => zeros 20

/-- The producer record. -/
def producerBytes : Option ProducerSequence → Bytes
  | some p => .le 1 1 ++ (zeros 3 ++ (.le 16 p.producerId ++ (.le 4 p.epoch ++
      (.le 8 p.firstSequence ++ (.le 1 p.digestAlgorithm ++ (zeros 3 ++
        (.le 16 p.payloadDigest.toNat ++ eventBytes p.eventId)))))))
  | none => zeros producerFixedLen

/-- The group record. -/
def groupBytes : Option AtomicGroupSequence → Bytes
  | some g => .le 1 1 ++ (zeros 3 ++ (.le 16 g.transactionId ++ (.le 8 g.chunkSequence ++
      .le 16 g.payloadDigest.toNat)))
  | none => zeros groupFixedLen

/-- The first sixteen bytes of a frame. -/
def extentPrefix (frameLen : Nat) : Bytes :=
  extentMagic ++ (.le 1 extentVersion ++ (.le 1 extentFlags ++ (.le 2 headerLen ++ .le 8 frameLen)))

/-- The header after the first sixteen bytes. -/
def extentBody (r : Reservation) (producer : Option ProducerSequence)
    (atomicGroup : Option AtomicGroupSequence) (payloadLen : Nat) : Bytes :=
  .le 16 r.topicId ++ (.le 4 r.partitionId ++ (.le 16 r.batchId ++ (.le 8 r.firstOffset ++
    (.le 8 r.lastOffset ++ (.le 4 r.recordCount.get ++ (.le 4 r.placement.virtualLaneId ++
      (.le 8 r.placement.ringEpoch ++ (.le 8 r.placement.leaderEpoch ++
        (.le 8 r.placement.sequence ++ (producerBytes producer ++ (groupBytes atomicGroup ++
          .le 8 payloadLen)))))))))))

/-- `encode_extent_header`. -/
def encodeExtentHeader (r : Reservation) (producer : Option ProducerSequence)
    (atomicGroup : Option AtomicGroupSequence) (frameLen payloadLen : Nat) :
    Except StorageError Bytes :=
  if producer.any (·.digestAlgorithm ≠ digestXxh3128) then
    .error (.invalidInput "unsupported producer payload digest algorithm")
  else .ok (extentPrefix frameLen ++ extentBody r producer atomicGroup payloadLen)

/-- `EncodedExtent`. -/
structure EncodedExtent where
  header : Bytes
  checksum : UInt64
  frameLen : Nat
  deriving DecidableEq

/-- `extent_frame_lengths`. -/
def extentFrameLengths (payloadLen : Nat) : Except StorageError Nat :=
  if headerLen + payloadLen + checksumLen < 2 ^ 64 then .ok (headerLen + payloadLen + checksumLen)
  else .error (.limitExceeded "extent frame length overflow")

/-- `extent_checksum`, a function of the header and the payload. -/
abbrev ExtentChecksum := Bytes → Bytes → UInt64

/-- `encode_extent`. -/
def encodeExtent (checksum : ExtentChecksum) (x : ExtentInput) :
    Except StorageError EncodedExtent := do
  let frameLen ← extentFrameLengths x.payload.length
  let header ← encodeExtentHeader x.reservation x.producer x.atomicGroup frameLen x.payload.length
  pure { header, checksum := checksum header x.payload, frameLen }

/-- The frame as it is written: header, payload and checksum. -/
def EncodedExtent.frame (e : EncodedExtent) (payload : Bytes) : Bytes :=
  e.header ++ (payload ++ .le checksumLen e.checksum.toNat)

/-! ### Decoding -/

/-- A number of `width` bytes, as `Decoder` reads it. -/
def readNumber (width : Nat) : Reader StorageError Nat :=
  .number (.invalidInput "truncated encoded value") width

/-- Some bytes, as `Decoder` reads them. -/
def readBytes (n : Nat) : Reader StorageError Bytes :=
  .take (.invalidInput "truncated encoded value") n

/-- The fields of the producer record before they are interpreted. -/
structure ProducerFields where
  present : Nat
  reserved : Bytes
  producerId : Nat
  epoch : Nat
  firstSequence : Nat
  digestAlgorithm : Nat
  digestReserved : Bytes
  payloadDigest : Bytes
  eventPresent : Nat
  eventReserved : Bytes
  eventId : Nat

/-- The part of `decode_extent_header` that reads the producer record. -/
def readProducerFields : Reader StorageError ProducerFields := do
  let present ← readNumber 1
  let reserved ← readBytes 3
  let producerId ← readNumber 16
  let epoch ← readNumber 4
  let firstSequence ← readNumber 8
  let digestAlgorithm ← readNumber 1
  let digestReserved ← readBytes 3
  let payloadDigest ← readBytes 16
  let eventPresent ← readNumber 1
  let eventReserved ← readBytes 3
  let eventId ← readNumber 16
  pure ⟨present, reserved, producerId, epoch, firstSequence, digestAlgorithm, digestReserved,
    payloadDigest, eventPresent, eventReserved, eventId⟩

/-- A digest from its sixteen bytes. -/
def digestOfBytes (bytes : Bytes) : Digest := BitVec.ofNat 128 (Bytes.ofLe bytes)

/-- The part of `decode_extent_header` that interprets the producer record. -/
def interpretProducer (pack offset : Nat) (f : ProducerFields) :
    Except StorageError (Option ProducerSequence) :=
  if f.reserved ≠ zeros 3 ∨ f.digestReserved ≠ zeros 3 ∨ f.eventReserved ≠ zeros 3 then
    .error (.corrupt pack offset "producer reserved bytes are nonzero")
  else
    match f.present with
    | 0 =>
      if f.producerId ≠ 0 ∨ f.epoch ≠ 0 ∨ f.firstSequence ≠ 0 ∨ f.digestAlgorithm ≠ 0 ∨
          f.payloadDigest ≠ zeros 16 ∨ f.eventPresent ≠ 0 ∨ f.eventId ≠ 0 then
        .error (.corrupt pack offset "absent producer metadata is nonzero")
      else .ok none
    | 1 =>
      if f.digestAlgorithm = digestXxh3128 then
        let found : Option Nat → ProducerSequence := fun eventId ↦
          { producerId := f.producerId, epoch := f.epoch, firstSequence := f.firstSequence, eventId,
            digestAlgorithm := f.digestAlgorithm, payloadDigest := digestOfBytes f.payloadDigest }
        if f.eventPresent = 0 ∧ f.eventId = 0 then .ok (some (found none))
        else if f.eventPresent = 1 then .ok (some (found (some f.eventId)))
        else .error (.corrupt pack offset "invalid producer event metadata")
      else .error (.corrupt pack offset "unsupported producer digest algorithm")
    | _ => .error (.corrupt pack offset "invalid producer metadata flag")

/-- The fields of the group record before they are interpreted. -/
structure GroupFields where
  present : Nat
  reserved : Bytes
  transactionId : Nat
  chunkSequence : Nat
  payloadDigest : Bytes

/-- The part of `decode_extent_header` that reads the group record. -/
def readGroupFields : Reader StorageError GroupFields := do
  let present ← readNumber 1
  let reserved ← readBytes 3
  let transactionId ← readNumber 16
  let chunkSequence ← readNumber 8
  let payloadDigest ← readBytes 16
  pure ⟨present, reserved, transactionId, chunkSequence, payloadDigest⟩

/-- The part of `decode_extent_header` that interprets the group record. -/
def interpretGroup (pack offset : Nat) (f : GroupFields) :
    Except StorageError (Option AtomicGroupSequence) :=
  if f.reserved ≠ zeros 3 then
    .error (.corrupt pack offset "atomic group reserved bytes are nonzero")
  else if f.present = 0 ∧ f.transactionId = 0 ∧ f.chunkSequence = 0 ∧
      f.payloadDigest = zeros 16 then .ok none
  else if f.present = 1 then
    .ok (some ⟨f.transactionId, f.chunkSequence, digestOfBytes f.payloadDigest⟩)
  else .error (.corrupt pack offset "invalid atomic group metadata")

/-- `NonZeroU32::new` on a number read from four bytes. -/
def nonZeroU32 (pack offset n : Nat) : Except StorageError NonZeroU32 :=
  if h : 0 < n ∧ n < 2 ^ 32 then .ok ⟨n, h.1, h.2⟩
  else .error (.corrupt pack offset "zero record count")

/-- `DecodedExtentHeader`. -/
structure DecodedExtentHeader where
  reservation : Reservation
  producer : Option ProducerSequence
  atomicGroup : Option AtomicGroupSequence
  payloadLen : Nat
  deriving DecidableEq

/-- `decode_extent_header`. -/
def decodeExtentHeader (pack offset : Nat) : Reader StorageError DecodedExtentHeader := do
  let topicId ← readNumber 16
  let partitionId ← readNumber 4
  let batchId ← readNumber 16
  let firstOffset ← readNumber 8
  let lastOffset ← readNumber 8
  let count ← readNumber 4
  let recordCount ← liftM (nonZeroU32 pack offset count)
  let virtualLaneId ← readNumber 4
  let ringEpoch ← readNumber 8
  let leaderEpoch ← readNumber 8
  let sequence ← readNumber 8
  let producerFields ← readProducerFields
  let producer ← liftM (interpretProducer pack offset producerFields)
  let groupFields ← readGroupFields
  let atomicGroup ← liftM (interpretGroup pack offset groupFields)
  let payloadLen ← readNumber 8
  -- `checked_add`: beyond 64 bits there is no sum to compare with
  if firstOffset + (recordCount.get - 1) < 2 ^ 64 ∧
      firstOffset + (recordCount.get - 1) = lastOffset then
    pure ⟨⟨topicId, partitionId, batchId, firstOffset, lastOffset, recordCount,
      ⟨virtualLaneId, ringEpoch, leaderEpoch, sequence⟩⟩, producer, atomicGroup, payloadLen⟩
  else
    throw (.corrupt pack offset "record range does not match record count")

/-- `ExtentLocation`. -/
structure ExtentLocation where
  reservation : Reservation
  producer : Option ProducerSequence
  atomicGroup : Option AtomicGroupSequence
  packSequence : Nat
  payloadOffset : Nat
  payloadLen : Nat
  deriving DecidableEq

/-- `decode_extent`. The frame begins at `offset` of the pack. -/
def decodeExtent (checksum : ExtentChecksum) (pack offset : Nat) (frame : Bytes) :
    Except StorageError ExtentLocation :=
  if frame.length < headerLen + checksumLen then .error (.corrupt pack offset "frame too short")
  else
    let payloadEnd := frame.length - checksumLen
    let header := frame.take headerLen
    let payload := (frame.take payloadEnd).drop headerLen
    if (checksum header payload).toNat ≠ Bytes.ofLe (frame.drop payloadEnd) then
      .error (.corrupt pack offset "extent checksum mismatch")
    else do
      let (h, rest) ← decodeExtentHeader pack offset ((frame.take payloadEnd).drop prefixLen)
      -- the payload must be exactly what is left
      if rest.length ≠ h.payloadLen then
        throw (.corrupt pack offset "payload length does not match frame")
      let location : ExtentLocation :=
        { reservation := h.reservation, producer := h.producer, atomicGroup := h.atomicGroup,
          packSequence := 0, payloadOffset := offset + headerLen, payloadLen := h.payloadLen }
      pure location

/-! ### Round trip -/

section Lengths

theorem length_eventBytes (eventId : Option Nat) : (eventBytes eventId).length = 20 := by
  cases eventId <;> simp [eventBytes, zeros]

theorem length_producerBytes (producer : Option ProducerSequence) :
    (producerBytes producer).length = producerFixedLen := by
  cases producer <;> simp [producerBytes, zeros, length_eventBytes, producerFixedLen]

theorem length_groupBytes (atomicGroup : Option AtomicGroupSequence) :
    (groupBytes atomicGroup).length = groupFixedLen := by
  cases atomicGroup <;> simp [groupBytes, zeros, groupFixedLen]

@[simp] theorem length_extentPrefix (frameLen : Nat) :
    (extentPrefix frameLen).length = prefixLen := by
  simp [extentPrefix, extentMagic, prefixLen]

@[simp] theorem length_extentBody (r : Reservation) (producer : Option ProducerSequence)
    (atomicGroup : Option AtomicGroupSequence) (payloadLen : Nat) :
    (extentBody r producer atomicGroup payloadLen).length = bodyFixedLen := by
  simp [extentBody, length_producerBytes, length_groupBytes, bodyFixedLen, producerFixedLen,
    groupFixedLen]

end Lengths

section RoundTrip

open Reader

variable {n : Nat} {r : Reservation}

theorem reads_u8 (h : n < 2 ^ 8) : Reads (readNumber 1) (.le 1 n) n :=
  reads_number (by simpa using h)

theorem reads_u32 (h : n < 2 ^ 32) : Reads (readNumber 4) (.le 4 n) n :=
  reads_number (by simpa using h)

theorem reads_u64 (h : n < 2 ^ 64) : Reads (readNumber 8) (.le 8 n) n :=
  reads_number (by simpa using h)

theorem reads_u128 (h : n < 2 ^ 128) : Reads (readNumber 16) (.le 16 n) n :=
  reads_number (by simpa using h)

theorem reads_bytes {bytes : Bytes} (h : bytes.length = n) : Reads (readBytes n) bytes bytes :=
  reads_take h

theorem reads_zeros : Reads (readBytes n) (zeros n) (zeros n) :=
  reads_take (length_replicate ..)

theorem reads_zero_u8 : Reads (readNumber 1) (.le 1 0) 0 := reads_u8 (Nat.two_pow_pos 8)

theorem reads_zero_u32 : Reads (readNumber 4) (.le 4 0) 0 := reads_u32 (Nat.two_pow_pos 32)

theorem reads_zero_u64 : Reads (readNumber 8) (.le 8 0) 0 := reads_u64 (Nat.two_pow_pos 64)

theorem reads_zero_u128 : Reads (readNumber 16) (.le 16 0) 0 := reads_u128 (Nat.two_pow_pos 128)

theorem digestOfBytes_le (digest : Digest) : digestOfBytes (.le 16 digest.toNat) = digest := by
  have h : digest.toNat < 256 ^ 16 := by simpa using digest.isLt
  rw [digestOfBytes, Bytes.ofLe_le h, BitVec.ofNat_toNat, BitVec.setWidth_eq]

/-- The fields that are read back from a producer record. -/
def producerFieldsOf : Option ProducerSequence → ProducerFields
  | some p => ⟨1, zeros 3, p.producerId, p.epoch, p.firstSequence, p.digestAlgorithm, zeros 3,
      .le 16 p.payloadDigest.toNat, if p.eventId.isSome then 1 else 0, zeros 3, p.eventId.getD 0⟩
  | none => ⟨0, zeros 3, 0, 0, 0, 0, zeros 3, zeros 16, 0, zeros 3, 0⟩

theorem reads_producerFields (h : ∀ p ∈ producer, p.Typed) :
    Reads readProducerFields (producerBytes producer) (producerFieldsOf producer) := by
  cases producer with
  | none =>
    exact reads_zero_u8.bind <| reads_zeros.bind <| reads_zero_u128.bind <| reads_zero_u32.bind <|
      reads_zero_u64.bind <| reads_zero_u8.bind <| reads_zeros.bind <| reads_zeros.bind <|
      reads_zero_u8.bind <| reads_zeros.bind <| reads_zero_u128.map
  | some p =>
    have ht := h p rfl
    obtain ⟨eventPresent, eventId, hevent, hflag, hid, hid', heq⟩ : ∃ flag id,
        eventBytes p.eventId = .le 1 flag ++ (zeros 3 ++ .le 16 id) ∧ flag < 2 ^ 8 ∧ id < 2 ^ 128 ∧
        flag = (if p.eventId.isSome then 1 else 0) ∧ id = p.eventId.getD 0 := by
      cases hid : p.eventId with
      | none => exact ⟨0, 0, by decide, by omega, by omega, rfl, rfl⟩
      | some id => exact ⟨1, id, rfl, by omega, ht.eventId id hid, rfl, rfl⟩
    rw [producerBytes, hevent, producerFieldsOf, ← hid', ← heq]
    exact (reads_u8 (by omega)).bind <| reads_zeros.bind <|
      (reads_u128 ht.producerId).bind <| (reads_u32 ht.epoch).bind <|
      (reads_u64 ht.firstSequence).bind <| (reads_u8 ht.digestAlgorithm).bind <|
      reads_zeros.bind <| (reads_bytes (Bytes.length_le ..)).bind <| (reads_u8 hflag).bind <|
      reads_zeros.bind <| (reads_u128 hid).map

theorem interpretProducer_producerFieldsOf (h : ∀ p ∈ producer, p.digestAlgorithm = digestXxh3128) :
    interpretProducer pack offset (producerFieldsOf producer) = .ok producer := by
  cases producer with
  | none => simp [interpretProducer, producerFieldsOf]
  | some p =>
    obtain ⟨producerId, epoch, firstSequence, eventId, digestAlgorithm, payloadDigest⟩ := p
    cases eventId <;>
      simp_all [interpretProducer, producerFieldsOf, digestOfBytes_le]

/-- The fields that are read back from a group record. -/
def groupFieldsOf : Option AtomicGroupSequence → GroupFields
  | some g => ⟨1, zeros 3, g.transactionId, g.chunkSequence, .le 16 g.payloadDigest.toNat⟩
  | none => ⟨0, zeros 3, 0, 0, zeros 16⟩

theorem reads_groupFields (h : ∀ g ∈ atomicGroup, g.Typed) :
    Reads readGroupFields (groupBytes atomicGroup) (groupFieldsOf atomicGroup) := by
  cases atomicGroup with
  | none =>
    exact reads_zero_u8.bind <| reads_zeros.bind <| reads_zero_u128.bind <| reads_zero_u64.bind <|
      reads_zeros.map
  | some g =>
    have ht := h g rfl
    exact (reads_u8 (by omega)).bind <| reads_zeros.bind <|
      (reads_u128 ht.transactionId).bind <| (reads_u64 ht.chunkSequence).bind <|
      (reads_bytes (Bytes.length_le ..)).map

theorem interpretGroup_groupFieldsOf (atomicGroup : Option AtomicGroupSequence) :
    interpretGroup pack offset (groupFieldsOf atomicGroup) = .ok atomicGroup := by
  cases atomicGroup with
  | none => simp [interpretGroup, groupFieldsOf]
  | some g => simp [interpretGroup, groupFieldsOf, digestOfBytes_le]

/-- A header is read field by field, up to the comparison of its range with its record count. -/
theorem decodeExtentHeader_extentBody {payloadLen : Nat} (hr : r.Typed)
    (hp : ∀ p ∈ producer, p.Typed) (hg : ∀ g ∈ atomicGroup, g.Typed) (hlen : payloadLen < 2 ^ 64)
    (halgorithm : ∀ p ∈ producer, p.digestAlgorithm = digestXxh3128) (rest : Bytes) :
    decodeExtentHeader pack offset (extentBody r producer atomicGroup payloadLen ++ rest) =
      if r.firstOffset + (r.recordCount.get - 1) < 2 ^ 64 ∧
          r.firstOffset + (r.recordCount.get - 1) = r.lastOffset then
        .ok (⟨r, producer, atomicGroup, payloadLen⟩, rest)
      else .error (.corrupt pack offset "record range does not match record count") := by
  have hcount : nonZeroU32 pack offset r.recordCount.get = .ok r.recordCount :=
    dif_pos ⟨r.recordCount.pos, r.recordCount.lt⟩
  simp only [extentBody, append_assoc]
  refine ((reads_u128 hr.topicId).bind_append _ _).trans <|
    ((reads_u32 hr.partitionId).bind_append _ _).trans <|
    ((reads_u128 hr.batchId).bind_append _ _).trans <|
    ((reads_u64 hr.firstOffset).bind_append _ _).trans <|
    ((reads_u64 hr.lastOffset).bind_append _ _).trans <|
    ((reads_u32 r.recordCount.lt).bind_append _ _).trans <| (bind_liftM_ok hcount _ _).trans <|
    ((reads_u32 hr.virtualLaneId).bind_append _ _).trans <|
    ((reads_u64 hr.ringEpoch).bind_append _ _).trans <|
    ((reads_u64 hr.leaderEpoch).bind_append _ _).trans <|
    ((reads_u64 hr.sequence).bind_append _ _).trans <|
    ((reads_producerFields hp).bind_append _ _).trans <|
    (bind_liftM_ok (interpretProducer_producerFieldsOf halgorithm) _ _).trans <|
    ((reads_groupFields hg).bind_append _ _).trans <|
    (bind_liftM_ok (interpretGroup_groupFieldsOf atomicGroup) _ _).trans <|
    ((reads_u64 hlen).bind_append _ _).trans ?_
  split <;> rfl

/-- The comparison that the decoder makes. -/
theorem Reservation.counted_iff_range (hr : r.Typed) :
    r.Counted ↔ r.firstOffset + (r.recordCount.get - 1) < 2 ^ 64 ∧
      r.firstOffset + (r.recordCount.get - 1) = r.lastOffset := by
  have := r.recordCount.pos
  have := hr.lastOffset
  simp only [Reservation.Counted, nextOffset]
  omega

end RoundTrip

/-! ### Prepared extents -/

/-- `PreparedExtent`: an input that `encode_extent` accepted. Its encoding is computed from it. -/
structure PreparedExtent extends ExtentInput where
  supported : ∀ p ∈ producer, p.digestAlgorithm = digestXxh3128

theorem supported_of_no_producer :
    ∀ p ∈ (none : Option ProducerSequence), p.digestAlgorithm = digestXxh3128 := by simp

namespace PreparedExtent

/-- The length of the frame. -/
def frameLen (x : PreparedExtent) : Nat := headerLen + x.payload.length + checksumLen

/-- The header of the frame. -/
def header (x : PreparedExtent) : Bytes :=
  extentPrefix x.frameLen ++ extentBody x.reservation x.producer x.atomicGroup x.payload.length

/-- The frame, for the checksum function of the build. -/
def frame (checksum : ExtentChecksum) (x : PreparedExtent) : Bytes :=
  x.header ++ (x.payload ++ .le checksumLen (checksum x.header x.payload).toNat)

/-- `prepared_extent_location`. -/
def location (x : PreparedExtent) (packSequence frameOffset : Nat) : ExtentLocation :=
  { reservation := x.reservation, producer := x.producer, atomicGroup := x.atomicGroup,
    packSequence, payloadOffset := frameOffset + headerLen, payloadLen := x.payload.length }

variable (checksum : ExtentChecksum) (x : PreparedExtent)

/-- The frame is what `encode_extent` returns for the input. -/
theorem encodeExtent_eq : encodeExtent checksum x.toExtentInput =
    .ok ⟨x.header, checksum x.header x.payload, x.frameLen⟩ := by
  have hlen : headerLen + x.payload.length + checksumLen < 2 ^ 64 := by
    have := x.payload_lt
    simp only [headerLen, prefixLen, bodyFixedLen, producerFixedLen, groupFixedLen, checksumLen]
    omega
  have hsupported : x.producer.any (·.digestAlgorithm ≠ digestXxh3128) = false := by
    have := x.supported
    cases hp : x.producer with
    | none => rfl
    | some p => simpa using this p hp
  refine bind_eq_ok_iff.2 ⟨x.frameLen, if_pos hlen, bind_eq_ok_iff.2 ⟨x.header, ?_, rfl⟩⟩
  rw [encodeExtentHeader, hsupported]
  rfl

@[simp] theorem length_header : x.header.length = headerLen := by
  rw [header, length_append, length_extentBody]
  rfl

@[simp] theorem length_frame : (x.frame checksum).length = x.frameLen := by
  rw [frame, length_append, length_append, length_header, Bytes.length_le, frameLen, Nat.add_assoc]

theorem headerLen_le_frameLen : headerLen + checksumLen ≤ x.frameLen := by
  unfold frameLen
  omega

theorem frameLen_lt : x.frameLen < 2 ^ 64 := by
  have := x.payload_lt
  simp only [frameLen, headerLen, prefixLen, bodyFixedLen, producerFixedLen, groupFixedLen,
    checksumLen]
  omega

/-- **What the decoder makes of a frame that was encoded**: it finds the values again if the range
has as many offsets as records, and otherwise refuses. -/
theorem decodeExtent_frame_eq (pack offset : Nat) :
    decodeExtent checksum pack offset (x.frame checksum) =
      if x.reservation.firstOffset + (x.reservation.recordCount.get - 1) < 2 ^ 64 ∧
          x.reservation.firstOffset + (x.reservation.recordCount.get - 1) =
            x.reservation.lastOffset then .ok (x.location 0 offset)
      else .error (.corrupt pack offset "record range does not match record count") := by
  have hend : x.frameLen - checksumLen = x.header.length + x.payload.length := by
    rw [length_header, frameLen]
    omega
  have hfront : (x.frame checksum).take (x.frameLen - checksumLen) = x.header ++ x.payload := by
    rw [hend, frame, ← append_assoc, take_left' (length_append ..)]
  have hback : (x.frame checksum).drop (x.frameLen - checksumLen) =
      Bytes.le checksumLen (checksum x.header x.payload).toNat := by
    rw [hend, frame, ← append_assoc, drop_left' (length_append ..)]
  have hheader : (x.frame checksum).take headerLen = x.header := by
    rw [frame, take_left' x.length_header]
  have hbody : (x.header ++ x.payload).drop prefixLen =
      extentBody x.reservation x.producer x.atomicGroup x.payload.length ++ x.payload := by
    rw [header, append_assoc, drop_left' (length_extentPrefix _)]
  have hchecksum : Bytes.ofLe (.le checksumLen (checksum x.header x.payload).toNat) =
      (checksum x.header x.payload).toNat :=
    Bytes.ofLe_le (by simpa [checksumLen] using (checksum x.header x.payload).toNat_lt)
  have hlen : x.payload.length < 2 ^ 64 := x.payload_lt.trans (by omega)
  rw [decodeExtent, if_neg (by rw [length_frame]; exact not_lt.2 x.headerLen_le_frameLen)]
  simp only [length_frame, hfront, hback, hheader, hbody, hchecksum]
  rw [if_neg (by simp), decodeExtentHeader_extentBody x.reservation_typed x.producer_typed
    x.atomicGroup_typed hlen x.supported]
  split
  · change (if x.payload.length ≠ x.payload.length then _ else _) = _
    rw [if_neg (by simp)]
    rfl
  · rfl

/-- **A frame that was encoded is decoded**, if its range has as many offsets as records. -/
theorem decodeExtent_frame (h : x.reservation.Counted) (pack offset : Nat) :
    decodeExtent checksum pack offset (x.frame checksum) = .ok (x.location 0 offset) := by
  rw [decodeExtent_frame_eq, if_pos ((Reservation.counted_iff_range x.reservation_typed).1 h)]

/-- Only such a frame is decoded. -/
theorem counted_of_decodeExtent_frame
    (h : decodeExtent checksum pack offset (x.frame checksum) = .ok l) :
    x.reservation.Counted := by
  rw [decodeExtent_frame_eq] at h
  split at h
  next hrange => exact (Reservation.counted_iff_range x.reservation_typed).2 hrange
  · cases h

end PreparedExtent

/-! ### Canonical frames -/

section Canonical

open Reader

variable {text rest : Bytes} {f : ProducerFields}

theorem le_digestOfBytes {digest : Bytes} (h : digest.length = 16) :
    Bytes.le 16 (digestOfBytes digest).toNat = digest := by
  have hlt := Bytes.ofLe_lt digest
  rw [h] at hlt
  rw [digestOfBytes, BitVec.toNat_ofNat, Nat.mod_eq_of_lt (by simpa using hlt)]
  conv_rhs => rw [← Bytes.le_ofLe digest, h]

/-- The text of the fields. -/
def ProducerFields.bytes (f : ProducerFields) : Bytes :=
  .le 1 f.present ++ (f.reserved ++ (.le 16 f.producerId ++ (.le 4 f.epoch ++
    (.le 8 f.firstSequence ++ (.le 1 f.digestAlgorithm ++ (f.digestReserved ++ (f.payloadDigest ++
      (.le 1 f.eventPresent ++ (f.eventReserved ++ .le 16 f.eventId)))))))))

/-- The numbers of the fields fit their widths. -/
structure ProducerFields.Typed (f : ProducerFields) : Prop where
  producerId : f.producerId < 2 ^ 128
  epoch : f.epoch < 2 ^ 32
  firstSequence : f.firstSequence < 2 ^ 64
  payloadDigest : f.payloadDigest.length = 16
  eventId : f.eventId < 2 ^ 128

theorem bytes_of_readProducerFields (h : readProducerFields text = .ok (f, rest)) :
    text = f.bytes ++ rest ∧ f.Typed := by
  obtain ⟨present, _, -, rfl, h₁⟩ := number_bind_eq_ok h
  obtain ⟨reserved, _, -, rfl, h₂⟩ := take_bind_eq_ok h₁
  obtain ⟨producerId, _, hproducer, rfl, h₃⟩ := number_bind_eq_ok h₂
  obtain ⟨epoch, _, hepoch, rfl, h₄⟩ := number_bind_eq_ok h₃
  obtain ⟨firstSequence, _, hfirst, rfl, h₅⟩ := number_bind_eq_ok h₄
  obtain ⟨digestAlgorithm, _, -, rfl, h₆⟩ := number_bind_eq_ok h₅
  obtain ⟨digestReserved, _, -, rfl, h₇⟩ := take_bind_eq_ok h₆
  obtain ⟨payloadDigest, _, hdigest, rfl, h₈⟩ := take_bind_eq_ok h₇
  obtain ⟨eventPresent, _, -, rfl, h₉⟩ := number_bind_eq_ok h₈
  obtain ⟨eventReserved, _, -, rfl, h₁₀⟩ := take_bind_eq_ok h₉
  obtain ⟨eventId, _, hevent, rfl, h₁₁⟩ := number_bind_eq_ok h₁₀
  cases h₁₁
  exact ⟨by simp [ProducerFields.bytes], by simpa using hproducer, by simpa using hepoch,
    by simpa using hfirst, hdigest, by simpa using hevent⟩

/-- **A producer record is accepted in one form only**: absent values are zeros. -/
theorem producerBytes_of_interpretProducer (hf : f.Typed)
    (h : interpretProducer pack offset f = .ok producer) :
    f.bytes = producerBytes producer ∧ (∀ p ∈ producer, p.Typed) ∧
      ∀ p ∈ producer, p.digestAlgorithm = digestXxh3128 := by
  obtain ⟨present, reserved, producerId, epoch, firstSequence, digestAlgorithm, digestReserved,
    payloadDigest, eventPresent, eventReserved, eventId⟩ := f
  obtain ⟨hproducer, hepoch, hfirst, hdigest, hevent⟩ := hf
  unfold interpretProducer at h
  split at h
  · cases h
  next hreserved =>
    simp only [not_or, not_not] at hreserved
    obtain ⟨rfl, rfl, rfl⟩ := hreserved
    split at h
    next heq =>
      split at h
      · cases h
      next hzero =>
        simp only [not_or, not_not] at heq hzero
        obtain ⟨rfl, rfl, rfl, rfl, rfl, rfl, rfl⟩ := hzero
        subst heq
        cases h
        exact ⟨by decide, by simp, by simp⟩
    next heq =>
      split at h
      next halgorithm =>
        have hone : digestXxh3128 < 2 ^ 8 := by decide
        subst heq halgorithm
        split_ifs at h with hnone hsome
        · obtain ⟨rfl, rfl⟩ := hnone
          cases h
          refine ⟨?_, ?_, ?_⟩
          · simp only [ProducerFields.bytes, producerBytes, le_digestOfBytes hdigest]
            rfl
          · rintro _ ⟨⟩
            exact ⟨hproducer, hepoch, hfirst, by simp, hone⟩
          · rintro _ ⟨⟩
            rfl
        · subst hsome
          cases h
          refine ⟨?_, ?_, ?_⟩
          · simp only [ProducerFields.bytes, producerBytes, eventBytes, le_digestOfBytes hdigest]
          · rintro _ ⟨⟩
            exact ⟨hproducer, hepoch, hfirst, by simpa using hevent, hone⟩
          · rintro _ ⟨⟩
            rfl
      · cases h
    · cases h

/-- The same of a group record. -/
theorem groupBytes_of_interpretGroup {f : GroupFields}
    (hread : readGroupFields text = .ok (f, rest))
    (h : interpretGroup pack offset f = .ok atomicGroup) :
    text = groupBytes atomicGroup ++ rest ∧ ∀ g ∈ atomicGroup, g.Typed := by
  obtain ⟨present, _, -, rfl, hread₁⟩ := number_bind_eq_ok hread
  obtain ⟨reserved, _, -, rfl, hread₂⟩ := take_bind_eq_ok hread₁
  obtain ⟨transactionId, _, htransaction, rfl, hread₃⟩ := number_bind_eq_ok hread₂
  obtain ⟨chunkSequence, _, hchunk, rfl, hread₄⟩ := number_bind_eq_ok hread₃
  obtain ⟨payloadDigest, _, hdigest, rfl, hread₅⟩ := take_bind_eq_ok hread₄
  cases hread₅
  simp only [interpretGroup] at h
  split_ifs at h with hreserved hnone hsome
  · obtain ⟨rfl, rfl, rfl, rfl⟩ := hnone
    cases h
    rw [not_not.1 hreserved]
    exact ⟨rfl, by simp⟩
  · subst hsome
    cases h
    rw [not_not.1 hreserved]
    refine ⟨?_, ?_⟩
    · simp only [groupBytes, le_digestOfBytes hdigest, append_assoc]
    · rintro _ ⟨⟩
      exact ⟨by simpa using htransaction, by simpa using hchunk⟩

/-- **A header is accepted in one form only.** -/
theorem extentBody_of_decodeExtentHeader {h : DecodedExtentHeader}
    (hok : decodeExtentHeader pack offset text = .ok (h, rest)) :
    text = extentBody h.reservation h.producer h.atomicGroup h.payloadLen ++ rest ∧
      h.reservation.Typed ∧ (∀ p ∈ h.producer, p.Typed) ∧ (∀ g ∈ h.atomicGroup, g.Typed) ∧
      ∀ p ∈ h.producer, p.digestAlgorithm = digestXxh3128 := by
  obtain ⟨topicId, _, htopic, rfl, hok₁⟩ := number_bind_eq_ok hok
  obtain ⟨partitionId, _, hpartition, rfl, hok₂⟩ := number_bind_eq_ok hok₁
  obtain ⟨batchId, _, hbatch, rfl, hok₃⟩ := number_bind_eq_ok hok₂
  obtain ⟨firstOffset, _, hfirst, rfl, hok₄⟩ := number_bind_eq_ok hok₃
  obtain ⟨lastOffset, _, hlast, rfl, hok₅⟩ := number_bind_eq_ok hok₄
  obtain ⟨count, _, -, rfl, hok₆⟩ := number_bind_eq_ok hok₅
  obtain ⟨recordCount, hcount, hok₇⟩ := liftM_bind_eq_ok hok₆
  obtain ⟨virtualLaneId, _, hlane, rfl, hok₈⟩ := number_bind_eq_ok hok₇
  obtain ⟨ringEpoch, _, hring, rfl, hok₉⟩ := number_bind_eq_ok hok₈
  obtain ⟨leaderEpoch, _, hleader, rfl, hok₁₀⟩ := number_bind_eq_ok hok₉
  obtain ⟨sequence, _, hsequence, rfl, hok₁₁⟩ := number_bind_eq_ok hok₁₀
  obtain ⟨producerFields, _, hfields, hok₁₂⟩ := bind_eq_ok hok₁₁
  obtain ⟨producer, hproducer, hok₁₃⟩ := liftM_bind_eq_ok hok₁₂
  obtain ⟨groupFields, _, hgroup, hok₁₄⟩ := bind_eq_ok hok₁₃
  obtain ⟨atomicGroup, hatomic, hok₁₅⟩ := liftM_bind_eq_ok hok₁₄
  obtain ⟨payloadLen, _, -, rfl, hok₁₆⟩ := number_bind_eq_ok hok₁₅
  obtain ⟨rfl, htyped⟩ := bytes_of_readProducerFields hfields
  obtain ⟨hbytes, hp, halgorithm⟩ := producerBytes_of_interpretProducer htyped hproducer
  obtain ⟨rfl, hg⟩ := groupBytes_of_interpretGroup hgroup hatomic
  unfold nonZeroU32 at hcount
  split at hcount
  · cases hcount
    split at hok₁₆
    · cases hok₁₆
      refine ⟨by simp only [extentBody, hbytes, append_assoc], ⟨?_, ?_, ?_, ?_, ?_, ?_, ?_, ?_, ?_⟩,
        hp, hg, halgorithm⟩ <;> simpa
    · cases hok₁₆
  · cases hcount

end Canonical

/-- **A frame is accepted in one form only**, behind its prefix. -/
theorem exists_frame_of_decodeExtent {checksum : ExtentChecksum} {frame : Bytes}
    (hlt : frame.length < 2 ^ 63) (hpre : frame.take prefixLen = extentPrefix frame.length)
    (h : decodeExtent checksum pack offset frame = .ok l) :
    ∃ x : PreparedExtent, x.frame checksum = frame := by
  unfold decodeExtent at h
  split at h
  · cases h
  next hlong =>
    dsimp only at h
    split at h
    · cases h
    next hchecksum =>
      obtain ⟨⟨header, payload⟩, hdecode, h⟩ := bind_eq_ok_iff.1 h
      split at h
      · cases h
      next hpayload =>
        obtain ⟨hbody, htyped, hp, hg, halgorithm⟩ := extentBody_of_decodeExtentHeader hdecode
        rw [← not_not.1 hpayload] at hbody
        have htake : ∀ k ≤ headerLen,
            frame.take k = (frame.take (frame.length - checksumLen)).take k := by
          intro k hk
          rw [take_take, min_eq_left (by omega)]
        have hfront : frame.take (frame.length - checksumLen) = extentPrefix frame.length ++
            extentBody header.reservation header.producer header.atomicGroup payload.length ++
              payload := by
          rw [append_assoc, ← hbody, ← hpre, htake prefixLen (Nat.le_add_right ..),
            take_append_drop]
        have hlength := congrArg length hfront
        rw [length_append, length_append, length_extentPrefix, length_extentBody,
          length_take_of_le (by omega)] at hlength
        let x : PreparedExtent :=
          ⟨⟨header.reservation, header.producer, header.atomicGroup, payload,
          htyped, hp, hg, by omega⟩, halgorithm⟩
        have hframeLen : x.frameLen = frame.length := by
          simp only [PreparedExtent.frameLen, headerLen, x]
          omega
        have hx : frame.take (frame.length - checksumLen) = x.header ++ payload := by
          rw [PreparedExtent.header, hframeLen]
          exact hfront
        have hheader : frame.take headerLen = x.header := by
          rw [htake headerLen le_rfl, hx, take_left' x.length_header]
        refine ⟨x, ?_⟩
        rw [not_not, hheader, hx, drop_left' x.length_header] at hchecksum
        have htail := Bytes.le_ofLe (frame.drop (frame.length - checksumLen))
        rw [length_drop, show frame.length - (frame.length - checksumLen) = checksumLen by omega]
          at htail
        rw [PreparedExtent.frame, hchecksum, htail, ← append_assoc, ← hx, take_append_drop]

/-- **The frame codec is exact, and canonical behind the prefix.** What `encode_extent` accepts
decodes to the same values, and it refuses only producer records with a digest that the decoder does
not know. Every frame that `decode_extent` accepts is the encoding of what it found and of the
payload, provided that the frame begins with the prefix for its length: the decoder leaves the
prefix to its callers. -/
theorem extent_frames_canonical (checksum : ExtentChecksum) (pack offset : Nat) :
    (∀ x : ExtentInput, x.reservation.Counted →
      (∃ e, encodeExtent checksum x = .ok e ∧
        decodeExtent checksum pack offset (e.frame x.payload) =
          .ok ⟨x.reservation, x.producer, x.atomicGroup, 0, offset + headerLen, x.payload.length⟩) ∨
      ∃ p ∈ x.producer, p.digestAlgorithm ≠ digestXxh3128) ∧
    ∀ (frame : Bytes) (l : ExtentLocation), frame.length < 2 ^ 63 →
      frame.take prefixLen = extentPrefix frame.length →
      decodeExtent checksum pack offset frame = .ok l →
      ∃ (x : ExtentInput) (e : EncodedExtent), encodeExtent checksum x = .ok e ∧
        e.frame x.payload = frame ∧
        l = ⟨x.reservation, x.producer, x.atomicGroup, 0, offset + headerLen,
          x.payload.length⟩ := by
  refine ⟨fun x hcounted ↦ ?_, fun frame l hlt hpre h ↦ ?_⟩
  · by_cases hsupported : ∀ p ∈ x.producer, p.digestAlgorithm = digestXxh3128
    · let prepared : PreparedExtent := { x with supported := hsupported }
      exact .inl ⟨_, prepared.encodeExtent_eq checksum,
        prepared.decodeExtent_frame checksum hcounted pack offset⟩
    · push Not at hsupported
      exact .inr hsupported
  · obtain ⟨x, rfl⟩ := exists_frame_of_decodeExtent hlt hpre h
    refine ⟨x.toExtentInput, _, x.encodeExtent_eq checksum, rfl, ?_⟩
    rw [x.decodeExtent_frame checksum (x.counted_of_decodeExtent_frame checksum h)] at h
    exact (Except.ok.inj h).symm

/-- One record without payload, at the beginning of its partition. -/
def firstExtent : PreparedExtent where
  reservation := ⟨0, 0, 0, 0, 0, .one, ⟨0, 1, 0, 0⟩⟩
  producer := none
  atomicGroup := none
  payload := []
  reservation_typed := by constructor <;> decide
  producer_typed := typed_of_no_producer
  atomicGroup_typed := typed_of_no_group
  payload_lt := by decide
  supported := supported_of_no_producer

/-- The first extent as an append stores it. -/
def firstInput : ExtentInput := firstExtent.toExtentInput

/-- One record at the offset of its batch id. -/
def recordAt (batchId : Fin 16) : Reservation :=
  ⟨0, 0, batchId, batchId, batchId, .one, ⟨0, 1, 0, batchId⟩⟩

theorem recordAt_typed (batchId : Fin 16) : (recordAt batchId).Typed := by
  constructor <;> simp [recordAt] <;> omega

theorem recordAt_payload_lt (batchId : Fin 16) :
    (replicate (batchId + 1) (UInt8.ofNat batchId)).length < 2 ^ 63 := by
  simp
  omega

/-- That record, with as many bytes as its offset plus one. -/
def recordExtent (batchId : Fin 16) : PreparedExtent :=
  { firstExtent with
    reservation := recordAt batchId
    payload := replicate (batchId + 1) (.ofNat batchId)
    reservation_typed := recordAt_typed batchId
    payload_lt := recordAt_payload_lt batchId }

/-- **A prefix that nothing checks.** With another first byte and the checksum that belongs to it, a
frame is another byte string and decodes to the same extent. -/
theorem decodeExtent_ignores_prefix :
    (firstExtent.frame fun _ _ ↦ 0).set 0 0 ≠ (firstExtent.frame fun _ _ ↦ 0) ∧
    (decodeExtent (fun _ _ ↦ 0) 0 0 ((firstExtent.frame fun _ _ ↦ 0).set 0 0)).toOption =
      some (firstExtent.location 0 0) ∧
    (decodeExtent (fun _ _ ↦ 0) 0 0 (firstExtent.frame fun _ _ ↦ 0)).toOption =
      some (firstExtent.location 0 0) := by
  decide +kernel

end ShardStream
