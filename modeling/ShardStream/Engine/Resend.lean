import ShardStream.Engine.Visibility
import ShardStream.Storage.Fetch

/-!
# Sending recovered batches again

An append on a leader is sent to the followers and stored as an extent. After a restart the leader
sends its recovered batches again, each rebuilt from its extent. The two messages agree, except for
one combination of metadata: the digest is rebuilt from the producer record alone, and an atomic
chunk without a producer has its digest in the group record only.

The context of extensions, which the rebuilt message leaves out, is not part of the model.
-/

namespace ShardStream

/-- What `append_inner` reads of an `AppendRequest`. -/
structure AppendRequest where
  tp : TopicPartition
  requestId : Nat
  producer : Option ProducerIdentity
  atomicGroup : Option AtomicGroupIdentity
  recordCount : NonZeroU32
  payload : Bytes
  leaderEpoch : Option Nat

/-- `ReplicaAppend`, without the context of extensions. -/
structure ReplicaAppend where
  reservation : Reservation
  producer : Option ProducerIdentity
  atomicGroup : Option AtomicGroupIdentity
  payloadDigest : Digest
  payload : Bytes
  deriving DecidableEq

/-- The frame record of a chunk. -/
def AtomicGroupIdentity.toSequence (identity : AtomicGroupIdentity) (payloadDigest : Digest) :
    AtomicGroupSequence :=
  ⟨identity.transactionId, identity.chunkSequence, payloadDigest⟩

namespace AppendRequest

variable (xxh3 : Bytes → Digest) (request : AppendRequest)

/-- The digest of `append_inner`, with and without a guard. -/
def payloadDigest : Digest :=
  if request.producer.isSome ∨ request.atomicGroup.isSome then xxh3 request.payload else 0

/-- What `append_inner` asks the coordinator for. -/
def intent : AppendIntent where
  tp := request.tp
  requestId := request.requestId
  producer := request.producer
  atomicGroup := request.atomicGroup
  recordCount := request.recordCount
  payloadBytes := request.payload.length
  payloadDigest := request.payloadDigest xxh3
  admittedLeaderEpoch := request.leaderEpoch

/-- The coordinator reserved the batch, at once or through a prepared append. -/
inductive Accepted (st : PartitionState) (reservation : Reservation)
    (producer : Option ProducerSequence) : Prop
  | reserved (policy : PartitionReplicationPolicy)
      (h : (reserve st (request.intent xxh3)).1 = .ok (.reserved reservation producer policy))
  | committed {p : PreparedAppend} {control : Option CommitControl}
      {policy : PartitionReplicationPolicy}
      (hintent : p.intent = { request.intent xxh3 with tp := st.sequencer.topicPartition })
      (h : (commitSource st p control).1 = .ok (.reserved reservation producer policy))

/-- What `append_inner` gives to the replication transport. -/
def replicaAppend (reservation : Reservation) : ReplicaAppend :=
  ⟨reservation, request.producer, request.atomicGroup, request.payloadDigest xxh3, request.payload⟩

/-- The extent that `append_inner` stores. -/
structure StoredAs (reservation : Reservation) (producer : Option ProducerSequence)
    (x : ExtentInput) : Prop where
  reservation_eq : x.reservation = reservation
  producer_eq : x.producer = producer
  atomicGroup_eq : x.atomicGroup =
    request.atomicGroup.map (·.toSequence (request.payloadDigest xxh3))
  payload_eq : x.payload = request.payload

end AppendRequest

/-- The message that `replay_replication` builds from a stored batch. -/
def replayedAppend (batch : StoredBatch) : ReplicaAppend where
  reservation := batch.reservation
  producer := batch.producer.map ProducerSequence.identity
  atomicGroup := batch.atomicGroup.map AtomicGroupSequence.identity
  payloadDigest := batch.producer.elim 0 (·.payloadDigest)
  payload := batch.payload

section Resend

variable {xxh3 : Bytes → Digest} {request : AppendRequest} {st : PartitionState}
  {reservation : Reservation} {producer : Option ProducerSequence}

theorem PreparedAppend.Valid.counted {p : PreparedAppend} (h : p.Valid st) :
    p.proposal.reservation.Counted := by
  have := p.intent.recordCount.pos
  rw [h.reservation.1]
  simp only [Reservation.Counted, nextOffset, TopicSequencer.nextReservation]
  omega

/-- A reserved range has as many offsets as records, and the producer record carries the digest. -/
theorem AppendRequest.Accepted.spec (h : request.Accepted xxh3 st reservation producer) :
    reservation.Counted ∧
      producer = request.producer.map (·.toSequence (request.payloadDigest xxh3)) := by
  have hreply : ∀ {p : PreparedAppend} {policy}, p.Valid st →
      p.intent = { request.intent xxh3 with tp := st.sequencer.topicPartition } →
      p.reply = .reserved reservation producer policy → reservation.Counted ∧
        producer = request.producer.map (·.toSequence (request.payloadDigest xxh3)) := by
    intro p policy hvalid hintent hreply
    rw [PreparedAppend.reply, hintent] at hreply
    cases hreply
    exact ⟨hvalid.counted, rfl⟩
  cases h with
  | reserved policy h =>
    rcases reserve_cases st (request.intent xxh3) with ⟨-, hne⟩ | ⟨p, hintent, hvalid, hok, -⟩
    · exact absurd h (hne _ _ _)
    · exact hreply hvalid hintent (Except.ok.inj (hok.symm.trans h))
  | committed hintent h =>
    rcases commitSource_cases st _ _ with ⟨-, hne⟩ | ⟨hvalid, hok, -⟩
    · exact absurd h (hne _ _ _)
    · exact hreply hvalid hintent (Except.ok.inj (hok.symm.trans h))

/-- What is rebuilt from the stored values, and how its digest compares with the one that was
sent. -/
theorem replayedAppend_eq_iff :
    replayedAppend ⟨reservation, request.producer.map (·.toSequence (request.payloadDigest xxh3)),
        request.atomicGroup.map (·.toSequence (request.payloadDigest xxh3)), request.payload⟩ =
      request.replicaAppend xxh3 reservation ↔
    request.producer.isSome ∨ request.atomicGroup = none ∨ xxh3 request.payload = 0 := by
  have hproducer : (request.producer.map (·.toSequence (request.payloadDigest xxh3))).map
      ProducerSequence.identity = request.producer := by
    cases request.producer <;> rfl
  have hgroup : (request.atomicGroup.map (·.toSequence (request.payloadDigest xxh3))).map
      AtomicGroupSequence.identity = request.atomicGroup := by
    cases request.atomicGroup <;> rfl
  rw [replayedAppend, AppendRequest.replicaAppend]
  simp only [hproducer, hgroup]
  cases hp : request.producer with
  | some p => simp [ProducerIdentity.toSequence]
  | none =>
    cases hg : request.atomicGroup with
    | none => simp [AppendRequest.payloadDigest, hp, hg]
    | some g => simpa [AppendRequest.payloadDigest, hg] using eq_comm

end Resend

/-- **What recovery sends again.** A batch that the coordinator reserved and that was stored as an
extent is decoded, wherever it lies in its pack, and the message rebuilt from it is the one that was
sent exactly if the append had a producer, or no group, or a payload whose digest is zero. -/
theorem recovery_resends_iff (checksum : ExtentChecksum) {xxh3 : Bytes → Digest}
    {request : AppendRequest} {st : PartitionState} {reservation : Reservation}
    {producer : Option ProducerSequence} (haccepted : request.Accepted xxh3 st reservation producer)
    {x : ExtentInput} (hstored : request.StoredAs xxh3 reservation producer x)
    (pack : Nat) (pre post : Bytes) :
    ∃ prepared location, ShardStore.prepareExtent x = .ok prepared ∧
      decodeExtent checksum pack pre.length (prepared.frame checksum) = .ok location ∧
      (replayedAppend ⟨location.reservation, location.producer, location.atomicGroup,
          ((pre ++ prepared.frame checksum ++ post).drop location.payloadOffset).take
            location.payloadLen⟩ = request.replicaAppend xxh3 reservation ↔
        request.producer.isSome ∨ request.atomicGroup = none ∨ xxh3 request.payload = 0) := by
  obtain ⟨hcounted, hproducer⟩ := haccepted.spec
  obtain ⟨rfl, rfl, hgroup, hpayload⟩ := hstored
  have hsupported : ∀ p ∈ x.producer, p.digestAlgorithm = digestXxh3128 := by
    intro p hp
    rw [hproducer] at hp
    obtain ⟨identity, -, rfl⟩ := Option.mem_map.1 hp
    rfl
  set prepared : PreparedExtent := { x with supported := hsupported }
  have hslice : Slice (pre ++ prepared.frame checksum ++ post)
      (prepared.location 0 pre.length) prepared.payload := slice_location ..
  refine ⟨prepared, prepared.location 0 pre.length, dif_pos hsupported,
    prepared.decodeExtent_frame checksum hcounted pack pre.length, ?_⟩
  rw [hslice.2]
  change replayedAppend ⟨x.reservation, x.producer, x.atomicGroup, x.payload⟩ = _ ↔ _
  rw [hproducer, hgroup, hpayload]
  exact replayedAppend_eq_iff

/-- The first chunk of a group, in one record with one byte. -/
def chunkRequest (producer : Option ProducerIdentity) : AppendRequest where
  tp := ⟨0, 0⟩
  requestId := 0
  producer := producer
  atomicGroup := some ⟨7, 0⟩
  recordCount := .one
  payload := [1]
  leaderEpoch := none

/-- The chunk as it is stored, under a digest function that is constantly one. -/
def chunkExtent (producer : Option ProducerSequence) (h : ∀ p ∈ producer, p.Typed) :
    ExtentInput where
  reservation := firstBatch
  producer := producer
  atomicGroup := some ⟨7, 0, 1⟩
  payload := [1]
  reservation_typed := by constructor <;> decide
  producer_typed := h
  atomicGroup_typed := by
    rintro g ⟨⟩
    constructor <;> decide
  payload_lt := by decide

/-- A chunk with a producer is sent again as it was. -/
theorem produced_chunk_resent : ∃ prepared location,
    decodeExtent lengthChecksum 0 0 (PreparedExtent.frame lengthChecksum prepared) = .ok location ∧
      replayedAppend ⟨location.reservation, location.producer, location.atomicGroup,
          ((prepared.frame lengthChecksum).drop location.payloadOffset).take location.payloadLen⟩ =
        (chunkRequest (some ⟨5, 0, 0, none⟩)).replicaAppend (fun _ ↦ 1) firstBatch := by
  have haccepted : (chunkRequest (some ⟨5, 0, 0, none⟩)).Accepted (fun _ ↦ 1) oneLane firstBatch
      (some ⟨5, 0, 0, none, digestXxh3128, 1⟩) :=
    .reserved ⟨1, 1, 1⟩ (by decide +kernel)
  obtain ⟨prepared, location, -, hdecode, hiff⟩ := recovery_resends_iff lengthChecksum haccepted
    (x := chunkExtent (some ⟨5, 0, 0, none, digestXxh3128, 1⟩)
      (by rintro p ⟨⟩; constructor <;> decide))
    ⟨rfl, rfl, rfl, rfl⟩ 0 [] []
  refine ⟨prepared, location, hdecode, ?_⟩
  have := hiff.2 (.inl rfl)
  rwa [List.nil_append, List.append_nil] at this

/-- **A chunk without a producer loses its digest.** The chunk is reserved, stored and decoded, and
the message that is rebuilt differs from the one that was sent. -/
theorem chunk_resent_without_digest : ∃ prepared : PreparedExtent,
    (chunkRequest none).Accepted (fun _ ↦ 1) oneLane firstBatch none ∧
      (chunkRequest none).StoredAs (fun _ ↦ 1) firstBatch none prepared.toExtentInput ∧
      decodeExtent lengthChecksum 0 0 (prepared.frame lengthChecksum) =
        .ok (prepared.location 0 0) ∧
      replayedAppend ⟨firstBatch, none, prepared.atomicGroup,
          ((prepared.frame lengthChecksum).drop (prepared.location 0 0).payloadOffset).take
            (prepared.location 0 0).payloadLen⟩ ≠
        (chunkRequest none).replicaAppend (fun _ ↦ 1) firstBatch :=
  ⟨{ chunkExtent none (by simp) with supported := by simp [chunkExtent] },
    .reserved ⟨1, 1, 1⟩ (by decide +kernel), ⟨rfl, rfl, rfl, rfl⟩,
    PreparedExtent.decodeExtent_frame _ _ (by rfl) 0 0, by decide +kernel⟩

end ShardStream
