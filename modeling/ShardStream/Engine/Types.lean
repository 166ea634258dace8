import ShardStream.Core.Sequencer

/-!
# Identities, configuration and errors of the engine

The plain data the coordinator passes around. Error texts are kept, because callers and operators
see them; identifiers that the source prints as numbers are printed as numbers here.
-/

namespace ShardStream

open List

/-- A payload digest, `[u8; 16]`. -/
abbrev Digest := BitVec 128

/-- `DIGEST_XXH3_128`. -/
def digestXxh3128 : Nat := 1

/-- `EngineError`, with the variants the modelled functions return. -/
inductive EngineError where
  | invalidConfig (message : String)
  | topicAlreadyExists (topicId : Nat)
  | unknownPartition (topicId partitionId : Nat)
  | unknownShard (shardId : Nat)
  | durabilityUnavailable (requiredReplicas durableReplicas : Nat)
  | replicaInFlight (batchId : Nat)
  | durableSinkUnavailable (message : String)
  | durableSinkCheckpoint (message : String)
  | fenced (message : String)
  | offsetOutOfRange (requested logStart : Nat)
  | staleProducerEpoch (producerId current received : Nat)
  | producerSequenceOutOfOrder (producerId expected received : Nat)
  | producerRequiresNewEpoch (producerId : Nat)
  | duplicateSequenceMismatch (producerId : Nat)
  | unknownAtomicGroup (transactionId : Nat)
  | atomicGroupFinalized (transactionId : Nat)
  | atomicGroupSequenceOutOfOrder (transactionId expected received : Nat)
  | atomicGroupChunkMismatch (transactionId : Nat)
  | corruptState (message : String)
  | sequencer (error : SequencerError)
  | storage (message : String)
  deriving DecidableEq

/-- `impl From<SequencerError> for EngineError`, applied by `?`. -/
def liftSequencer {α : Type} : Except SequencerError α → Except EngineError α
  | .ok a => .ok a
  | .error e => .error (.sequencer e)

variable {α ε β : Type} {config : EngineConfig}

@[simp] theorem liftSequencer_eq_ok_iff {x : Except SequencerError α} {a : α} :
    liftSequencer x = .ok a ↔ x = .ok a := by
  cases x <;> simp [liftSequencer]

/-- Peeling one step off a fallible computation that succeeded. -/
theorem bind_eq_ok_iff {x : Except ε α} {f : α → Except ε β} {b : β} :
    (x >>= f) = .ok b ↔ ∃ a, x = .ok a ∧ f a = .ok b := by
  cases x <;> simp [bind, Except.bind]

/-- Peeling off a step without a result. -/
theorem unit_bind_eq_ok_iff {x : Except ε Unit} {f : Unit → Except ε β} {b : β} :
    (x >>= f) = .ok b ↔ x = .ok () ∧ f () = .ok b := by
  cases x <;> simp [bind, Except.bind]

/-- A check that was passed. -/
theorem ite_error_eq_ok_iff {p : Prop} [Decidable p] {e : ε} {x : Except ε α} {a : α} :
    (if p then .error e else x) = .ok a ↔ ¬ p ∧ x = .ok a := by
  split <;> simp_all

theorem map_eq_ok_iff {x : Except ε α} {f : α → β} {b : β} :
    x.map f = .ok b ↔ ∃ a, x = .ok a ∧ f a = b := by
  cases x <;> simp [Except.map]

theorem toOption_eq_some_iff {x : Except ε α} {a : α} : x.toOption = some a ↔ x = .ok a := by
  cases x <;> simp [Except.toOption]

instance instDecidableExistsOk {x : Except ε α} {P : α → Prop} [DecidablePred P] :
    Decidable (∃ a, x = .ok a ∧ P a) :=
  decidable_of_iff (∃ a, x.toOption = some a ∧ P a) (by simp only [toOption_eq_some_iff])

/-- What every step keeps, a list of steps keeps. -/
theorem foldlM_induction {σ : Type} {act : σ → α → Option σ} {P : σ → Prop}
    (hstep : ∀ s a s', P s → act s a = some s' → P s') {actions : List α} {s s' : σ} (hs : P s)
    (h : actions.foldlM act s = some s') : P s' := by
  induction actions generalizing s with
  | nil =>
    cases h
    exact hs
  | cons a actions ih =>
    simp only [foldlM_cons, Option.bind_eq_bind, Option.bind_eq_some_iff] at h
    obtain ⟨next, hnext, h⟩ := h
    exact ih (hstep s a next hs hnext) h

theorem mapM_eq_ok_iff {f : α → Except ε β} {xs : List α} {ys : List β} :
    xs.mapM f = .ok ys ↔ List.Forall₂ (fun x y ↦ f x = .ok y) xs ys := by
  induction xs generalizing ys with
  | nil =>
    rw [forall₂_nil_left_iff]
    constructor
    · intro h; cases h; rfl
    · rintro rfl; rfl
  | cons x xs ih =>
    rw [mapM_cons, forall₂_cons_left_iff]
    simp only [bind_eq_ok_iff]
    constructor
    · rintro ⟨y, hy, zs, hzs, h⟩
      cases h
      exact ⟨y, zs, hy, ih.1 hzs, rfl⟩
    · rintro ⟨y, zs, hy, hzs, rfl⟩
      exact ⟨y, hy, zs, ih.2 hzs, rfl⟩

theorem exists_mapM_eq_ok_iff {f : α → Except ε β} {xs : List α} :
    (∃ ys, xs.mapM f = .ok ys) ↔ ∀ x ∈ xs, ∃ y, f x = .ok y := by
  simp only [mapM_eq_ok_iff]
  induction xs with
  | nil => simp
  | cons x xs ih =>
    rw [forall_mem_cons, ← ih]
    constructor
    · rintro ⟨_, hall⟩
      cases hall with
      | cons hx hxs => exact ⟨⟨_, hx⟩, _, hxs⟩
    · rintro ⟨⟨y, hx⟩, ys, hxs⟩
      exact ⟨y :: ys, .cons hx hxs⟩

/-- A computation that succeeds on every element. -/
theorem mapM_eq_ok {f : α → Except ε β} {g : α → β} {xs : List α} (h : ∀ x ∈ xs, f x = .ok (g x)) :
    xs.mapM f = .ok (xs.map g) :=
  mapM_eq_ok_iff.2 (forall₂_map_right_iff.2 (forall₂_same.2 h))

/-- A check that ends the computation with `error` when `condition` holds. -/
def refuseIf (condition : Prop) [Decidable condition] (error : EngineError) :
    Except EngineError Unit :=
  if condition then .error error else .ok ()

@[simp] theorem refuseIf_eq_ok_iff {condition : Prop} [Decidable condition] {error : EngineError}
    {u : Unit} : refuseIf condition error = .ok u ↔ ¬ condition := by
  unfold refuseIf
  split_ifs with h <;> simp [h]

/-! ### Configuration -/

/-- `PartitionReplicationPolicy`. -/
structure PartitionReplicationPolicy where
  policyGeneration : Nat
  replicationFactor : Nat
  minInSyncReplicas : Nat
  deriving DecidableEq

/-- `PartitionReplicationPolicy::validate`. -/
def PartitionReplicationPolicy.validate (policy : PartitionReplicationPolicy)
    (maximumReplicationFactor : Nat) : Except EngineError Unit :=
  if policy.policyGeneration = 0 then
    .error (.invalidConfig "policy_generation must be nonzero")
  else if policy.replicationFactor = 0 ∨ 64 < policy.replicationFactor then
    .error (.invalidConfig "topic replication_factor must be between one and 64")
  else if maximumReplicationFactor < policy.replicationFactor then
    .error (.invalidConfig
      (s!"topic replication_factor {policy.replicationFactor} exceeds engine capacity " ++
        s!"{maximumReplicationFactor}"))
  else if policy.minInSyncReplicas = 0 ∨ policy.replicationFactor < policy.minInSyncReplicas then
    .error (.invalidConfig "topic min_in_sync_replicas must be between one and replication_factor")
  else .ok ()

/-- The part of `EngineConfig` that placement, replication and recovery read. -/
structure EngineConfig where
  virtualLaneCount : Nat
  replicationFactor : Nat
  minInSyncReplicas : Nat
  deriving DecidableEq

/-- `EngineConfig::default_replication_policy`. -/
def EngineConfig.defaultReplicationPolicy (config : EngineConfig) : PartitionReplicationPolicy :=
  ⟨1, config.replicationFactor, config.minInSyncReplicas⟩

/-- The loop of `validate_ring`: every lane is known and none repeats. -/
def checkLanes (config : EngineConfig) (seen : List Nat) : List Nat → Except EngineError Unit
  | [] => .ok ()
  | shard :: shards =>
    if config.virtualLaneCount ≤ shard then .error (.unknownShard shard)
    else if shard ∈ seen then
      .error (.invalidConfig s!"duplicate shard {shard} in placement ring")
    else checkLanes config (shard :: seen) shards

/-- `validate_ring`. -/
def validateRing (config : EngineConfig) (shards : List Nat) : Except EngineError Unit :=
  if shards = [] then .error (.invalidConfig "placement ring cannot be empty")
  else checkLanes config [] shards

theorem checkLanes_eq_ok_iff {shards : List Nat} :
    ∀ {seen : List Nat}, checkLanes config seen shards = .ok () ↔
      (∀ shard ∈ shards, shard < config.virtualLaneCount) ∧ shards.Nodup ∧
        ∀ shard ∈ shards, shard ∉ seen := by
  induction shards with
  | nil => simp [checkLanes]
  | cons shard shards ih =>
    simp only [checkLanes]
    split_ifs with h₁ h₂
    · simp only [false_iff]
      exact fun h ↦ absurd (h.1 shard (by simp)) (by omega)
    · simp only [false_iff]
      exact fun h ↦ h.2.2 shard (by simp) h₂
    · rw [ih]
      simp only [mem_cons, forall_eq_or_imp, nodup_cons, not_or]
      constructor
      · rintro ⟨hlane, hnd, hseen⟩
        exact ⟨⟨by omega, hlane⟩, ⟨fun h ↦ (hseen shard h).1 rfl, hnd⟩, h₂,
          fun x hx ↦ (hseen x hx).2⟩
      · rintro ⟨⟨-, hlane⟩, ⟨hmem, hnd⟩, -, hseen⟩
        exact ⟨hlane, hnd, fun x hx ↦ ⟨fun h ↦ hmem (h ▸ hx), hseen x hx⟩⟩

/-- A ring accepted by `validate_ring` is nonempty, free of repeats and within the lane count. -/
theorem validateRing_eq_ok_iff {shards : List Nat} :
    validateRing config shards = .ok () ↔
      shards ≠ [] ∧ (∀ shard ∈ shards, shard < config.virtualLaneCount) ∧ shards.Nodup := by
  unfold validateRing
  split_ifs with h
  · simp [h]
  · rw [checkLanes_eq_ok_iff]
    simp [h]

/-! ### Producers, groups and responses -/

/-- `ProducerIdentity`: who appends, in which epoch, and the sequence of the first record. -/
structure ProducerIdentity where
  producerId : Nat
  epoch : Nat
  firstSequence : Nat
  eventId : Option Nat
  deriving DecidableEq

/-- `AtomicGroupIdentity`: a chunk of a partition-scoped atomic group. -/
structure AtomicGroupIdentity where
  transactionId : Nat
  chunkSequence : Nat
  deriving DecidableEq

/-- `ProducerSequence`: the producer record stored in an extent frame. -/
structure ProducerSequence where
  producerId : Nat
  epoch : Nat
  firstSequence : Nat
  eventId : Option Nat
  digestAlgorithm : Nat
  payloadDigest : Digest
  deriving DecidableEq

/-- `AtomicGroupSequence`: the group record stored in an extent frame. -/
structure AtomicGroupSequence where
  transactionId : Nat
  chunkSequence : Nat
  payloadDigest : Digest
  deriving DecidableEq

/-- The frame record of a producer identity under the current digest algorithm. -/
def ProducerIdentity.toSequence (identity : ProducerIdentity) (payloadDigest : Digest) :
    ProducerSequence :=
  { producerId := identity.producerId, epoch := identity.epoch,
    firstSequence := identity.firstSequence, eventId := identity.eventId,
    digestAlgorithm := digestXxh3128, payloadDigest }

/-- The identity carried by a frame record. -/
def ProducerSequence.identity (p : ProducerSequence) : ProducerIdentity :=
  ⟨p.producerId, p.epoch, p.firstSequence, p.eventId⟩

/-- The chunk identity carried by a frame record. -/
def AtomicGroupSequence.identity (g : AtomicGroupSequence) : AtomicGroupIdentity :=
  ⟨g.transactionId, g.chunkSequence⟩

/-- `AtomicGroupState`. -/
inductive AtomicGroupState where
  | unresolved
  | committed
  | aborted
  deriving DecidableEq

/-- `AppendResponse`. Its `record_id` is a hash of topic, partition and batch id, all of which the
response or its caller already has; nothing here reads it. -/
structure AppendResponse where
  requestId : Nat
  batchId : Nat
  firstOffset : Nat
  lastOffset : Nat
  visibleThrough : Nat
  placement : Placement
  deriving DecidableEq

/-- `append_response`. -/
def appendResponse (requestId : Nat) (r : Reservation) : AppendResponse :=
  { requestId, batchId := r.batchId, firstOffset := r.firstOffset, lastOffset := r.lastOffset,
    visibleThrough := r.firstOffset, placement := r.placement }

/-- `ReserveOutcome`. -/
inductive ReserveOutcome where
  | duplicate (response : AppendResponse) (durableReplicas : Nat) (objectDurable : Bool)
      (replicationPolicy : PartitionReplicationPolicy)
  | reserved (reservation : Reservation) (producer : Option ProducerSequence)
      (replicationPolicy : PartitionReplicationPolicy)
  deriving DecidableEq

/-- `JournalEvent`: the control records a coordinator makes durable. -/
inductive JournalEvent where
  | configure (tp : TopicPartition) (ringEpoch : Nat) (shards : List Nat)
  | createPartition (tp : TopicPartition) (ringEpoch : Nat) (shards : List Nat)
      (policyGeneration replicationFactor minInSyncReplicas : Nat)
  | updateReplicationPolicy (tp : TopicPartition) (expectedPolicyGeneration policyGeneration
      replicationFactor minInSyncReplicas : Nat)
  | truncate (tp : TopicPartition) (logStart : Nat)
  | truncateCheckpoint (tp : TopicPartition)
      (logStart nextBatchId nextOffset nextPlacementSequence : Nat)
  | groupCommit (tp : TopicPartition) (transactionId : Nat)
  | groupAbort (tp : TopicPartition) (transactionId : Nat)
  deriving DecidableEq

end ShardStream
