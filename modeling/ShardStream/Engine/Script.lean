import ShardStream.Engine.System

/-!
# Scripted runs

A run of an engine can be written down as a list of actions and executed. `Engine.play` executes
such a list with a journal that accepts every record, and gives up at the first action that the step
relation does not allow; what it returns is therefore reachable (`Engine.play_sound`). Concrete runs
are given in this form, so that their states are computed and not claimed. A `Guard` is a test that
a script applies to its own commands and restarts; it stands for any rule that it implies.
-/

namespace ShardStream

open Option

variable {guard : Guard} {rule : RunRule} {config : EngineConfig} {e : Engine}

/-- The extent a shard writes for a batch. -/
def BatchRuntime.extent (b : BatchRuntime) (digest : Digest) : ExtentCatalogEntry where
  reservation := b.reservation
  producer := b.producer.map (·.toSequence digest)
  atomicGroup := b.atomicGroup.map fun g ↦ ⟨g.transactionId, g.chunkSequence, digest⟩
  payloadBytes := b.payloadBytes
  objectDurable := b.objectDurable

/-- What a shard reports once that extent is durable. -/
def BatchRuntime.completion (b : BatchRuntime) (payloadDigest : Digest) : CompleteAppend where
  reservation := b.reservation
  producer := b.producer
  payloadDigest
  durableReplicas := 1
  objectDurable := b.objectDurable
  response := appendResponse 0 b.reservation

theorem BatchRuntime.describes_extent {b : BatchRuntime} {digest : Digest}
    (h : b.payloadDigest = some digest) : (b.extent digest).Describes b where
  reservation := rfl
  producer := by cases hp : b.producer <;> simp [extent, hp, ProducerIdentity.toSequence,
    ProducerSequence.identity]
  atomicGroup := by cases hg : b.atomicGroup <;> simp [extent, hg, AtomicGroupSequence.identity]
  payloadBytes := rfl
  producerDigest := by
    simp only [extent, mem_map]
    rintro _ ⟨p, -, rfl⟩
    exact ⟨rfl, h⟩
  groupDigest := by
    simp only [extent, mem_map]
    rintro _ ⟨g, -, rfl⟩
    exact h

/-- One action of a script. -/
inductive Action where
  | create (tp : TopicPartition) (shards : List Nat) (policy : PartitionReplicationPolicy)
  /-- The command may be made out of the state it is executed in. -/
  | command (tp : TopicPartition) (c : PartitionState → Option Command)
  | write (tp : TopicPartition) (batchId : Nat)
  | restart

namespace Action

/-- A leader append. -/
def reserve (tp : TopicPartition) (producer : Option ProducerIdentity)
    (atomicGroup : Option AtomicGroupIdentity) (recordCount : NonZeroU32) (payloadBytes : Nat)
    (payloadDigest : Digest) : Action :=
  .command tp fun _ ↦ some <| .reserve
    { tp, requestId := 0, producer, atomicGroup, recordCount, payloadBytes, payloadDigest
      admittedLeaderEpoch := none }

/-- The completion of a batch on one replica. -/
def complete (tp : TopicPartition) (batchId : Nat) : Action :=
  .command tp fun st ↦ do
    let b ← st.batches.get batchId
    let digest ← b.payloadDigest
    some <| .complete (b.completion digest)

/-- The definite failure of a batch. -/
def fail (tp : TopicPartition) (batchId : Nat) : Action :=
  .command tp fun st ↦ do
    let b ← st.batches.get batchId
    some <| .fail b.reservation b.producer true

end Action

/-- A test of the commands and restarts of a script. -/
structure Guard where
  command : Engine → TopicPartition → PartitionState → Command → Bool
  restart : Engine → Bool

/-- The guard that lets everything pass. -/
def Guard.any : Guard := ⟨fun _ _ _ _ ↦ true, fun _ ↦ true⟩

/-- What passes the guard keeps to the rule. -/
def Guard.Implies (guard : Guard) (rule : RunRule) : Prop :=
  (∀ e tp st c, guard.command e tp st c = true → rule.command e tp st c) ∧
    ∀ e, guard.restart e = true → rule.restart e

theorem Guard.any_implies : Guard.any.Implies .any :=
  ⟨fun _ _ _ _ _ ↦ trivial, fun _ _ ↦ trivial⟩

namespace Engine

/-- `Engine.Durable`, decided. -/
def durable (e : Engine) (tp : TopicPartition) (batchId : Nat) : Bool :=
  e.extents.any fun x ↦ x.key == (tp, batchId)

variable {tp : TopicPartition}

theorem durable_iff {batchId : Nat} : e.durable tp batchId = true ↔ e.Durable tp batchId := by
  simp [durable, Durable]

instance (e : Engine) (tp : TopicPartition) (batchId : Nat) : Decidable (e.Durable tp batchId) :=
  decidable_of_iff _ durable_iff

/-- `Engine.Admits`, decided. -/
def admits (config : EngineConfig) (e : Engine) (tp : TopicPartition) (st : PartitionState) :
    Command → Bool
  | .complete c =>
    decide ((tp, c.reservation.batchId) ∈ e.inFlight) && e.durable tp c.reservation.batchId &&
      decide (c.response = appendResponse c.response.requestId c.reservation) &&
      (st.batches.get c.reservation.batchId).any fun b ↦ b.reservation == c.reservation &&
        b.producer == c.producer && b.payloadDigest == some c.payloadDigest
  | .fail r producer definitelyNotWritten =>
    decide ((tp, r.batchId) ∈ e.inFlight) && !(definitelyNotWritten && e.durable tp r.batchId) &&
      (st.batches.get r.batchId).any fun b ↦ b.reservation == r && b.producer == producer
  | .reconfigure _ shards => (validateRing config shards).isOk
  | .updateReplicationPolicy _ policy => (policy.validate config.replicationFactor).isOk
  | _ => true

private theorem eq_ok_of_isOk {r : Except EngineError Unit} (h : r.isOk = true) : r = .ok () := by
  cases r with
  | error => cases h
  | ok u => rfl

theorem admits_sound {st : PartitionState} {c : Command} (h : e.admits config tp st c = true) :
    e.Admits config tp st c := by
  cases c with
  | complete c =>
    simp only [admits, Bool.and_eq_true, decide_eq_true_eq, any_eq_true, beq_iff_eq,
      durable_iff] at h
    obtain ⟨⟨⟨hflight, hdurable⟩, hresponse⟩, b, hb, ⟨hr, hp⟩, hd⟩ := h
    exact ⟨hflight, hdurable, ⟨_, hresponse⟩, b, hb, hr, hp, hd⟩
  | fail r producer definitelyNotWritten =>
    simp only [admits, Bool.and_eq_true, decide_eq_true_eq, any_eq_true, beq_iff_eq,
      Bool.not_eq_true', Bool.and_eq_false_imp] at h
    obtain ⟨⟨hflight, hlost⟩, b, hb, hr, hp⟩ := h
    refine ⟨hflight, fun hd hdurable ↦ ?_, b, hb, hr, hp⟩
    rw [durable_iff.2 hdurable] at hlost
    cases hlost hd
  | reconfigure | updateReplicationPolicy => exact eq_ok_of_isOk h
  | _ => trivial

/-- Execute one action; `none` if the engine cannot make that step or the guard refuses it. -/
def act (config : EngineConfig) (guard : Guard) (e : Engine) : Action → Option Engine
  | .create tp shards policy =>
    if (validateRing config shards).isOk && (policy.validate config.replicationFactor).isOk then
      some (e.created tp (.ok ()) shards policy)
    else none
  | .command tp c => do
    let st ← e.states.get tp
    let c ← c st
    if e.admits config tp st c && guard.command e tp st c then
      some (e.commanded tp st (.ok ()) c)
    else none
  | .write tp batchId => do
    let st ← e.states.get tp
    let b ← st.batches.get batchId
    let digest ← b.payloadDigest
    if b.reservation.batchId = batchId ∧ (tp, batchId) ∈ e.inFlight ∧ ¬ e.Durable tp batchId then
      some { e with extents := e.extents ++ [b.extent digest] }
    else none
  | .restart =>
    match e.recover config 1 with
    | .ok states => if guard.restart e then some { e with states, inFlight := [] } else none
    | .error _ => none

theorem act_sound {e' : Engine} {a : Action} (hguard : guard.Implies rule)
    (h : e.act config guard a = some e') : EngineStep config rule e e' := by
  cases a with
  | create tp shards policy =>
    simp only [act, Bool.and_eq_true, ite_none_right_eq_some, some.injEq] at h
    obtain ⟨⟨hring, hpolicy⟩, rfl⟩ := h
    exact .create (eq_ok_of_isOk hring) (eq_ok_of_isOk hpolicy)
  | command tp c =>
    simp only [act, bind_eq_bind, bind_eq_some_iff, ite_none_right_eq_some,
      some.injEq, Bool.and_eq_true] at h
    obtain ⟨st, hst, c, -, ⟨hadmits, hallowed⟩, rfl⟩ := h
    exact .command hst (admits_sound hadmits) (hguard.1 _ _ _ _ hallowed)
  | write tp batchId =>
    simp only [act, bind_eq_bind, bind_eq_some_iff, ite_none_right_eq_some, some.injEq] at h
    obtain ⟨st, hst, b, hb, digest, hdigest, ⟨rfl, hflight, hnew⟩, rfl⟩ := h
    exact .write hst hflight hb (BatchRuntime.describes_extent hdigest) hnew
  | restart =>
    simp only [act] at h
    split at h
    · rename_i states hrec
      simp only [ite_none_right_eq_some, some.injEq] at h
      obtain ⟨hallowed, rfl⟩ := h
      exact .restart (hguard.2 _ hallowed) hrec
    · cases h

/-- Execute a script on an empty directory. -/
def play (config : EngineConfig) (guard : Guard) (script : List Action) : Option Engine :=
  script.foldlM (act config guard) .initial

section Play

/-- **What a script reaches is reachable.** -/
theorem play_sound {script : List Action} (hguard : guard.Implies rule)
    (h : play config guard script = some e) : EngineReachable config rule e :=
  foldlM_induction (P := EngineReachable config rule)
    (fun _ _ _ he hact ↦ he.tail (act_sound hguard hact)) .refl h

/-- A property of a partition that a script reaches. -/
theorem exists_of_play (config : EngineConfig) (script : List Action) (tp : TopicPartition)
    (P : Engine → PartitionState → Prop) (hguard : guard.Implies rule)
    (h : ∃ e, play config guard script = some e ∧ ∃ st, e.states.get tp = some st ∧ P e st) :
    ∃ e st, EngineReachable config rule e ∧ e.states.get tp = some st ∧ P e st := by
  obtain ⟨e, he, st, hst, hP⟩ := h
  exact ⟨e, st, play_sound hguard he, hst, hP⟩

end Play

end Engine

/-- A group of two chunks with a plain batch between them, all three written. -/
def interleavedGroup : List Action :=
  let record : NonZeroU32 := .one
  [.create ⟨0, 0⟩ [0] ⟨1, 1, 1⟩, .reserve ⟨0, 0⟩ none (some ⟨7, 0⟩) record 1 0,
    .reserve ⟨0, 0⟩ none none record 1 0, .reserve ⟨0, 0⟩ none (some ⟨7, 1⟩) record 1 0,
    .write ⟨0, 0⟩ 0, .write ⟨0, 0⟩ 1, .write ⟨0, 0⟩ 2, .complete ⟨0, 0⟩ 0, .complete ⟨0, 0⟩ 2]

/-- The commit of that group. -/
def commitInterleaved : Action :=
  .command ⟨0, 0⟩ fun _ ↦ some (.finalizeAtomicGroup 7 .committed)

end ShardStream
