import ShardStream.Engine.Replay
import ShardStream.Engine.Steps

/-!
# The engine as a system

An engine is the live partitions together with what is durable: the control records of the journal
and the extents on the shards. It moves by creating partitions, by coordinator commands, by extents
becoming durable in any order, and by restarts that forget everything but the durable part and
recover from it.

Between a coordinator and the shards stands the append path. What it promises the coordinator is
`Engine.Admits`: a batch is completed only after it was handed out and its extent is durable; it is
reported as definitely not written only if no extent of it is durable; rings and policies are
validated before they are proposed. `inFlight` records the batches handed out and not yet settled,
and only those can be written.

Runs are restricted by a rule on the commands executed and on the restarts made (`RunRule`): a
theorem about all runs takes the rule that allows everything.
-/

namespace ShardStream

variable {config : EngineConfig} {rule : RunRule} {e e' : Engine}

/-- The engine: live partitions and durable state. -/
structure Engine where
  /-- The coordinators' partitions. -/
  states : Table TopicPartition PartitionState
  /-- The control records written so far, oldest first. -/
  journal : List JournalEvent
  /-- The extents that are durable on some shard. -/
  extents : List ExtentCatalogEntry
  /-- The batches handed out to the append path and not settled by it. -/
  inFlight : List (TopicPartition × Nat)

/-- An engine on an empty directory. -/
def Engine.initial : Engine := ⟨.empty, [], [], []⟩

/-- The extent records exactly the batch. -/
structure ExtentCatalogEntry.Describes (e : ExtentCatalogEntry) (b : BatchRuntime) : Prop where
  reservation : e.reservation = b.reservation
  producer : e.producer.map (·.identity) = b.producer
  atomicGroup : e.atomicGroup.map (·.identity) = b.atomicGroup
  payloadBytes : e.payloadBytes = b.payloadBytes
  producerDigest : ∀ p ∈ e.producer,
    p.digestAlgorithm = digestXxh3128 ∧ b.payloadDigest = some p.payloadDigest
  groupDigest : ∀ g ∈ e.atomicGroup, b.payloadDigest = some g.payloadDigest

/-- The ring or the policy that a command brings has passed its check. -/
def Command.Checked (config : EngineConfig) : Command → Prop
  | .reconfigure _ shards => validateRing config shards = .ok ()
  | .updateReplicationPolicy _ policy => policy.validate config.replicationFactor = .ok ()
  | _ => True

namespace Engine

/-- An extent of the batch is durable. -/
def Durable (e : Engine) (tp : TopicPartition) (batchId : Nat) : Prop :=
  ∃ x ∈ e.extents, x.key = (tp, batchId)

/-- What the append path promises the coordinator about a command. -/
def Admits (config : EngineConfig) (e : Engine) (tp : TopicPartition) (st : PartitionState) :
    Command → Prop
  | .complete c =>
    (tp, c.reservation.batchId) ∈ e.inFlight ∧ e.Durable tp c.reservation.batchId ∧
      (∃ requestId, c.response = appendResponse requestId c.reservation) ∧
      ∃ b, st.batches.get c.reservation.batchId = some b ∧ b.reservation = c.reservation ∧
        b.producer = c.producer ∧ b.payloadDigest = some c.payloadDigest
  | .fail r producer definitelyNotWritten =>
    (tp, r.batchId) ∈ e.inFlight ∧ (definitelyNotWritten = true → ¬ e.Durable tp r.batchId) ∧
      ∃ b, st.batches.get r.batchId = some b ∧ b.reservation = r ∧ b.producer = producer
  | .reconfigure _ shards => validateRing config shards = .ok ()
  | .updateReplicationPolicy _ policy => policy.validate config.replicationFactor = .ok ()
  | _ => True

/-- The batches in flight after a command: the one it settled is gone, the one it handed out is
added. -/
def inFlightAfter (inFlight : List (TopicPartition × Nat)) (tp : TopicPartition) (c : Command)
    (reserved : Option Reservation) : List (TopicPartition × Nat) :=
  inFlight.filter (fun x ↦ ¬ (x.1 = tp ∧ c.settles = some x.2)) ++
    (reserved.map fun r ↦ (tp, r.batchId)).toList

/-- The journal after a record was offered to it. -/
def recorded (journal : List JournalEvent) (answer : Except EngineError Unit)
    (event : Option JournalEvent) : List JournalEvent :=
  match answer with
  | .ok () => journal ++ event.toList
  | .error _ => journal

/-- The engine after a command on the partition `tp`. -/
def commanded (e : Engine) (tp : TopicPartition) (st : PartitionState)
    (answer : Except EngineError Unit) (c : Command) : Engine :=
  let effect := c.run st answer
  { e with
    states := e.states.insert tp effect.state
    journal := recorded e.journal answer effect.event
    inFlight := inFlightAfter e.inFlight tp c effect.reserved }

/-- The engine after a request to create `tp`. -/
def created (e : Engine) (tp : TopicPartition) (answer : Except EngineError Unit)
    (shards : List Nat) (policy : PartitionReplicationPolicy) : Engine :=
  let (_, state, event) := createPartition (e.states.get tp) answer tp shards policy
  { e with
    states := match state with
      | some st => e.states.insert tp st
      | none => e.states
    journal := recorded e.journal answer event }

/-- What `open` recovers from: the journal and the extents not wholly below the log start. -/
def recover (config : EngineConfig) (e : Engine) (replicas : Nat) :
    Except EngineError (Table TopicPartition PartitionState) :=
  recoverPartitionStates config e.journal (retainedCatalog e.journal e.extents) replicas

end Engine

/-- What a family of runs allows: commands in the state they are executed in, and restarts of an
engine. -/
structure RunRule where
  command : Engine → TopicPartition → PartitionState → Command → Prop
  restart : Engine → Prop

/-- Everything is allowed. -/
def RunRule.any : RunRule := ⟨fun _ _ _ _ ↦ True, fun _ ↦ True⟩

/-- Runs without a restart. -/
def RunRule.live : RunRule := ⟨fun _ _ _ _ ↦ True, fun _ ↦ False⟩

/-- The steps of an engine that keeps to `rule`. -/
inductive EngineStep (config : EngineConfig) (rule : RunRule) : Engine → Engine → Prop
  /-- A partition is created, or the request is refused. -/
  | create {e : Engine} {tp : TopicPartition} {answer : Except EngineError Unit}
      {shards : List Nat} {policy : PartitionReplicationPolicy}
      (hring : validateRing config shards = .ok ())
      (hpolicy : policy.validate config.replicationFactor = .ok ()) :
      EngineStep config rule e (e.created tp answer shards policy)
  /-- A coordinator executes a command. -/
  | command {e : Engine} {tp : TopicPartition} {st : PartitionState}
      {answer : Except EngineError Unit} {c : Command} (hst : e.states.get tp = some st)
      (hadmits : e.Admits config tp st c) (hrule : rule.command e tp st c) :
      EngineStep config rule e (e.commanded tp st answer c)
  /-- The extent of a batch in flight becomes durable. -/
  | write {e : Engine} {tp : TopicPartition} {st : PartitionState} {b : BatchRuntime}
      {x : ExtentCatalogEntry} (hst : e.states.get tp = some st)
      (hflight : (tp, x.reservation.batchId) ∈ e.inFlight)
      (hget : st.batches.get x.reservation.batchId = some b) (hdescribes : x.Describes b)
      (hnew : ¬ e.Durable tp x.reservation.batchId) :
      EngineStep config rule e { e with extents := e.extents ++ [x] }
  /-- The engine stops and recovers. -/
  | restart {e : Engine} {states : Table TopicPartition PartitionState}
      (hrule : rule.restart e) (h : e.recover config 1 = .ok states) :
      EngineStep config rule e { e with states, inFlight := [] }

theorem EngineStep.mono {rule' : RunRule} (h : EngineStep config rule e e')
    (hcommand : ∀ e tp st c, rule.command e tp st c → rule'.command e tp st c)
    (hrestart : ∀ e, rule.restart e → rule'.restart e) : EngineStep config rule' e e' := by
  cases h with
  | create hring hpolicy => exact .create hring hpolicy
  | command hst hadmits hrule => exact .command hst hadmits (hcommand _ _ _ _ hrule)
  | write hst hflight hget hdescribes hnew => exact .write hst hflight hget hdescribes hnew
  | restart hrule hrec => exact .restart (hrestart _ hrule) hrec

theorem EngineStep.of_live (h : EngineStep config .live e e') : EngineStep config .any e e' :=
  h.mono (fun _ _ _ _ _ ↦ trivial) fun _ hrule ↦ hrule.elim

/-- The engines reached from an empty directory by runs that keep to `rule`. -/
def EngineReachable (config : EngineConfig) (rule : RunRule) (e : Engine) : Prop :=
  Relation.ReflTransGen (EngineStep config rule) .initial e

/-- **Invariants of all runs**: what holds at the start and is kept by every step that is taken. -/
theorem EngineReachable.invariant {Inv : Engine → Prop} (hinit : Inv .initial)
    (hstep : ∀ e e', EngineReachable config rule e → Inv e → EngineStep config rule e e' → Inv e')
    (h : EngineReachable config rule e) : Inv e := by
  induction h with
  | refl => exact hinit
  | tail hpre hs ih => exact hstep _ _ hpre ih hs

end ShardStream
