import Mathlib.Data.List.Infix
import Mathlib.Logic.Relation
import ShardStream.Library.Table

/-!
# The lifecycle of an embedded runtime

An embedded runtime publishes its lifecycle in one atomic cell. `recover` and `ready` move it
forward with plain stores, `append` and `create_topic` load it once before they enter the engine,
and `drain` takes it to `Draining` with a compare-exchange, or with a plain store when the runtime
was not ready yet. The calls run on any threads, so each of them is modelled by where it stands
(`RecoverPc`, `ReadyPc`, `CreatePc`, `AppendPc`, `DrainPc`), and one step is one access to the cell,
to a flag or to the engine.

Of the engine, a step sees what the lifecycle is there to protect: the appends and topics that have
been allocated, and for every shard the queue of its worker. A plain append is allocated by the
coordinator and then handed to its shard; a guarded one is handed to its shard, whose worker
allocates it. A sync queues one barrier on every shard and waits until the workers have come to
them. What else the engine, the assignments, the health probe and the clock answer is not known
here: every step takes an answer.
-/

namespace ShardStream

variable {n : Nat}

/-- `LifecycleState`. -/
inductive LifecycleState
  | recovering | catchingUp | ready | draining | fenced | failed | stopped
  deriving DecidableEq

namespace LifecycleState

/-- `lifecycle_name`. -/
def lifecycleName : LifecycleState → String
  | recovering => "Recovering"
  | catchingUp => "CatchingUp"
  | ready => "Ready"
  | draining => "Draining"
  | fenced => "Fenced"
  | failed => "Failed"
  | stopped => "Stopped"

/-- Calls take the runtime from there to `Ready`, or it is ready. -/
def Admits (state : LifecycleState) : Prop := state = recovering ∨ state = catchingUp ∨
    state = ready

instance (state : LifecycleState) : Decidable state.Admits := inferInstanceAs (Decidable (_ ∨ _))

end LifecycleState

/-- `RuntimeError`; of an engine error it is known whether `is_corruption` holds. -/
inductive RuntimeError
  | invalidLifecycle (expected : String) (actual : LifecycleState)
  | fenced (message : String)
  | notReady
  | deadlineExceeded (phase : String)
  | engine (corruption : Bool)
  deriving DecidableEq

/-- What a call is told by the engine, the assignments, the health probe or the clock. -/
inductive Answer
  | ok
  /-- An append has a receipt already. -/
  | receipt
  | error (corruption : Bool)
  deriving DecidableEq

/-- What a call returns, but for the data. -/
abbrev CallResult := Except RuntimeError Unit

/-- The refusal of `require_state`. -/
def wrongState (expected actual : LifecycleState) : CallResult :=
  .error (.invalidLifecycle expected.lifecycleName actual)

/-! ### What the calls share -/

/-- What a worker finds in its queue: an append of a call, or the barrier of a sync. -/
inductive ShardCommand
  | append (call : Nat) (guarded : Bool)
  | sync (call : Nat)
  deriving DecidableEq

/-- A shard: everything that was queued, and how much of it the worker has done. -/
structure Shard where
  queue : List ShardCommand
  processed : Nat
  deriving DecidableEq

/-- What the calls on a runtime with `n` shards share. -/
structure Shared (n : Nat) where
  lifecycle : LifecycleState
  corruptionDetected : Bool
  recoveryReplicationCaughtUp : Bool
  /-- The calls whose topic was created. -/
  topics : List Nat
  /-- The calls whose append was allocated, each with its shard. -/
  allocated : List (Nat × Fin n)
  /-- The calls whose allocated append was reported as not written. -/
  aborted : List Nat
  shards : Fin n → Shard

namespace Shared

/-- A command is handed to a shard. -/
def push (s : Shared n) (shard : Fin n) (command : ShardCommand) : Shared n :=
  { s with
    shards := Function.update s.shards shard
      { s.shards shard with queue := (s.shards shard).queue ++ [command] } }

/-- The worker of a shard has done one more command. -/
def worked (s : Shared n) (shard : Fin n) : Shared n :=
  { s with
    shards := Function.update s.shards shard
      { s.shards shard with processed := (s.shards shard).processed + 1 } }

/-- The worker of a shard does its next command; it allocates a guarded append if it may. -/
def work (s : Shared n) (shard : Fin n) (answer : Answer) : Shared n :=
  match (s.shards shard).queue[(s.shards shard).processed]? with
  | none => s
  | some (.append call true) =>
    match answer with
    | .ok => { s.worked shard with allocated := s.allocated ++ [(call, shard)] }
    | _ => s.worked shard
  | some _ => s.worked shard

end Shared

/-! ### Where a call stands -/

/-- `recover`. -/
inductive RecoverPc
  | check | resumeSink | resumeReplication
  | noteCorruption (corruption : Bool) | fail (corruption : Bool) | publish
  | returned (result : CallResult)
  deriving DecidableEq

/-- `ready`. -/
inductive ReadyPc
  | check | checkAssignments | publishFenced | waitForReplication | noteCaughtUp
  | askEngine (blocked : Bool) | noteCorruption | takeSnapshot (blocked : Bool) | fail | publish
  | returned (result : CallResult)
  deriving DecidableEq

/-- `create_topic`. -/
inductive CreatePc
  | check | create | noteCorruption | fail
  | returned (result : CallResult)
  deriving DecidableEq

/-- `append`; a guarded append is queued before it is allocated. -/
inductive AppendPc
  | check | allocate | enqueue (guarded : Bool) | await (index : Nat) | noteCorruption | fail
  | returned (result : CallResult)
  deriving DecidableEq

/-- `drain`; while it syncs it knows where its barriers are. -/
inductive DrainPc
  | load | exchange | publish | waitForReplication | checkDeadline
  | sync (marks : List Nat) | await (marks : List Nat) | noteCorruption | fail
  | returned (result : CallResult)
  deriving DecidableEq

section Steps

variable (id : Nat) (answer : Answer) (s : Shared n)

/-- One step of `recover`. -/
def RecoverPc.step : RecoverPc → Shared n × RecoverPc
  | check => (s, if s.lifecycle = .recovering then resumeSink
      else returned (wrongState .recovering s.lifecycle))
  | resumeSink => (s, match answer with
      | .error corruption => noteCorruption corruption
      | _ => resumeReplication)
  | resumeReplication => (s, match answer with
      | .error corruption => noteCorruption corruption
      | _ => publish)
  | noteCorruption corruption => ({ s with corruptionDetected := corruption }, fail corruption)
  | fail corruption => ({ s with lifecycle := .failed }, returned (.error (.engine corruption)))
  | publish => ({ s with lifecycle := .catchingUp }, returned (.ok ()))
  | returned result => (s, returned result)

/-- One step of `ready`. -/
def ReadyPc.step : ReadyPc → Shared n × ReadyPc
  | check => (s, if s.lifecycle = .catchingUp then checkAssignments
      else returned (wrongState .catchingUp s.lifecycle))
  | checkAssignments => (s, match answer with
      | .error _ => publishFenced
      | _ => waitForReplication)
  | publishFenced => ({ s with lifecycle := .fenced },
      returned (.error (.fenced "assignment provider local broker changed")))
  | waitForReplication => (s, match answer with
      | .error _ => returned (.error (.deadlineExceeded "replication catch-up"))
      | _ => noteCaughtUp)
  | noteCaughtUp => ({ s with recoveryReplicationCaughtUp := true }, askEngine false)
  -- the snapshot asks about one partition after the other, and notes the corruption it finds
  | askEngine blocked => (s, match answer with
      | .receipt => askEngine blocked
      | .ok => takeSnapshot blocked
      | .error true => noteCorruption
      | .error false => askEngine true)
  | noteCorruption => ({ s with corruptionDetected := true }, askEngine true)
  -- a blocker ends the call; corruption, noted by now or seen by the probe, also fails the runtime
  | takeSnapshot blocked => (s, if s.corruptionDetected = true then fail else match answer with
      | .error true => fail
      | .error false => returned (.error .notReady)
      | _ => if blocked then returned (.error .notReady) else publish)
  | fail => ({ s with lifecycle := .failed }, returned (.error .notReady))
  | publish => ({ s with lifecycle := .ready }, returned (.ok ()))
  | returned result => (s, returned result)

/-- One step of `create_topic`. -/
def CreatePc.step : CreatePc → Shared n × CreatePc
  | check => (s, if s.lifecycle = .ready then create else returned (wrongState .ready s.lifecycle))
  | create => match answer with
      | .error true => (s, noteCorruption)
      | .error false => (s, returned (.error (.engine false)))
      | _ => ({ s with topics := s.topics ++ [id] }, returned (.ok ()))
  | noteCorruption => ({ s with corruptionDetected := true }, fail)
  | fail => ({ s with lifecycle := .failed }, returned (.error (.engine true)))
  | returned result => (s, returned result)

/-- `handle_engine_result` of an append that failed. -/
def AppendPc.handled : Bool → AppendPc
  | true => noteCorruption
  | false => returned (.error (.engine false))

/-- One step of `append` to a shard. A guarded append is allocated by the worker. -/
def AppendPc.step (shard : Fin n) (guarded : Bool) : AppendPc → Shared n × AppendPc
  | check => (s, if s.lifecycle ≠ .ready then returned (wrongState .ready s.lifecycle)
      else if guarded then enqueue true else allocate)
  | allocate => match answer with
      | .ok => ({ s with allocated := s.allocated ++ [(id, shard)] }, enqueue false)
      | .receipt => (s, returned (.ok ()))
      | .error corruption => (s, handled corruption)
  -- what is allocated and not queued is failed as definitely not written
  | enqueue false => match answer with
      | .error corruption => ({ s with aborted := s.aborted ++ [id] }, handled corruption)
      | _ => (s.push shard (.append id false), await (s.shards shard).queue.length)
  | enqueue true => match answer with
      | .error corruption => (s, handled corruption)
      | .receipt => (s, returned (.ok ()))
      | .ok => (s.push shard (.append id true), await (s.shards shard).queue.length)
  | await index =>
      (s, if index < (s.shards shard).processed then match answer with
        | .error corruption => handled corruption
        | _ => returned (.ok ())
      else await index)
  | noteCorruption => ({ s with corruptionDetected := true }, fail)
  | fail => ({ s with lifecycle := .failed }, returned (.error (.engine true)))
  | returned result => (s, returned result)

/-- `handle_engine_result` of a sync that failed. -/
def DrainPc.handled : Bool → DrainPc
  | true => noteCorruption
  | false => returned (.error (.engine false))

/-- One step of `drain`. -/
def DrainPc.step : DrainPc → Shared n × DrainPc
  | load => (s, match s.lifecycle with
      | .ready => exchange
      | .draining => waitForReplication
      | .recovering | .catchingUp => publish
      | state => returned (.error
          (.invalidLifecycle "Recovering, CatchingUp, Ready, or Draining" state)))
  | exchange => if s.lifecycle = .ready then ({ s with lifecycle := .draining }, waitForReplication)
      else (s, load)
  | publish => ({ s with lifecycle := .draining }, waitForReplication)
  | waitForReplication => (s, match answer with
      | .error _ => returned (.error (.deadlineExceeded "replication catch-up"))
      | _ => checkDeadline)
  | checkDeadline => (s, match answer with
      | .error _ => returned (.error (.deadlineExceeded "runtime drain"))
      | _ => sync [])
  -- one barrier after the other is queued, and then they are awaited
  | sync marks => if h : marks.length < n then match answer with
        | .error corruption => (s, handled corruption)
        | _ => (s.push ⟨marks.length, h⟩ (.sync id),
            sync (marks ++ [(s.shards ⟨marks.length, h⟩).queue.length]))
      else (s, await marks)
  | await marks => (s, if ∀ shard : Fin n, marks.getD shard 0 < (s.shards shard).processed then
        match answer with
        | .error corruption => handled corruption
        | _ => returned (.ok ())
      else await marks)
  | noteCorruption => ({ s with corruptionDetected := true }, fail)
  | fail => ({ s with lifecycle := .failed }, returned (.error (.engine true)))
  | returned result => (s, returned result)

end Steps

/-! ### Runtimes -/

/-- A call and where it stands. `prepare_leadership_transfer` is a drain that returns a receipt. -/
inductive Frame (n : Nat)
  | recover (pc : RecoverPc)
  | ready (pc : ReadyPc)
  | createTopic (pc : CreatePc)
  | append (shard : Fin n) (guarded : Bool) (pc : AppendPc)
  | drain (transfer : Bool) (pc : DrainPc)
  deriving DecidableEq

/-- The calls that can be made. -/
inductive RuntimeCall (n : Nat)
  | recover | ready | createTopic
  | append (shard : Fin n) (guarded : Bool)
  | drain | prepareLeadershipTransfer

namespace Frame

/-- A call enters. -/
def enter : RuntimeCall n → Frame n
  | .recover => recover .check
  | .ready => ready .check
  | .createTopic => createTopic .check
  | .append shard guarded => append shard guarded .check
  | .drain => drain false .load
  | .prepareLeadershipTransfer => drain true .load

/-- One step of a call. -/
def step (id : Nat) (answer : Answer) (s : Shared n) : Frame n → Shared n × Frame n
  | recover pc => ((pc.step answer s).1, recover (pc.step answer s).2)
  | ready pc => ((pc.step answer s).1, ready (pc.step answer s).2)
  | createTopic pc => ((pc.step id answer s).1, createTopic (pc.step id answer s).2)
  | append shard guarded pc =>
    ((pc.step id answer s shard guarded).1,
      append shard guarded (pc.step id answer s shard guarded).2)
  | drain transfer pc => ((pc.step id answer s).1, drain transfer (pc.step id answer s).2)

end Frame

/-- A runtime: what the calls share, and every call that was made. -/
structure Runtime (n : Nat) extends Shared n where
  calls : Table Nat (Frame n)

/-- What happens next: a call is made, a call takes a step, or a worker does a command. -/
inductive RuntimeEvent (n : Nat)
  | call (id : Nat) (call : RuntimeCall n)
  | step (id : Nat) (answer : Answer)
  | work (shard : Fin n) (answer : Answer)

namespace Runtime

/-- A runtime that was just opened. -/
def opened (n : Nat) : Runtime n where
  lifecycle := .recovering
  corruptionDetected := false
  recoveryReplicationCaughtUp := false
  topics := []
  allocated := []
  aborted := []
  shards _ := ⟨[], 0⟩
  calls := .empty

/-- The runtime after an event. -/
def after (x : Runtime n) : RuntimeEvent n → Runtime n
  | .call id call =>
    match x.calls.get id with
    | some _ => x
    | none => { x with calls := x.calls.insert id (.enter call) }
  | .step id answer =>
    match x.calls.get id with
    | some frame =>
      ⟨(frame.step id answer x.toShared).1, x.calls.insert id (frame.step id answer x.toShared).2⟩
    | none => x
  | .work shard answer => { x with toShared := x.toShared.work shard answer }

end Runtime

end ShardStream
