import ShardStream.Engine.Resend

/-!
# The admission of replica batches

`DurableApplyQueue` takes the batches that a leader sends, in whatever order they arrive, and has
them planned in the order of their ids. For each partition a worker keeps a cursor. It plans the
batch at the cursor, buffers those ahead of it within limits, and plans a buffered batch when the
cursor gets there. The cursor is read from the engine once and counted from then on, so that it
falls behind when others allocate batches of the partition, and follows the engine when they do not
(`DurableApplyQueue.Follows`).

The model has one partition. The engine is a parameter: it may refuse any plan and may change
between two commands. Response channels are numbers, and the lanes answer what was sent to them in
any order.
-/

namespace ShardStream

/-- `DurableApplyConfig`, without the numbers of workers and slots. -/
structure DurableApplyConfig where
  maxPendingPerPartition : Nat
  maxGapBatches : Nat
  maxPendingBytesPerPartition : Nat

/-- `EngineError`, with the variants that only the admission has. -/
inductive AdmissionError where
  | engine (error : EngineError)
  | replicaReorderLimited (expected received maxGapBatches : Nat)
  | replicaBufferLimited (pendingBytes receivedBytes maxPendingBytes : Nat)

/-- `AdmissionCommand`. The identity of the source is in `ρ`. -/
structure AdmissionCommand (ρ : Type) where
  batch : ReplicaAppend
  source : Option ρ
  response : Nat

/-- `PendingBatch`. -/
structure PendingBatch (ρ : Type) where
  batch : ReplicaAppend
  source : Option ρ
  waiters : List Nat

/-- The key of a buffered batch. -/
def PendingBatch.id {ρ : Type} (y : PendingBatch ρ) : Nat := y.batch.reservation.batchId

/-- `DurableApplyWork`. -/
structure DurableApplyWork where
  batch : ReplicaAppend
  waiters : List Nat
  deriving DecidableEq

/-- `PartitionAdmission`. The order of the list does not matter. -/
structure PartitionAdmission (ρ : Type) where
  nextBatchId : Nat
  pending : List (PendingBatch ρ)
  pendingBytes : Nat

/-- The cursor, moved on by a `saturating_add`. -/
def PartitionAdmission.advance {ρ : Type} (p : PartitionAdmission ρ) : PartitionAdmission ρ :=
  { p with nextBatchId := min (p.nextBatchId + 1) (2 ^ 128 - 1) }

/-- `ReplicaAppendPlan`. A prepared append is executed at once, here with its result. -/
inductive ReplicaAppendPlan where
  | duplicate (response : AppendResponse)
  | prepared (result : Except EngineError AppendResponse)
  | reserved

/-- Whether a lane takes work. -/
inductive LaneWorker where
  | running
  | stopped
  | missing

/-- What the queue uses of an engine with states in `σ`. -/
structure ReplicaEngine (σ ρ : Type) where
  replicaNextBatch : σ → Except EngineError Nat
  replicaNextBatch_lt : ∀ s n, replicaNextBatch s = .ok n → n < 2 ^ 128
  planReplicaAppendFromPeer :
    σ → ReplicaAppend → Option ρ → Except EngineError ReplicaAppendPlan × σ
  cancelReplicaAppend : σ → ReplicaAppend → σ
  replicaAppendWorkerIndex : Nat → Nat
  worker : σ → Nat → LaneWorker
  display : EngineError → String

/-- The engine and the lanes, with what was answered and the ids that were planned so far. -/
structure ApplyState (σ : Type) where
  engine : σ
  works : List DurableApplyWork
  replies : List (Nat × Except AdmissionError AppendResponse)
  planned : List Nat

/-- `respond_all`: the first waiter gets the error, the others its text. -/
def respondAll (display : EngineError → String) : List Nat → Except EngineError AppendResponse →
    List (Nat × Except AdmissionError AppendResponse)
  | waiters, .ok response => waiters.map (·, .ok response)
  | [], .error _ => []
  | first :: others, .error e => (first, .error (.engine e)) ::
      others.map (·, .error (.engine (.corruptState (display e))))

section Model

variable {σ ρ : Type} (E : ReplicaEngine σ ρ)

/-- `reserve_and_dispatch`. -/
def reserveAndDispatch (x : ApplyState σ) (batch : ReplicaAppend) (source : Option ρ)
    (waiters : List Nat) : Bool × ApplyState σ :=
  let answered (engine : σ) (result : Except EngineError AppendResponse) : ApplyState σ :=
    { x with engine, replies := x.replies ++ respondAll E.display waiters result }
  let index := E.replicaAppendWorkerIndex batch.reservation.placement.virtualLaneId
  let (accepted, after) : Bool × ApplyState σ :=
    match E.planReplicaAppendFromPeer x.engine batch source with
    | (.error e, engine) => (false, answered engine (.error e))
    | (.ok (.duplicate response), engine) => (true, answered engine (.ok response))
    | (.ok (.prepared result), engine) => (result.isOk, answered engine result)
    | (.ok .reserved, engine) =>
      match E.worker engine index with
      | .running => (true, { x with engine, works := x.works ++ [⟨batch, waiters⟩] })
      | .stopped => (false, answered (E.cancelReplicaAppend engine batch)
          (.error (.corruptState s!"durable apply worker {index} stopped")))
      | .missing => (false, answered (E.cancelReplicaAppend engine batch)
          (.error (.corruptState s!"durable apply worker {index} is missing")))
  (accepted, { after with planned := x.planned ++ [batch.reservation.batchId] })

/-- `drain_contiguous`. Every turn takes a batch out of the buffer. -/
def drainContiguous : (fuel : Nat) → ApplyState σ → PartitionAdmission ρ →
    ApplyState σ × PartitionAdmission ρ
  | 0, x, p => (x, p)
  | fuel + 1, x, p =>
    match p.pending.find? (·.id = p.nextBatchId) with
    | none => (x, p)
    | some y =>
      let rest : PartitionAdmission ρ := { p with
        pending := p.pending.eraseP (·.id = p.nextBatchId)
        pendingBytes := p.pendingBytes - y.batch.payload.length }
      match reserveAndDispatch E x y.batch y.source y.waiters with
      | (true, x) => drainContiguous fuel x rest.advance
      | (false, x) => (x, rest)

variable [DecidableEq ρ] (config : DurableApplyConfig)

/-- `admit`, once the partition is there. The buffered bytes stay within their limit, so their
`saturating_add` is a sum. -/
def admitTo (x : ApplyState σ) (p : PartitionAdmission ρ) (c : AdmissionCommand ρ) :
    ApplyState σ × PartitionAdmission ρ :=
  let received := c.batch.reservation.batchId
  let bytes := c.batch.payload.length
  let refused (e : AdmissionError) : ApplyState σ × PartitionAdmission ρ :=
    ({ x with replies := x.replies ++ [(c.response, .error e)] }, p)
  if received < p.nextBatchId then
    ((reserveAndDispatch E x c.batch c.source [c.response]).2, p)
  else if p.nextBatchId < received then
    match p.pending.find? (·.id = received) with
    | none =>
      if config.maxGapBatches < received - p.nextBatchId ∨
          config.maxPendingPerPartition ≤ p.pending.length then
        refused (.replicaReorderLimited p.nextBatchId received config.maxGapBatches)
      else if config.maxPendingBytesPerPartition - p.pendingBytes < bytes then
        refused (.replicaBufferLimited p.pendingBytes bytes config.maxPendingBytesPerPartition)
      else (x, { p with pending := ⟨c.batch, c.source, [c.response]⟩ :: p.pending
                        pendingBytes := p.pendingBytes + bytes })
    | some y =>
      if config.maxGapBatches < received - p.nextBatchId then
        refused (.replicaReorderLimited p.nextBatchId received config.maxGapBatches)
      else if y.batch = c.batch ∧ y.source = c.source then
        (x, { p with pending := { y with waiters := y.waiters ++ [c.response] } ::
                p.pending.eraseP (·.id = received) })
      else refused (.engine (.corruptState s!"conflicting buffered replica batch {received}"))
  else
    match reserveAndDispatch E x c.batch c.source [c.response] with
    | (true, x) => drainContiguous E p.pending.length x p.advance
    | (false, x) => (x, p)

/-- The queue, for one partition, which has a cursor once it was seen. -/
structure DurableApplyQueue (σ ρ : Type) extends ApplyState σ where
  partition : Option (PartitionAdmission ρ)

/-- The partition that `admit` works with. -/
def DurableApplyQueue.entry (q : DurableApplyQueue σ ρ) :
    Except EngineError (PartitionAdmission ρ) :=
  match q.partition with
  | some p => .ok p
  | none => (E.replicaNextBatch q.engine).map fun next ↦ ⟨next, [], 0⟩

/-- `admit`. -/
def DurableApplyQueue.admitBatch (q : DurableApplyQueue σ ρ) (c : AdmissionCommand ρ) :
    DurableApplyQueue σ ρ :=
  match q.entry E with
  | .error e => { q with replies := q.replies ++ [(c.response, .error (.engine e))] }
  | .ok p =>
    let (x, p) := admitTo E config q.toApplyState p c
    ⟨x, some p⟩

/-- What happens to a queue. -/
inductive QueueEvent (σ ρ : Type) where
  | submit (c : AdmissionCommand ρ)
  /-- A lane is done with a batch. -/
  | finish (work : DurableApplyWork) (result : Except EngineError AppendResponse)
  /-- The engine is used by others. -/
  | elsewhere (engine : σ)

def DurableApplyQueue.step (q : DurableApplyQueue σ ρ) : QueueEvent σ ρ → DurableApplyQueue σ ρ
  | .submit c => q.admitBatch E config c
  | .finish work result =>
    if work ∈ q.works then
      { q with
        works := q.works.erase work
        replies := q.replies ++ respondAll E.display work.waiters result }
    else q
  | .elsewhere engine => { q with engine }

/-- A queue that has just been started, after these events. -/
def DurableApplyQueue.run (engine : σ) (events : List (QueueEvent σ ρ)) : DurableApplyQueue σ ρ :=
  events.foldl (step E config) ⟨⟨engine, [], [], []⟩, none⟩

/-! ### The cursor -/

/-- Whether the cursor moves on after a plan, when the lane takes its work. -/
def planAccepted : Except EngineError ReplicaAppendPlan → Bool
  | .error _ => false
  | .ok (.prepared result) => result.isOk
  | .ok _ => true

/-- **What the engine allocates for the queue**: the id that it expects next, if it accepts the
batch with that id, and nothing for another batch. It does so in a `sound` state for a `plain`
batch, and its lanes run. -/
structure ReplicaEngine.Allocates (E : ReplicaEngine σ ρ) (sound : σ → Prop)
    (plain : ReplicaAppend → Prop) : Prop where
  running : ∀ s index, E.worker s index = .running
  plan : ∀ s next batch source, sound s → plain batch → E.replicaNextBatch s = .ok next →
    batch.reservation.batchId ≤ next →
    sound (E.planReplicaAppendFromPeer s batch source).2 ∧
      E.replicaNextBatch (E.planReplicaAppendFromPeer s batch source).2 = .ok
        (if batch.reservation.batchId = next ∧
          planAccepted (E.planReplicaAppendFromPeer s batch source).1 then next + 1 else next)

variable {E} {config} {sound : σ → Prop} {plain : ReplicaAppend → Prop} {x x' : ApplyState σ}
  {p : PartitionAdmission ρ}

/-- The cursor is the id that the engine expects next. -/
structure ApplyState.Follows (E : ReplicaEngine σ ρ) (sound : σ → Prop)
    (plain : ReplicaAppend → Prop) (x : ApplyState σ) (p : PartitionAdmission ρ) : Prop where
  engine : sound x.engine
  next : E.replicaNextBatch x.engine = .ok p.nextBatchId
  buffered : ∀ y ∈ p.pending, plain y.batch

section

variable (hE : E.Allocates sound plain)

include hE

omit [DecidableEq ρ]

/-- **A plan**: it is recorded, and the engine's next id moves on when the batch at the cursor is
accepted. -/
theorem follows_of_reserveAndDispatch {accepted : Bool} {batch : ReplicaAppend} {source : Option ρ}
    {waiters : List Nat} (h : x.Follows E sound plain p) (hplain : plain batch)
    (hle : batch.reservation.batchId ≤ p.nextBatchId)
    (hx : reserveAndDispatch E x batch source waiters = (accepted, x')) :
    x'.planned = x.planned ++ [batch.reservation.batchId] ∧ x'.Follows E sound plain
      (if batch.reservation.batchId = p.nextBatchId ∧ accepted then p.advance else p) := by
  obtain ⟨hsound, hnext⟩ := hE.plan _ _ batch source h.engine hplain h.next hle
  obtain ⟨haccepted, hengine, hplanned⟩ : accepted = planAccepted
      (E.planReplicaAppendFromPeer x.engine batch source).1 ∧
      x'.engine = (E.planReplicaAppendFromPeer x.engine batch source).2 ∧
      x'.planned = x.planned ++ [batch.reservation.batchId] := by
    obtain ⟨rfl, rfl⟩ := Prod.ext_iff.1 hx
    unfold reserveAndDispatch
    rcases E.planReplicaAppendFromPeer x.engine batch source with ⟨_ | _ | _ | _, engine⟩
    case ok.reserved => simp [hE.running, planAccepted]
    all_goals exact ⟨rfl, rfl, rfl⟩
  rw [← hengine, ← haccepted] at hnext
  refine ⟨hplanned, hengine ▸ hsound, ?_, ?_⟩
  · rw [hnext]
    split_ifs at hnext ⊢
    · have hlt := E.replicaNextBatch_lt _ _ hnext
      exact congrArg _ (min_eq_left (by omega)).symm
    · rfl
  · split_ifs <;> exact h.buffered

/-- Draining plans more batches, and the cursor follows them. -/
theorem drainContiguous_follows (fuel : Nat) (h : x.Follows E sound plain p) :
    x.planned <+: (drainContiguous E fuel x p).1.planned ∧
      (drainContiguous E fuel x p).1.Follows E sound plain (drainContiguous E fuel x p).2 := by
  induction fuel generalizing x p with
  | zero => exact ⟨List.prefix_rfl, h⟩
  | succ fuel ih =>
    rw [drainContiguous]
    split
    · exact ⟨List.prefix_rfl, h⟩
    next y hy =>
      have hid : y.id = p.nextBatchId := by simpa using List.find?_some hy
      have hrest : x.Follows E sound plain { p with
          pending := p.pending.eraseP (·.id = p.nextBatchId)
          pendingBytes := p.pendingBytes - y.batch.payload.length } :=
        ⟨h.engine, h.next, fun y' hy' ↦ h.buffered y' (List.mem_of_mem_eraseP hy')⟩
      split
      next x' hx =>
        obtain ⟨hplanned, hfollows⟩ := follows_of_reserveAndDispatch hE hrest
          (h.buffered y (List.mem_of_find?_eq_some hy)) hid.le hx
        rw [if_pos ⟨hid, rfl⟩] at hfollows
        exact (ih hfollows).imp_left ((hplanned ▸ List.prefix_append ..).trans ·)
      next x' hx =>
        obtain ⟨hplanned, hfollows⟩ := follows_of_reserveAndDispatch hE hrest
          (h.buffered y (List.mem_of_find?_eq_some hy)) hid.le hx
        rw [if_neg (by simp)] at hfollows
        exact ⟨hplanned ▸ List.prefix_append .., hfollows⟩

end

/-- **What a command does.** -/
theorem admitTo_follows (config : DurableApplyConfig) (hE : E.Allocates sound plain)
    {c : AdmissionCommand ρ}
    (h : x.Follows E sound plain p) (hplain : plain c.batch) :
    (admitTo E config x p c).1.Follows E sound plain (admitTo E config x p c).2 ∧
      (c.batch.reservation.batchId = p.nextBatchId →
        x.planned ++ [p.nextBatchId] <+: (admitTo E config x p c).1.planned) := by
  unfold admitTo
  by_cases hbelow : c.batch.reservation.batchId < p.nextBatchId
  · obtain ⟨-, hfollows⟩ := follows_of_reserveAndDispatch hE h hplain hbelow.le (Prod.mk.eta).symm
    rw [if_pos hbelow]
    rw [if_neg fun heq ↦ hbelow.ne heq.1] at hfollows
    exact ⟨hfollows, fun heq ↦ absurd heq hbelow.ne⟩
  rw [if_neg hbelow]
  by_cases hahead : p.nextBatchId < c.batch.reservation.batchId
  · rw [if_pos hahead]
    refine ⟨?_, fun heq ↦ absurd heq hahead.ne'⟩
    -- the batch is buffered, joins one that is, or is refused
    split
    · split_ifs
      · exact ⟨h.engine, h.next, h.buffered⟩
      · exact ⟨h.engine, h.next, h.buffered⟩
      · exact ⟨h.engine, h.next, List.forall_mem_cons.2 ⟨hplain, h.buffered⟩⟩
    next y hy =>
      split_ifs
      · exact ⟨h.engine, h.next, h.buffered⟩
      · exact ⟨h.engine, h.next,
          List.forall_mem_cons.2 ⟨h.buffered y (List.mem_of_find?_eq_some hy),
          fun y' hy' ↦ h.buffered y' (List.mem_of_mem_eraseP hy')⟩⟩
      · exact ⟨h.engine, h.next, h.buffered⟩
  have hid : c.batch.reservation.batchId = p.nextBatchId := by omega
  rw [if_neg hahead]
  split
  next x' hx =>
    obtain ⟨hplanned, hfollows⟩ := follows_of_reserveAndDispatch hE h hplain hid.le hx
    rw [if_pos ⟨hid, rfl⟩] at hfollows
    obtain ⟨hfront, hdrained⟩ := drainContiguous_follows hE p.pending.length hfollows
    exact ⟨hdrained, fun _ ↦ hid ▸ hplanned ▸ hfront⟩
  next x' hx =>
    obtain ⟨hplanned, hfollows⟩ := follows_of_reserveAndDispatch hE h hplain hid.le hx
    rw [if_neg (by simp)] at hfollows
    exact ⟨hfollows, fun _ ↦ by rw [hplanned, hid]⟩

namespace DurableApplyQueue

variable {q : DurableApplyQueue σ ρ}

/-- **The others allocate nothing** once the queue has a cursor, and only plain batches are sent. -/
def CountedEvent (E : ReplicaEngine σ ρ) (sound : σ → Prop) (plain : ReplicaAppend → Prop)
    (q : DurableApplyQueue σ ρ) : QueueEvent σ ρ → Prop
  | .submit c => plain c.batch
  | .finish .. => True
  | .elsewhere engine => sound engine ∧
      (q.partition.isSome → E.replicaNextBatch engine = E.replicaNextBatch q.engine)

/-- The events of a run, each counted where it happens. -/
def CountedRun (E : ReplicaEngine σ ρ) (config : DurableApplyConfig) (sound : σ → Prop)
    (plain : ReplicaAppend → Prop) : DurableApplyQueue σ ρ → List (QueueEvent σ ρ) → Prop
  | _, [] => True
  | q, event :: events => q.CountedEvent E sound plain event ∧
      (q.step E config event).CountedRun E config sound plain events

/-- The cursor follows the engine once the queue has one. -/
structure Follows (E : ReplicaEngine σ ρ) (sound : σ → Prop) (plain : ReplicaAppend → Prop)
    (q : DurableApplyQueue σ ρ) : Prop where
  engine : sound q.engine
  cursor : ∀ p, q.partition = some p → q.toApplyState.Follows E sound plain p

omit [DecidableEq ρ] in
theorem Follows.entry (h : q.Follows E sound plain) (hentry : q.entry E = .ok p) :
    q.toApplyState.Follows E sound plain p := by
  unfold DurableApplyQueue.entry at hentry
  split at hentry
  next hsome =>
    cases hentry
    exact h.cursor _ hsome
  next hnone =>
    obtain ⟨next, hnext, rfl⟩ := map_eq_ok_iff.1 hentry
    exact ⟨h.engine, hnext, nofun⟩

theorem Follows.step (hE : E.Allocates sound plain) (h : q.Follows E sound plain)
    {event : QueueEvent σ ρ} (hevent : q.CountedEvent E sound plain event) :
    (q.step E config event).Follows E sound plain := by
  cases event with
  | submit c =>
    change (q.admitBatch E config c).Follows E sound plain
    unfold admitBatch
    split
    · exact ⟨h.engine, fun p hp ↦ ⟨h.engine, (h.cursor p hp).next, (h.cursor p hp).buffered⟩⟩
    next p hentry =>
      have hfollows := (admitTo_follows config hE (h.entry hentry) hevent).1
      refine ⟨hfollows.engine, fun p' hp' ↦ ?_⟩
      cases hp'
      exact hfollows
  | finish work result =>
    change (if _ then _ else _ : DurableApplyQueue σ ρ).Follows E sound plain
    split_ifs
    · exact ⟨h.engine, fun p hp ↦ ⟨h.engine, (h.cursor p hp).next, (h.cursor p hp).buffered⟩⟩
    · exact h
  | elsewhere engine =>
    refine ⟨hevent.1, fun p hp ↦ ⟨hevent.1, ?_, (h.cursor p hp).buffered⟩⟩
    exact (hevent.2 (Option.isSome_of_mem hp)).trans (h.cursor p hp).next

/-- **A run**: by induction over its events. -/
theorem Follows.run (hE : E.Allocates sound plain) {events : List (QueueEvent σ ρ)}
    (h : q.Follows E sound plain) (hrun : q.CountedRun E config sound plain events) :
    (events.foldl (DurableApplyQueue.step E config) q).Follows E sound plain := by
  induction events generalizing q with
  | nil => exact h
  | cons event events ih => exact ih (h.step hE hrun.1) hrun.2

end DurableApplyQueue

/-- **The cursor follows the engine** in every run in which nobody else allocates batches of the
partition once the queue has a cursor: the batch with the id that the engine expects next is planned
at once. -/
theorem next_batch_planned {q : DurableApplyQueue σ ρ} (hE : E.Allocates sound plain) {engine : σ}
    {events : List (QueueEvent σ ρ)} (c : AdmissionCommand ρ) (hsound : sound engine)
    (hrun : DurableApplyQueue.CountedRun E config sound plain ⟨⟨engine, [], [], []⟩, none⟩ events)
    (hq : q = DurableApplyQueue.run E config engine events) (hplain : plain c.batch)
    (hnext : E.replicaNextBatch q.engine = .ok c.batch.reservation.batchId) :
    q.planned ++ [c.batch.reservation.batchId] <+: (q.admitBatch E config c).planned := by
  have hfollows : q.Follows E sound plain :=
    hq ▸ DurableApplyQueue.Follows.run hE ⟨hsound, nofun⟩ hrun
  obtain ⟨p, hentry⟩ : ∃ p, q.entry E = .ok p := by
    unfold DurableApplyQueue.entry
    cases q.partition with
    | none => exact ⟨_, by rw [hnext]; rfl⟩
    | some p => exact ⟨p, rfl⟩
  have hid : c.batch.reservation.batchId = p.nextBatchId :=
    Except.ok.inj (hnext.symm.trans (hfollows.entry hentry).next)
  have hplanned := (admitTo_follows config hE (hfollows.entry hentry) hplain).2 hid
  simp only [DurableApplyQueue.admitBatch, hentry, hid]
  exact hplanned

end Model

/-- An engine without write fences, for one partition. -/
def partitionEngine : ReplicaEngine PartitionState Unit where
  replicaNextBatch st := .ok (st.sequencer.nextBatchId % 2 ^ 128)
  replicaNextBatch_lt st n h := by
    cases h
    exact Nat.mod_lt _ (by decide)
  planReplicaAppendFromPeer st batch _ :=
    let (result, st) := reserveReplica st batch.reservation batch.producer batch.atomicGroup
      batch.payload.length batch.payloadDigest
    (result.map fun
      | .duplicate response .. => .duplicate response
      | .reserved .. => .reserved, st)
  cancelReplicaAppend st batch := (fail st batch.reservation batch.producer true).2
  replicaAppendWorkerIndex _ := 0
  worker _ _ := .running
  display _ := ""

/-- The batch with one record that has this id, sent by a leader. -/
def sentBatch (id : Nat) : AdmissionCommand Unit where
  batch.reservation := { firstBatch with
    batchId := id, firstOffset := id, lastOffset := id
    placement := { firstBatch.placement with sequence := id } }
  batch.producer := none
  batch.atomicGroup := none
  batch.payloadDigest := 1
  batch.payload := [1]
  source := none
  response := id

/-- The ids of the partition go on from those of its batches. -/
structure PartitionState.DenseIds (st : PartitionState) : Prop where
  next : st.sequencer.nextBatchId = st.batches.nextKey
  lt : st.sequencer.nextBatchId < 2 ^ 128

/-- **The engine allocates as the queue counts** for the batches without a group: such a batch is
reserved with the next id or not at all. -/
theorem partitionEngine_allocates :
    partitionEngine.Allocates PartitionState.DenseIds (·.atomicGroup = none) where
  running _ _ := rfl
  plan st next batch source := by
    rintro ⟨hdense, hlt⟩ hgroup hnext hle
    obtain rfl : st.sequencer.nextBatchId = next := by
      rw [← Nat.mod_eq_of_lt hlt]
      exact Except.ok.inj hnext
    cases hget : st.batches.get batch.reservation.batchId with
    | some b =>
      have hbelow := (DenseOrderedMap.lt_nextKey_of_get hget).2
      simp only [partitionEngine, hgroup]
      rw [if_neg fun heq ↦ by omega]
      rcases reserveReplica_of_held batch.producer none batch.payload.length batch.payloadDigest
        hget with ⟨-, reply, -, h⟩ | ⟨-, out, rfl, ⟨e, -, h⟩ | ⟨-, h⟩⟩ <;> rw [h]
      · exact ⟨⟨hdense, hlt⟩, hnext⟩
      all_goals
        refine ⟨⟨hdense.trans ?_, hlt⟩, hnext⟩
        exact (DenseOrderedMap.nextKey_modify ..).symm
    | none =>
      simp only [partitionEngine, hgroup]
      rcases reserveReplica_of_absent batch.producer none batch.payload.length batch.payloadDigest
        hget with ⟨-, e, h⟩ | ⟨hpasses, producers, -, ⟨hid, -⟩ | ⟨hid, out, rfl, h⟩⟩
      · rw [h]
        exact ⟨⟨hdense, hlt⟩, hnext.trans (congrArg _ (if_neg fun h ↦ Bool.false_ne_true h.2).symm)⟩
      · exact absurd (hpasses.batchId hdense) hid
      · rw [h]
        have hkey := hpasses.batchIds
        refine ⟨⟨(congrArg (· + 1) hdense).trans (DenseOrderedMap.nextKey_snoc ..).symm, hkey⟩, ?_⟩
        rw [if_pos ⟨hid.trans hdense.symm, rfl⟩]
        exact congrArg _ (Nat.mod_eq_of_lt hkey)

/-- The second batch is sent before the first one; the first one is written, and the third is
planned. -/
theorem sentBatch_two_planned :
    let run := DurableApplyQueue.run partitionEngine ⟨2, 2, 2⟩ oneLane
    let sent := [.submit (sentBatch 1), .submit (sentBatch 0)]
    let written := (completeFirst.run (run sent).engine (.ok ())).state
    let q := run (sent ++ [.elsewhere written])
    written.contiguousLogEnd = 1 ∧ q.planned = [0, 1] ∧
      q.planned ++ [2] <+: (q.admitBatch partitionEngine ⟨2, 2, 2⟩ (sentBatch 2)).planned := by
  intro run sent written q
  have hrun : DurableApplyQueue.CountedRun partitionEngine ⟨2, 2, 2⟩ PartitionState.DenseIds
      (·.atomicGroup = none) ⟨⟨oneLane, [], [], []⟩, none⟩ (sent ++ [.elsewhere written]) :=
    ⟨rfl, rfl, ⟨⟨by decide +kernel, by decide +kernel⟩, fun _ ↦ rfl⟩, trivial⟩
  exact ⟨by decide +kernel, by decide +kernel, next_batch_planned partitionEngine_allocates
    (sentBatch 2) ⟨rfl, by decide⟩ hrun rfl rfl (by decide +kernel)⟩

/-- **A batch behind one that the engine has allocated.** A batch is admitted, the engine then leads
and allocates the next id itself, and the batch after that, which the engine expects next, is
buffered. -/
theorem next_batch_buffered :
    let run := DurableApplyQueue.run partitionEngine ⟨1, 1, 1⟩ oneLane
    let led := reserve (run [.submit (sentBatch 0)]).engine
      { (chunkRequest none).intent (fun _ ↦ 1) with atomicGroup := none }
    let q := run [.submit (sentBatch 0), .elsewhere led.2]
    let q' := q.admitBatch partitionEngine ⟨1, 1, 1⟩ (sentBatch 2)
    led.1.isOk ∧ partitionEngine.replicaNextBatch q.engine = .ok 2 ∧
      q'.planned = [0] ∧
      q'.partition.map (fun p ↦ p.pending.map (·.id)) = some [2] := by
  decide +kernel

end ShardStream
