import ShardStream.Engine.Append
import ShardStream.Engine.ProducerCursors

/-!
# A producer and its partition

A `Producer` of the client numbers the records it appends. It moves its counter when an append is
answered with success; the coordinator moves the cursor of the producer already when the append gets
coordinates. After a failed append the coordinator refuses the epoch, and `set_epoch` is the way on:
it takes a later epoch and starts to count at zero again.

The coordinator accepts a later epoch, but does not start over: the first append of an epoch has to
continue where the cursor is. A cursor is never at zero (`CursorsCover`), so the two rules agree
only for a producer of which the partition has no cursor.

`ClientStep` runs one producer, with its retry loop, against an engine in which anything else may
happen. The data generation of the topic, which a producer sends along, is not part of the model.
-/

namespace ShardStream

open List

variable {run : ClientRun} {st : PartitionState} {xxh3 : Bytes → Digest}
  {eventId : TopicPartition → Nat → Nat → Nat → Nat} {config : EngineConfig} {maxRetries : Nat}

/-- The errors of a `Producer` that no server gave it. -/
inductive ClientError where
  | invalidConfig (message : String)
  deriving DecidableEq

/-- `Producer`, without its topic binding. -/
structure Producer where
  tp : TopicPartition
  producerId : Nat
  epoch : Nat
  leaderEpoch : Option Nat
  nextSequence : Nat
  maxRequestSize : Nat
  deriving DecidableEq

/-- What the caller of `Producer::append` gives. -/
structure ClientAppend where
  payload : Bytes
  recordCount : NonZeroU32
  durability : Durability
  /-- The number that the client draws for the request. -/
  requestId : Nat

/-- An append in the retry loop: what is sent, where the producer continues if it succeeds, how
often it was sent before, and the coordinates while a server works on it. -/
structure PendingAppend where
  request : AppendRequest
  durability : Durability
  nextSequence : Nat
  attempt : Nat
  reserved : Option (Reservation × PartitionReplicationPolicy)

/-- `Client::producer`. -/
def Producer.new (tp : TopicPartition) (producerId epoch : Nat) (maxRequestSize : Nat) : Producer :=
  ⟨tp, producerId, epoch, none, 0, maxRequestSize⟩

section Model

variable (xxh3 : Bytes → Digest) (eventId : TopicPartition → Nat → Nat → Nat → Nat)

namespace Producer

/-- `set_epoch`. -/
def setEpoch (producer : Producer) (epoch : Nat) : Except ClientError Producer :=
  if epoch ≤ producer.epoch then .error (.invalidConfig "producer epoch must increase")
  else .ok { producer with epoch, nextSequence := 0 }

/-- `identity`, for the next sequence. -/
def identity (producer : Producer) : ProducerIdentity :=
  ⟨producer.producerId, producer.epoch, producer.nextSequence,
    some (eventId producer.tp producer.producerId producer.epoch producer.nextSequence)⟩

/-- What `append` sends, unchanged, in every attempt. -/
def request (producer : Producer) (append : ClientAppend) : AppendRequest where
  tp := producer.tp
  requestId := append.requestId
  producer := some (producer.identity eventId)
  atomicGroup := none
  recordCount := append.recordCount
  payload := append.payload
  leaderEpoch := producer.leaderEpoch

/-- `append` up to the loop. -/
def beginAppend (producer : Producer) (append : ClientAppend) : Except ClientError PendingAppend :=
  if producer.maxRequestSize < append.payload.length then
    .error (.invalidConfig (s!"append payload has {append.payload.length} bytes, " ++
      s!"exceeding producer max_request_size {producer.maxRequestSize}"))
  else if ¬ producer.nextSequence + append.recordCount.get < 2 ^ 64 then
    .error (.invalidConfig "producer sequence exhausted")
  else .ok ⟨producer.request eventId append, append.durability,
    producer.nextSequence + append.recordCount.get, 0, none⟩

end Producer

/-- The errors that the server reports as unavailable, and that the client retries. -/
def AppendError.retryable : AppendError → Bool
  | .admissionLimited .. | .workerStopped _ | .objectDurabilityUnavailable => true
  | .coordinator (.durabilityUnavailable ..) | .coordinator (.durableSinkUnavailable _)
  | .coordinator (.replicaInFlight _) => true
  | .coordinator _ => false

/-- A producer, its append in progress, and the engine it appends to. -/
structure ClientRun where
  producer : Producer
  pending : Option PendingAppend
  engine : Engine

namespace ClientRun

/-- The loop of `append` receives an answer. -/
def answered (maxRetries : Nat) (producer : Producer) (pending : PendingAppend) (engine : Engine) :
    Except AppendError AppendResponse → ClientRun
  | .ok _ => ⟨{ producer with nextSequence := pending.nextSequence }, none, engine⟩
  | .error e =>
    if e.retryable ∧ pending.attempt < maxRetries then
      ⟨producer, some { pending with attempt := pending.attempt + 1, reserved := none }, engine⟩
    else ⟨producer, none, engine⟩

/-- A server asks the coordinator for coordinates. -/
def requested (maxRetries : Nat) (producer : Producer) (pending : PendingAppend) (engine : Engine)
    (st : PartitionState) : ClientRun :=
  let intent := pending.request.intent xxh3
  let after := engine.commanded pending.request.tp st (.ok ()) (.reserve intent)
  match (reserve st intent).1 with
  | .error e => answered maxRetries producer pending after (.error (.coordinator e))
  | .ok (.duplicate response copies object policy) =>
    answered maxRetries producer pending after
      (pending.durability.receiptAnswer policy copies object response)
  | .ok (.reserved r _ policy) =>
    ⟨producer, some { pending with reserved := some (r, policy) }, after⟩

/-- The shard has stored the batch, and the server completes it. -/
def completed (maxRetries : Nat) (producer : Producer) (pending : PendingAppend) (engine : Engine)
    (st : PartitionState) (r : Reservation) (policy : PartitionReplicationPolicy)
    (reached : AppendDurability) : ClientRun :=
  let completion := pending.request.completion xxh3 r reached
  let after := engine.commanded pending.request.tp st (.ok ()) (.complete completion)
  answered maxRetries producer pending after <|
    match complete st completion with
    | .error e => .error (.coordinator e)
    | .ok (response, _) => pending.durability.completedAnswer policy reached response

/-- The shard has not stored the batch, and the server reports it. -/
def failed (maxRetries : Nat) (producer : Producer) (pending : PendingAppend) (engine : Engine)
    (st : PartitionState) (r : Reservation) (error : AppendError) : ClientRun :=
  answered maxRetries producer pending
    (engine.commanded pending.request.tp st (.ok ()) (.fail r pending.request.producer true))
    (failedAnswer (fail st r pending.request.producer true).1 error)

end ClientRun

/-- **The steps of a producer and the engine it appends to.** -/
inductive ClientStep (config : EngineConfig) (maxRetries : Nat) : ClientRun → ClientRun → Prop
  /-- The engine makes a step on its own: shards, other clients, restarts. -/
  | engine {producer : Producer} {pending : Option PendingAppend} {e e' : Engine}
      (h : EngineStep config .any e e') :
      ClientStep config maxRetries ⟨producer, pending, e⟩ ⟨producer, pending, e'⟩
  /-- `append` is called. -/
  | append {producer : Producer} {append : ClientAppend} {pending : PendingAppend} {e : Engine}
      (h : producer.beginAppend eventId append = .ok pending) :
      ClientStep config maxRetries ⟨producer, none, e⟩ ⟨producer, some pending, e⟩
  /-- The request arrives. -/
  | request {producer : Producer} {pending : PendingAppend} {e : Engine} {st : PartitionState}
      (hreserved : pending.reserved = none) (hst : e.states.get pending.request.tp = some st) :
      ClientStep config maxRetries ⟨producer, some pending, e⟩
        (.requested xxh3 maxRetries producer pending e st)
  /-- The append completes. -/
  | complete {producer : Producer} {pending : PendingAppend} {e : Engine} {st : PartitionState}
      {r : Reservation} {policy : PartitionReplicationPolicy} {reached : AppendDurability}
      (hreserved : pending.reserved = some (r, policy))
      (hst : e.states.get pending.request.tp = some st)
      (hadmits : e.Admits config pending.request.tp st
        (.complete (pending.request.completion xxh3 r reached))) :
      ClientStep config maxRetries ⟨producer, some pending, e⟩
        (.completed xxh3 maxRetries producer pending e st r policy reached)
  /-- The append fails and is definitely not written. -/
  | fail {producer : Producer} {pending : PendingAppend} {e : Engine} {st : PartitionState}
      {r : Reservation} {policy : PartitionReplicationPolicy} {error : AppendError}
      (hreserved : pending.reserved = some (r, policy))
      (hst : e.states.get pending.request.tp = some st)
      (hadmits : e.Admits config pending.request.tp st (.fail r pending.request.producer true)) :
      ClientStep config maxRetries ⟨producer, some pending, e⟩
        (.failed maxRetries producer pending e st r error)
  /-- No answer arrives, and `append` returns. -/
  | lost {producer : Producer} {pending : PendingAppend} {e : Engine} :
      ClientStep config maxRetries ⟨producer, some pending, e⟩ ⟨producer, none, e⟩
  /-- `set_epoch` is called. -/
  | setEpoch {producer producer' : Producer} {epoch : Nat} {e : Engine}
      (h : producer.setEpoch epoch = .ok producer') :
      ClientStep config maxRetries ⟨producer, none, e⟩ ⟨producer', none, e⟩

/-- The runs of a new producer, with or without a leader epoch, against an engine on an empty
directory. -/
def ClientReachable (config : EngineConfig) (maxRetries : Nat) (run : ClientRun) : Prop :=
  ∃ tp producerId epoch maxRequestSize leaderEpoch, Relation.ReflTransGen
    (ClientStep xxh3 eventId config maxRetries)
    ⟨{ Producer.new tp producerId epoch maxRequestSize with leaderEpoch }, none, .initial⟩ run

/-- The producer appends one after the other, each time until the first answer. -/
def Producer.appendEach (shard : ShardHandle) (worker : Except AppendFailure AppendDurability)
    (producer : Producer) (st : PartitionState) :
    List ClientAppend → Option (Producer × PartitionState)
  | [] => some (producer, st)
  | append :: appends =>
    match producer.beginAppend eventId append with
    | .error _ => none
    | .ok pending =>
      match appendInner xxh3 st shard worker pending.request pending.durability with
      | (.ok _, st) =>
        Producer.appendEach shard worker { producer with nextSequence := pending.nextSequence } st
          appends
      | (.error _, _) => none

end Model

/-! ### Runs of a producer are runs of the engine -/

section Runs

theorem ClientRun.engine_answered (producer : Producer) (pending : PendingAppend) (e : Engine)
    (answer : Except AppendError AppendResponse) :
    (answered maxRetries producer pending e answer).engine = e := by
  cases answer with
  | ok response => rfl
  | error error =>
    simp only [answered]
    split_ifs <;> rfl

/-- The engine makes at most one step. -/
theorem ClientStep.engine_step {run' : ClientRun}
    (h : ClientStep xxh3 eventId config maxRetries run run') :
    run'.engine = run.engine ∨ EngineStep config .any run.engine run'.engine := by
  cases h with
  | engine h => exact .inr h
  | append | lost | setEpoch => exact .inl rfl
  | @request producer pending e st hreserved hst =>
    have hengine : (ClientRun.requested xxh3 maxRetries producer pending e st).engine =
        e.commanded pending.request.tp st (.ok ()) (.reserve (pending.request.intent xxh3)) := by
      simp only [ClientRun.requested]
      split
      · exact ClientRun.engine_answered ..
      · exact ClientRun.engine_answered ..
      · rfl
    rw [hengine]
    exact .inr (.command hst trivial trivial)
  | complete hreserved hst hadmits =>
    rw [ClientRun.completed, ClientRun.engine_answered]
    exact .inr (.command hst hadmits trivial)
  | fail hreserved hst hadmits =>
    rw [ClientRun.failed, ClientRun.engine_answered]
    exact .inr (.command hst hadmits trivial)

theorem ClientReachable.engine (h : ClientReachable xxh3 eventId config maxRetries run) :
    EngineReachable config .any run.engine := by
  obtain ⟨_, _, _, _, _, hsteps⟩ := h
  induction hsteps with
  | refl => exact .refl
  | tail _ hstep ih =>
    rcases hstep.engine_step with heq | hstep
    · rwa [heq]
    · exact ih.tail hstep

end Runs

/-! ### Appending in a new epoch -/

/-- The number of records of several appends. -/
def ClientAppend.total (appends : List ClientAppend) : Nat :=
  (appends.map fun a ↦ a.recordCount.get).sum

/-- Nothing but the producer stands in the way of the appends: they are small enough, the numbers
that are given out do not run out, and the producer is not behind the leader epoch. -/
structure HasRoom (st : PartitionState) (producer : Producer)
    (appends : List ClientAppend) : Prop where
  dense : st.sequencer.nextBatchId = st.batches.nextKey
  size : ∀ a ∈ appends, a.payload.length ≤ producer.maxRequestSize
  sequence : producer.nextSequence + ClientAppend.total appends < 2 ^ 64
  offset : st.sequencer.nextOffset + ClientAppend.total appends < 2 ^ 64
  batchId : st.sequencer.nextBatchId + appends.length < 2 ^ 128
  placement : st.sequencer.nextPlacementSequence + appends.length < 2 ^ 64
  len : st.batches.len + appends.length < 2 ^ 64
  leaderEpoch : ∀ e ∈ producer.leaderEpoch, st.sequencer.leaderEpoch ≤ e

/-- **Producer and coordinator agree**: the cursor is where the producer continues, or the partition
does not know the producer and it starts. No receipt is in the way. -/
structure InStep (st : PartitionState) (producer : Producer) : Prop where
  cursor : st.producers.get producer.producerId = none ∧ producer.nextSequence = 0 ∨
    st.producers.get producer.producerId = some ⟨producer.epoch, producer.nextSequence, false⟩
  receipts : ∀ first, producer.nextSequence ≤ first →
    st.dedup.get (producer.producerId, producer.epoch, first) = none

section Appends

variable (xxh3 : Bytes → Digest) (eventId : TopicPartition → Nat → Nat → Nat → Nat)
  {producer : Producer} {a : ClientAppend} {appends : List ClientAppend} {shard : ShardHandle}
  {worker : Except AppendFailure AppendDurability}

theorem ClientAppend.total_cons : total (a :: appends) = a.recordCount.get + total appends := by
  simp [total]

/-- The coordinator finds the append of a producer in step new. -/
theorem InStep.checkProducer (h : InStep st producer) (requestId : Nat) (count : NonZeroU32)
    (digest : Digest) :
    checkProducer st requestId (some (producer.identity eventId)) count digest = .ok none := by
  have hdedup : st.dedup.get (producer.identity eventId).key = none := h.receipts _ le_rfl
  rcases h.cursor with ⟨hnone, hzero⟩ | hsome
  · simp [ShardStream.checkProducer, Producer.identity, hnone, hzero]
  · simp only [ShardStream.checkProducer, hdedup]
    simp [Producer.identity, hsome]

/-- The append of a producer in step gets coordinates. -/
theorem InStep.reserve (h : InStep st producer) (hroom : HasRoom st producer (a :: appends)) :
    ∃ q : PreparedAppend, q.intent = { (producer.request eventId a).intent xxh3 with
        tp := st.sequencer.topicPartition } ∧ q.Valid st ∧
      reserve st ((producer.request eventId a).intent xxh3) = (.ok q.reply, st.allocated q) := by
  have hcount : ClientAppend.total (a :: appends) = _ := ClientAppend.total_cons
  obtain ⟨hdense, -, hsequence, hoffset, hbatchId, hplacement, hlen, hepoch⟩ := hroom
  rw [length_cons] at hbatchId hplacement hlen
  set intent : AppendIntent := { (producer.request eventId a).intent xxh3 with
    tp := st.sequencer.topicPartition } with hintent
  have hnew : duplicate st intent = .ok none := by
    simp only [duplicate, hintent, Producer.request, AppendRequest.intent, h.checkProducer]
  have hleader : st.sequencer.leaderEpoch ≤ producer.leaderEpoch.getD st.sequencer.leaderEpoch := by
    cases hleader : producer.leaderEpoch with
    | none => exact le_rfl
    | some e => exact hepoch e hleader
  have hproposal : st.sequencer.proposeReservation a.recordCount producer.leaderEpoch =
      .ok ⟨st.sequencer.nextReservation a.recordCount
        (producer.leaderEpoch.getD st.sequencer.leaderEpoch), st.sequencer.leaderEpoch⟩ :=
    TopicSequencer.proposeReservation_eq_ok_iff.2 ⟨hleader, by omega, by omega, by omega, rfl⟩
  have hcursor : cursorAfter intent = .ok (some ⟨producer.epoch,
      producer.nextSequence + a.recordCount.get, false⟩) := by
    have : producer.nextSequence + a.recordCount.get < 2 ^ 64 := by omega
    exact if_pos this
  obtain ⟨q, hq, hvalid, hprepare⟩ := prepare_of_parts hnew hproposal hdense (by omega) hcursor rfl
  exact ⟨q, hq, hvalid, reserve_of_prepare hprepare⟩

/-- **A step of a producer in step.** The append is answered with a receipt, and afterwards producer
and coordinator agree again. -/
theorem InStep.step (h : InStep st producer) (hroom : HasRoom st producer (a :: appends))
    (hserves : Serves shard worker a.payload.length st.replicationPolicy a.durability) :
    ∃ response st', appendInner xxh3 st shard worker (producer.request eventId a) a.durability =
        (.ok response, st') ∧ st'.replicationPolicy = st.replicationPolicy ∧
      st'.producers.get producer.producerId =
        some ⟨producer.epoch, producer.nextSequence + a.recordCount.get, false⟩ ∧
      InStep st' { producer with nextSequence := producer.nextSequence + a.recordCount.get } ∧
      HasRoom st' { producer with nextSequence := producer.nextSequence + a.recordCount.get }
        appends := by
  obtain ⟨q, hq, hvalid, hreserve⟩ := h.reserve xxh3 eventId hroom
  obtain ⟨response, reached, copies, happend⟩ := appendInner_of_reserve hvalid hreserve hserves
  have hp : q.intent.producer = some (producer.identity eventId) := by rw [hq]; rfl
  have hcount : q.intent.recordCount = a.recordCount := by rw [hq]; rfl
  have hcursor : (st.allocated q).producers.get producer.producerId =
      some ⟨producer.epoch, producer.nextSequence + a.recordCount.get, false⟩ := by
    rw [hvalid.producers_allocated hp, hcount]
    exact if_pos rfl
  refine ⟨response, _, happend, rfl, hcursor, ⟨.inr hcursor, fun first hfirst ↦ ?_⟩, ?_⟩
  · -- the new receipt is for a sequence below
    have hpos := a.recordCount.pos
    change (st.dedup.insert (producer.identity eventId).key _).get _ = none
    rw [Table.get_insert, if_neg, h.receipts first (by dsimp only at hfirst; omega)]
    simp only [ProducerIdentity.key, Producer.identity, Prod.mk.injEq]
    dsimp only at hfirst
    omega
  · obtain ⟨hdense, hsize, hsequence, hoffset, hbatchId, hplacement, hlen, hepoch⟩ := hroom
    rw [ClientAppend.total_cons] at hsequence hoffset
    rw [length_cons] at hbatchId hplacement hlen
    have hleader : q.leaderEpoch = producer.leaderEpoch.getD st.sequencer.leaderEpoch := by
      have hproposed := hvalid.proposed
      rw [hq] at hproposed
      obtain ⟨-, -, -, -, hproposal⟩ := TopicSequencer.proposeReservation_eq_ok_iff.1 hproposed
      rw [PreparedAppend.leaderEpoch, hproposal]
      rfl
    have hnextKey : ∀ key key' f g,
        (((st.batches.snoc q.batch).modify key f).modify key' g).nextKey =
        st.batches.nextKey + 1 := by simp
    have hlen' : ∀ key key' f g, (((st.batches.snoc q.batch).modify key f).modify key' g).len =
        st.batches.len + 1 := by simp [DenseOrderedMap.len]
    refine ⟨?_, fun b hb ↦ hsize b (mem_cons_of_mem _ hb), ?_, ?_, ?_, ?_, ?_, ?_⟩
    · exact (congrArg (· + 1) hdense).trans (hnextKey ..).symm
    · dsimp only
      omega
    · change st.sequencer.nextOffset + q.intent.recordCount.get + _ < _
      rw [hcount]
      omega
    · change st.sequencer.nextBatchId + 1 + _ < _
      omega
    · change st.sequencer.nextPlacementSequence + 1 + _ < _
      omega
    · refine (congrArg (· + appends.length) (hlen' ..)).trans_lt ?_
      omega
    · intro e he
      change q.leaderEpoch ≤ e
      rw [hleader, show producer.leaderEpoch = some e from he]
      exact le_rfl

/-- A producer in step appends one after the other. -/
theorem InStep.appendEach (appends : List ClientAppend) :
    ∀ {st : PartitionState} {producer : Producer}, InStep st producer →
      HasRoom st producer appends →
    (∀ a ∈ appends, Serves shard worker a.payload.length st.replicationPolicy a.durability) →
    appends ≠ [] → ∃ producer' st', producer.appendEach xxh3 eventId shard worker st appends =
      some (producer', st') ∧ producer'.nextSequence =
        producer.nextSequence + ClientAppend.total appends ∧
      st'.producers.get producer.producerId =
      some ⟨producer.epoch, producer'.nextSequence, false⟩ := by
  induction appends with
  | nil => exact fun _ _ _ hne ↦ absurd rfl hne
  | cons a appends ih =>
    intro st producer h hroom hserves _
    obtain ⟨response, st', happend, hpolicy, hcursor, h', hroom'⟩ :=
      h.step xxh3 eventId hroom (hserves a mem_cons_self)
    have hbegin : producer.beginAppend eventId a = .ok ⟨producer.request eventId a, a.durability,
        producer.nextSequence + a.recordCount.get, 0, none⟩ := by
      have hsize := hroom.size a mem_cons_self
      have hsequence := hroom.sequence
      rw [ClientAppend.total_cons] at hsequence
      rw [Producer.beginAppend, if_neg hsize.not_gt, if_neg (by omega)]
    rw [Producer.appendEach, hbegin]
    dsimp only
    rw [happend, ClientAppend.total_cons]
    by_cases hne : appends = []
    · subst hne
      exact ⟨_, st', rfl, rfl, hcursor⟩
    · obtain ⟨producer', st'', hrun, hnext, hcursor'⟩ := ih h' hroom'
        (fun b hb ↦ by rw [hpolicy]; exact hserves b (mem_cons_of_mem _ hb)) hne
      exact ⟨producer', st'', hrun, by rw [hnext]; dsimp only; omega, hcursor'⟩

end Appends

/-- **A new epoch.** In every run of a producer against an engine: after it has taken an epoch above
the one of its cursor, the appends that it then makes, for which there is room and which the shard
stores, are all accepted, with the cursor following the producer, exactly if the partition had no
cursor for it. -/
theorem new_epoch_accepted_iff {xxh3 : Bytes → Digest}
    {eventId : TopicPartition → Nat → Nat → Nat → Nat} {config : EngineConfig} {maxRetries : Nat}
    {producer producer' : Producer} {e : Engine} {st : PartitionState} {epoch : Nat}
    {appends : List ClientAppend} {shard : ShardHandle}
    {worker : Except AppendFailure AppendDurability}
    (h : ClientReachable xxh3 eventId config maxRetries ⟨producer, none, e⟩)
    (hst : e.states.get producer.tp = some st) (hset : producer.setEpoch epoch = .ok producer')
    (habove : ∀ cursor, st.producers.get producer.producerId = some cursor → cursor.epoch < epoch)
    (hne : appends ≠ []) (hroom : HasRoom st producer' appends)
    (hserves : ∀ a ∈ appends,
      Serves shard worker a.payload.length st.replicationPolicy a.durability) :
    (∃ producer'' st'', producer'.appendEach xxh3 eventId shard worker st appends =
        some (producer'', st'') ∧ producer''.nextSequence = ClientAppend.total appends ∧
      st''.producers.get producer.producerId = some ⟨epoch, producer''.nextSequence, false⟩) ↔
      st.producers.get producer.producerId = none := by
  have hcover := h.engine.cursorsCover hst
  obtain rfl : producer' = { producer with epoch, nextSequence := 0 } := by
    simp only [Producer.setEpoch] at hset
    split_ifs at hset
    exact (Except.ok.inj hset).symm
  constructor
  · rintro ⟨producer'', st'', hrun, -⟩
    by_contra hsome
    obtain ⟨cursor, hcursor⟩ := Option.ne_none_iff_exists'.1 hsome
    obtain ⟨a, appends, rfl⟩ := exists_cons_of_ne_nil hne
    -- the first append starts at zero, and the cursor is beyond
    have hpos := hcover.positive hcursor
    have hlt := habove cursor hcursor
    set fresh : Producer := { producer with epoch, nextSequence := 0 } with hfresh
    have hcheck : checkProducer st a.requestId (some (fresh.identity eventId)) a.recordCount
        ((fresh.request eventId a).payloadDigest xxh3) =
          .error (.producerSequenceOutOfOrder producer.producerId cursor.nextSequence 0) := by
      simp [checkProducer, Producer.identity, hfresh, hcursor, hlt.not_gt, hlt.ne', hpos.ne]
    have hreserve : reserve st ((fresh.request eventId a).intent xxh3) = (.error _, st) :=
      reserve_of_check_error hcheck
    rw [Producer.appendEach] at hrun
    cases hbegin : fresh.beginAppend eventId a with
    | error error =>
      rw [hbegin] at hrun
      cases hrun
    | ok pending =>
      have hrequest : pending.request = fresh.request eventId a := by
        simp only [Producer.beginAppend] at hbegin
        split_ifs at hbegin
        cases hbegin
        rfl
      rw [hbegin] at hrun
      simp only [appendInner, hrequest, hreserve] at hrun
      cases hrun
  · intro hnone
    have hinStep : InStep st { producer with epoch, nextSequence := 0 } := by
      refine ⟨.inl ⟨hnone, rfl⟩, fun first _ ↦ ?_⟩
      by_contra hsome
      obtain ⟨record, hrecord⟩ := Option.ne_none_iff_exists'.1 hsome
      obtain ⟨cursor, hcursor, -⟩ := hcover.receipts hrecord
      cases hnone.symm.trans hcursor
    obtain ⟨producer'', st'', hrun, hnext, hcursor⟩ :=
      hinStep.appendEach xxh3 eventId appends hroom hserves hne
    exact ⟨producer'', st'', hrun, by rw [hnext]; exact Nat.zero_add _, hcursor⟩

/-! ### Producer 9 -/

/-- A new producer. -/
def nine : Producer := .new ⟨0, 0⟩ 9 0 1000

/-- The producer after it has taken epoch 1. -/
def nineInOne : Producer := { nine with epoch := 1 }

/-- One record of one byte. -/
def oneRecord : ClientAppend := ⟨[1], .one, .leader, 0⟩

/-- The request for the first record of a producer, under functions that are constantly zero. -/
def requestOf (producer : Producer) : AppendRequest := producer.request (fun _ _ _ _ ↦ 0) oneRecord

/-- At most one record was given out. -/
def PartitionState.nearlyEmpty (st : PartitionState) : Bool :=
  decide (st.sequencer.nextBatchId = st.batches.nextKey ∧ st.sequencer.nextOffset ≤ 1 ∧
    st.batches.nextKey ≤ 1 ∧ st.sequencer.nextPlacementSequence ≤ 1 ∧ st.batches.len ≤ 1)

theorem hasRoom_records (n : Fin 3) (h : st.nearlyEmpty = true) :
    HasRoom st nineInOne (replicate n oneRecord) := by
  obtain ⟨hdense, hoffset, hkey, hplacement, hlen⟩ := of_decide_eq_true h
  have htotal : ClientAppend.total (replicate n oneRecord) = n := by
    revert n
    decide
  have hstart : nineInOne.nextSequence = 0 := rfl
  refine ⟨hdense, fun a ha ↦ by rw [eq_of_mem_replicate ha]; decide, ?_, ?_, ?_, ?_, ?_, nofun⟩
  all_goals
    simp only [htotal, hstart, length_replicate]
    omega

/-- A shard with room. -/
def idleShard : ShardHandle := ⟨0, some ⟨1, 1000, 0, 0, true⟩⟩

theorem idleShard_serves (n : Nat) (policy : PartitionReplicationPolicy) :
    ∀ a ∈ replicate n oneRecord,
      Serves idleShard (.ok ⟨1, false⟩) a.payload.length policy a.durability := by
  intro a ha
  rw [eq_of_mem_replicate ha]
  exact ⟨⟨⟨0, some ⟨1, 1000, 1, 257, true⟩⟩, by decide⟩, ⟨1, false⟩, rfl, le_rfl, nofun⟩

theorem ClientReachable.of_engine {e : Engine} (h : EngineReachable config .any e) :
    ClientReachable xxh3 eventId config maxRetries ⟨nine, none, e⟩ := by
  refine ⟨⟨0, 0⟩, 9, 0, 1000, none, ?_⟩
  induction h with
  | refl => exact .refl
  | tail _ hstep ih => exact ih.tail (.engine hstep)

/-- Another producer's record is written. Producer 9, which the partition does not know, then goes
on in a new epoch with two records. -/
theorem unknown_producer_takes_epoch : ∃ e st producer' st', EngineReachable ⟨1, 1, 1⟩ .any e ∧
    e.states.get ⟨0, 0⟩ = some st ∧ st.producers.get 8 = some ⟨0, 1, false⟩ ∧
    nineInOne.appendEach (fun _ ↦ 0) (fun _ _ _ _ ↦ 0) idleShard (.ok ⟨1, false⟩) st
      [oneRecord, oneRecord] = some (producer', st') ∧
    st'.producers.get 9 = some ⟨1, 2, false⟩ := by
  obtain ⟨e, st, he, hst, h⟩ := Engine.exists_of_play ⟨1, 1, 1⟩
    [.create ⟨0, 0⟩ [0] ⟨1, 1, 1⟩, .reserve ⟨0, 0⟩ (some ⟨8, 0, 0, none⟩) none .one 1 0,
      .write ⟨0, 0⟩ 0, .complete ⟨0, 0⟩ 0] ⟨0, 0⟩
    (fun _ st ↦ st.nearlyEmpty ∧ st.producers.get 8 = some ⟨0, 1, false⟩ ∧
      st.producers.get 9 = none) Guard.any_implies (by decide +kernel)
  obtain ⟨hroom, hother, hnone⟩ := h
  have hclient : ClientReachable (fun _ ↦ 0) (fun _ _ _ _ ↦ 0) ⟨1, 1, 1⟩ 0 ⟨nine, none, e⟩ :=
    .of_engine he
  have hset : nine.setEpoch 1 = .ok nineInOne := rfl
  obtain ⟨producer', st', hrun, hnext, hcursor⟩ := (new_epoch_accepted_iff hclient hst hset
    (fun cursor hcursor ↦ by cases hnone.symm.trans hcursor) (cons_ne_nil oneRecord _)
    (hasRoom_records 2 hroom) (idleShard_serves 2 st.replicationPolicy)).2 hnone
  rw [hnext] at hcursor
  exact ⟨e, st, producer', st', he, hst, hother, hrun, hcursor⟩

/-- **A fenced producer stays fenced.** The first append of producer 9 gets coordinates and then
fails without a write, and the partition asks for a new epoch. The producer takes epoch 1, and its
next append is refused: it starts at zero, and the partition expects one. -/
theorem fenced_producer_refused_in_new_epoch : ∃ e st,
    ClientReachable (fun _ ↦ 0) (fun _ _ _ _ ↦ 0) ⟨1, 1, 1⟩ 0 ⟨nine, none, e⟩ ∧
    e.states.get ⟨0, 0⟩ = some st ∧ st.producers.get 9 = some ⟨0, 1, true⟩ ∧
    nine.setEpoch 1 = .ok nineInOne ∧ HasRoom st nineInOne [oneRecord] ∧
    (∀ a ∈ [oneRecord], Serves idleShard (.ok ⟨1, false⟩) a.payload.length st.replicationPolicy
      a.durability) ∧
    (appendInner (fun _ ↦ 0) st idleShard (.ok ⟨1, false⟩) (requestOf nineInOne) .leader).1 =
      .error (.coordinator (.producerSequenceOutOfOrder 9 1 0)) := by
  obtain ⟨e₀, st₀, he, hst₀, h⟩ := Engine.exists_of_play ⟨1, 1, 1⟩
    [.create ⟨0, 0⟩ [0] ⟨1, 1, 1⟩] ⟨0, 0⟩
    (fun e st ↦
      let e₁ := e.commanded ⟨0, 0⟩ st (.ok ()) (.reserve ((requestOf nine).intent fun _ ↦ 0))
      (reserve st ((requestOf nine).intent fun _ ↦ 0)).1 =
        .ok (.reserved firstBatch (some ⟨9, 0, 0, some 0, digestXxh3128, 0⟩) ⟨1, 1, 1⟩) ∧
      ∃ st₁, e₁.states.get ⟨0, 0⟩ = some st₁ ∧
        e₁.admits ⟨1, 1, 1⟩ ⟨0, 0⟩ st₁ (.fail firstBatch (requestOf nine).producer true) ∧
        (fail st₁ firstBatch (requestOf nine).producer true).1 = .ok () ∧
        let e₂ := e₁.commanded ⟨0, 0⟩ st₁ (.ok ()) (.fail firstBatch (requestOf nine).producer true)
        ∃ st₂, e₂.states.get ⟨0, 0⟩ = some st₂ ∧
          st₂.nearlyEmpty ∧ st₂.producers.get 9 = some ⟨0, 1, true⟩ ∧
          (appendInner (fun _ ↦ 0) st₂ idleShard (.ok ⟨1, false⟩) (requestOf nineInOne) .leader).1 =
            .error (.coordinator (.producerSequenceOutOfOrder 9 1 0)))
    Guard.any_implies (by decide +kernel)
  obtain ⟨hreserved, st₁, hst₁, hadmits, hreport, st, hst, hroom, hcursor, hrefused⟩ := h
  set e₁ := e₀.commanded ⟨0, 0⟩ st₀ (.ok ()) (.reserve ((requestOf nine).intent fun _ ↦ 0)) with he₁
  set pending : PendingAppend := ⟨requestOf nine, .leader, 1, 0, none⟩ with hpending
  obtain ⟨_, _, _, _, _, hsteps⟩ : ClientReachable (fun _ ↦ 0) (fun _ _ _ _ ↦ 0) ⟨1, 1, 1⟩ 0
    ⟨nine, none, e₀⟩ := .of_engine he
  have happend : ClientStep (fun _ ↦ 0) (fun _ _ _ _ ↦ 0) ⟨1, 1, 1⟩ 0 ⟨nine, none, e₀⟩
      ⟨nine, some pending, e₀⟩ := .append (show nine.beginAppend _ oneRecord = .ok pending from rfl)
  have hrequest : ClientStep (fun _ ↦ 0) (fun _ _ _ _ ↦ 0) ⟨1, 1, 1⟩ 0 ⟨nine, some pending, e₀⟩
      (.requested (fun _ ↦ 0) 0 nine pending e₀ st₀) := .request rfl hst₀
  have hstage : ClientRun.requested (fun _ ↦ 0) 0 nine pending e₀ st₀ =
      ⟨nine, some { pending with reserved := some (firstBatch, ⟨1, 1, 1⟩) }, e₁⟩ := by
    simp only [ClientRun.requested, hpending, hreserved, he₁]
    rfl
  rw [hstage] at hrequest
  have hfail : ClientStep (fun _ ↦ 0) (fun _ _ _ _ ↦ 0) ⟨1, 1, 1⟩ 0
      ⟨nine, some { pending with reserved := some (firstBatch, ⟨1, 1, 1⟩) }, e₁⟩
      (.failed 0 nine { pending with reserved := some (firstBatch, ⟨1, 1, 1⟩) } e₁ st₁ firstBatch
        (.workerStopped 0)) := .fail rfl hst₁ (Engine.admits_sound hadmits)
  have hend : ClientRun.failed 0 nine { pending with reserved := some (firstBatch, ⟨1, 1, 1⟩) } e₁
      st₁ firstBatch (.workerStopped 0) = ⟨nine, none,
        e₁.commanded ⟨0, 0⟩ st₁ (.ok ()) (.fail firstBatch (requestOf nine).producer true)⟩ := by
    simp only [ClientRun.failed, hpending, hreport, failedAnswer, ClientRun.answered, lt_irrefl,
      and_false, ↓reduceIte]
    rfl
  rw [hend] at hfail
  exact ⟨_, st, ⟨_, _, _, _, _, ((hsteps.tail happend).tail hrequest).tail hfail⟩, hst, hcursor,
    rfl, hasRoom_records 1 hroom, idleShard_serves 1 _, hrefused⟩

end ShardStream
