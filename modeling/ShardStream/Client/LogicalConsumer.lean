import ShardStream.Client.Producer
import ShardStream.Engine.Consume
import ShardStream.Engine.Visibility

/-!
# A consumer over REST

A `LogicalConsumer` of the client without a cursor asks the server for the initial one, fetches from
there, and goes on with the cursor that comes with each page. The server's initial cursor is offset
zero in every partition, and a page moves the cursor behind the last batch it holds, so a page
without a batch leaves it where it was.

`ConsumerRun` runs one consumer against an engine that appends, decides groups, truncates and
restarts. What a consumer has read (`ReadTo`) survives all of that as long as the log starts no
later than its cursor: a committed batch below the cursor is below the last stable offset, where
nothing is decided any more, and what a restart allocates anew lies above. So a consumer gets every
committed batch once and in order, and gets to the end, in the runs in which the log starts at zero
when it makes its first fetch and the windows of its fetches suffice (`Suffices`).
-/

namespace ShardStream

open PartitionCore List StoredBatch

variable {r : Reservation} {c : Command} {config : EngineConfig} {e : Engine} {st' : PartitionState}
  {checksum : ExtentChecksum} {s : ShardedEngine} {x : Consuming}
  {maxBytes maxFetchBytes : Nat} {mode : FetchMode}

/-! ### The calls -/

/-- The errors of `LogicalConsumer::fetch`: its own, and those of the server. -/
inductive LogicalFetchError where
  | client (error : ClientError)
  | api (error : EngineError)
  deriving DecidableEq

/-- `LogicalConsumer`, by the offset of its cursor. The data generation of a cursor is always
one. -/
structure LogicalConsumer where
  cursor : Option Nat

/-- `LogicalFetchPage`, with the cursor by its offset. -/
structure LogicalFetchPage where
  batches : List StoredBatch
  nextCursor : Nat

/-- `initial_cursor` of the server. -/
def initialCursor (e : Engine) (tp : TopicPartition) : Except EngineError Nat :=
  match e.states.get tp with
  | none => .error (.unknownPartition tp.topicId tp.partitionId)
  | some _ => .ok 0

/-- The offset of the cursor that a page comes with. -/
def nextCursor (cursor : Nat) (batches : List StoredBatch) : Nat :=
  match batches.getLast? with
  | some last => min (last.reservation.lastOffset + 1) (2 ^ 64 - 1)
  | none => cursor

/-- `fetch` of the server, given a cursor. -/
def fetchPage (maxFetchBytes : Nat) (s : ShardedEngine) (tp : TopicPartition)
    (cursor maxBytes : Nat) (mode : FetchMode) : Except EngineError LogicalFetchPage :=
  match s.engine.states.get tp with
  | none => .error (.unknownPartition tp.topicId tp.partitionId)
  | some st => do
    let batches ← fetchStoredInternal maxFetchBytes st.toPartitionCore s.shards
      ⟨tp, cursor, maxBytes, mode⟩ false
    .ok ⟨batches, nextCursor cursor batches⟩

/-- `LogicalConsumer::fetch`. -/
def LogicalConsumer.fetch (consumer : LogicalConsumer) (maxFetchBytes : Nat) (s : ShardedEngine)
    (tp : TopicPartition) (maxBytes : Nat) (mode : FetchMode) :
    Except LogicalFetchError LogicalFetchPage :=
  if maxBytes = 0 then .error (.client (.invalidConfig "max_bytes must be nonzero"))
  else if mode = .asAvailable then
    .error (.client (.invalidConfig
      "logical cursor fetch requires a contiguous ordered or replicated mode"))
  else
    match consumer.cursor with
    | some cursor => (fetchPage maxFetchBytes s tp cursor maxBytes mode).mapError .api
    | none =>
      match initialCursor s.engine tp with
      | .error e => .error (.api e)
      | .ok cursor => (fetchPage maxFetchBytes s tp cursor maxBytes mode).mapError .api

/-! ### Runs -/

/-- The server, the consumer, and what the consumer has received. -/
structure Consuming where
  server : ShardedEngine
  consumer : LogicalConsumer
  received : List StoredBatch

namespace Consuming

/-- Where the next fetch starts. -/
def start (x : Consuming) : Nat := x.consumer.cursor.getD 0

/-- The consumer fetches. Only a page changes its cursor. -/
def fetched (x : Consuming) (maxFetchBytes : Nat) (tp : TopicPartition) (maxBytes : Nat)
    (mode : FetchMode) : Consuming :=
  match x.consumer.fetch maxFetchBytes x.server tp maxBytes mode with
  | .ok page => ⟨x.server, ⟨some page.nextCursor⟩, x.received ++ page.batches⟩
  | .error _ => x

/-- The consumer fetches again and again, and nothing else happens. -/
def fetches (x : Consuming) (maxFetchBytes : Nat) (tp : TopicPartition) (maxBytes : Nat → Nat)
    (mode : FetchMode) : Nat → Consuming
  | 0 => x
  | n + 1 => (fetches x maxFetchBytes tp maxBytes mode n).fetched maxFetchBytes tp (maxBytes n) mode

/-- The log of the partition starts no later than the cursor, if there is one. -/
def Behind (x : Consuming) (tp : TopicPartition) (e : Engine) : Prop :=
  ∀ n st, x.consumer.cursor = some n → e.states.get tp = some st → st.logStart ≤ n

/-- **What a fetch needs.** A consumer without a cursor finds a log that starts at zero. If a
committed batch is ahead then one is within the window of its shard, and none is passed over for a
later one. -/
structure Suffices (x : Consuming) (tp : TopicPartition) (maxBytes : Nat)
    (mode : FetchMode) : Prop where
  started : ∀ st, x.server.engine.states.get tp = some st → x.consumer.cursor = none →
    st.logStart = 0
  within : ∀ st, x.server.engine.states.get tp = some st →
    (∃ l ∈ extentsOf tp x.server.shards,
      deliverable st false x.start (st.fetchEnd mode false) l.reservation = true) →
    ∃ l ∈ windows tp x.start maxBytes x.server.shards,
      deliverable st false x.start (st.fetchEnd mode false) l.reservation = true
  whole : ∀ st, x.server.engine.states.get tp = some st → ∀ c d,
    ¬ Skips tp x.server.shards x.start maxBytes
      (deliverable st false x.start (st.fetchEnd mode false)) c d

end Consuming

/-- The request is one that a logical fetch may make. -/
structure LogicalRequest (maxFetchBytes maxBytes : Nat) (mode : FetchMode) : Prop where
  pos : 0 < maxBytes
  lt : maxBytes < 2 ^ 32
  le : maxBytes ≤ maxFetchBytes
  mode : mode ≠ .asAvailable

/-- The server appends as a leader, it is sent no batch of another broker. -/
def Command.Led (c : Command) : Prop :=
  ∀ r producer group bytes digest, c ≠ .reserveReplica r producer group bytes digest

/-- What a server does between two restarts. -/
def RunRule.served : RunRule := ⟨fun _ _ _ c ↦ c.Led, fun _ ↦ False⟩

/-- What a server does. -/
def RunRule.led : RunRule := ⟨fun _ _ _ c ↦ c.Led, fun _ ↦ True⟩

/-- The runs of a server and of a consumer of a partition, from empty directories and without a
cursor. The consumer makes those fetches that are allowed, and the log is not truncated past its
cursor. -/
inductive ConsumerRun (checksum : ExtentChecksum) (config : EngineConfig)
    (maxFetchBytes : Nat) (tp : TopicPartition) (allowed : Consuming → Nat → FetchMode → Prop) :
    Consuming → Prop
  | opened {shards : List ShardStore} (h : ∀ shard ∈ shards, ∃ storeConfig storeToken,
        ShardStore.openInner checksum storeConfig storeToken [] = .ok shard) :
      ConsumerRun checksum config maxFetchBytes tp allowed ⟨⟨.initial, shards⟩, ⟨none⟩, []⟩
  /-- A coordinator moves, or an extent becomes durable. -/
  | engine {x : Consuming} {e : Engine}
      (hx : ConsumerRun checksum config maxFetchBytes tp allowed x)
      (h : EngineStep config .served x.server.engine e)
      (hwritten : ∀ y ∈ e.extents, y ∈ x.server.engine.extents ∨ x.server.Indexed y)
      (hbehind : x.Behind tp e) :
      ConsumerRun checksum config maxFetchBytes tp allowed
        { x with server := ⟨e, x.server.shards⟩ }
  /-- A shard appends, seals or collects. -/
  | shard {x : Consuming} {shards : List ShardStore}
      (hx : ConsumerRun checksum config maxFetchBytes tp allowed x)
      (h : LiveStep checksum config x.server ⟨x.server.engine, shards⟩) :
      ConsumerRun checksum config maxFetchBytes tp allowed
        { x with server := ⟨x.server.engine, shards⟩ }
  /-- The server stops and recovers. -/
  | restart {x : Consuming} {states : Table TopicPartition PartitionState}
      {shards : List ShardStore} (hx : ConsumerRun checksum config maxFetchBytes tp allowed x)
      (hrec : x.server.engine.recover config 1 = .ok states)
      (hshards : List.Forall₂ (Survives checksum x.server.engine.extents) x.server.shards shards) :
      ConsumerRun checksum config maxFetchBytes tp allowed
        { x with server := ⟨{ x.server.engine with states, inFlight := [] }, shards⟩ }
  /-- The consumer fetches. -/
  | fetch {x : Consuming} {maxBytes : Nat} {mode : FetchMode}
      (hx : ConsumerRun checksum config maxFetchBytes tp allowed x)
      (hrequest : LogicalRequest maxFetchBytes maxBytes mode) (hallowed : allowed x maxBytes mode) :
      ConsumerRun checksum config maxFetchBytes tp allowed
        (x.fetched maxFetchBytes tp maxBytes mode)

/-! ### What has been read -/

/-- **The partition has been read up to the offset.** The offset is where the log starts or a
committed batch ends, and what is committed below it has been received. -/
structure PartitionState.ReadTo (st : PartitionState) (n : Nat) (received : List Reservation) :
    Prop where
  logStart_le : st.logStart ≤ n
  boundary : n ≤ st.logStart ∨ ∃ key b, st.batches.get key = some b ∧ b.status = .committed ∧
    b.reservation.lastOffset + 1 = n ∧ n ≤ st.lastStableOffset
  complete : ∀ key b, st.batches.get key = some b → b.status = .committed →
    b.reservation.lastOffset < n → b.reservation ∈ received

section ReadTo

variable {st : PartitionState} {n : Nat} {received : List Reservation}

theorem PartitionState.ReadTo.le_stable (h : st.ReadTo n received) (hs : st.Sound) :
    n ≤ st.lastStableOffset := by
  rcases h.boundary with hle | ⟨-, -, -, -, -, hle⟩
  · exact hle.trans (hs.cursors.stable.inPlace.logStart_le hs.layout)
  · exact hle

/-- No batch lies across an offset that the partition has been read to. -/
theorem PartitionState.ReadTo.le_firstOffset (h : st.ReadTo n received) (hl : st.Layout)
    (hr : st.Retains r) (hle : n ≤ r.lastOffset) : n ≤ r.firstOffset := by
  rcases h.boundary with hstart | ⟨key, b, hb, -, rfl, -⟩
  · exact hstart.trans (hr.range hl).1
  · have hretains : st.Retains b.reservation := ⟨b, by rw [(hl.get hb).2.1]; exact hb, rfl⟩
    rcases Nat.lt_or_ge b.reservation.batchId r.batchId with hlt | hge
    · exact hretains.lt_of_batchId_lt hr hl hlt
    · rcases hge.eq_or_lt with heq | hlt
      · rw [hr.eq_of_batchId hretains heq] at hle
        omega
      · have := hr.lt_of_batchId_lt hretains hl hlt
        have := (hretains.range hl).2.1
        omega

/-- A batch that ends below a stable offset has been decided. -/
theorem PartitionCore.Exact.stable_of_lt {st : PartitionCore} (he : st.Exact) (hs : st.Sound)
    {key : Nat} {b : BatchRuntime} (hb : st.batches.get key = some b)
    (hlt : b.reservation.lastOffset < st.lastStableOffset) : b.stable = true := by
  have hc := hs.cursors.stable.inPlace
  refine he.stable key b ((hs.layout.lastOffset_lt_iff hb hc.firstKey_le hc.le_nextKey).1 ?_) hb
  rw [← hc.offset_eq]
  exact hlt

/-- **What a command keeps of what was read**, if it takes up no aborted batch and does not truncate
past it. -/
theorem Outcome.readTo {answer : Except EngineError Unit} {eff : Effect}
    (hout : Outcome st answer c eff) (hs : st.Sound) (he : st.Exact) (hnone : c.reopens st = none)
    (h : st.ReadTo n received) (hbehind : eff.state.logStart ≤ n) :
    eff.state.ReadTo n received := by
  have hl := hs.layout
  obtain ⟨hfirst, hfirst', -, hstart⟩ := hout.range hs
  obtain ⟨-, hends⟩ := hout.core_effect.endsAfter hs he (by simp [hnone])
  have hstable := (hends.plain hnone).stable
  refine ⟨hbehind, ?_, fun key b' hb' hcommitted hlt ↦ ?_⟩
  · rcases h.boundary with hle | ⟨key, b, hb, hcommitted, rfl, hle⟩
    · have := hl.offsetAt_le hfirst hfirst'
      rw [offsetAt_firstKey, ← hstart] at this
      exact .inl (hle.trans this)
    · have hstep := hout.keyStep hs key
      rw [hb] at hstep
      -- a committed batch stays as it is until it is truncated
      cases hget : eff.state.batches.get key with
      | some b' =>
        rw [hget] at hstep
        obtain ⟨_, hsome, hsame⟩ := hstep.sameBatch (DenseOrderedMap.lt_nextKey_of_get hb).2.ne
        cases hsome
        rcases hstep.status_of_stable (by simp [BatchRuntime.stable, hcommitted]) with
          hstatus | ⟨haborted, -⟩
        · refine .inr ⟨key, b', hget, hstatus.trans hcommitted, ?_, hle.trans hstable⟩
          rw [hsame.reservation]
        · simp [hcommitted] at haborted
      | none =>
        rw [hget] at hstep
        cases hstep with
        | dropped hkey => exact .inl (hstart ▸ (hl.lastOffset_lt_iff hb hfirst hfirst').2 hkey)
  · have hstep := hout.keyStep hs key
    rw [hb'] at hstep
    obtain ⟨b, hb, hsame, hcase⟩ :=
      hstep.exists_of_stable (by simp [BatchRuntime.stable, hcommitted])
    rw [hsame.reservation] at hlt ⊢
    have hready := he.stable_of_lt hs hb (hlt.trans_le (h.le_stable hs))
    rcases hcase with hstatus | hopen
    · exact h.complete key b hb (hstatus.symm.trans hcommitted) hlt
    · simp [hopen] at hready

/-- **What a restart keeps of what was read.** -/
theorem BackedBy.readTo {s : ReplayState} {tp : TopicPartition} {replicas : Nat}
    (hbacked : BackedBy config e s) (hst : e.states.get tp = some st)
    (hr : Recovered (st.recoveryContext config s replicas tp) (e.entries tp) st') (he : st.Exact)
    (h : st.ReadTo n received) : st'.ReadTo n received := by
  have hb := hbacked.backed tp st hst
  have hstart : st'.logStart = st.logStart := hr.logStart.trans hb.journaling.logStart
  refine ⟨hstart.le.trans h.logStart_le, ?_, fun key b' hb' hcommitted hlt ↦ ?_⟩
  · rcases h.boundary with hle | ⟨key, b, hget, hcommitted, rfl, hle⟩
    · exact .inl (hle.trans hstart.ge)
    · obtain ⟨b', hget', hcommitted', hres, hlt⟩ :=
        (hbacked.restartKeeps hst hr).visible key b hget hcommitted hle
      rw [hres] at hlt
      exact .inr ⟨key, b', hget', hcommitted', by rw [hres], hlt⟩
  · rcases hr.get_cases hb' with ⟨y, hy, rfl, rfl⟩ | ⟨hplaceholder, -⟩
    · obtain ⟨hy, htp, b, hget⟩ := (hb.mem_entries_iff hbacked.replay).1 hy
      have hkey : y.key = (tp, y.reservation.batchId) := ExtentCatalogEntry.key_eq_iff.2 ⟨htp, rfl⟩
      have hk := hb.keys _ b hget
      have hres : y.reservation = b.reservation := (hk.describes y hy hkey).reservation
      change recoveredStatus _ y.atomicGroup = .committed at hcommitted
      change y.reservation.lastOffset < n at hlt
      change y.reservation ∈ received
      rw [hb.recoveredStatus_eq] at hcommitted
      rw [hres] at hlt ⊢
      -- the batch was decided, and would have come back aborted had it been aborted
      have hstable := he.stable_of_lt hb.sound hget (hlt.trans_le (h.le_stable hb.sound))
      refine h.complete _ b hget ?_ hlt
      cases hstatus : b.status with
      | pending | unresolved => simp [BatchRuntime.stable, hstatus] at hstable
      | committed => rfl
      | aborted =>
        rw [hk.aborted hstatus y hy hkey] at hcommitted
        cases hcommitted
    · rw [hplaceholder] at hcommitted
      cases hcommitted

end ReadTo

/-! ### One page -/

/-- **A page** of a fetch from `start`: it holds the committed batches up to its cursor, and an
empty one leaves nothing before the end. -/
structure LogicalFetchPage.Holds (page : LogicalFetchPage) (st : PartitionState)
    (start endOffset : Nat) : Prop where
  inOrder : (page.batches.map reservation).Pairwise fun a b ↦ a.lastOffset < b.firstOffset
  retained : ∀ r ∈ page.batches.map reservation,
    st.Retains r ∧ start ≤ r.lastOffset ∧ r.lastOffset < page.nextCursor
  complete : ∀ key b, st.batches.get key = some b → b.status = .committed →
    start ≤ b.reservation.lastOffset → b.reservation.lastOffset < page.nextCursor →
    b.reservation ∈ page.batches.map reservation
  cursor : page.nextCursor = start ∧ page.batches = [] ∧
      (∀ key b, st.batches.get key = some b → b.status = .committed →
        b.reservation.lastOffset < endOffset → b.reservation.lastOffset < start) ∨
    start < page.nextCursor ∧ page.nextCursor ≤ endOffset ∧ ∃ key b, st.batches.get key = some b ∧
      b.status = .committed ∧ b.reservation.lastOffset + 1 = page.nextCursor

section Page

variable {st : PartitionState} {tp : TopicPartition}

theorem deliverable_false_iff {start endOffset : Nat} :
    deliverable st false start endOffset r = true ↔ start ≤ r.lastOffset ∧
      r.lastOffset < endOffset ∧ ∃ b, st.batches.get r.batchId = some b ∧
        b.status = .committed := by
  simp [deliverable, fetchable, BatchRuntime.fetchable, Option.any_eq_true, and_assoc]

theorem fetchEnd_le_stable (st : PartitionState) (mode : FetchMode) :
    st.fetchEnd mode false ≤ st.lastStableOffset := by
  cases mode with
  | replicated => exact min_le_right _ _
  | ordered | asAvailable => exact le_rfl

/-- **What a fetch of a consumer returns.** -/
theorem Consuming.Suffices.exists_page (h : x.Suffices tp maxBytes mode)
    (hst : x.server.engine.states.get tp = some st)
    (hlayout : ShardLayout checksum st tp x.server.shards)
    (hrequest : LogicalRequest maxFetchBytes maxBytes mode) (hstart : st.logStart ≤ x.start) :
    ∃ page, x.consumer.fetch maxFetchBytes x.server tp maxBytes mode = .ok page ∧
      page.Holds st x.start (st.fetchEnd mode false) := by
  obtain ⟨batches, extents, delivered, hfetch, hdelivery, hmap⟩ := hlayout.fetch_spec hstart
    hrequest.pos (by have := hrequest.lt; omega) hrequest.le hrequest.mode false
  have hl := hlayout.layout
  have hreservation : batches.map reservation = delivered.map ExtentLocation.reservation := by
    simpa [Function.comp_def] using congrArg (map Prod.fst) hmap
  have hlast : batches.getLast?.map reservation =
      delivered.getLast?.map ExtentLocation.reservation := by
    rw [← getLast?_map, hreservation, getLast?_map]
  have hextent : ∀ {l}, l ∈ delivered → st.Retains l.reservation ∧
      x.start ≤ l.reservation.lastOffset ∧ l.reservation.lastOffset < st.fetchEnd mode false ∧
      ∃ b, st.batches.get l.reservation.batchId = some b ∧ b.status = .committed := fun hl ↦ by
    obtain ⟨hmem, hdeliver⟩ := hdelivery.mem_extentsOf hl
    exact ⟨hlayout.retains hmem hdeliver, deliverable_false_iff.1 hdeliver⟩
  -- the extent of a committed batch, to be found in a shard
  have hstored : ∀ {key b}, st.batches.get key = some b → b.status = .committed →
      x.start ≤ b.reservation.lastOffset → b.reservation.lastOffset < st.fetchEnd mode false →
      ∃ l ∈ extentsOf tp x.server.shards, l.reservation = b.reservation ∧
        deliverable st false x.start (st.fetchEnd mode false) l.reservation = true := by
    intro key b hb hcommitted hge hlt
    obtain ⟨l, hmem, heq⟩ := hlayout.stored _ _ hb (by simp [BatchRuntime.fetchable, hcommitted])
    refine ⟨l, hmem, heq, ?_⟩
    rw [heq]
    exact deliverable_false_iff.2 ⟨hge, hlt, b, by rw [(hl.get hb).2.1]; exact hb, hcommitted⟩
  have hpage : x.consumer.fetch maxFetchBytes x.server tp maxBytes mode =
      .ok ⟨batches, nextCursor x.start batches⟩ := by
    have hpos := hrequest.pos
    rw [LogicalConsumer.fetch, if_neg (by omega), if_neg hrequest.mode]
    have hserver : fetchPage maxFetchBytes x.server tp x.start maxBytes mode =
        .ok ⟨batches, nextCursor x.start batches⟩ := by
      simp only [fetchPage, hst]
      rw [hfetch]
      rfl
    cases hcursor : x.consumer.cursor with
    | some n =>
      simp only [Consuming.start, hcursor, Option.getD_some] at hserver ⊢
      rw [hserver]
      rfl
    | none =>
      simp only [Consuming.start, hcursor, Option.getD_none, initialCursor, hst] at hserver ⊢
      rw [hserver]
      rfl
  refine ⟨_, hpage, ?_⟩
  cases hgetLast : delivered.getLast? with
  | none =>
    have hnil : delivered = [] := getLast?_eq_none_iff.1 hgetLast
    have hbatches : batches = [] := by
      rw [hnil] at hreservation
      simpa using hreservation
    subst hbatches
    refine ⟨by simp, by simp, fun key b hb hcommitted hge hlt ↦ ?_, .inl ⟨rfl, rfl, ?_⟩⟩
    · exact absurd hlt (Nat.not_lt.2 hge)
    · intro key b hb hcommitted hlt
      by_contra hge
      obtain ⟨l, hl', -, hdeliver⟩ := hstored hb hcommitted (Nat.not_lt.1 hge) hlt
      obtain ⟨l', hmem, hdeliver'⟩ := h.within st hst ⟨l, hl', hdeliver⟩
      rw [hdelivery.delivered_eq_nil_iff.1 hnil l' hmem] at hdeliver'
      cases hdeliver'
  | some last =>
    rw [hgetLast] at hlast
    obtain ⟨lastBatch, hlastBatch, heq⟩ := Option.map_eq_some_iff.1 hlast
    have hmem : last ∈ delivered := mem_of_getLast? hgetLast
    obtain ⟨hretains, hge, hlt, b, hb, hcommitted⟩ := hextent hmem
    obtain ⟨b', hb', hres⟩ := id hretains
    rw [hb] at hb'
    cases hb'
    have hbound := (hretains.range hl).2.2
    have hoffset := hl.offset_lt
    have hnext : nextCursor x.start batches = last.reservation.lastOffset + 1 := by
      rw [nextCursor, hlastBatch]
      change min (lastBatch.reservation.lastOffset + 1) _ = _
      rw [heq]
      omega
    refine ⟨?_, ?_, ?_, .inr ?_⟩
    · rw [hreservation, pairwise_map]
      exact hdelivery.sorted.sublist hdelivery.isPrefix.sublist
    · intro r hr
      rw [hreservation] at hr
      obtain ⟨l, hl', rfl⟩ := mem_map.1 hr
      obtain ⟨hretains, hge, -⟩ := hextent hl'
      rw [hnext]
      exact ⟨hretains, hge, Nat.lt_succ_of_le (hdelivery.lastOffset_le hgetLast hl')⟩
    · intro key b₀ hb₀ hcommitted₀ hge₀ hlt₀
      change b₀.reservation.lastOffset < nextCursor x.start batches at hlt₀
      obtain ⟨l, hl', hresl, hdeliver⟩ := hstored hb₀ hcommitted₀ hge₀ (by omega)
      rcases hdelivery.mem_or_skips_last hlayout hgetLast hl' hdeliver (by rw [hresl]; omega) with
        hmem' | hskips
      · rw [hreservation, ← hresl]
        exact mem_map_of_mem hmem'
      · exact absurd hskips (h.whole st hst l last)
    · change x.start < nextCursor x.start batches ∧ nextCursor x.start batches ≤ _ ∧ _
      rw [hnext]
      exact ⟨by omega, hlt, _, b, hb, hcommitted, by rw [hres]⟩

theorem LogicalFetchPage.Holds.start_le {page : LogicalFetchPage} {start endOffset : Nat}
    (h : page.Holds st start endOffset) : start ≤ page.nextCursor := by
  rcases h.cursor with ⟨heq, -⟩ | ⟨hlt, -⟩
  · exact heq.ge
  · exact hlt.le

/-- **What has been read after a page.** -/
theorem PartitionState.ReadTo.page {n : Nat} {received : List Reservation} {page : LogicalFetchPage}
    (h : st.ReadTo n received) (hpage : page.Holds st n (st.fetchEnd mode false)) :
    st.ReadTo page.nextCursor (received ++ page.batches.map reservation) := by
  refine ⟨h.logStart_le.trans hpage.start_le, ?_, fun key b hb hcommitted hlt ↦ ?_⟩
  · rcases hpage.cursor with ⟨heq, -⟩ | ⟨-, hend, key, b, hb, hcommitted, hnext⟩
    · rw [heq]
      exact h.boundary
    · exact .inr ⟨key, b, hb, hcommitted, hnext, hend.trans (fetchEnd_le_stable st mode)⟩
  · rcases Nat.lt_or_ge b.reservation.lastOffset n with hlt' | hge
    · exact mem_append_left _ (h.complete key b hb hcommitted hlt')
    · exact mem_append_right _ (hpage.complete key b hb hcommitted hge hlt)

end Page

/-! ### Over a run -/

/-- What holds of a consumer in every state of a run. -/
structure Consuming.Consistent (x : Consuming) (tp : TopicPartition) : Prop where
  fresh : x.consumer.cursor = none → x.received = []
  known : x.server.engine.states.get tp = none → x.consumer.cursor = none
  readTo : ∀ st n, x.server.engine.states.get tp = some st → x.consumer.cursor = some n →
    st.ReadTo n (x.received.map reservation)
  below : ∀ n, x.consumer.cursor = some n → ∀ b ∈ x.received, b.reservation.lastOffset < n
  inOrder : (x.received.map reservation).Pairwise fun a b ↦ a.lastOffset < b.firstOffset

section Run

variable {tp : TopicPartition} {allowed : Consuming → Nat → FetchMode → Prop} {e' : Engine}
  {st : PartitionState}

theorem EngineStep.of_served (h : EngineStep config .served e e') :
    EngineStep config .live e e' ∧ EngineStep config .led e e' :=
  ⟨h.mono (fun _ _ _ _ _ ↦ trivial) fun _ h ↦ h, h.mono (fun _ _ _ _ h ↦ h) fun _ h ↦ h.elim⟩

theorem Consuming.server_fetched (x : Consuming) (maxFetchBytes : Nat) (tp : TopicPartition)
    (maxBytes : Nat) (mode : FetchMode) :
    (x.fetched maxFetchBytes tp maxBytes mode).server = x.server := by
  unfold Consuming.fetched
  split <;> rfl

theorem Consuming.server_fetches (x : Consuming) (maxFetchBytes : Nat) (tp : TopicPartition)
    (requests : Nat → Nat) (mode : FetchMode) (i : Nat) :
    (x.fetches maxFetchBytes tp requests mode i).server = x.server := by
  induction i with
  | zero => rfl
  | succ i ih => rw [Consuming.fetches, server_fetched, ih]

/-- The engine of a consumer is one that the fetches of a partition are about. -/
theorem ConsumerRun.reachable (h : ConsumerRun checksum config maxFetchBytes tp allowed x) :
    ShardedReachable checksum config x.server ∧
      EngineReachable config .led x.server.engine := by
  induction h with
  | opened h => exact ⟨.opened h, .refl⟩
  | engine _ h hwritten _ ih =>
    exact ⟨ih.1.live (.engine h.of_served.1 hwritten), ih.2.tail h.of_served.2⟩
  | shard _ h ih => exact ⟨ih.1.live h, ih.2⟩
  | restart _ hrec hshards ih =>
    exact ⟨ih.1.restart hrec hshards, ih.2.tail (.restart trivial hrec)⟩
  | fetch => rwa [Consuming.server_fetched]

theorem Command.Led.reopens_eq_none (h : c.Led) (st : PartitionState) : c.reopens st = none := by
  cases c with
  | reserveReplica r producer group bytes digest =>
    exact absurd rfl (h r producer group bytes digest)
  | _ => rfl

/-- Where no batch is taken up again, cursors are exact. -/
theorem EngineReachable.exact_of_led (h : EngineReachable config .led e)
    (hst : e.states.get tp = some st) : st.Exact := by
  refine h.partition_invariant (P := fun _ st ↦ st.Exact) ?_ ?_ ?_ hst
  · intro tp shards sequencer policy hnew
    refine ⟨fun key b _ hb ↦ ?_, fun key b _ hb ↦ ?_, fun key b _ hb ↦ ?_⟩ <;>
      simp [PartitionState.empty] at hb
  · intro e tp st answer c he hst hexact _ hled
    have hs := (he.sound_and_tagged hst).1
    exact ((c.outcome hs answer).core_effect.endsAfter hs hexact
      (by simp [Command.Led.reopens_eq_none hled])).1
  · intro e s tp st st' _ _ _ _ hr
    exact hr.exact

/-- What a step of the server does to one partition: nothing, or a command of a leader. -/
theorem EngineStep.partition_of_served (h : EngineStep config .served e e')
    (hst' : e'.states.get tp = some st') : e.states.get tp = some st' ∨ e.states.get tp = none ∨
      ∃ (st : PartitionState) (answer : Except EngineError Unit) (c : Command),
        e.states.get tp = some st ∧ c.Led ∧ st' = (c.run st answer).state := by
  rcases h.partition_cases hst' with h | ⟨-, -, -, h, -⟩ | ⟨st, answer, c, hst, -, hled, h⟩ |
    ⟨_, h, -⟩
  · exact .inl h
  · exact .inr (.inl h)
  · exact .inr (.inr ⟨st, answer, c, hst, hled, h⟩)
  · exact h.elim

/-- Where the next fetch starts, the log has been read. -/
theorem Consuming.Consistent.readTo_start (h : x.Consistent tp)
    (hst : x.server.engine.states.get tp = some st) (hsuffices : x.Suffices tp maxBytes mode) :
    st.ReadTo x.start (x.received.map reservation) := by
  cases hcursor : x.consumer.cursor with
  | none =>
    rw [Consuming.start, hcursor]
    exact ⟨(hsuffices.started st hst hcursor).le, .inl (Nat.zero_le _),
      fun key b _ _ hlt ↦ absurd hlt (Nat.not_lt_zero _)⟩
  | some n =>
    rw [Consuming.start, hcursor]
    exact h.readTo st n hst hcursor

/-- **A fetch that the windows suffice for** returns a page, and the consumer stays consistent. -/
theorem Consuming.Consistent.fetched (h : x.Consistent tp)
    (hreach : ShardedReachable checksum config x.server)
    (hst : x.server.engine.states.get tp = some st)
    (hrequest : LogicalRequest maxFetchBytes maxBytes mode)
    (hsuffices : x.Suffices tp maxBytes mode) :
    ∃ page, x.consumer.fetch maxFetchBytes x.server tp maxBytes mode = .ok page ∧
      page.Holds st x.start (st.fetchEnd mode false) ∧
      x.fetched maxFetchBytes tp maxBytes mode =
        ⟨x.server, ⟨some page.nextCursor⟩, x.received ++ page.batches⟩ ∧
      (x.fetched maxFetchBytes tp maxBytes mode).Consistent tp := by
  have hlayout := hreach.shardLayout hst
  have hread := h.readTo_start hst hsuffices
  obtain ⟨page, hfetch, hpage⟩ := hsuffices.exists_page hst hlayout hrequest hread.logStart_le
  have heq : x.fetched maxFetchBytes tp maxBytes mode =
      ⟨x.server, ⟨some page.nextCursor⟩, x.received ++ page.batches⟩ := by
    simp only [Consuming.fetched, hfetch]
  have hstart : ∀ b ∈ x.received, b.reservation.lastOffset < x.start := by
    intro b hb
    cases hcursor : x.consumer.cursor with
    | none =>
      rw [h.fresh hcursor] at hb
      cases hb
    | some n =>
      rw [Consuming.start, hcursor]
      exact h.below n hcursor b hb
  refine ⟨page, hfetch, hpage, heq, ?_⟩
  rw [heq]
  refine ⟨fun hnone ↦ (nomatch hnone), fun hnone ↦ ?_, ?_, ?_, ?_⟩
  · rw [hst] at hnone
    cases hnone
  · rintro st' n hst' ⟨⟩
    rw [hst] at hst'
    cases hst'
    rw [map_append]
    exact hread.page hpage
  · rintro n ⟨⟩ b hb
    rcases mem_append.1 hb with hb | hb
    · exact (hstart b hb).trans_le hpage.start_le
    · exact (hpage.retained _ (mem_map_of_mem hb)).2.2
  · rw [map_append, pairwise_append]
    refine ⟨h.inOrder, hpage.inOrder, fun r hr r' hr' ↦ ?_⟩
    obtain ⟨b, hb, rfl⟩ := mem_map.1 hr
    obtain ⟨hretains, hge, -⟩ := hpage.retained r' hr'
    exact (hstart b hb).trans_le (hread.le_firstOffset hlayout.layout hretains hge)

theorem Consuming.fetched_of_unknown (h : x.Consistent tp)
    (hnone : x.server.engine.states.get tp = none) :
    x.fetched maxFetchBytes tp maxBytes mode = x := by
  have hcursor := h.known hnone
  simp only [Consuming.fetched, LogicalConsumer.fetch, hcursor, initialCursor, hnone]
  split_ifs <;> rfl

/-- **A consumer stays consistent** in every run in which the windows suffice for its fetches. -/
theorem ConsumerRun.consistent
    (h : ConsumerRun checksum config maxFetchBytes tp (·.Suffices tp) x) :
    x.Consistent tp := by
  induction h with
  | opened =>
    exact ⟨fun _ ↦ rfl, fun _ ↦ rfl, fun _ _ hst ↦ (nomatch hst), fun _ hn ↦ (nomatch hn), .nil⟩
  | @engine x e hx h hwritten hbehind ih =>
    refine ⟨ih.fresh, fun hnone ↦ ih.known ?_, fun st' n hst' hcursor ↦ ?_, ih.below, ih.inOrder⟩
    · -- a partition is never lost while the server runs
      cases hst : x.server.engine.states.get tp with
      | none => rfl
      | some st =>
        obtain ⟨st', hst', -⟩ := h.of_served.1.partition hst
        rw [hst'] at hnone
        cases hnone
    · rcases h.partition_of_served hst' with hst | hnone | ⟨st, answer, c, hst, hled, rfl⟩
      · exact ih.readTo st' n hst hcursor
      · have := ih.known hnone
        rw [hcursor] at this
        cases this
      · have hreach := hx.reachable.2
        have hs := (hreach.sound_and_tagged hst).1
        exact (c.outcome hs answer).readTo hs (hreach.exact_of_led hst) (hled.reopens_eq_none st)
          (ih.readTo st n hst hcursor) (hbehind n _ hcursor hst')
  | shard _ _ ih => exact ⟨ih.fresh, ih.known, ih.readTo, ih.below, ih.inOrder⟩
  | @restart x states shards hx hrec _ ih =>
    have hreach := hx.reachable.2
    refine ⟨ih.fresh, fun hnone ↦ ih.known ?_, fun st' n hst' hcursor ↦ ?_, ih.below, ih.inOrder⟩
    · cases hst : x.server.engine.states.get tp with
      | none => rfl
      | some st =>
        obtain ⟨-, st', -, hst', -⟩ := hreach.recovered_of_live hrec hst
        rw [hst'] at hnone
        cases hnone
    · obtain ⟨s, st, hbacked, hst, -, hr⟩ := hreach.recovered hrec hst'
      exact hbacked.readTo hst hr (hreach.exact_of_led hst) (ih.readTo st n hst hcursor)
  | @fetch x maxBytes mode hx hrequest hallowed ih =>
    cases hst : x.server.engine.states.get tp with
    | none => rwa [Consuming.fetched_of_unknown ih hst]
    | some st =>
      obtain ⟨-, -, -, -, h⟩ := ih.fetched hx.reachable.1 hst hrequest hallowed
      exact h

/-! ### To the end -/

/-- The visible end is where the log starts or a batch ends. -/
theorem PartitionCore.Sound.fetchEnd_eq {st : PartitionCore} (hs : st.Sound) (mode : FetchMode) :
    st.fetchEnd mode false = st.logStart ∨
      ∃ key b, st.batches.get key = some b ∧ b.reservation.lastOffset + 1 =
        st.fetchEnd mode false := by
  have hcursor : ∀ c : Cursor, st.InPlace c → c.offset = st.logStart ∨
      ∃ key b, st.batches.get key = some b ∧ b.reservation.lastOffset + 1 = c.offset := by
    intro c hc
    have hfirst := hc.firstKey_le
    have hle := hc.le_nextKey
    rcases hfirst.eq_or_lt with heq | hlt
    · left
      rw [hc.offset_eq, ← heq, offsetAt_firstKey]
    · right
      obtain ⟨key, hkey⟩ : ∃ key, c.nextBatch = key + 1 := ⟨c.nextBatch - 1, by omega⟩
      obtain ⟨b, hb⟩ := DenseOrderedMap.exists_get (by omega : st.batches.firstKey ≤ key)
        (by omega : key < st.batches.nextKey)
      refine ⟨key, b, hb, ?_⟩
      rw [hc.offset_eq, hkey, ← (hs.layout.get hb).2.2.2.2.1]
      rfl
  have hstable := hcursor _ hs.cursors.stable.inPlace
  cases mode with
  | ordered | asAvailable => exact hstable
  | replicated =>
    have hmin : st.fetchEnd .replicated false = min st.replicated.offset st.stable.offset := rfl
    rcases min_choice st.replicated.offset st.stable.offset with heq | heq
    · rw [hmin, heq]
      exact hcursor _ hs.cursors.replicated.inPlace
    · rw [hmin, heq]
      exact hstable

section Fetches

variable {requests : Nat → Nat} {st : PartitionState}

/-- A consumer that goes on fetching stays consistent. -/
theorem Consuming.Consistent.fetches (h : x.Consistent tp)
    (hreach : ShardedReachable checksum config x.server)
    (hst : x.server.engine.states.get tp = some st)
    (hrequest : ∀ i, LogicalRequest maxFetchBytes (requests i) mode)
    (hsuffices : ∀ i, (x.fetches maxFetchBytes tp requests mode i).Suffices tp (requests i) mode)
    (i : Nat) : (x.fetches maxFetchBytes tp requests mode i).Consistent tp := by
  induction i with
  | zero => exact h
  | succ i ih =>
    have hserver := x.server_fetches maxFetchBytes tp requests mode i
    obtain ⟨page, -, -, -, hnext⟩ := ih.fetched (hserver ▸ hreach) (hserver ▸ hst) (hrequest i)
      (hsuffices i)
    exact hnext

/-- **Fetching goes on to the end**: after some number of fetches every committed and visible batch
lies below the cursor. By induction on the fetches: as long as a batch is ahead, each moves the
cursor up. -/
theorem Consuming.Consistent.exists_fetches (h : x.Consistent tp)
    (hreach : ShardedReachable checksum config x.server)
    (hst : x.server.engine.states.get tp = some st)
    (hrequest : ∀ i, LogicalRequest maxFetchBytes (requests i) mode)
    (hsuffices : ∀ i, (x.fetches maxFetchBytes tp requests mode i).Suffices tp (requests i) mode) :
    ∃ n c, (x.fetches maxFetchBytes tp requests mode n).consumer.cursor = some c ∧
      ∀ key b, st.batches.get key = some b → b.status = .committed →
        b.reservation.lastOffset < st.fetchEnd mode false → b.reservation.lastOffset < c := by
  have hround : ∀ i, ∃ c, (x.fetches maxFetchBytes tp requests mode (i + 1)).consumer.cursor =
      some c ∧ ((∀ key b, st.batches.get key = some b → b.status = .committed →
        b.reservation.lastOffset < st.fetchEnd mode false → b.reservation.lastOffset < c) ∨
      (x.fetches maxFetchBytes tp requests mode i).start < c) := by
    intro i
    have hserver := x.server_fetches maxFetchBytes tp requests mode i
    obtain ⟨page, -, hpage, heq, -⟩ := (h.fetches hreach hst hrequest hsuffices i).fetched
      (hserver ▸ hreach) (hserver ▸ hst) (hrequest i) (hsuffices i)
    refine ⟨page.nextCursor, ?_, ?_⟩
    · change (Consuming.fetched _ maxFetchBytes tp (requests i) mode).consumer.cursor = _
      rw [heq]
    · rcases hpage.cursor with ⟨hcursor, -, hnone⟩ | ⟨hlt, -⟩
      · rw [hcursor]
        exact .inl hnone
      · exact .inr hlt
  by_contra hnever
  have hmoves : ∀ i, i ≤ (x.fetches maxFetchBytes tp requests mode i).start := by
    intro i
    induction i with
    | zero => exact Nat.zero_le _
    | succ i ih =>
      obtain ⟨c, hc, hend | hlt⟩ := hround i
      · exact absurd ⟨i + 1, c, hc, hend⟩ hnever
      · rw [Consuming.start, hc]
        exact ih.trans_lt hlt
  obtain ⟨c, hc, hend | hlt⟩ := hround (st.fetchEnd mode false)
  · exact hnever ⟨_, c, hc, hend⟩
  · have := hmoves (st.fetchEnd mode false)
    exact hnever ⟨_, c, hc, fun key b _ _ hb ↦ by omega⟩

end Fetches

/-- **A consumer that is served**: it gets no error from a fetch, it has got the committed batches
below its cursor once and in order, and when nothing else happens, fetching gets it everything that
is visible and its cursor to the end, unless that is where a batch ends that is not committed. -/
structure Consuming.Served (x : Consuming) (maxFetchBytes : Nat) (tp : TopicPartition)
    (st : PartitionState) : Prop where
  noError : ∀ maxBytes mode, LogicalRequest maxFetchBytes maxBytes mode →
    x.Suffices tp maxBytes mode →
    ∃ page, x.consumer.fetch maxFetchBytes x.server tp maxBytes mode = .ok page
  inOrder : (x.received.map reservation).Pairwise fun a b ↦ a.lastOffset < b.firstOffset
  complete : ∀ key b, st.batches.get key = some b → b.status = .committed →
    b.reservation.lastOffset < x.start → b.reservation ∈ x.received.map reservation
  reaches : ∀ (requests : Nat → Nat) (mode : FetchMode),
    (∀ i, LogicalRequest maxFetchBytes (requests i) mode) →
    (∀ i, (x.fetches maxFetchBytes tp requests mode i).Suffices tp (requests i) mode) →
    ∃ n, (∀ key b, st.batches.get key = some b → b.status = .committed →
        b.reservation.lastOffset < st.fetchEnd mode false →
        b.reservation ∈ (x.fetches maxFetchBytes tp requests mode n).received.map reservation) ∧
      ((∀ key b, st.batches.get key = some b →
          b.reservation.lastOffset + 1 = st.fetchEnd mode false → b.status = .committed) →
        ∃ c, (x.fetches maxFetchBytes tp requests mode n).consumer.cursor = some c ∧
          st.fetchEnd mode false ≤ c)

end Run

/-! ### Scripted runs -/

/-- The guard of a server. -/
def Guard.served : Guard :=
  ⟨fun _ _ _ c ↦ match c with
    | .reserveReplica .. => false
    | _ => true, fun _ ↦ false⟩

theorem Guard.served_implies : Guard.served.Implies .served := by
  refine ⟨fun e tp st c h r producer group bytes digest hc ↦ ?_, fun _ h ↦ by cases h⟩
  rw [hc] at h
  cases h

variable {tp : TopicPartition}

/-- A property of a server that a script reaches, with a consumer that has not fetched yet. -/
theorem ConsumerRun.exists_of_play (checksum : ExtentChecksum) (config : EngineConfig)
    (storeConfig : ShardStoreConfig) (count : Nat) (script : List ShardAction)
    (P : ShardedEngine → PartitionState → Prop) (maxFetchBytes : Nat)
    (tp : TopicPartition) (allowed : Consuming → Nat → FetchMode → Prop)
    (h : ∃ s, ShardedEngine.play checksum config .served storeConfig count script = some s ∧
      ∃ st, s.engine.states.get tp = some st ∧ P s st) :
    ∃ s st, ConsumerRun checksum config maxFetchBytes tp allowed ⟨s, ⟨none⟩, []⟩ ∧
      s.engine.states.get tp = some st ∧ P s st := by
  obtain ⟨s, hs, st, hst, hP⟩ := h
  refine ⟨s, st, ?_, hst, hP⟩
  refine ShardedEngine.play_induction (P := fun s ↦
    ConsumerRun checksum config maxFetchBytes tp allowed ⟨s, ⟨none⟩, []⟩) (fun _ ↦ .opened) ?_ hs
  intro s a s' hs hact
  rcases ShardedEngine.act_cases hact with ⟨a, e, he, hwritten, rfl⟩ | ⟨shards, rfl, hstep⟩
  · exact hs.engine (Engine.act_sound Guard.served_implies he) hwritten nofun
  · exact hs.shard hstep

/-! ### New consumers -/

/-- **A new consumer gets everything**, in every run in which the windows suffice for its fetches
and the log starts at zero at the first one. -/
theorem consumer_served {checksum : ExtentChecksum} {config : EngineConfig}
    {maxFetchBytes : Nat} {tp : TopicPartition} {x : Consuming} {st : PartitionState}
    (h : ConsumerRun checksum config maxFetchBytes tp (·.Suffices tp) x)
    (hst : x.server.engine.states.get tp = some st) : x.Served maxFetchBytes tp st := by
  have hconsistent := h.consistent
  have hreach := h.reachable.1
  refine ⟨fun maxBytes mode hrequest hsuffices ↦ ?_, hconsistent.inOrder,
    fun key b hb hcommitted hlt ↦ ?_, fun requests mode hrequest hsuffices ↦ ?_⟩
  · obtain ⟨page, hpage, -⟩ := hconsistent.fetched hreach hst hrequest hsuffices
    exact ⟨page, hpage⟩
  · cases hcursor : x.consumer.cursor with
    | none =>
      rw [Consuming.start, hcursor] at hlt
      cases hlt
    | some n =>
      rw [Consuming.start, hcursor] at hlt
      exact (hconsistent.readTo st n hst hcursor).complete key b hb hcommitted hlt
  · obtain ⟨n, c, hcursor, hbelow⟩ := hconsistent.exists_fetches hreach hst hrequest hsuffices
    have hlater := hconsistent.fetches hreach hst hrequest hsuffices n
    have hread := hlater.readTo st c (by rwa [Consuming.server_fetches]) hcursor
    refine ⟨n, fun key b hb hcommitted hlt ↦ ?_, fun hlast ↦ ⟨c, hcursor, ?_⟩⟩
    · exact hread.complete key b hb hcommitted (hbelow key b hb hcommitted hlt)
    · have hs := (h.reachable.2.sound_and_tagged hst).1
      rcases hs.fetchEnd_eq mode with heq | ⟨key, b, hb, heq⟩
      · rw [heq]
        exact hread.logStart_le
      · have := hbelow key b hb (hlast key b hb heq) (by omega)
        omega

/-- Windows of one extent suffice. -/
theorem Consuming.suffices_of_single
    (h : ∀ shard ∈ x.server.shards, (shard.ix.locations tp).length ≤ 1)
    (hstart : ∀ st, x.server.engine.states.get tp = some st → st.logStart = 0) :
    x.Suffices tp maxBytes mode := by
  refine ⟨fun st hst _ ↦ hstart st hst, fun st _ ⟨l, hl, hdeliver⟩ ↦ ?_, fun st _ c d hskips ↦ ?_⟩
  · obtain ⟨shard, hshard, hl⟩ := mem_flatMap.1 hl
    exact ⟨l, mem_windows_iff.2 ⟨shard, hshard, hl, inWindow_of_single maxBytes (h shard hshard) hl
      (deliverable_false_iff.1 hdeliver).1⟩, hdeliver⟩
  · obtain ⟨shard, hshard, hl, hbeyond⟩ := hskips.beyond
    rw [inWindow_of_single maxBytes (h shard hshard) hl
      (deliverable_false_iff.1 hskips.skipped).1] at hbeyond
    cases hbeyond

/-- With one batch on each of two shards, a consumer gets both, and its cursor to the end. -/
theorem consumer_served_on_two_shards : ∃ s st, ConsumerRun lengthChecksum ⟨2, 1, 1⟩ 10 ⟨0, 0⟩
      (·.Suffices ⟨0, 0⟩) ⟨s, ⟨none⟩, []⟩ ∧ s.engine.states.get ⟨0, 0⟩ = some st ∧
    st.fetchEnd .ordered false = 2 ∧ ∃ n c,
      (Consuming.fetches ⟨s, ⟨none⟩, []⟩ 10 ⟨0, 0⟩ (fun _ ↦ 10) .ordered n).consumer.cursor =
        some c ∧ 2 ≤ c := by
  obtain ⟨s, st, hs, hst, hstart, hend, hcommitted, hsingle⟩ :=
    ConsumerRun.exists_of_play lengthChecksum ⟨2, 1, 1⟩ ⟨1000, 100⟩ 2 onTwoShards
      (fun s st ↦ st.logStart = 0 ∧ st.fetchEnd .ordered false = 2 ∧
        (∀ b ∈ st.batches.values, b.status = .committed) ∧
        ∀ shard ∈ s.shards, (shard.ix.locations ⟨0, 0⟩).length ≤ 1)
      10 ⟨0, 0⟩ (·.Suffices ⟨0, 0⟩) (by decide +kernel)
  have hserver := Consuming.server_fetches ⟨s, ⟨none⟩, []⟩ 10 ⟨0, 0⟩ (fun _ ↦ 10) .ordered
  have hrequest : LogicalRequest 10 10 .ordered := ⟨by decide, by decide, le_rfl, by decide⟩
  obtain ⟨n, -, hreaches⟩ := (consumer_served hs hst).reaches (fun _ ↦ 10) .ordered
    (fun _ ↦ hrequest) fun i ↦ Consuming.suffices_of_single (by rw [hserver]; exact hsingle)
      (fun st' hst' ↦ by
        rw [hserver, hst] at hst'
        cases hst'
        exact hstart)
  obtain ⟨c, hc, hle⟩ := hreaches fun key b hb _ ↦
    hcommitted b (DenseOrderedMap.mem_values_of_get hb)
  exact ⟨s, st, hs, hst, hend, n, c, hc, hend ▸ hle⟩

/-- A new consumer that fetches at most 10 bytes at a time gets the batches with these ids from its
first fetch, and nothing behind them from the second. -/
def ShardedEngine.stopsAfter (s : ShardedEngine) (maxFetchBytes : Nat) (ids : List Nat)
    (cursor : Nat) : Bool :=
  (LogicalConsumer.fetch ⟨none⟩ maxFetchBytes s ⟨0, 0⟩ 10 .ordered).toOption.any fun page ↦
    decide (page.batches.map (·.reservation.batchId) = ids ∧ page.nextCursor = cursor) &&
      (LogicalConsumer.fetch ⟨some cursor⟩ maxFetchBytes s ⟨0, 0⟩ 10 .ordered).toOption.any
        fun page ↦
        page.batches.isEmpty && decide (page.nextCursor = cursor)

/-- A consumer that got nothing stays where it is. -/
theorem ShardedEngine.fetches_of_stopsAfter {ids : List Nat} {cursor : Nat}
    (h : s.stopsAfter maxFetchBytes ids cursor = true) (n : Nat) :
    ((Consuming.fetches ⟨s, ⟨none⟩, []⟩ maxFetchBytes ⟨0, 0⟩ (fun _ ↦ 10) .ordered
        (n + 1)).received.map (·.reservation.batchId) = ids) ∧
      (Consuming.fetches ⟨s, ⟨none⟩, []⟩ maxFetchBytes ⟨0, 0⟩ (fun _ ↦ 10) .ordered
        (n + 1)).consumer.cursor = some cursor := by
  simp only [stopsAfter, Option.any_eq_true, Bool.and_eq_true, decide_eq_true_eq,
    toOption_eq_some_iff, List.isEmpty_iff] at h
  obtain ⟨page, hfirst, ⟨hids, rfl⟩, ⟨batches, next⟩, hsecond, hnil, hnext⟩ := h
  subst hnil
  subst hnext
  have hstays : ∀ n, Consuming.fetches ⟨s, ⟨none⟩, []⟩ maxFetchBytes ⟨0, 0⟩ (fun _ ↦ 10) .ordered
      (n + 1) = ⟨s, ⟨some page.nextCursor⟩, page.batches⟩ := by
    intro n
    induction n with
    | zero => simp only [Consuming.fetches, Consuming.fetched, hfirst, nil_append]
    | succ n ih =>
      rw [Consuming.fetches, ih]
      simp only [Consuming.fetched, hsecond, append_nil]
  rw [hstays n]
  exact ⟨hids, rfl⟩

/-- **New consumers that get nowhere, or not everything.** The first batch has been truncated: every
fetch of a consumer without a cursor is refused. An aborted batch fills the window: the committed
batch behind it is never returned. A large batch is beyond its window: it is passed over. An aborted
batch is the last one: the cursor stays before the end. -/
theorem new_consumer_stuck :
    (∃ s st, ConsumerRun lengthChecksum ⟨1, 1, 1⟩ 10 ⟨0, 0⟩ (fun _ _ _ ↦ True) ⟨s, ⟨none⟩, []⟩ ∧
      s.engine.states.get ⟨0, 0⟩ = some st ∧
      (deliverableBatches st false 1 (st.fetchEnd .ordered false)).map Reservation.batchId = [1] ∧
      LogicalConsumer.fetch ⟨none⟩ 10 s ⟨0, 0⟩ 10 .ordered = .error (.api (.offsetOutOfRange 0 1)) ∧
      ∀ n, Consuming.fetches ⟨s, ⟨none⟩, []⟩ 10 ⟨0, 0⟩ (fun _ ↦ 10) .ordered n = ⟨s, ⟨none⟩, []⟩) ∧
    (∃ s st, ConsumerRun lengthChecksum ⟨1, 1, 1⟩ 10 ⟨0, 0⟩ (fun _ _ _ ↦ True) ⟨s, ⟨none⟩, []⟩ ∧
      s.engine.states.get ⟨0, 0⟩ = some st ∧
      (deliverableBatches st false 0 (st.fetchEnd .ordered false)).map Reservation.batchId = [1] ∧
      ∀ n, (Consuming.fetches ⟨s, ⟨none⟩, []⟩ 10 ⟨0, 0⟩ (fun _ ↦ 10) .ordered (n + 1)).received.map
        (·.reservation.batchId) = []) ∧
    (∃ s st, ConsumerRun lengthChecksum ⟨2, 1, 1⟩ 1000 ⟨0, 0⟩ (fun _ _ _ ↦ True) ⟨s, ⟨none⟩, []⟩ ∧
      s.engine.states.get ⟨0, 0⟩ = some st ∧
      (deliverableBatches st false 0 (st.fetchEnd .ordered false)).map Reservation.batchId =
        [0, 1, 2, 3] ∧
      ∀ n,
        (Consuming.fetches ⟨s, ⟨none⟩, []⟩ 1000 ⟨0, 0⟩ (fun _ ↦ 10) .ordered (n + 1)).received.map
        (·.reservation.batchId) = [0, 1, 3]) ∧
    ∃ s st, ConsumerRun lengthChecksum ⟨1, 1, 1⟩ 10 ⟨0, 0⟩ (fun _ _ _ ↦ True) ⟨s, ⟨none⟩, []⟩ ∧
      s.engine.states.get ⟨0, 0⟩ = some st ∧ st.fetchEnd .ordered false = 2 ∧
      ∀ n, (Consuming.fetches ⟨s, ⟨none⟩, []⟩ 10 ⟨0, 0⟩ (fun _ ↦ 10) .ordered
        (n + 1)).consumer.cursor = some 1 := by
  refine ⟨?_, ?_, ?_, ?_⟩
  · obtain ⟨s, st, hs, hst, hids, hrefused⟩ := ConsumerRun.exists_of_play lengthChecksum ⟨1, 1, 1⟩
      ⟨1000, 100⟩ 1 truncatedFirst
      (fun s st ↦
        (deliverableBatches st false 1 (st.fetchEnd .ordered false)).map Reservation.batchId = [1] ∧
        (match LogicalConsumer.fetch ⟨none⟩ 10 s ⟨0, 0⟩ 10 .ordered with
        | .error e => decide (e = .api (.offsetOutOfRange 0 1))
        | .ok _ => false : Bool))
      10 ⟨0, 0⟩ (fun _ _ _ ↦ True) (by decide +kernel)
    have hfetch : LogicalConsumer.fetch ⟨none⟩ 10 s ⟨0, 0⟩ 10 .ordered =
        .error (.api (.offsetOutOfRange 0 1)) := by
      split at hrefused
      next e he => rw [he, of_decide_eq_true hrefused]
      next => cases hrefused
    refine ⟨s, st, hs, hst, hids, hfetch, fun n ↦ ?_⟩
    induction n with
    | zero => rfl
    | succ n ih =>
      rw [Consuming.fetches, ih]
      simp only [Consuming.fetched, hfetch]
  · obtain ⟨s, st, hs, hst, hids, hstops⟩ := ConsumerRun.exists_of_play lengthChecksum ⟨1, 1, 1⟩
      ⟨1000, 100⟩ 1 abortedFirst
      (fun s st ↦
        (deliverableBatches st false 0 (st.fetchEnd .ordered false)).map Reservation.batchId = [1] ∧
        s.stopsAfter 10 [] 0)
      10 ⟨0, 0⟩ (fun _ _ _ ↦ True) (by decide +kernel)
    exact ⟨s, st, hs, hst, hids, fun n ↦ (ShardedEngine.fetches_of_stopsAfter hstops n).1⟩
  · obtain ⟨s, st, hs, hst, hids, hstops⟩ := ConsumerRun.exists_of_play lengthChecksum ⟨2, 1, 1⟩
      ⟨1000, 1000⟩ 2 largeThird
      (fun s st ↦ (deliverableBatches st false 0 (st.fetchEnd .ordered false)).map
        Reservation.batchId = [0, 1, 2, 3] ∧ s.stopsAfter 1000 [0, 1, 3] 4)
      1000 ⟨0, 0⟩ (fun _ _ _ ↦ True) (by decide +kernel)
    exact ⟨s, st, hs, hst, hids, fun n ↦ (ShardedEngine.fetches_of_stopsAfter hstops n).1⟩
  · obtain ⟨s, st, hs, hst, hend, hstops⟩ := ConsumerRun.exists_of_play lengthChecksum ⟨1, 1, 1⟩
      ⟨1000, 100⟩ 1 abortedLast (fun s st ↦ st.fetchEnd .ordered false = 2 ∧ s.stopsAfter 10 [0] 1)
      10 ⟨0, 0⟩ (fun _ _ _ ↦ True) (by decide +kernel)
    exact ⟨s, st, hs, hst, hend, fun n ↦ (ShardedEngine.fetches_of_stopsAfter hstops n).2⟩

end ShardStream
