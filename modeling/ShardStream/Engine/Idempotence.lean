import ShardStream.Engine.Append
import ShardStream.Engine.ProducerFences

/-!
# Every sequence is allocated once

A leader gives an append of a producer coordinates only if it starts at the cursor of the producer,
and then moves the cursor behind it. So the new reservations of a producer tile its sequences,
whatever completes and fails in between (`AllocationLog`). When a batch completes, a receipt is
stored under its identity; from then on an append with that identity in that epoch meets the
receipt, in the live partition and in every partition recovered from it (`Receipt`), and a receipt
is answered, or the append refused, without allocating anything.
-/

namespace ShardStream

open PartitionCore DenseOrderedMap List Option Table

variable {st : PartitionState} {c : Command} {tp : TopicPartition} {cursor : ProducerCursor}
  {answer : Except EngineError Unit} {x : ExtentCatalogEntry} {r : Reservation}
  {p : ProducerIdentity} {digest : Digest}

/-! ### Allocations -/

/-- The commands of the append path of a leader. -/
def Command.Appends : Command → Prop
  | .reserve _ | .commitPrepared .. | .complete _ | .fail .. => True
  | _ => False

/-- The producer that an append of a leader names. -/
def Command.producer : Command → Option ProducerIdentity
  | .reserve intent => intent.producer
  | .commitPrepared prepared _ => prepared.intent.producer
  | _ => none

/-- A new reservation of a producer. -/
structure Allocation where
  reservation : Reservation
  producer : ProducerIdentity

/-- The sequence behind the records of the reservation. -/
def Allocation.next (a : Allocation) : Nat :=
  a.producer.firstSequence + a.reservation.recordCount.get

/-- A partition with the new reservations of its producers, in the order they were made. -/
structure AllocationLog where
  st : PartitionState
  allocated : List Allocation

namespace AllocationLog

/-- The log after a command. A receipt is no new reservation. -/
def after (x : AllocationLog) (answer : Except EngineError Unit) (c : Command) : AllocationLog where
  st := (c.run x.st answer).state
  allocated := x.allocated ++
    ((c.run x.st answer).reserved.bind fun r ↦ c.producer.map fun p ↦ ⟨r, p⟩).toList

/-- Runs of the append path. -/
def Run : AllocationLog → AllocationLog → Prop :=
  Relation.ReflTransGen fun x y ↦ ∃ answer c, Command.Appends c ∧ y = x.after answer c

/-- The new reservations of one producer. -/
def of (x : AllocationLog) (producerId : Nat) : List Allocation :=
  x.allocated.filter fun a ↦ a.producer.producerId = producerId

end AllocationLog

/-- The sequences of the reservations lie end to end, from `start` on. -/
def TilesSequences : Nat → List Allocation → Prop
  | _, [] => True
  | start, a :: rest => a.producer.firstSequence = start ∧ TilesSequences a.next rest

/-- **Allocated in order**: the epochs do not go down, the sequences do not overlap, and they tile
an interval from zero. -/
structure AllocatedInOrder (l : List Allocation) : Prop where
  epochs : l.Pairwise fun a b ↦ a.producer.epoch ≤ b.producer.epoch
  disjoint : l.Pairwise fun a b ↦ a.next ≤ b.producer.firstSequence
  tiles : TilesSequences 0 l

section TilesSequences

variable {l : List Allocation} {a : Allocation} {start : Nat}

/-- Where the sequences end. -/
def endOf (start : Nat) (l : List Allocation) : Nat := (l.getLast?.map Allocation.next).getD start

theorem TilesSequences.append (h : TilesSequences start l)
    (ha : a.producer.firstSequence = endOf start l) : TilesSequences start (l ++ [a]) := by
  induction l generalizing start with
  | nil => exact ⟨ha, trivial⟩
  | cons b l ih =>
    refine ⟨h.1, ih h.2 ?_⟩
    rw [ha, endOf, endOf, getLast?_cons]
    cases l.getLast? <;> rfl

theorem TilesSequences.next_le (h : TilesSequences start l) (ha : a ∈ l) :
    a.next ≤ endOf start l := by
  induction l generalizing start a with
  | nil => cases ha
  | cons b l ih =>
    have hend : endOf start (b :: l) = endOf b.next l := by
      rw [endOf, endOf, getLast?_cons]
      cases l.getLast? <;> rfl
    rw [hend]
    rcases mem_cons.1 ha with rfl | ha
    · -- the rest starts where it ends
      cases l with
      | nil => exact le_rfl
      | cons c l =>
        have := ih h.2 mem_cons_self
        have hfirst := h.2.1
        unfold Allocation.next at this hfirst ⊢
        omega
    · exact ih h.2 ha

/-- A reservation at the end keeps the order. -/
theorem AllocatedInOrder.append (h : AllocatedInOrder l)
    (hfirst : a.producer.firstSequence = endOf 0 l)
    (hepoch : ∀ b ∈ l, b.producer.epoch ≤ a.producer.epoch) : AllocatedInOrder (l ++ [a]) := by
  refine ⟨pairwise_append.2 ⟨h.epochs, pairwise_singleton .., ?_⟩,
    pairwise_append.2 ⟨h.disjoint, pairwise_singleton .., ?_⟩, h.tiles.append hfirst⟩
  · intro b hb c hc
    rw [mem_singleton.1 hc]
    exact hepoch b hb
  · intro b hb c hc
    rw [mem_singleton.1 hc, hfirst]
    exact h.tiles.next_le hb

end TilesSequences

/-! ### One command -/

namespace AllocationLog

/-- What holds of a log in every run: the cursor of a producer is where its last reservation
ends. -/
structure Tracks (x : AllocationLog) : Prop where
  sound : x.st.Sound
  inOrder : ∀ producerId, AllocatedInOrder (x.of producerId)
  position : ∀ producerId, x.st.position producerId =
    (x.of producerId).getLast?.map fun a ↦ (a.producer.epoch, a.next)

variable {x : AllocationLog}

/-- The cursors stay, and nothing is reserved. -/
theorem Tracks.of_position (h : x.Tracks) (hs : st.Sound)
    (hposition : ∀ producerId, st.position producerId = x.st.position producerId) :
    (⟨st, x.allocated⟩ : AllocationLog).Tracks :=
  ⟨hs, h.inOrder, fun producerId ↦ (hposition producerId).trans (h.position producerId)⟩

/-- A prepared append is allocated. -/
theorem Tracks.allocate (h : x.Tracks) {p : PreparedAppend} (hvalid : p.Valid x.st)
    (hs : (x.st.allocated p).Sound) :
    (⟨x.st.allocated p, x.allocated ++ (p.intent.producer.map fun identity ↦
      ⟨p.proposal.reservation, identity⟩).toList⟩ : AllocationLog).Tracks := by
  cases hp : p.intent.producer with
  | none =>
    rw [map_none, toList_none, append_nil]
    refine h.of_position hs fun producerId ↦ ?_
    simp only [PartitionState.position, PartitionState.allocated, installPrepared, hp]
  | some identity =>
    have hcheck := hvalid.checkProducer
    rw [hp] at hcheck
    set a : Allocation := ⟨p.proposal.reservation, identity⟩
    have hnext : a.next = identity.firstSequence + p.intent.recordCount.get := by
      rw [Allocation.next, hvalid.recordCount]
    have hof : ∀ producerId,
      (⟨x.st.allocated p, x.allocated ++ [a]⟩ : AllocationLog).of producerId =
        if identity.producerId = producerId then x.of producerId ++ [a] else x.of producerId := by
      intro producerId
      rw [of, filter_append]
      split_ifs with hid
      · rw [filter_cons_of_pos (by simpa using hid)]
        rfl
      · rw [filter_cons_of_neg (by simpa using hid), filter_nil, append_nil]
        rfl
    have hposition : ∀ producerId, (x.st.allocated p).position producerId =
        if identity.producerId = producerId then some (identity.epoch, a.next)
        else x.st.position producerId := by
      intro producerId
      simp only [PartitionState.position, hvalid.producers_allocated hp, get_insert, hnext, eq_comm]
      split_ifs <;> rfl
    rw [map_some, toList_some]
    refine ⟨hs, fun producerId ↦ ?_, fun producerId ↦ ?_⟩
    · rw [hof]
      split_ifs with hid
      · subst hid
        have hlast := h.position identity.producerId
        cases hl : (x.of identity.producerId).getLast? with
        | none =>
          rw [getLast?_eq_none_iff.1 hl]
          refine ⟨pairwise_singleton .., pairwise_singleton .., ?_, trivial⟩
          -- without a cursor only the first sequence is new
          rw [hl, map_none] at hlast
          by_contra hfirst
          exact checkProducer_of_none (map_eq_none_iff.1 hlast) hfirst hcheck
        | some last =>
          rw [hl, map_some] at hlast
          obtain ⟨hepoch, hfirst⟩ := position_of_checkProducer hcheck hlast
          refine (h.inOrder _).append (by rw [endOf, hl]; exact hfirst) fun b hb ↦ ?_
          obtain ⟨front, hfront⟩ := getLast?_eq_some_iff.1 hl
          have hepochs := (h.inOrder identity.producerId).epochs
          rw [hfront] at hb hepochs
          rcases mem_append.1 hb with hb | hb
          · exact ((pairwise_append.1 hepochs).2.2 b hb last (mem_singleton_self _)).trans hepoch
          · rw [mem_singleton.1 hb]
            exact hepoch
      · exact h.inOrder producerId
    · rw [hof, hposition]
      split_ifs with hid
      · rw [getLast?_append]
        rfl
      · exact h.position producerId

/-- **The append path keeps the log tracked.** -/
theorem Tracks.after (h : x.Tracks) (hc : c.Appends) : (x.after answer c).Tracks := by
  have hs := ((c.outcome h.sound answer).core_effect).sound h.sound
  have hkept : ∀ {st}, (c.run x.st answer).state = st →
      (c.run x.st answer).reserved = none →
      (∀ producerId, st.position producerId = x.st.position producerId) →
      (x.after answer c).Tracks := by
    intro st hst hreserved hposition
    rw [AllocationLog.after, hreserved, hst, bind_none, toList_none, append_nil]
    exact h.of_position (hst ▸ hs) hposition
  cases c with
  | reserve intent =>
    rcases reserve_cases x.st intent with ⟨hst, hnone⟩ | ⟨p, hintent, hvalid, hreply, hst⟩
    · exact hkept hst (reservedIn_eq_none hnone) fun _ ↦ rfl
    · have hrun : (Command.reserve intent).run x.st answer =
          ⟨x.st.allocated p, some p.proposal.reservation, none⟩ := by
        simp only [Command.run, hreply, hst]
        rfl
      have hproducer : (Command.reserve intent).producer = p.intent.producer := by rw [hintent]; rfl
      rw [AllocationLog.after, hrun, hproducer]
      rw [hrun] at hs
      exact h.allocate hvalid hs
  | commitPrepared p control =>
    rcases commitSource_cases x.st p (some control) with ⟨hst, hnone⟩ | ⟨hvalid, hreply, hst⟩
    · exact hkept hst (reservedIn_eq_none hnone) fun _ ↦ rfl
    · have hrun : (Command.commitPrepared p control).run x.st answer =
          ⟨x.st.allocated p, some p.proposal.reservation, none⟩ := by
        simp only [Command.run, hreply, hst]
        rfl
      rw [AllocationLog.after, hrun]
      rw [hrun] at hs
      exact h.allocate hvalid hs
  | complete completion =>
    refine hkept rfl rfl fun producerId ↦ ?_
    generalize hrun : (Command.complete completion).run x.st answer = eff
    have hout := (Command.complete completion).outcome h.sound answer
    rw [hrun] at hout
    cases hout with
    | quiet => rfl
    | allocated _ hsettles => cases hsettles
    | completed => rfl
  | fail r producer definite =>
    refine hkept rfl rfl fun producerId ↦ ?_
    change ((ShardStream.fail x.st r producer definite).2.producers.get producerId).map _ = _
    rw [producers_fail, Option.map_map]
    congr 1
    split_ifs <;> rfl
  | _ => exact hc.elim

/-- **Over a run** the log stays tracked. -/
theorem Run.tracks {y : AllocationLog} (hrun : Run x y) (hx : x.Tracks) : y.Tracks := by
  induction hrun with
  | refl => exact hx
  | tail _ hstep ih =>
    obtain ⟨answer, c, hc, rfl⟩ := hstep
    exact ih.after hc

theorem tracks_empty {shards : List Nat} {sequencer : TopicSequencer}
    (h : TopicSequencer.new tp 1 shards = .ok sequencer) (policy : PartitionReplicationPolicy) :
    (⟨.empty sequencer policy, []⟩ : AllocationLog).Tracks :=
  ⟨PartitionState.sound_empty h policy, fun _ ↦ ⟨.nil, .nil, trivial⟩, fun _ ↦ rfl⟩

end AllocationLog

/-! ### Receipts -/

/-- Runs of the append path of leaders, with restarts. -/
def RunRule.appending : RunRule := ⟨fun _ _ _ c ↦ c.Appends, fun _ ↦ True⟩

/-- The receipt is that of the batch. -/
structure DedupRecord.IsFor (record : DedupRecord) (r : Reservation) (p : ProducerIdentity)
    (digest : Digest) : Prop where
  digestAlgorithm : record.digestAlgorithm = digestXxh3128
  payloadDigest : record.payloadDigest = digest
  eventId : record.eventId = p.eventId
  recordCount : record.recordCount = r.recordCount.get
  batchId : record.response.batchId = r.batchId
  firstOffset : record.response.firstOffset = r.firstOffset
  lastOffset : record.response.lastOffset = r.lastOffset
  placement : record.response.placement = r.placement

/-- The partition holds the batch, settled, and its receipt. -/
structure PartitionState.Receipt (st : PartitionState) (r : Reservation) (p : ProducerIdentity)
    (digest : Digest) : Prop where
  batch : ∃ b, st.batches.get r.batchId = some b ∧ b.producer = some p ∧ b.status ≠ .pending
  record : ∃ record, st.dedup.get p.key = some record ∧ record.IsFor r p digest

/-- An outcome that answers an append with the batch: a receipt with its coordinates, for the same
payload, event and count. -/
def ReserveOutcome.IsOf (o : ReserveOutcome) (r : Reservation) (p : ProducerIdentity)
    (digest : Digest) (intent : AppendIntent) : Prop :=
  ∃ response copies object policy, o = .duplicate response copies object policy ∧
    response.batchId = r.batchId ∧ response.firstOffset = r.firstOffset ∧
    response.lastOffset = r.lastOffset ∧ response.placement = r.placement ∧
    intent.payloadDigest = digest ∧ intent.recordCount = r.recordCount ∧
    ∃ q, intent.producer = some q ∧ q.eventId = p.eventId

/-- **Appends with the identity are answered with the batch or refused**, and change nothing. -/
structure PartitionState.Answers (st : PartitionState) (r : Reservation) (p : ProducerIdentity)
    (digest : Digest) : Prop where
  prepare : ∀ (intent : AppendIntent) q, intent.producer = some q → q.key = p.key →
    ∀ o, prepare st intent = .ok o → ∃ outcome, o = .duplicate outcome ∧
    outcome.IsOf r p digest intent
  commit : ∀ (prepared : PreparedAppend) control q, prepared.intent.producer = some q →
    q.key = p.key → (commitSource st prepared control).2.1 = st ∧
      ∀ o, (commitSource st prepared control).1 = .ok o → o.IsOf r p digest prepared.intent

section Receipt

/-- The check of an append meets the receipt. -/
theorem PartitionState.Receipt.duplicate (h : st.Receipt r p digest)
    (hcursor : st.producers.get p.producerId = some cursor) (hepoch : cursor.epoch = p.epoch)
    {intent : AppendIntent} {q : ProducerIdentity} (hq : intent.producer = some q)
    (hkey : q.key = p.key) : (∃ e, ShardStream.duplicate st intent = .error e) ∨
      ∃ o : ReserveOutcome, ShardStream.duplicate st intent = .ok (some o) ∧
        o.IsOf r p digest intent := by
  obtain ⟨record, hrecord, hfor⟩ := h.record
  have hid : q.producerId = p.producerId := congrArg Prod.fst hkey
  have hsame : q.epoch = cursor.epoch := (congrArg (fun k ↦ k.2.1) hkey).trans hepoch.symm
  have hcheck : checkProducer st intent.requestId intent.producer intent.recordCount
      intent.payloadDigest = if ¬ (record.digestAlgorithm = digestXxh3128 ∧
          record.payloadDigest = intent.payloadDigest ∧ record.eventId = q.eventId) ∨
          record.recordCount ≠ intent.recordCount.get then
        .error (.duplicateSequenceMismatch q.producerId)
      else .ok (some ({ record.response with requestId := intent.requestId },
        record.durableReplicas, record.objectDurable)) := by
    simp only [checkProducer, hq, hid, hcursor, hsame, lt_irrefl, ↓reduceIte]
    rw [show q.key = p.key from hkey, hrecord]
  rw [ShardStream.duplicate, hcheck]
  split_ifs with hmismatch
  · exact .inl ⟨_, rfl⟩
  · rw [not_or, not_not, not_not] at hmismatch
    obtain ⟨⟨-, hdigest, hevent⟩, hcount⟩ := hmismatch
    refine .inr ⟨_, rfl, _, _, _, _, rfl, hfor.batchId, hfor.firstOffset, hfor.lastOffset,
      hfor.placement,
      hdigest.symm.trans hfor.payloadDigest, ?_, q, hq, hevent.symm.trans hfor.eventId⟩
    have heq := hcount.symm.trans hfor.recordCount
    cases hi : intent.recordCount
    cases hr : r.recordCount
    rw [hi, hr] at heq
    cases heq
    rfl

/-- **A receipt answers.** -/
theorem PartitionState.Receipt.answers (h : st.Receipt r p digest)
    (hcursor : st.producers.get p.producerId = some cursor) (hepoch : cursor.epoch = p.epoch) :
    st.Answers r p digest := by
  refine ⟨fun intent q hq hkey o ho ↦ ?_, fun prepared control q hq hkey ↦ ?_⟩
  · rcases h.duplicate hcursor hepoch hq hkey with ⟨e, he⟩ | ⟨outcome, houtcome, hof⟩
    · simp only [ShardStream.prepare, he] at ho
      cases ho
    · simp only [ShardStream.prepare, houtcome] at ho
      cases ho
      exact ⟨outcome, rfl, hof⟩
  · rcases h.duplicate hcursor hepoch hq hkey with ⟨e, he⟩ | ⟨outcome, houtcome, hof⟩
    · simp only [commitSource, he]
      exact ⟨trivial, fun o ho ↦ by cases ho⟩
    · simp only [commitSource, houtcome]
      refine ⟨trivial, fun o ho ↦ ?_⟩
      cases ho
      exact hof

/-- **The append path keeps a receipt**: no other batch has its identity. -/
theorem Outcome.receipt {eff : Effect} (hout : Outcome st answer c eff) (hc : c.Appends)
    (hin : ProducersInOrder st) (hcompletion : ∀ completion, c = .complete completion → ∃ b,
      st.batches.get completion.reservation.batchId = some b ∧ b.producer = completion.producer)
    (h : st.Receipt r p digest) : eff.state.Receipt r p digest := by
  obtain ⟨b, hb, hproducer, hsettled⟩ := h.batch
  -- what is settled now is another batch
  have hother : ∀ {key b'}, st.batches.get key = some b' →
      b'.status = .pending → r.batchId ≠ key := by
    rintro key b' hget hpending rfl
    rw [hb] at hget
    cases hget
    exact hsettled hpending
  cases hout with
  | quiet => exact ⟨h.batch, h.record⟩
  | allocated =>
    exact ⟨⟨b, get_snoc_of_get hb, hproducer, hsettled⟩, h.record⟩
  | @completed completion b' hget hres' hstatus =>
    obtain ⟨b'', hget', hproducer'⟩ := hcompletion completion rfl
    rw [hget] at hget'
    cases hget'
    have hne := hother hget hstatus
    refine ⟨⟨b, ?_, hproducer, hsettled⟩, ?_⟩
    · change ((st.batches.modify _ _).modify _ _).get r.batchId = _
      rw [get_modify, if_neg hne, get_modify, if_neg hne, hb]
    · obtain ⟨record, hrecord, hfor⟩ := h.record
      refine ⟨record, ?_, hfor⟩
      simp only [PartitionState.completed]
      cases hp : completion.producer with
      | none => exact hrecord
      | some q =>
        rw [get_insert_of_ne _ _ fun hkey ↦ ?_]
        · exact hrecord
        · -- two batches of a producer do not start at the same sequence
          rw [hp] at hproducer'
          have hcarries : b.Carries p.producerId p.epoch p.firstSequence _ :=
            ⟨p, hproducer, rfl, rfl, rfl, rfl⟩
          have hcarries' : b'.Carries p.producerId q.epoch q.firstSequence _ :=
            ⟨q, hproducer', (congrArg Prod.fst hkey).symm, rfl, rfl, rfl⟩
          have hfirst : p.firstSequence = q.firstSequence := congrArg (fun k ↦ k.2.2) hkey
          rcases Nat.lt_or_gt_of_ne hne with hlt | hlt
          · have := (hin.ordered hlt hb hget hcarries hcarries').2
            have := hcarries.lt
            omega
          · have := (hin.ordered hlt hget hb hcarries' hcarries).2
            have := hcarries'.lt
            omega
  | @frozen _ producer => cases producer <;> exact ⟨h.batch, h.record⟩
  | @failed r' producer b' hget hres' hstatus =>
    rw [rollbackAtomicChunk_snd]
    refine ⟨⟨b, ?_, hproducer, hsettled⟩, ?_⟩
    · change ((st.freezeProducer producer).batches.modify _ _).get r.batchId = _
      rw [toPartitionCore_freezeProducer, get_modify, if_neg (hother hget hstatus), hb]
    · change ∃ record, (st.freezeProducer producer).dedup.get p.key = some record ∧ _
      rw [dedup_freezeProducer]
      exact h.record
  | _ => exact hc.elim

/-- Where every identity is of one extent, its receipt is found again. -/
theorem get_foldl_restoreDedup_of_mem {replicas : Nat} {E : List ExtentCatalogEntry}
    {ps : ProducerSequence} (hx : x ∈ E) (hps : x.producer = some ps)
    (hE : E.Pairwise fun x y ↦ x.reservation.batchId < y.reservation.batchId)
    (hother : ∀ y ∈ E, y ≠ x → ∀ q ∈ y.producer, q.identity.key ≠ ps.identity.key)
    (t : Table (Nat × Nat × Nat) DedupRecord) :
    (E.foldl (ExtentCatalogEntry.restoreDedup replicas) t).get ps.identity.key =
      some (restoredRecord x.reservation ps replicas x.objectDurable) := by
  obtain ⟨E₁, E₂, rfl⟩ := append_of_mem hx
  obtain ⟨-, hE₂, -⟩ := pairwise_append.1 hE
  rw [foldl_append, foldl_cons]
  -- what comes later is of other identities
  have hkept : ∀ (E : List ExtentCatalogEntry) (t : Table (Nat × Nat × Nat) DedupRecord),
      (∀ y ∈ E, ∀ q ∈ y.producer, q.identity.key ≠ ps.identity.key) →
      (E.foldl (ExtentCatalogEntry.restoreDedup replicas) t).get ps.identity.key =
        t.get ps.identity.key := by
    intro E
    induction E with
    | nil => exact fun _ _ ↦ rfl
    | cons y E ih =>
      intro t h
      rw [foldl_cons, ih _ fun z hz ↦ h z (mem_cons_of_mem _ hz)]
      cases hy : y.producer with
      | none => simp only [ExtentCatalogEntry.restoreDedup, hy]
      | some q =>
        simp only [ExtentCatalogEntry.restoreDedup, hy]
        exact get_insert_of_ne _ _ (h y mem_cons_self q hy).symm
  rw [hkept]
  · simp only [ExtentCatalogEntry.restoreDedup, hps, get_insert_self]
  · intro y hy q hq
    refine hother y (by simp [hy]) ?_ q hq
    rintro rfl
    exact (rel_of_pairwise_cons hE₂ hy).false

end Receipt

/-! ### Over runs -/

/-- The batch is durable as that of its producer, and its partition holds the receipt. -/
structure Engine.HoldsReceipt (e : Engine) (tp : TopicPartition) (r : Reservation)
    (p : ProducerIdentity) (digest : Digest) : Prop where
  extent : ∃ x ∈ e.extents, x.key = (tp, r.batchId) ∧ x.reservation = r ∧
    x.producer = some (p.toSequence digest)
  receipt : ∃ st, e.states.get tp = some st ∧ st.Receipt r p digest

section Runs

variable {config : EngineConfig} {e e' : Engine}

theorem EngineReachable.inProducerOrder_of_appending (h : EngineReachable config .appending e) :
    EngineReachable config .inProducerOrder e := by
  have hstep : ∀ e e', EngineStep config .appending e e' →
      EngineStep config .inProducerOrder e e' := fun e e' hstep ↦
    hstep.mono (fun _ _ _ _ hc _ _ _ _ _ hreplica ↦ by rw [hreplica] at hc; exact hc.elim)
      fun _ _ ↦ trivial
  exact Relation.ReflTransGen.mono hstep _ _ h

/-- Without decisions the journal stays in step with the partitions. -/
theorem EngineReachable.backed_of_appending (h : EngineReachable config .appending e) :
    ∃ s, BackedBy config e s := by
  refine h.backed fun e he tp st hst ↦ ?_
  have hundecided : ∀ txn, st.finalizedGroups.get txn = none := by
    refine he.partition_invariant (P := fun _ st ↦ ∀ txn, st.finalizedGroups.get txn = none)
      ?_ ?_ ?_ hst
    · intro tp shards sequencer policy _ txn
      rfl
    · intro e tp st answer c he hst hnone _ hc txn
      have hs := (he.sound_and_tagged hst).1
      rcases (c.outcome hs answer).finalizedGroups_get txn with hsame | ⟨g, outcome, rfl, -⟩
      · rw [hsame, hnone]
      · exact hc.elim
    · intro e s tp st st' hb hst hnone _ hr txn
      rw [hr.finalizedGroups, (hb.backed tp st hst).outcomes_get, hnone]
  rintro ⟨txn, g, o, -, -, ho⟩
  rw [hundecided] at ho
  cases ho

/-- **A recovered partition holds the receipts** of the extents it is recovered from. -/
theorem BackedBy.receipt {s : ReplayState} {st' : PartitionState} (hb : BackedBy config e s)
    (hst : e.states.get tp = some st) (hr : Recovered (st.recoveryContext config s 1 tp)
      (e.entries tp) st') (hin : ProducersInOrder st) (h : st.Receipt r p digest)
    (hx : x ∈ e.extents) (hkey : x.key = (tp, r.batchId)) (hres : x.reservation = r)
    (hproducer : x.producer = some (p.toSequence digest)) : st'.Receipt r p digest := by
  obtain ⟨b, hget, hbproducer, -⟩ := h.batch
  have hget' := hb.get_of_durable hst hr hget hx hkey
  have hbacked := hb.backed tp st hst
  obtain ⟨htp, -⟩ := ExtentCatalogEntry.key_eq_iff.1 hkey
  have hmem : x ∈ e.entries tp :=
    (hbacked.mem_entries_iff hb.replay).2 ⟨hx, htp, b, by rw [hres]; exact hget⟩
  refine ⟨⟨_, hget', ?_, hr.not_pending hget'⟩,
    restoredRecord x.reservation (p.toSequence digest) (st.recoveryContext config s 1 tp).replicas
      x.objectDurable, ?_, ?_⟩
  · change x.producer.map (·.identity) = _
    rw [hproducer]
    rfl
  · rw [hr.dedup]
    refine get_foldl_restoreDedup_of_mem hmem hproducer (hb.entries_pairwise hst)
      (fun y hy hne q hq hsame ↦ ?_) _
    -- extents of a producer in batch order do not start at the same sequence
    have hcarries : x.Carries p.producerId p.epoch p.firstSequence _ :=
      ⟨p, by rw [hproducer]; rfl, rfl, rfl, rfl, rfl⟩
    have hcarries' : y.Carries p.producerId q.epoch q.firstSequence _ :=
      ⟨q.identity, by rw [hq]; rfl, congrArg Prod.fst hsame, rfl, rfl, rfl⟩
    have hfirst : q.firstSequence = p.firstSequence := congrArg (fun k ↦ k.2.2) hsame
    have hpairwise := hin.extentsInOrder hb hst
    obtain ⟨E₁, E₂, hE⟩ := append_of_mem hmem
    rw [hE] at hpairwise hy
    obtain ⟨-, hafter, hbefore⟩ := pairwise_append.1 hpairwise
    rcases mem_append.1 hy with hy | hy
    · have := (hbefore y hy x mem_cons_self hcarries' hcarries).2
      have := hcarries'.lt
      omega
    · rcases mem_cons.1 hy with heq | hy
      · exact hne heq
      · have := (rel_of_pairwise_cons hafter hy hcarries hcarries').2
        have := hcarries.lt
        omega
  · rw [hres]
    exact ⟨rfl, rfl, rfl, rfl, rfl, rfl, rfl, rfl⟩

/-- **A step keeps a receipt.** -/
theorem Engine.HoldsReceipt.step (h : e.HoldsReceipt tp r p digest)
    (hreach : EngineReachable config .appending e) (hstep : EngineStep config .appending e e') :
    e'.HoldsReceipt tp r p digest := by
  obtain ⟨⟨x, hx, hkey, hres, hproducer⟩, st, hst, hreceipt⟩ := h
  refine ⟨⟨x, hstep.extents_mono hx, hkey, hres, hproducer⟩, ?_⟩
  have hin := hreach.inProducerOrder_of_appending.producersInOrder hst
  rcases hstep.live_cases hst with hst' | ⟨answer, c, hadmits, hrule, hst'⟩ | ⟨states, -, hrec, rfl⟩
  · exact ⟨st, hst', hreceipt⟩
  · have hs := (hreach.sound_and_tagged hst).1
    refine ⟨_, hst', (c.outcome hs answer).receipt hrule hin ?_ hreceipt⟩
    rintro completion rfl
    obtain ⟨-, -, -, b, hb, -, hproducer, -⟩ := hadmits
    exact ⟨b, hb, hproducer⟩
  · obtain ⟨s, st', hb, hst', hr⟩ := hreach.recovered_of_live hrec hst
    exact ⟨st', hst', hb.receipt hst hr hin hreceipt hx hkey hres hproducer⟩

/-- **A completion leaves a receipt.** -/
theorem Engine.holdsReceipt_of_complete (hreach : EngineReachable config .appending e)
    (hst : e.states.get tp = some st) {completion : CompleteAppend}
    (hadmits : e.Admits config tp st (.complete completion)) (hp : completion.producer = some p)
    (answer : Except EngineError Unit) :
    (e.commanded tp st answer (.complete completion)).HoldsReceipt tp completion.reservation p
      completion.payloadDigest := by
  obtain ⟨s, hb⟩ := hreach.backed_of_appending
  obtain ⟨hflight, ⟨x, hx, hkey⟩, ⟨requestId, hresponse⟩, b, hget, hres, hproducer, hdigest⟩ :=
    hadmits
  have hk := (hb.backed tp st hst).keys _ b hget
  have hdesc := hk.describes x hx hkey
  have hpending := hk.flight hflight
  refine ⟨⟨x, hx, hkey, hdesc.reservation.trans hres, ?_⟩, ?_⟩
  · have hidentity := hdesc.producer.trans (hproducer.trans hp)
    obtain ⟨ps, hps, rfl⟩ := map_eq_some_iff.1 hidentity
    obtain ⟨halgorithm, hpayload⟩ := hdesc.producerDigest ps hps
    rw [hdigest] at hpayload
    rw [hps]
    obtain ⟨producerId, epoch, firstSequence, eventId, digestAlgorithm, payloadDigest⟩ := ps
    cases hpayload
    cases halgorithm
    rfl
  · obtain ⟨response, hcomplete⟩ := complete_of_pending hget hres hpending
    have hstate : ((Command.complete completion).run st answer).state =
        (st.markedBatch completion.reservation.batchId (completedStatus (some b))
          completion.durableReplicas).completed completion
            (b.marked (completedStatus (some b)) completion.durableReplicas).durableReplicas := by
      simp only [Command.run, hcomplete]
      rfl
    refine ⟨_, by simp only [Engine.commanded]; exact get_insert_self .., ?_⟩
    rw [hstate]
    refine ⟨?_, ?_⟩
    · change ∃ b, ((st.batches.modify _ _).modify _ _).get _ = some b ∧ _
      rw [get_modify, if_pos rfl, get_modify, if_pos rfl, hget]
      refine ⟨_, rfl, ?_, ?_⟩
      · rw [(b.sameBatch_marked _ _).producer, hproducer, hp]
      · rw [completedStatus]
        split_ifs <;> simp
    · simp only [PartitionState.completed, hp]
      refine ⟨_, get_insert_self .., rfl, rfl, rfl, rfl, ?_, ?_, ?_, ?_⟩ <;>
        simp [CompleteAppend.record, hresponse, appendResponse]

end Runs

/-- **Every sequence is allocated once.** From an empty partition, whatever is prepared, committed,
completed and failed, the new reservations of each producer are in order and tile its sequences. And
once a batch of a producer is completed, no append with its identity is given coordinates, in any
later state with the cursor in its epoch, across restarts: it gets those of the batch, or is
refused. -/
theorem sequences_allocated_once (config : EngineConfig) :
    (∀ (tp : TopicPartition) (shards : List Nat) (sequencer : TopicSequencer)
      (policy : PartitionReplicationPolicy) (x : AllocationLog) (producerId : Nat),
      TopicSequencer.new tp 1 shards = .ok sequencer →
      AllocationLog.Run ⟨.empty sequencer policy, []⟩ x → AllocatedInOrder (x.of producerId)) ∧
    ∀ (e e' : Engine) (tp : TopicPartition) (st st' : PartitionState)
      (answer : Except EngineError Unit) (completion : CompleteAppend) (p : ProducerIdentity)
      (cursor : ProducerCursor),
      EngineReachable config .appending e → e.states.get tp = some st →
      e.Admits config tp st (.complete completion) → completion.producer = some p →
      Relation.ReflTransGen (EngineStep config .appending)
        (e.commanded tp st answer (.complete completion)) e' →
      e'.states.get tp = some st' → st'.producers.get p.producerId = some cursor →
      cursor.epoch = p.epoch → st'.Answers completion.reservation p completion.payloadDigest := by
  refine ⟨fun tp shards sequencer policy x producerId hnew hrun ↦ ?_, ?_⟩
  · exact (hrun.tracks (AllocationLog.tracks_empty hnew policy)).inOrder producerId
  · intro e e' tp st st' answer completion p cursor hreach hst hadmits hp hrun hst' hcursor hepoch
    have hstart : EngineReachable config .appending
        (e.commanded tp st answer (.complete completion)) :=
      hreach.tail (.command hst hadmits trivial)
    have hholds : e'.HoldsReceipt tp completion.reservation p completion.payloadDigest := by
      clear hst'
      induction hrun with
      | refl => exact Engine.holdsReceipt_of_complete hreach hst hadmits hp answer
      | tail hrun hstep ih => exact ih.step (hstart.trans hrun) hstep
    obtain ⟨st'', hst'', hreceipt⟩ := hholds.receipt
    rw [hst'] at hst''
    cases hst''
    exact hreceipt.answers hcursor hepoch

/-- The guard of the append path. -/
def Guard.appending : Guard where
  command _ _ _
    | .reserve _ | .commitPrepared .. | .complete _ | .fail .. => true
    | _ => false
  restart _ := true

theorem Guard.appending_implies : Guard.appending.Implies .appending := by
  refine ⟨fun e tp st c h ↦ ?_, fun _ _ ↦ trivial⟩
  cases c <;> trivial

/-- The answer of a preparation that found a receipt. -/
def receiptIn : Except EngineError PrepareOutcome → Option AppendResponse
  | .ok (.duplicate (.duplicate response _ _ _)) => some response
  | _ => none

/-- Producer 9 appends one record, which is completed; the engine restarts, and the append comes
again. -/
theorem first_of_nine_allocated_once : (∃ x : AllocationLog, AllocationLog.Run ⟨oneLane, []⟩ x ∧
      (x.of 9).length = 1 ∧ AllocatedInOrder (x.of 9)) ∧
    ∃ e' st' r response, EngineReachable ⟨1, 1, 1⟩ .appending e' ∧ e'.states.get ⟨0, 0⟩ = some st' ∧
      st'.Answers r ⟨9, 0, 0, none⟩ 0 ∧ receiptIn (prepare st' firstOfNine) = some response := by
  obtain ⟨horder, hanswers⟩ := sequences_allocated_once ⟨1, 1, 1⟩
  constructor
  · have hrun : AllocationLog.Run ⟨oneLane, []⟩
        (AllocationLog.after ⟨oneLane, []⟩ (.ok ()) (.reserve firstOfNine)) :=
      .single ⟨.ok (), .reserve firstOfNine, trivial, rfl⟩
    exact ⟨_, hrun, by decide +kernel, horder ⟨0, 0⟩ [0] _ ⟨1, 1, 1⟩ _ 9 rfl hrun⟩
  · obtain ⟨e, st, he, hst, h⟩ := Engine.exists_of_play ⟨1, 1, 1⟩ (oneProduced.take 3) ⟨0, 0⟩
      (fun e st ↦ ∃ b, st.batches.get 0 = some b ∧
        e.admits ⟨1, 1, 1⟩ ⟨0, 0⟩ st (.complete (b.completion 0)) ∧
          b.producer = some ⟨9, 0, 0, none⟩ ∧
          ∃ states, (e.commanded ⟨0, 0⟩ st (.ok ()) (.complete (b.completion 0))).recover
            ⟨1, 1, 1⟩ 1 = .ok states ∧ ∃ st', states.get ⟨0, 0⟩ = some st' ∧
              (∃ cursor, st'.producers.get 9 = some cursor ∧ cursor.epoch = 0) ∧
              ∃ response, receiptIn (prepare st' firstOfNine) = some response ∧ True)
      Guard.appending_implies (by decide +kernel)
    obtain ⟨b, -, hadmits, hproducer, states, hrec, st', hst', ⟨cursor, hcursor, hepoch⟩, response,
      hresponse, -⟩ := h
    have hadmits := Engine.admits_sound hadmits
    have hrestart : EngineStep ⟨1, 1, 1⟩ .appending _ _ := .restart trivial hrec
    exact ⟨_, st', b.reservation, response, (he.tail (.command hst hadmits trivial)).tail hrestart,
      hst',
      hanswers e _ ⟨0, 0⟩ st st' (.ok ()) (b.completion 0) ⟨9, 0, 0, none⟩ cursor he hst hadmits
        hproducer (.single hrestart) hst' hcursor hepoch, hresponse⟩

end ShardStream
