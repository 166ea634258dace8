import ShardStream.Engine.Restart

/-!
# The cursors of producers

A partition keeps a cursor for every producer it knows: the epoch, the next sequence, and whether an
append of that epoch has failed. A cursor moves when a batch of its producer gets coordinates,
whatever becomes of the batch. A failure only leaves its mark, and within an epoch nothing takes the
mark away but a replica reservation that reopens an aborted batch (`CursorsStep`).

In every run the cursor of a producer is of the latest epoch that a batch or a receipt of it has,
and it is beyond the first sequence (`CursorsCover`).
-/

namespace ShardStream

open Table List PartitionState ExtentCatalogEntry

variable {cursor : ProducerCursor} {st' st : PartitionState} {count : NonZeroU32}
  {k : Nat × Nat × Nat} {record : DedupRecord} {b : BatchRuntime} {p : ProducerIdentity}
  {c : Command} {eff : Effect} {answer : Except EngineError Unit}

/-! ### One command -/

section Check

variable {requestId : Nat} {digest : Digest}

/-- An append that is found new starts exactly where the cursor is, and is not of an epoch that is
over, nor of one that has failed. -/
theorem cursor_of_checkProducer (h : checkProducer st requestId (some p) count digest = .ok none)
    (hcursor : st.producers.get p.producerId = some cursor) :
    cursor.epoch ≤ p.epoch ∧ p.firstSequence = cursor.nextSequence ∧
      (cursor.epoch = p.epoch → cursor.failed = false) := by
  rcases checkProducer_eq_none_iff.1 h with ⟨hnone, -⟩ | ⟨c, hc, hle, hnext, hsame⟩
  · cases hnone.symm.trans hcursor
  · cases hc.symm.trans hcursor
    exact ⟨hle, hnext, fun heq ↦ (hsame heq.symm).2⟩

end Check

/-- **What a command does to the cursors.** -/
inductive CursorsStep (st st' : PartitionState) (c : Command) : Prop
  | kept (hnext : st'.sequencer.nextBatchId = st.sequencer.nextBatchId)
      (h : st'.producers = st.producers)
  /-- A batch without a producer gets coordinates. -/
  | plain {b : BatchRuntime} (hget : st'.batches.get st.batches.nextKey = some b)
      (hproducer : b.producer = none) (h : st'.producers = st.producers)
  /-- A batch of a producer gets coordinates. The mark stays exactly if the epoch does. Unless a
  replica reserves the batch, it starts where the cursor was. -/
  | advanced {b : BatchRuntime} {p : ProducerIdentity} {cursor : ProducerCursor}
      (hget : st'.batches.get st.batches.nextKey = some b) (hproducer : b.producer = some p)
      (hnext : cursor.nextSequence = p.firstSequence + b.reservation.recordCount.get)
      (hepoch : p.epoch ≤ cursor.epoch)
      (hbefore : ∀ c, st.producers.get p.producerId = some c → c.epoch ≤ cursor.epoch)
      (hfailed : cursor.failed = true ↔ ∃ c, st.producers.get p.producerId = some c ∧
        c.epoch = cursor.epoch ∧ c.failed = true)
      (h : st'.producers = st.producers.insert p.producerId cursor)
      (hlatest : (∀ c, st.producers.get p.producerId = some c → c.epoch ≤ p.epoch) →
        cursor.epoch = p.epoch)
      (hsource : (∀ c, st.producers.get p.producerId = some c →
          c.epoch ≤ p.epoch ∧ p.firstSequence = c.nextSequence) ∨
        ∃ group bytes digest, c = .reserveReplica b.reservation (some p) group bytes digest ∧
          st.batches.get b.reservation.batchId = none)
  /-- An aborted batch is reopened. -/
  | reopened {b : BatchRuntime} {p : ProducerIdentity}
      (hnext : st'.sequencer.nextBatchId = st.sequencer.nextBatchId)
      (hreopens : c.reopens st = some b) (hproducer : b.producer = some p)
      (h : st'.producers = st.producers.modify p.producerId fun c ↦
        if c.epoch = p.epoch then { c with failed := false } else c)
  /-- An append fails. -/
  | frozen {r : Reservation} {p : ProducerIdentity} {definite : Bool}
      (hnext : st'.sequencer.nextBatchId = st.sequencer.nextBatchId)
      (hcommand : c = .fail r (some p) definite)
      (h : st'.producers = st.producers.modify p.producerId fun c ↦ { c with failed := true })

section Outcome

/-- **The cursors after a command.** -/
theorem Outcome.cursorsStep (h : Outcome st answer c eff) : CursorsStep st eff.state c := by
  have hreopen : ∀ {r producer group bytes digest b st'},
      c = .reserveReplica r producer group bytes digest →
      st.batches.get r.batchId = some b → b.status = .aborted →
      b.matchesReplica r producer group bytes digest = true →
      st'.sequencer.nextBatchId = st.sequencer.nextBatchId →
      st'.producers = (st.reopen r.batchId producer digest).producers → CursorsStep st st' c := by
    intro r producer group bytes digest b st' hc hget hstatus hmatch hnext hst'
    cases producer with
    | none => exact .kept hnext hst'
    | some p =>
      refine .reopened hnext ?_ (BatchRuntime.matchesReplica_iff.1 hmatch).2.1 hst'
      simp only [hc, Command.reopens, hget, Option.filter_some, hstatus, decide_true, hmatch,
        Bool.and_self, ↓reduceIte]
  cases h with
  | @allocated _ p hvalid =>
    have hget := get_nextKey_allocated st p
    cases hp : p.intent.producer with
    | none =>
      refine .plain hget hp ?_
      simp only [PartitionState.allocated, installPrepared, hp]
    | some identity =>
      have hnew := hvalid.checkProducer
      rw [hp] at hnew
      have hbefore {c} (hc : st.producers.get identity.producerId = some c) :=
        cursor_of_checkProducer hnew hc
      refine .advanced hget hp ?_ le_rfl (fun c hc ↦ (hbefore hc).1) ⟨fun h ↦ (by cases h), ?_⟩
        (hvalid.producers_allocated hp) (fun _ ↦ rfl) (.inl fun c hc ↦
          (hbefore hc).imp_right And.left)
      · rw [show p.batch.reservation.recordCount = p.intent.recordCount from hvalid.recordCount]
      · rintro ⟨c, hc, hepoch, hfailed⟩
        rw [(hbefore hc).2.2 hepoch] at hfailed
        cases hfailed
  | @appended r producer group bytes digest reserved producers hpasses hproducers =>
    rw [registerNamedChunk_snd]
    have hget' : (st.batches.snoc (pendingBatch r producer group bytes digest)).get
        st.batches.nextKey = some (pendingBatch r producer group bytes digest) := by
      rw [DenseOrderedMap.get_snoc, if_pos rfl]
    cases producer with
    | none => exact .plain hget' rfl (congrArg (·.producers) (Except.ok.inj hproducers)).symm
    | some p =>
      rcases exists_of_advanceNamedProducer hproducers with ⟨hnew, rfl⟩ | ⟨cursor, hc, hle, rfl⟩
      · refine .advanced hget' rfl ?_ ?_ (fun c hc ↦ ?_) ?_ rfl (fun _ ↦ ?_)
          (.inr ⟨group, bytes, digest, rfl, hpasses.absent⟩)
        · rfl
        · exact le_rfl
        · exact (hnew c hc).le
        · simpa using fun c hc heq ↦ absurd heq (hnew c hc).ne
        · rfl
      · refine .advanced hget' rfl ?_ ?_ ?_ ?_ rfl
          (fun h ↦ le_antisymm (h cursor hc) hle) (.inr ⟨group, bytes, digest, rfl, hpasses.absent⟩)
        · rfl
        · exact hle
        all_goals simp [hc]
  | @retried r producer group bytes digest b hget hstatus hmatch
  | @refusedRetry r producer group bytes digest b e hget hstatus hmatch =>
    rw [registerNamedChunk_snd]
    exact hreopen rfl hget hstatus hmatch rfl rfl
  | @frozen r producer =>
    cases producer with
    | none => exact .kept rfl rfl
    | some p => exact .frozen rfl rfl rfl
  | @failed r producer =>
    rw [rollbackAtomicChunk_snd]
    cases producer with
    | none => exact .kept rfl rfl
    | some p => exact .frozen rfl rfl rfl
  | _ => exact .kept rfl rfl

/-- The cursors after a batch was reopened. -/
theorem Outcome.producers_reopened (h : Outcome st answer c eff) (hb : c.reopens st = some b) :
    ∃ batchId digest, eff.state.producers = (st.reopen batchId b.producer digest).producers := by
  cases h with
  | quiet hreopens =>
    rw [hreopens] at hb
    cases hb
  | allocated hvalid hsettles hreopens =>
    rw [hreopens] at hb
    cases hb
  | appended hpasses =>
    rw [Command.reopens, hpasses.absent] at hb
    cases hb
  | @retried r producer group bytes digest b' hget hstatus hmatch
  | @refusedRetry r producer group bytes digest b' e hget hstatus hmatch =>
    simp only [Command.reopens, hget, Option.filter_some, hstatus, decide_true, hmatch,
      Bool.and_self, ↓reduceIte, Option.some.injEq] at hb
    rw [← hb, (BatchRuntime.matchesReplica_iff.1 hmatch).2.1]
    rw [registerNamedChunk_snd]
    exact ⟨r.batchId, digest, rfl⟩
  | _ => cases hb

/-- A reopened batch takes the mark of its epoch away. -/
theorem Outcome.producers_of_reopens (h : Outcome st answer c eff) (hb : c.reopens st = some b)
    (hp : b.producer = some p) :
    eff.state.producers = st.producers.modify p.producerId fun c ↦
      if c.epoch = p.epoch then { c with failed := false } else c := by
  obtain ⟨batchId, digest, hproducers⟩ := h.producers_reopened hb
  rw [hproducers, hp]
  rfl

theorem dedup_registerNamedChunk (st : PartitionState) (identity : Option AtomicGroupIdentity)
    (r : Reservation) (bytes : Nat) :
    (registerNamedChunk st identity r bytes).2.dedup = st.dedup := by
  rw [registerNamedChunk_snd]

theorem dedup_rollbackAtomicChunk (st : PartitionState) (r : Reservation) :
    (rollbackAtomicChunk st r).2.dedup = st.dedup := by
  rw [rollbackAtomicChunk_snd]

theorem dedup_freezeProducer (st : PartitionState) (producer : Option ProducerIdentity) :
    (st.freezeProducer producer).dedup = st.dedup := by
  cases producer <;> rfl

/-- A receipt that a command leaves was there before, or is that of the append it completes. -/
theorem Outcome.dedup_cases (h : Outcome st answer c eff)
    (hrecord : eff.state.dedup.get k = some record) : (∃ record', st.dedup.get k = some record') ∨
      ∃ completion p, c = .complete completion ∧ completion.producer = some p ∧ p.key = k := by
  cases h with
  | @completed completion =>
    cases hp : completion.producer with
    | none =>
      simp only [PartitionState.completed, hp] at hrecord
      exact .inl ⟨record, hrecord⟩
    | some p =>
      simp only [PartitionState.completed, hp, get_insert] at hrecord
      split_ifs at hrecord with hk
      · exact .inr ⟨completion, p, rfl, hp, hk.symm⟩
      · exact .inl ⟨record, hrecord⟩
  | acknowledged =>
    obtain ⟨record', hrecord', -⟩ := Option.map_eq_some_iff.1 hrecord
    exact .inl ⟨record', hrecord'⟩
  | appended | retried | refusedRetry =>
    simp only [dedup_resetCachedWatermarksAfterTruncate, dedup_registerNamedChunk] at hrecord
    exact .inl ⟨record, hrecord⟩
  | frozen =>
    simp only [dedup_freezeProducer] at hrecord
    exact .inl ⟨record, hrecord⟩
  | failed =>
    simp only [dedup_rollbackAtomicChunk] at hrecord
    rw [markedBatch, dedup_freezeProducer] at hrecord
    exact .inl ⟨record, hrecord⟩
  | _ => exact .inl ⟨record, hrecord⟩

end Outcome

/-! ### Over runs -/

/-- **The cursor of a producer is of the latest epoch that a batch or a receipt of it has**, and it
is beyond the first sequence. -/
structure CursorsCover (st : PartitionState) : Prop where
  batches : ∀ {key b p}, st.batches.get key = some b → b.producer = some p →
    ∃ c, st.producers.get p.producerId = some c ∧ p.epoch ≤ c.epoch
  receipts : ∀ {k record}, st.dedup.get k = some record →
    ∃ c, st.producers.get k.1 = some c ∧ k.2.1 ≤ c.epoch
  positive : ∀ {producerId c}, st.producers.get producerId = some c → 0 < c.nextSequence

section Cover

variable {producerId : Nat} {E : List ExtentCatalogEntry}

/-- Cursors do not go back to an earlier epoch, and none disappears. -/
theorem CursorsStep.epoch_le (h : CursorsStep st st' c)
    (hcursor : st.producers.get producerId = some cursor) :
    ∃ cursor', st'.producers.get producerId = some cursor' ∧ cursor.epoch ≤ cursor'.epoch := by
  have hmodify : ∀ {q f}, (∀ c, (f c).epoch = c.epoch) → st'.producers = st.producers.modify q f →
      ∃ cursor', st'.producers.get producerId = some cursor' ∧ cursor.epoch ≤ cursor'.epoch := by
    intro q f hf h
    rw [h, get_modify]
    split_ifs with hq
    · exact ⟨f cursor, by rw [hcursor]; rfl, (hf cursor).ge⟩
    · exact ⟨cursor, hcursor, le_rfl⟩
  cases h with
  | kept hnext h | plain hget hproducer h => exact ⟨cursor, by rw [h, hcursor], le_rfl⟩
  | @advanced b p cursor' hget hproducer hpos hepoch hbefore hfailed h =>
    rw [h, get_insert]
    split_ifs with hid
    · exact ⟨cursor', rfl, hbefore cursor (hid ▸ hcursor)⟩
    · exact ⟨cursor, hcursor, le_rfl⟩
  | reopened hnext hreopens hproducer h =>
    refine hmodify (fun c ↦ ?_) h
    split_ifs <;> rfl
  | frozen hnext hcommand h =>
    exact hmodify (f := fun c ↦ { c with failed := true }) (fun _ ↦ rfl) h

/-- What is behind a cursor after a command was behind it before, or is its new place. -/
theorem CursorsStep.positive (h : CursorsStep st st' c)
    (hst : ∀ {producerId cursor}, st.producers.get producerId = some cursor →
      0 < cursor.nextSequence)
    (hcursor : st'.producers.get producerId = some cursor) : 0 < cursor.nextSequence := by
  have hmodify : ∀ {q f},
      (∀ c, (f c).nextSequence = c.nextSequence) → st'.producers = st.producers.modify q f →
      0 < cursor.nextSequence := by
    intro q f hf h
    rw [h, get_modify] at hcursor
    split_ifs at hcursor with hq
    · obtain ⟨c, hc, rfl⟩ := Option.map_eq_some_iff.1 hcursor
      rw [hf]
      exact hst hc
    · exact hst hcursor
  cases h with
  | kept hnext h | plain hget hproducer h =>
    rw [h] at hcursor
    exact hst hcursor
  | @advanced b p cursor hget hproducer hnext hepoch hbefore hfailed h =>
    rcases get_insert_eq_some_iff.1 (h ▸ hcursor) with ⟨-, rfl⟩ | ⟨-, hcursor⟩
    · exact hnext ▸ Nat.add_pos_right _ b.reservation.recordCount.pos
    · exact hst hcursor
  | reopened hnext hreopens hproducer h =>
    refine hmodify (fun c ↦ ?_) h
    split_ifs <;> rfl
  | frozen hnext hcommand h =>
    exact hmodify (f := fun c ↦ { c with failed := true }) (fun _ ↦ rfl) h

/-- An epoch that a cursor has reached stays reached. -/
theorem CursorsStep.reached (h : CursorsStep st st' c) {epoch : Nat}
    (hreached : ∃ c, st.producers.get producerId = some c ∧ epoch ≤ c.epoch) :
    ∃ c, st'.producers.get producerId = some c ∧ epoch ≤ c.epoch := by
  obtain ⟨cursor, hcursor, hle⟩ := hreached
  obtain ⟨cursor', hcursor', hle'⟩ := h.epoch_le hcursor
  exact ⟨cursor', hcursor', hle.trans hle'⟩

/-- **A command keeps the cursors in front of the batches.** -/
theorem Outcome.batches_covered (hout : Outcome st answer c eff) (hs : st.Sound)
    (h : ∀ {key b p}, st.batches.get key = some b → b.producer = some p →
      ∃ c, st.producers.get p.producerId = some c ∧ p.epoch ≤ c.epoch) {key : Nat}
    (hget : eff.state.batches.get key = some b) (hp : b.producer = some p) :
    ∃ c, eff.state.producers.get p.producerId = some c ∧ p.epoch ≤ c.epoch := by
  have hcursors := hout.cursorsStep
  by_cases hkey : key = st.batches.nextKey
  · -- the batch is new, and its cursor has just moved
    subst hkey
    have hs' := (hout.core_effect.sound hs).layout
    have hold : eff.state.sequencer.nextBatchId = st.sequencer.nextBatchId → False := by
      intro hnext
      have hlt := (DenseOrderedMap.lt_nextKey_of_get hget).2
      rw [← hs'.nextBatchId, hnext, hs.layout.nextBatchId] at hlt
      exact lt_irrefl _ hlt
    cases hcursors with
    | kept hnext | reopened hnext | frozen hnext => exact (hold hnext).elim
    | plain hget' hproducer =>
      rw [hget] at hget'
      cases hget'
      rw [hp] at hproducer
      cases hproducer
    | @advanced b' p' cursor hget' hproducer hpos hepoch hbefore hfailed hproducers =>
      rw [hget] at hget'
      cases hget'
      rw [hp] at hproducer
      cases hproducer
      exact ⟨cursor, by rw [hproducers, get_insert, if_pos rfl], hepoch⟩
  · obtain ⟨b', hget', hsame⟩ := hout.heldBefore hs hget hkey
    exact hcursors.reached (h hget' (hsame.producer ▸ hp))

/-- **A command keeps the cursors in front.** -/
theorem CursorsCover.step (h : CursorsCover st) (hs : st.Sound) (hout : Outcome st answer c eff)
    (hcompletes : ∀ completion p, c = .complete completion → completion.producer = some p →
      ∃ b, st.batches.get completion.reservation.batchId = some b ∧ b.producer = some p) :
    CursorsCover eff.state := by
  have hcursors := hout.cursorsStep
  refine ⟨hout.batches_covered hs h.batches, fun {k record} hrecord ↦ ?_,
    hcursors.positive h.positive⟩
  rcases hout.dedup_cases hrecord with ⟨record', hrecord'⟩ | ⟨completion, p, hc, hp, rfl⟩
  · exact hcursors.reached (h.receipts hrecord')
  · obtain ⟨b, hget, hb⟩ := hcompletes completion p hc hp
    exact hcursors.reached (h.batches hget hb)

/-! ### Recovered cursors -/

/-- A recovered cursor is unmarked, beyond the first sequence, and of the latest epoch of the
extents. -/
theorem foldl_restoreCursor (E : List ExtentCatalogEntry) :
    (∀ {producerId cursor}, (E.foldl restoreCursor .empty).get producerId =
      some cursor → cursor.failed = false ∧ 0 < cursor.nextSequence) ∧
    ∀ x ∈ E, ∀ p ∈ x.producer, ∃ cursor, (E.foldl restoreCursor .empty).get
      p.producerId = some cursor ∧ p.epoch ≤ cursor.epoch := by
  induction E using reverseRecOn with
  | nil => exact ⟨fun h ↦ (by cases h), by simp⟩
  | append_singleton E x ih =>
    obtain ⟨hmark, hepoch⟩ := ih
    rw [foldl_append, foldl_cons, foldl_nil]
    cases hx : x.producer with
    | none =>
      simp only [restoreCursor, hx]
      refine ⟨hmark, fun y hy p hp ↦ ?_⟩
      rcases mem_append.1 hy with hy | hy
      · exact hepoch y hy p hp
      · rw [mem_singleton.1 hy, hx] at hp
        cases hp
    | some q =>
      have hcount := x.reservation.recordCount.pos
      simp only [restoreCursor, hx, get_insert]
      constructor
      · intro producerId cursor hcursor
        split_ifs at hcursor with hid
        · cases hcursor
          cases hbefore : (E.foldl restoreCursor .empty).get q.producerId with
          | none => exact ⟨rfl, Nat.add_pos_right _ hcount⟩
          | some before =>
            obtain ⟨hunmarked, hpos⟩ := hmark hbefore
            simp only [restoredCursor]
            split_ifs
            · exact ⟨rfl, Nat.add_pos_right _ hcount⟩
            · exact ⟨hunmarked, lt_max_of_lt_left hpos⟩
            · exact ⟨hunmarked, hpos⟩
        · exact hmark hcursor
      · intro y hy p hp
        split_ifs with hid
        · refine ⟨_, rfl, ?_⟩
          rcases mem_append.1 hy with hy | hy
          · obtain ⟨before, hbefore, hle⟩ := hepoch y hy p hp
            rw [hid] at hbefore
            simp only [restoredCursor, hbefore]
            split_ifs with hlt heq
            · exact hle.trans hlt.le
            · exact hle
            · exact hle
          · rw [mem_singleton.1 hy, hx] at hp
            cases hp
            cases (E.foldl restoreCursor .empty).get q.producerId with
            | none => exact le_rfl
            | some before =>
              simp only [restoredCursor]
              split_ifs with hlt heq
              · exact le_rfl
              · exact heq.le
              · exact Nat.le_of_not_lt hlt
        · rcases mem_append.1 hy with hy | hy
          · exact hepoch y hy p hp
          · rw [mem_singleton.1 hy, hx] at hp
            cases hp
            exact (hid rfl).elim

/-- A recovered receipt is that of an extent. -/
theorem exists_of_foldl_restoreDedup {replicas : Nat} {t : Table (Nat × Nat × Nat) DedupRecord}
    (h : (E.foldl (restoreDedup replicas) t).get k = some record) :
    t.get k = some record ∨ ∃ x ∈ E, ∃ p ∈ x.producer, p.identity.key = k := by
  induction E generalizing t with
  | nil => exact .inl h
  | cons x E ih =>
    rcases ih h with h | ⟨y, hy, hp⟩
    · cases hx : x.producer with
      | none =>
        simp only [restoreDedup, hx] at h
        exact .inl h
      | some p =>
        simp only [restoreDedup, hx, get_insert] at h
        split_ifs at h with hk
        · exact .inr ⟨x, mem_cons_self, p, hx, hk.symm⟩
        · exact .inl h
    · exact .inr ⟨y, mem_cons_of_mem _ hy, hp⟩

/-- **Recovered cursors are in front.** -/
theorem Recovered.cursorsCover {ctx : RecoveryContext} (hr : Recovered ctx E st) :
    CursorsCover st := by
  obtain ⟨hmark, hepoch⟩ := foldl_restoreCursor E
  rw [← hr.producers] at hmark hepoch
  refine ⟨fun {key b p} hget hp ↦ ?_, fun {k record} hrecord ↦ ?_, fun h ↦ (hmark h).2⟩
  · rcases hr.get_cases hget with ⟨x, hx, -, rfl⟩ | ⟨hplace, -⟩
    · obtain ⟨q, hq, rfl⟩ := Option.map_eq_some_iff.1 hp
      exact hepoch x hx q hq
    · rw [hplace] at hp
      cases hp
  · rw [hr.dedup] at hrecord
    rcases exists_of_foldl_restoreDedup hrecord with h | ⟨x, hx, p, hp, rfl⟩
    · cases h
    · exact hepoch x hx p hp

end Cover

/-- **The cursors are in front in every run.** -/
theorem EngineReachable.cursorsCover {config : EngineConfig} {rule : RunRule} {e : Engine}
    {tp : TopicPartition} (h : EngineReachable config rule e) (hst : e.states.get tp = some st) :
    CursorsCover st := by
  refine h.partition_invariant (P := fun _ st ↦ CursorsCover st) ?_ ?_ ?_ hst
  · intro tp shards sequencer policy _
    refine ⟨fun {key b p} hget ↦ ?_, fun h ↦ (by cases h), fun h ↦ (by cases h)⟩
    simp [PartitionState.empty] at hget
  · intro e tp st answer c hreach hst hcover hadmits _
    have hs := (hreach.sound_and_tagged hst).1
    refine hcover.step hs (c.outcome hs answer) fun completion p hc hp ↦ ?_
    rw [hc] at hadmits
    obtain ⟨-, -, -, b, hget, -, hproducer, -⟩ := hadmits
    exact ⟨b, hget, hproducer.trans hp⟩
  · intro e s tp st st' _ _ _ _ hr
    exact hr.cursorsCover

end ShardStream
