import ShardStream.Engine.Append
import ShardStream.Engine.ProducerCursors

/-!
# Overload

The queue of a shard refuses an append after the coordinator has moved the cursor of its producer
and allocated its batch. The refusal is answered with an error that a client takes as a request to
send the append again; the coordinator on the other hand is told of a failed append, and marks the
cursor.

While the partition lives the mark stays until the producer changes its epoch, so the append that is
sent again is refused. The mark is kept in memory only: a restart drops it together with the aborted
batch. A replica reservation that reopens an aborted batch of the producer drops it too. `Interlude`
is what may happen between the refusal and the second attempt, and it records whether one of these
has happened.
-/

namespace ShardStream

open Table

variable {producerId : Nat} {p : ProducerIdentity} {st : PartitionState}

/-- The command reports a failure of an append of the producer. -/
def Command.Fails (producerId : Nat) (c : Command) : Prop :=
  ∃ r p definite, c = .fail r (some p) definite ∧ p.producerId = producerId

/-- The command reopens an aborted batch of the producer, of the epoch its cursor is in. -/
def Command.Unmarks (st : PartitionState) (producerId : Nat) (c : Command) : Prop :=
  ∃ b p cursor, c.reopens st = some b ∧ b.producer = some p ∧ p.producerId = producerId ∧
    st.producers.get producerId = some cursor ∧ cursor.epoch = p.epoch

/-- Steps that neither set nor drop the mark of the producer in the partition `tp`. -/
def RunRule.undisturbed (tp : TopicPartition) (producerId : Nat) : RunRule where
  command _ tp' st c := tp' = tp → ¬ c.Fails producerId ∧ ¬ c.Unmarks st producerId
  restart _ := False

/-- What happens to an engine while no further append of the producer fails in the partition `tp`,
and whether a mark of its cursor is dropped by it. -/
inductive Interlude (config : EngineConfig) (tp : TopicPartition) (producerId : Nat) :
    Engine → Bool → Engine → Prop
  | refl (e : Engine) : Interlude config tp producerId e false e
  | step {e e₁ e₂ : Engine} {unmarked : Bool} (h : Interlude config tp producerId e unmarked e₁)
      (hstep : EngineStep config (.undisturbed tp producerId) e₁ e₂) :
      Interlude config tp producerId e unmarked e₂
  | reopen {e e₁ : Engine} {unmarked : Bool} {st : PartitionState}
      {answer : Except EngineError Unit} {c : Command}
      (h : Interlude config tp producerId e unmarked e₁) (hst : e₁.states.get tp = some st)
      (hadmits : e₁.Admits config tp st c) (hunmarks : c.Unmarks st producerId) :
      Interlude config tp producerId e true (e₁.commanded tp st answer c)
  | restart {e e₁ : Engine} {unmarked : Bool} {states : Table TopicPartition PartitionState}
      (h : Interlude config tp producerId e unmarked e₁) (hrec : e₁.recover config 1 = .ok states) :
      Interlude config tp producerId e true { e₁ with states, inFlight := [] }

/-- The cursor is marked as failed in the epoch of the append, or is of a later epoch. -/
def PartitionState.Marked (st : PartitionState) (p : ProducerIdentity) : Prop :=
  ∃ cursor, st.producers.get p.producerId = some cursor ∧
    (p.epoch < cursor.epoch ∨ cursor.epoch = p.epoch ∧ cursor.failed = true)

/-- The cursor of the producer is not marked. -/
def PartitionState.Unmarked (st : PartitionState) (producerId : Nat) : Prop :=
  ∀ cursor, st.producers.get producerId = some cursor → cursor.failed = false

/-- The partition holds the receipt of the append. -/
def PartitionState.HoldsReceipt (st : PartitionState) (p : ProducerIdentity) (count : NonZeroU32)
    (digest : Digest) : Prop :=
  ∃ cursor record, st.producers.get p.producerId = some cursor ∧ cursor.epoch = p.epoch ∧
    st.dedup.get p.key = some record ∧ record.digestAlgorithm = digestXxh3128 ∧
    record.payloadDigest = digest ∧ record.eventId = p.eventId ∧ record.recordCount = count.get

/-- The partition waits for the sequence at which the append starts, and has no receipt for it. -/
def PartitionState.Expects (st : PartitionState) (p : ProducerIdentity) : Prop :=
  match st.producers.get p.producerId with
  | none => p.firstSequence = 0
  | some cursor => p.firstSequence = cursor.nextSequence ∧
      (cursor.epoch = p.epoch → st.dedup.get p.key = none)

/-! ### The mark over runs -/

section Marks

variable {st' : PartitionState} {c : Command}

theorem PartitionState.Marked.step (h : st.Marked p) (hstep : CursorsStep st st' c)
    (hc : ¬ c.Unmarks st p.producerId) : st'.Marked p := by
  obtain ⟨cursor, hcursor, hmark⟩ := h
  cases hstep with
  | kept hnext h | plain hget hproducer h => exact ⟨cursor, by rw [h, hcursor], hmark⟩
  | @advanced b q cursor' hget hproducer hpos hepoch hbefore hfailed h =>
    by_cases hid : p.producerId = q.producerId
    · refine ⟨cursor', by rw [h, get_insert, if_pos hid], ?_⟩
      rw [hid] at hcursor
      rcases (hbefore cursor hcursor).lt_or_eq with hlt | heq
      · exact .inl (by omega)
      · rcases hmark with hlater | ⟨hsame, hmarked⟩
        · exact .inl (by omega)
        · exact .inr ⟨by omega, hfailed.2 ⟨cursor, hcursor, heq, hmarked⟩⟩
    · exact ⟨cursor, by rw [h, get_insert, if_neg hid, hcursor], hmark⟩
  | @reopened b q hnext hreopens hproducer h =>
    by_cases hid : p.producerId = q.producerId
    · have hne : cursor.epoch ≠ q.epoch := fun heq ↦
        hc ⟨b, q, cursor, hreopens, hproducer, hid.symm, hcursor, heq⟩
      refine ⟨cursor, ?_, hmark⟩
      rw [h, get_modify, if_pos hid, hcursor, Option.map_some, if_neg hne]
    · exact ⟨cursor, by rw [h, get_modify, if_neg hid, hcursor], hmark⟩
  | @frozen r q definite hnext hcommand h =>
    by_cases hid : p.producerId = q.producerId
    · refine ⟨{ cursor with failed := true }, ?_, hmark.imp_right fun h ↦ ⟨h.1, rfl⟩⟩
      rw [h, get_modify, if_pos hid, hcursor]
      rfl
    · exact ⟨cursor, by rw [h, get_modify, if_neg hid, hcursor], hmark⟩

theorem PartitionState.Unmarked.step (h : st.Unmarked producerId) (hstep : CursorsStep st st' c)
    (hc : ¬ c.Fails producerId) : st'.Unmarked producerId := by
  intro cursor hcursor
  cases hstep with
  | kept hnext hst' | plain hget hproducer hst' =>
    rw [hst'] at hcursor
    exact h cursor hcursor
  | @advanced b q cursor' hget hproducer hpos hepoch hbefore hfailed hst' =>
    rw [hst', get_insert] at hcursor
    split_ifs at hcursor with hid
    · cases hcursor
      rw [← Bool.not_eq_true, hfailed]
      rintro ⟨c, hc, -, hmarked⟩
      rw [h c (hid ▸ hc)] at hmarked
      cases hmarked
    · exact h cursor hcursor
  | @reopened b q hnext hreopens hproducer hst' =>
    rw [hst', get_modify] at hcursor
    split_ifs at hcursor with hid
    · obtain ⟨c, hc, rfl⟩ := Option.map_eq_some_iff.1 hcursor
      split_ifs
      · rfl
      · exact h c hc
    · exact h cursor hcursor
  | @frozen r q definite hnext hcommand hst' =>
    rw [hst', get_modify] at hcursor
    split_ifs at hcursor with hid
    · exact (hc ⟨r, q, definite, hcommand, hid.symm⟩).elim
    · exact h cursor hcursor

theorem unmarked_of_unmarks {eff : Effect} {answer : Except EngineError Unit}
    (hout : Outcome st answer c eff) (hc : c.Unmarks st producerId) :
    eff.state.Unmarked producerId := by
  obtain ⟨b, q, cursor, hreopens, hq, rfl, hcursor, hepoch⟩ := hc
  intro cursor' hcursor'
  rw [hout.producers_of_reopens hreopens hq, get_modify, if_pos rfl, hcursor, Option.map_some,
    if_pos hepoch] at hcursor'
  cases hcursor'
  rfl

theorem unmarked_of_recovered {ctx : RecoveryContext} {E : List ExtentCatalogEntry}
    (hr : Recovered ctx E st) (producerId : Nat) : st.Unmarked producerId := by
  intro cursor hcursor
  rw [hr.producers] at hcursor
  exact ((foldl_restoreCursor E).1 hcursor).1

end Marks

section Interlude

variable {config : EngineConfig} {tp : TopicPartition} {e e' : Engine} {unmarked : Bool}

theorem Interlude.reachable (h : Interlude config tp producerId e unmarked e')
    (hreach : EngineReachable config .any e) : EngineReachable config .any e' := by
  induction h with
  | refl => exact hreach
  | step h hstep ih =>
    exact ih.tail (hstep.mono (fun _ _ _ _ _ ↦ trivial) fun _ _ ↦ trivial)
  | reopen h hst hadmits hunmarks ih => exact ih.tail (.command hst hadmits trivial)
  | restart h hrec ih => exact ih.tail (.restart trivial hrec)

/-- **A mark lasts until it is dropped**, and is not set again. -/
theorem Interlude.mark (h : Interlude config tp p.producerId e unmarked e')
    (hreach : EngineReachable config .any e) (hst : e.states.get tp = some st)
    (hmarked : st.Marked p) :
    (unmarked = false → ∃ st', e'.states.get tp = some st' ∧ st'.Marked p) ∧
      (unmarked = true → ∀ st', e'.states.get tp = some st' → st'.Unmarked p.producerId) := by
  induction h with
  | refl => exact ⟨fun _ ↦ ⟨st, hst, hmarked⟩, nofun⟩
  | @step e₁ e₂ unmarked h hstep ih =>
    obtain ⟨hkeep, hclear⟩ := ih
    have hreach₁ := h.reachable hreach
    constructor
    · intro hfalse
      obtain ⟨st₁, hst₁, hmarked₁⟩ := hkeep hfalse
      obtain ⟨st₂, hst₂, -⟩ := EngineStep.partition
        (hstep.mono (fun _ _ _ _ _ ↦ trivial) fun _ hrule ↦ hrule) hst₁
      refine ⟨st₂, hst₂, ?_⟩
      rcases hstep.partition_cases hst₂ with hst₂ | ⟨_, _, _, hnone, -⟩ |
        ⟨st', answer, c, hst', -, hrule, rfl⟩ | ⟨_, hrule, -⟩
      · cases hst₁.symm.trans hst₂
        exact hmarked₁
      · cases hst₁.symm.trans hnone
      · cases hst₁.symm.trans hst'
        have hs := (hreach₁.sound_and_tagged hst₁).1
        exact hmarked₁.step (c.outcome hs answer).cursorsStep (hrule rfl).2
      · exact hrule.elim
    · intro htrue st₂ hst₂
      rcases hstep.partition_cases hst₂ with hst₂ | ⟨_, _, _, -, -, rfl⟩ |
        ⟨st', answer, c, hst', -, hrule, rfl⟩ | ⟨_, hrule, -⟩
      · exact hclear htrue st₂ hst₂
      · intro cursor hcursor
        cases hcursor
      · have hs := (hreach₁.sound_and_tagged hst').1
        exact (hclear htrue st' hst').step (c.outcome hs answer).cursorsStep (hrule rfl).1
      · exact hrule.elim
  | @reopen e₁ unmarked st₁ answer c h hst₁ hadmits hunmarks =>
    refine ⟨nofun, fun _ st' hst' ↦ ?_⟩
    simp only [Engine.commanded, get_insert, ↓reduceIte, Option.some.injEq] at hst'
    subst hst'
    have hs := ((h.reachable hreach).sound_and_tagged hst₁).1
    exact unmarked_of_unmarks (c.outcome hs answer) hunmarks
  | @restart e₁ unmarked states h hrec =>
    refine ⟨nofun, fun _ st' hst' ↦ ?_⟩
    obtain ⟨s, st₀, -, -, -, hr⟩ := (h.reachable hreach).recovered hrec hst'
    exact unmarked_of_recovered hr p.producerId

end Interlude

/-! ### The second attempt -/

section Check

variable {requestId : Nat} {count : NonZeroU32} {digest : Digest}

/-- Under a mark of its epoch only a receipt is returned. -/
theorem checkProducer_of_marked (hmarked : st.Marked p)
    (hepoch : ∀ cursor, st.producers.get p.producerId = some cursor → cursor.epoch ≤ p.epoch) :
    (∃ receipt, checkProducer st requestId (some p) count digest = .ok receipt) ↔
      st.HoldsReceipt p count digest := by
  obtain ⟨cursor, hcursor, hmark⟩ := hmarked
  obtain ⟨hsame, hfailed⟩ := hmark.resolve_left (hepoch cursor hcursor).not_gt
  simp only [checkProducer, hcursor, hsame, lt_irrefl, ↓reduceIte, hfailed,
    PartitionState.HoldsReceipt, exists_and_left]
  cases hd : st.dedup.get p.key with
  | none => simp
  | some record =>
    simp only [Option.some.injEq, exists_eq_left']
    split_ifs with hmismatch
    · tauto
    · tauto

/-- Without a mark the append is also accepted where the partition expects it. -/
theorem checkProducer_of_unmarked (hunmarked : st.Unmarked p.producerId)
    (hepoch : ∀ cursor, st.producers.get p.producerId = some cursor → cursor.epoch ≤ p.epoch) :
    (∃ receipt, checkProducer st requestId (some p) count digest = .ok receipt) ↔
      st.HoldsReceipt p count digest ∨ st.Expects p := by
  cases hcursor : st.producers.get p.producerId with
  | none =>
    simp only [checkProducer, hcursor, PartitionState.HoldsReceipt, PartitionState.Expects]
    split_ifs with hfirst
    · simp [hfirst]
    · simp [not_not.1 hfirst]
  | some cursor =>
    have hle := hepoch cursor hcursor
    have hfailed := hunmarked cursor hcursor
    simp only [checkProducer, hcursor, if_neg hle.not_gt, hfailed, PartitionState.HoldsReceipt,
      PartitionState.Expects, Option.some.injEq, exists_and_left, exists_eq_left']
    by_cases hsame : cursor.epoch = p.epoch
    · simp only [hsame, ↓reduceIte]
      cases hd : st.dedup.get p.key with
      | none =>
        by_cases hnext : p.firstSequence = cursor.nextSequence <;> simp [hnext]
      | some record =>
        simp only [Option.some.injEq, exists_eq_left']
        split_ifs with hmismatch
        · tauto
        · tauto
    · simp only [Ne.symm hsame, ↓reduceIte, hsame]
      by_cases hnext : p.firstSequence = cursor.nextSequence <;> simp [hnext]

end Check

/-- A failure marks the cursor of its producer. -/
theorem marked_of_fail (hcover : CursorsCover st) {r : Reservation} {b : BatchRuntime}
    (hget : st.batches.get r.batchId = some b) (hp : b.producer = some p) :
    (fail st r (some p) true).2.Marked p := by
  obtain ⟨cursor, hcursor, hle⟩ := hcover.batches hget hp
  have hproducers : (fail st r (some p) true).2.producers =
      (st.freezeProducer (some p)).producers := by
    simp only [fail, ↓reduceIte]
    cases hmark : markBatch (st.freezeProducer (some p)) r .aborted 0 with
    | error e => rfl
    | ok res =>
      obtain ⟨n, st'⟩ := res
      obtain ⟨_, -, -, -, -, rfl⟩ := markBatch_eq_ok_iff.1 hmark
      rw [rollbackAtomicChunk_snd]
      rfl
  refine ⟨{ cursor with failed := true }, ?_, hle.lt_or_eq.imp_right fun h ↦ ⟨h.symm, rfl⟩⟩
  rw [hproducers, PartitionState.freezeProducer, get_modify, if_pos rfl, hcursor]
  rfl

/-- **An append that a full queue refused, sent again.** An append of a producer gets coordinates,
and its shard refuses it; it is answered as limited. When it is sent again, unchanged, and the
producer has not moved to a later epoch, its records would be accepted without the producer, and the
shard has room and stores them, then it is answered with a receipt exactly if the partition holds
its receipt, or if the mark that the refusal left was dropped and the partition expects the append
next. -/
theorem refused_append_resent_iff {config : EngineConfig} {xxh3 : Bytes → Digest}
    {request : AppendRequest} {p : ProducerIdentity} {tp : TopicPartition} {e₀ e₁ e₂ e₃ : Engine}
    {st₀ st₁ st₃ : PartitionState} {r : Reservation} {producer : Option ProducerSequence}
    {policy : PartitionReplicationPolicy} {answer : Except EngineError Unit}
    {shard shard' : ShardHandle} {shardId : Nat} {reason : String} {unmarked : Bool}
    {worker : Except AppendFailure AppendDurability} {durability : Durability}
    (hreach : EngineReachable config .any e₀) (hst₀ : e₀.states.get tp = some st₀)
    (hp : request.producer = some p)
    (hreserved : (reserve st₀ (request.intent xxh3)).1 = .ok (.reserved r producer policy))
    (hrun : Relation.ReflTransGen (EngineStep config .any)
      (e₀.commanded tp st₀ answer (.reserve (request.intent xxh3))) e₁)
    (hst₁ : e₁.states.get tp = some st₁) (hadmits : e₁.Admits config tp st₁ (.fail r (some p) true))
    (hrefused : e₁.offered tp st₁ request r shard = (.error (.admissionLimited shardId reason), e₂))
    (hinterlude : Interlude config tp p.producerId e₂ unmarked e₃)
    (hst₃ : e₃.states.get tp = some st₃)
    (hepoch : ∀ cursor, st₃.producers.get p.producerId = some cursor → cursor.epoch ≤ p.epoch)
    (hother : ∃ r producer policy, (reserve st₃ { request.intent xxh3 with producer := none }).1 =
      .ok (.reserved r producer policy))
    (hserves : Serves shard' worker request.payload.length st₃.replicationPolicy durability)
    (hreceipt : ∀ record, st₃.dedup.get p.key = some record →
      durability.Reached st₃.replicationPolicy record.durableReplicas record.objectDurable) :
    (∃ response, (appendInner xxh3 st₃ shard' worker request durability).1 = .ok response) ↔
      st₃.HoldsReceipt p request.recordCount (request.payloadDigest xxh3) ∨
        unmarked = true ∧ st₃.Expects p := by
  have hreach₁ : EngineReachable config .any e₁ :=
    Relation.ReflTransGen.trans
      (hreach.tail (.command (c := .reserve (request.intent xxh3)) hst₀ trivial trivial)) hrun
  -- the sequence fits, since the append was accepted before
  have hsequence : p.firstSequence + request.recordCount.get < 2 ^ 64 := by
    rcases reserve_cases st₀ (request.intent xxh3) with ⟨-, hne⟩ | ⟨q, hq, hvalid, -⟩
    · exact absurd hreserved (hne _ _ _)
    · have := sequence_of_cursorAfter hvalid.producerAfter p (by rw [hq]; exact hp)
      rwa [hq] at this
  obtain rfl := Engine.offered_eq_error hrefused
  rw [hp] at hinterlude
  have hreach₂ :
    EngineReachable config .any (e₁.commanded tp st₁ (.ok ()) (.fail r (some p) true)) :=
    hreach₁.tail (.command hst₁ hadmits trivial)
  obtain ⟨-, -, b, hget, -, hproducer⟩ := hadmits
  have hmarked := marked_of_fail (hreach₁.cursorsCover hst₁) hget hproducer
  have hst₂ : (e₁.commanded tp st₁ (.ok ()) (.fail r (some p) true)).states.get tp =
      some (fail st₁ r (some p) true).2 := by
    simp only [Engine.commanded, get_insert]
    rfl
  obtain ⟨hkeep, hclear⟩ := hinterlude.mark hreach₂ hst₂ hmarked
  rw [appendInner_ok_iff hp hsequence hother hserves hreceipt]
  cases unmarked with
  | false =>
    obtain ⟨st', hst', hmarked'⟩ := hkeep rfl
    cases hst₃.symm.trans hst'
    simpa using checkProducer_of_marked hmarked' hepoch
  | true => simpa using checkProducer_of_unmarked (hclear rfl st₃ hst₃) hepoch

/-! ### A refused append -/

/-- The first record of producer 9. -/
def recordOfNine : AppendRequest where
  tp := ⟨0, 0⟩
  requestId := 0
  producer := some ⟨9, 0, 0, none⟩
  atomicGroup := none
  recordCount := .one
  payload := [1]
  leaderEpoch := none

/-- What the coordinator is asked for, under a digest function that is constantly zero. -/
def intentOfNine : AppendIntent := recordOfNine.intent fun _ ↦ 0

/-- A shard with one slot, which is taken or free. -/
def oneSlot (usedSlots usedBytes : Nat) :
    ShardHandle := ⟨0, some ⟨1, 1000, usedSlots, usedBytes, true⟩⟩

theorem oneSlot_serves (policy : PartitionReplicationPolicy) :
    Serves (oneSlot 0 0) (.ok ⟨1, false⟩) recordOfNine.payload.length policy .leader :=
  ⟨⟨oneSlot 1 257, by decide⟩, ⟨1, false⟩, rfl, le_rfl, nofun⟩

/-- An engine on which the record was reserved and then refused by its shard, and what a restart
recovers. -/
theorem exists_refused : ∃ e₀ st₀, EngineReachable ⟨1, 1, 1⟩ .any e₀ ∧
    e₀.states.get ⟨0, 0⟩ = some st₀ ∧
    (reserve st₀ intentOfNine).1 =
      .ok (.reserved firstBatch (some ⟨9, 0, 0, none, digestXxh3128, 0⟩) ⟨1, 1, 1⟩) ∧
    let e₁ := e₀.commanded ⟨0, 0⟩ st₀ (.ok ()) (.reserve intentOfNine)
    ∃ st₁, e₁.states.get ⟨0, 0⟩ = some st₁ ∧
      e₁.admits ⟨1, 1, 1⟩ ⟨0, 0⟩ st₁ (.fail firstBatch (some ⟨9, 0, 0, none⟩) true) = true ∧
      let refused := e₁.offered ⟨0, 0⟩ st₁ recordOfNine firstBatch (oneSlot 1 257)
      refused.1 = .error (.admissionLimited 0 "shard slot budget exhausted") ∧
      ∃ st₂, refused.2.states.get ⟨0, 0⟩ = some st₂ ∧
        (reservedIn (reserve st₂ { intentOfNine with producer := none }).1).isSome = true ∧
        (appendInner (fun _ ↦ 0) st₂ (oneSlot 0 0) (.ok ⟨1, false⟩) recordOfNine .leader).1 =
          .error (.coordinator (.producerRequiresNewEpoch 9)) ∧
        ∃ states, refused.2.recover ⟨1, 1, 1⟩ 1 = .ok states ∧
          ∃ st₃, states.get ⟨0, 0⟩ = some st₃ ∧
            (reservedIn (reserve st₃ { intentOfNine with producer := none }).1).isSome = true ∧
            st₃.producers.get 9 = none ∧ st₃.dedup.get (9, 0, 0) = none :=
  Engine.exists_of_play ⟨1, 1, 1⟩ [.create ⟨0, 0⟩ [0] ⟨1, 1, 1⟩] ⟨0, 0⟩ _ Guard.any_implies
    (by decide +kernel)

theorem exists_reserved_of_isSome {reply : Except EngineError ReserveOutcome}
    (h : (reservedIn reply).isSome = true) :
    ∃ r producer policy, reply = .ok (.reserved r producer policy) := by
  cases reply with
  | error e => cases h
  | ok outcome =>
    cases outcome with
    | duplicate => cases h
    | reserved r producer policy => exact ⟨r, producer, policy, rfl⟩

theorem eq_mk_of_fst_eq {α β : Type} {p : α × β} {a : α} (h : p.1 = a) : p = (a, p.2) := by
  rw [← h]

/-- After a restart the refused record is taken. -/
theorem refused_record_taken_after_restart : ∃ e₃ st₃ response,
    EngineReachable ⟨1, 1, 1⟩ .any e₃ ∧ e₃.states.get ⟨0, 0⟩ = some st₃ ∧
      (appendInner (fun _ ↦ 0) st₃ (oneSlot 0 0) (.ok ⟨1, false⟩) recordOfNine .leader).1 =
        .ok response := by
  obtain ⟨e₀, st₀, he, hst₀, hreserved, st₁, hst₁, hadmits, hrefused, st₂, hst₂, -, -, states, hrec,
    st₃, hst₃, hother, hnone, hdedup⟩ := exists_refused
  have hadmits := Engine.admits_sound hadmits
  have hrefused := eq_mk_of_fst_eq hrefused
  generalize ((e₀.commanded ⟨0, 0⟩ st₀ (.ok ()) (.reserve intentOfNine)).offered ⟨0, 0⟩ st₁
    recordOfNine firstBatch (oneSlot 1 257)).2 = e₂ at hrefused hrec
  have hinterlude : Interlude ⟨1, 1, 1⟩ ⟨0, 0⟩ 9 e₂ true { e₂ with states, inFlight := [] } :=
    .restart (.refl e₂) hrec
  have hreach₂ : EngineReachable ⟨1, 1, 1⟩ .any e₂ := by
    rw [Engine.offered_eq_error hrefused]
    exact (he.tail (.command (c := .reserve intentOfNine) hst₀ trivial trivial)).tail
      (.command hst₁ hadmits trivial)
  obtain ⟨response, hresponse⟩ := (refused_append_resent_iff he hst₀ rfl
    hreserved .refl hst₁ hadmits hrefused hinterlude hst₃
    (fun cursor hcursor ↦ by simp [hnone] at hcursor)
    (exists_reserved_of_isSome hother) (oneSlot_serves _)
    (fun record hrecord ↦ by simp [ProducerIdentity.key, hdedup] at hrecord)).2
    (.inr ⟨rfl, by simp [PartitionState.Expects, hnone]⟩)
  exact ⟨_, st₃, response, hinterlude.reachable hreach₂, hst₃, hresponse⟩

/-- **A full queue fences a producer.** The record gets coordinates, the only slot of its shard is
taken, and the append is answered as limited. When the slot is free the same append is refused, and
its producer is told to take a new epoch. -/
theorem full_queue_fences_producer : ∃ e₀ st₀ st₁ e₂ st₂, EngineReachable ⟨1, 1, 1⟩ .any e₀ ∧
    e₀.states.get ⟨0, 0⟩ = some st₀ ∧
    (reserve st₀ intentOfNine).1 =
      .ok (.reserved firstBatch (some ⟨9, 0, 0, none, digestXxh3128, 0⟩) ⟨1, 1, 1⟩) ∧
    (e₀.commanded ⟨0, 0⟩ st₀ (.ok ()) (.reserve intentOfNine)).states.get ⟨0, 0⟩ = some st₁ ∧
    (e₀.commanded ⟨0, 0⟩ st₀ (.ok ()) (.reserve intentOfNine)).offered ⟨0, 0⟩ st₁ recordOfNine
      firstBatch (oneSlot 1 257) =
        (.error (.admissionLimited 0 "shard slot budget exhausted"), e₂) ∧
    e₂.states.get ⟨0, 0⟩ = some st₂ ∧
    (∃ r producer policy,
      (reserve st₂ { intentOfNine with producer := none }).1 = .ok (.reserved r producer policy)) ∧
    Serves (oneSlot 0 0)
    (.ok ⟨1, false⟩) recordOfNine.payload.length st₂.replicationPolicy .leader ∧
      (appendInner (fun _ ↦ 0) st₂ (oneSlot 0 0) (.ok ⟨1, false⟩) recordOfNine .leader).1 =
      .error (.coordinator (.producerRequiresNewEpoch 9)) := by
  obtain ⟨e₀, st₀, he, hst₀, hreserved, st₁, hst₁, -, hrefused, st₂, hst₂, hother, hfenced, -⟩ :=
    exists_refused
  exact ⟨e₀, st₀, st₁, _, st₂, he, hst₀, hreserved, hst₁, eq_mk_of_fst_eq hrefused, hst₂,
    exists_reserved_of_isSome hother, oneSlot_serves _, hfenced⟩

end ShardStream
