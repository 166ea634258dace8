import ShardStream.Engine.Append
import ShardStream.Engine.Refusals

/-!
# The two replica paths

A batch that a leader has placed is admitted by a follower in one of two ways. A guarded follower
prepares the append (`replica::prepare`), compares the coordinates, and commits the preparation. An
unguarded one observes the leader epoch and calls `reserve_replica`, which changes the tables one
after the other.

For the sequencer's next batch both accept the same requests, except that only the guarded path asks
the producer table whether the append is new, in sequence and not fenced (`check_producer`).
Whenever that check passes the two paths agree, in the reply and in every table they write.

The guarded path also checks that the chunk list of a group can grow. That check never decides: a
chunk has at least one record, and the record count of a group is checked too (`ChunksCounted`).
-/

namespace ShardStream

open DenseOrderedMap Table TopicSequencer List PartitionState

variable {group : Option AtomicGroupIdentity} {bytes : Nat} {r : Reservation} {digest : Digest}
  {producers : Table Nat ProducerCursor} {p : PreparedAppend} {st : PartitionState}
  {intent : ReplicaIntent}

/-! ### The paths -/

/-- The unguarded path: the leader epoch is observed, then the batch is reserved. -/
def reserveObserved (st : PartitionState) (intent : ReplicaIntent) :
    Except EngineError ReserveOutcome × PartitionState :=
  match observeLeaderEpoch st intent.reservation.placement.leaderEpoch with
  | .error e => (.error e, st)
  | .ok st => reserveReplica st intent.reservation intent.producer intent.atomicGroup
      intent.payloadBytes intent.payloadDigest

/-- The guarded path: the batch is prepared, then the preparation is committed by a control that
nobody cancels. -/
def reserveGuarded (st : PartitionState) (intent : ReplicaIntent) :
    Except EngineError ReserveOutcome × PartitionState :=
  match prepareReplica st intent with
  | .error e => (.error e, st)
  | .ok (.duplicate outcome) => (.ok outcome, st)
  | .ok (.new prepared) =>
    let result := commitReplica st prepared .pending
    (result.1, result.2.1)

/-- The producer check of the guarded path takes the batch for a new append. -/
def PartitionState.ProducerAdmits (st : PartitionState) (intent : ReplicaIntent) : Prop :=
  checkProducer st 0 intent.producer intent.reservation.recordCount intent.payloadDigest = .ok none

/-! ### The record counts of groups -/

/-- The record count of a group is at least the sum over its chunks, where `count` knows the record
counts of all batches, retained or not. -/
structure PartitionState.CountedBy (st : PartitionState) (count : Nat → Nat) : Prop where
  pos : ∀ id, 0 < count id
  retained : ∀ id b, st.batches.get id = some b → count id = b.reservation.recordCount.get
  groups : ∀ txn g, st.atomicGroups.get txn = some g → (g.batchIds.map count).sum ≤ g.recordCount

/-- **Every chunk of a group has been counted.** -/
def PartitionState.ChunksCounted (st : PartitionState) : Prop :=
  ∃ count, st.CountedBy count

/-- A group has at most as many chunks as records. -/
theorem PartitionState.ChunksCounted.length_le (h : st.ChunksCounted) (txn : Nat) :
    (groupEntry st txn).batchIds.length ≤ (groupEntry st txn).recordCount := by
  obtain ⟨count, hc⟩ := h
  rw [groupEntry]
  cases hget : st.atomicGroups.get txn with
  | none => exact le_rfl
  | some g =>
    have hlen : (g.batchIds.map count).length ≤ (g.batchIds.map count).sum :=
      length_le_sum_of_one_le _ fun n hn ↦ by
        obtain ⟨id, -, rfl⟩ := mem_map.1 hn
        exact hc.pos id
    rw [length_map] at hlen
    exact hlen.trans (hc.groups txn g hget)

/-- What a command does to the chunks and the record count of a group entry. -/
inductive CountStep (st : PartitionState) (eff : Effect) (g g' : AtomicGroupRuntime) : Prop
  | kept (hids : g'.batchIds = g.batchIds) (hcount : g'.recordCount = g.recordCount)
  | grown {b : BatchRuntime} (hget : eff.state.batches.get b.reservation.batchId = some b)
      (hids : g'.batchIds = g.batchIds ++ [b.reservation.batchId])
      (hcount : g'.recordCount = g.recordCount + b.reservation.recordCount.get)
  | shrunk {b : BatchRuntime} (hget : st.batches.get b.reservation.batchId = some b)
      (hlast : g.batchIds.getLast? = some b.reservation.batchId)
      (hids : g'.batchIds = g.batchIds.dropLast)
      (hcount : g.recordCount - b.reservation.recordCount.get ≤ g'.recordCount)

section Counts

variable {X : PartitionState} {answer : Except EngineError Unit} {c : Command} {eff : Effect}
  {txn : Nat} {b : BatchRuntime} {g' : AtomicGroupRuntime}

/-- **The chunks and records of one entry**, before and after a command. -/
theorem GroupStep.countStep {o : Option AtomicGroupRuntime}
    (h : GroupStep st c eff txn o (some g')) : CountStep st eff (o.getD .new) g' := by
  cases h with
  | kept | decided => exact .kept rfl rfl
  | extended hopen hget => exact .grown hget rfl rfl
  | refused hc hrefused hstate hids hbatch =>
    obtain ⟨b, chunk, hget, rfl, -⟩ := hbatch
    rcases hids with ⟨hids, hcount⟩ | ⟨-, hids, hcount⟩
    · exact .kept hids hcount
    · exact .grown hget hids hcount
  | shortened hc hget hres hpending htag hlast hseq ho =>
    obtain ⟨hnone, -⟩ | ⟨g'', hg'', -, hids, -, hcount, -⟩ := ho
    · cases hnone
    · cases hg''
      subst hres
      exact .shrunk hget hlast hids hcount

/-- **Chunks stay counted.** -/
theorem Outcome.chunksCounted (h : Outcome st answer c eff) (hs : st.Sound)
    (ht : st.Tagged) (hc : st.ChunksCounted) : eff.state.ChunksCounted := by
  obtain ⟨count, hc⟩ := hc
  -- the counts of retained batches are theirs, the others are remembered
  let after (id : Nat) : Nat :=
    ((eff.state.batches.get id).map (·.reservation.recordCount.get)).getD (count id)
  have hafter : ∀ id b, eff.state.batches.get id = some b →
      after id = b.reservation.recordCount.get := fun id b hb ↦ by simp [after, hb]
  have hsame : ∀ id, id < st.batches.nextKey → after id = count id := by
    intro id hlt
    cases hb : eff.state.batches.get id with
    | none => simp [after, hb]
    | some b' =>
      obtain ⟨b, hget, hbatch⟩ := h.heldBefore hs hb hlt.ne
      rw [hafter id b' hb, hc.retained id b hget, hbatch.reservation]
  have hentry : ∀ txn,
    ((groupEntry st txn).batchIds.map after).sum ≤ (groupEntry st txn).recordCount := by
    intro txn
    rw [groupEntry]
    cases hget : st.atomicGroups.get txn with
    | none => exact le_rfl
    | some g =>
      have hmap : g.batchIds.map after = g.batchIds.map count :=
        map_congr_left fun id hid ↦ hsame id (ht txn g hget id hid).1
      simp only [Option.getD_some, hmap]
      exact hc.groups txn g hget
  refine ⟨after, fun id ↦ ?_, hafter, fun txn g' hg' ↦ ?_⟩
  · cases hb : eff.state.batches.get id with
    | none =>
      simp only [after, hb]
      exact hc.pos id
    | some b =>
      rw [hafter id b hb]
      exact b.reservation.recordCount.pos
  · have hle := hentry txn
    have hstep : CountStep st eff (groupEntry st txn) g' := (hg' ▸ h.groupStep hs txn).countStep
    cases hstep with
    | kept hids hcount =>
      rw [hids, hcount]
      exact hle
    | @grown b hget hids hcount =>
      rw [hids, map_append, sum_append, map_singleton, sum_singleton, hafter _ b hget]
      omega
    | @shrunk b hget hlast hids =>
      have hsplit : (groupEntry st txn).batchIds =
          (groupEntry st txn).batchIds.dropLast ++ [b.reservation.batchId] :=
        (dropLast_append_getLast? _ hlast).symm
      have hlt := (lt_nextKey_of_get hget).2
      rw [hsplit, map_append, sum_append, map_singleton, sum_singleton,
        hsame _ hlt, hc.retained _ b hget] at hle
      rw [hids]
      omega

/-- Recovered chunks are counted. -/
theorem Recovered.chunksCounted {ctx : RecoveryContext} {E : List ExtentCatalogEntry}
    (h : Recovered ctx E st) : st.ChunksCounted := by
  let count (id : Nat) : Nat := ((st.batches.get id).map (·.reservation.recordCount.get)).getD 1
  refine ⟨count, fun id ↦ ?_, fun id b hb ↦ by simp [count, hb], fun txn g hg ↦ ?_⟩
  · cases hb : st.batches.get id with
    | none => simp [count, hb]
    | some b =>
      simp only [count, hb]
      exact b.reservation.recordCount.pos
  · rw [h.groups] at hg
    split_ifs at hg
    cases hg
    have hmap : (groupOf (chunksOf E txn)).batchIds.map count =
        (chunksOf E txn).map (·.reservation.recordCount.get) := by
      simp only [groupOf, map_map]
      refine map_congr_left fun x hx ↦ ?_
      have hget := h.entry x (mem_filter.1 hx).1
      simp only [Function.comp_apply, count, hget]
      rfl
    simp only [hmap]
    exact le_rfl

end Counts

/-- Every partition reached is sound, and its chunks are tagged and counted. -/
theorem CommandRun.chunksCounted {config : EngineConfig} {start : PartitionState}
    (hstart : PartitionStart config start) (hrun : CommandRun (fun _ _ ↦ True) start st) :
    st.Sound ∧ st.Tagged ∧ st.ChunksCounted := by
  induction hrun with
  | refl =>
    refine ⟨hstart.sound_and_exact.1, ?_⟩
    cases hstart with
    | created =>
      refine ⟨fun txn g hg ↦ ?_, fun _ ↦ 1, fun _ ↦ Nat.one_pos, fun id b hb ↦ ?_, fun txn g hg ↦
        ?_⟩
      · cases hg
      · simp [PartitionState.empty] at hb
      · cases hg
    | recovered he hrec hst =>
      obtain ⟨s, st₀, -, -, -, hr⟩ := he.recovered hrec hst
      exact ⟨hr.tagged, hr.chunksCounted⟩
  | tail _ hstep ih =>
    obtain ⟨answer, c, -, rfl⟩ := hstep
    obtain ⟨hs, ht, hc⟩ := ih
    have hout := c.outcome hs answer
    exact ⟨hout.core_effect.sound hs, hout.tagged hs ht, hout.chunksCounted hs ht hc⟩

/-! ### The unguarded path -/

section Unguarded

variable {producer : Option ProducerIdentity}

/-- The state that a replica reservation leaves which passes every check. -/
def PartitionState.replicaReserved (st : PartitionState) (r : Reservation)
    (producer : Option ProducerIdentity) (group : Option AtomicGroupIdentity) (bytes : Nat)
    (digest : Digest) (producers : Table Nat ProducerCursor) : PartitionState :=
  (registerNamedChunk (st.replicaAppended producers (pendingBatch r producer group bytes digest))
    group r bytes).2

/-- A reservation that passes the checks and that its group takes is made. -/
theorem reserveReplica_of_passes (hdense : st.sequencer.nextBatchId = st.batches.nextKey)
    (h : st.PassesChecks r producer group) (htaken : ¬ st.RefusesChunk group bytes r.recordCount) :
    ∃ producers, advanceNamedProducer st producer r.recordCount = .ok { st with producers } ∧
      reserveReplica st r producer group bytes digest = (.ok (reservedReplica st r producer digest),
          st.replicaReserved r producer group bytes digest producers) := by
  rcases reserveReplica_of_absent producer group bytes digest h.absent with
    ⟨hfails, -⟩ | ⟨-, producers, hproducers, ⟨hid, -⟩ | ⟨-, out, rfl, heq⟩⟩
  · exact absurd h hfails
  · exact absurd (h.batchId hdense) hid
  · refine ⟨producers, hproducers, ?_⟩
    rw [heq]
    cases hreg : (registerNamedChunk (st.replicaAppended producers
        (pendingBatch r producer group bytes digest)) group r bytes).1 with
    | error e => exact absurd ((exists_registerNamedChunk_eq_error_iff rfl).1 ⟨e, hreg⟩) htaken
    | ok u =>
      rw [PartitionState.replicaReserved, registerNamedChunk_snd]
      rfl

/-- A reservation that is made has passed the checks, and its group has taken it. -/
theorem passes_of_reserveReplica (hget : st.batches.get r.batchId = none) {r' : Reservation}
    (h : reservedIn (reserveReplica st r producer group bytes digest).1 = some r') :
    st.PassesChecks r producer group ∧ ¬ st.RefusesChunk group bytes r.recordCount := by
  rcases reserveReplica_of_absent producer group bytes digest hget with
    ⟨-, e, heq⟩ | ⟨hpasses, producers, -, ⟨-, e, heq⟩ | ⟨-, out, rfl, heq⟩⟩
  · simp [heq, reservedIn] at h
  · simp [heq, reservedIn] at h
  · refine ⟨hpasses, fun hrefuses ↦ ?_⟩
    obtain ⟨e, herror⟩ := (exists_registerNamedChunk_eq_error_iff
      (X := replicaAppended st producers (pendingBatch r producer group bytes digest))
      rfl).2 hrefuses
    simp [heq, herror, Except.map, reservedIn] at h

end Unguarded

/-! ### The guarded path -/

/-- The append that `replica::prepare` prepares. -/
def ReplicaIntent.append (intent : ReplicaIntent) : AppendIntent :=
  { tp := intent.reservation.topicPartition, requestId := 0, producer := intent.producer
    atomicGroup := intent.atomicGroup, recordCount := intent.reservation.recordCount
    payloadBytes := intent.payloadBytes, payloadDigest := intent.payloadDigest
    admittedLeaderEpoch := some intent.reservation.placement.leaderEpoch }

/-- The partition after the leader epoch of the batch was observed. -/
def PartitionState.observed (st : PartitionState) (intent : ReplicaIntent) : PartitionState :=
  { st with
    sequencer := { st.sequencer with leaderEpoch := intent.reservation.placement.leaderEpoch } }

section Guarded

/-- An epoch that is not stale is observed. -/
theorem reserveObserved_eq
    (h : st.sequencer.leaderEpoch ≤ intent.reservation.placement.leaderEpoch) :
    reserveObserved st intent =
      reserveReplica (st.observed intent) intent.reservation intent.producer intent.atomicGroup
      intent.payloadBytes intent.payloadDigest := by
  have hobserve : observeLeaderEpoch st intent.reservation.placement.leaderEpoch =
      .ok (st.observed intent) := by
    simp only [observeLeaderEpoch, observeLeaderEpoch_eq_ok_iff.2 ⟨h, rfl⟩]
    rfl
  rw [reserveObserved, hobserve]

/-- What is prepared with the coordinates of the intent is reserved. -/
theorem reserveGuarded_of_prepare (hget : st.batches.get intent.reservation.batchId = none)
    (hprepare : prepare st intent.append = .ok (.new p))
    (hres : p.proposal.reservation = intent.reservation) :
    reserveGuarded st intent = (.ok p.reply, st.allocated p) := by
  obtain ⟨hintent, hvalid⟩ := prepare_eq_new_iff.1 hprepare
  have hreplica : prepareReplica st intent = .ok (.new ⟨intent.reservation, p⟩) := by
    rw [ReplicaIntent.append] at hprepare
    simp only [prepareReplica, hget, hprepare, hres, ne_eq, not_true_eq_false, if_false]
  have hsame : PreparedReplica.intent ⟨intent.reservation, p⟩ = intent := by
    simp only [PreparedReplica.intent, hintent]
    rfl
  have hcheck : commitCheck st p = .ok none := by
    have hnew := hvalid.notDuplicate
    rw [← hintent] at hprepare
    simp [commitCheck, hnew, hprepare, PreparedAppend.sameFacts]
  simp only [reserveGuarded, hreplica, commitReplica, hsame, commitSource_eq, hcheck, beginCommit,
    CommitControl.beginCommit, Except.map, commitInstall_of_check hcheck]

/-- What is reserved was prepared with the coordinates of the intent. -/
theorem prepare_of_reserveGuarded (hget : st.batches.get intent.reservation.batchId = none)
    (h : reservedIn (reserveGuarded st intent).1 = some r) :
    ∃ p, prepare st intent.append = .ok (.new p) ∧ p.proposal.reservation = intent.reservation := by
  have hreplica := prepareReplica.eq_1 st intent
  rw [hget, ← ReplicaIntent.append] at hreplica
  cases hprepare : prepare st intent.append with
  | error e =>
    simp [reserveGuarded, hreplica, hprepare, reservedIn] at h
  | ok outcome =>
    cases outcome with
    | duplicate o => simp [reserveGuarded, hreplica, hprepare, reservedIn] at h
    | new p =>
      by_cases hres : p.proposal.reservation = intent.reservation
      · exact ⟨p, rfl, hres⟩
      · simp [reserveGuarded, hreplica, hprepare, hres, reservedIn] at h

/-- A group that takes a chunk has room for it in the snapshot too. -/
theorem exists_snapshotAfter {append : AppendIntent} (hc : st.ChunksCounted)
    (htaken : ¬ st.RefusesChunk append.atomicGroup append.payloadBytes append.recordCount)
    (batchId : Nat) :
    ∃ after, snapshotAfter append (snapshotBefore st append) batchId = .ok after := by
  simp only [snapshotAfter]
  cases hgroup : append.atomicGroup with
  | none => exact ⟨none, rfl⟩
  | some g =>
    rw [hgroup] at htaken
    have hroom : ¬ (groupEntry st g.transactionId).Refuses g.chunkSequence append.payloadBytes
        append.recordCount.get := fun h ↦ htaken ⟨g, rfl, h⟩
    simp only [AtomicGroupRuntime.Refuses, not_or, Nat.not_le] at hroom
    obtain ⟨-, -, hbytes, hrecords, hnext⟩ := hroom
    -- every chunk has a record
    have hchunks : (groupEntry st g.transactionId).batchIds.length + 1 < 2 ^ 64 := by
      have hle := hc.length_le g.transactionId
      have hpos := append.recordCount.pos
      omega
    simp only [snapshotBefore_getD hgroup, AtomicSnapshot.fromGroup]
    rw [if_neg (not_not.2 hnext), if_neg (not_not.2 hbytes), if_neg (not_not.2 hrecords),
      if_neg (not_not.2 hchunks)]
    exact ⟨_, rfl⟩

/-- **The guarded checks** are the unguarded ones and the producer check. -/
theorem exists_prepare_iff (hl : st.Layout) (hc : st.ChunksCounted)
    (hid : intent.reservation.batchId = st.sequencer.nextBatchId) :
    (∃ p, prepare st intent.append = .ok (.new p) ∧ p.proposal.reservation = intent.reservation) ↔
      st.sequencer.leaderEpoch ≤ intent.reservation.placement.leaderEpoch ∧
        (st.observed intent).PassesChecks intent.reservation intent.producer intent.atomicGroup ∧
        ¬ (st.observed intent).RefusesChunk intent.atomicGroup intent.payloadBytes
          intent.reservation.recordCount ∧ st.ProducerAdmits intent := by
  have hget : st.batches.get intent.reservation.batchId = none :=
    get_eq_none_iff.2 (.inr (hid.trans hl.nextBatchId).ge)
  constructor
  · rintro ⟨p, hprepare, hres⟩
    obtain ⟨hintent, hvalid⟩ := prepare_eq_new_iff.1 hprepare
    obtain ⟨hnext, hepoch, hoff, hkey, hseq⟩ := hvalid.reservation
    have hleader : p.leaderEpoch = intent.reservation.placement.leaderEpoch := by
      rw [PreparedAppend.leaderEpoch, hres]
    have hadmits := hvalid.checkProducer
    have hsequence := sequence_of_cursorAfter hvalid.producerAfter
    have hgroups := hvalid.groups
    rw [hleader] at hnext hepoch
    rw [hintent] at hnext hoff hadmits hsequence hgroups
    -- the group has the chunk as its next one, with room for it
    have hchunk : ∀ g ∈ intent.atomicGroup, st.finalizedGroups.get g.transactionId = none ∧
        (groupEntry st g.transactionId).state = .unresolved ∧
        g.chunkSequence = (groupEntry st g.transactionId).nextSequence ∧
        ¬ (groupEntry st g.transactionId).Refuses g.chunkSequence intent.payloadBytes
          intent.reservation.recordCount.get := by
      intro g hg
      rcases hgroups with ⟨hnone, -⟩ |
        ⟨identity, hsome, hfin, hopen, hchunk, hbytes, hrecords, hroom, -⟩
      · exact absurd (hg.symm.trans hnone) (by simp)
      · obtain rfl : identity = g := Option.some.inj (hsome.symm.trans hg)
        refine ⟨hfin, hopen, hchunk, ?_⟩
        rintro (h | h | h | h | h)
        · exact h hopen
        · exact h hchunk
        · exact Nat.not_lt.2 h hbytes
        · exact Nat.not_lt.2 h hrecords
        · exact Nat.not_lt.2 h hroom
    refine ⟨hepoch, ⟨hget, fun g hg ↦ ?_, hres.symm.trans hnext, hoff, hkey, hseq, hsequence⟩, ?_,
      hadmits⟩
    · exact ⟨(hchunk g hg).1, (hchunk g hg).2.1, (hchunk g hg).2.2.1⟩
    · rintro ⟨g, hg, hrefuses⟩
      exact (hchunk g hg).2.2.2 hrefuses
  · rintro ⟨hepoch, hpasses, htaken, hadmits⟩
    have hproposal : st.sequencer.proposeReservation intent.append.recordCount
        intent.append.admittedLeaderEpoch =
          .ok ⟨st.sequencer.nextReservation intent.reservation.recordCount
            intent.reservation.placement.leaderEpoch, st.sequencer.leaderEpoch⟩ :=
      proposeReservation_eq_ok_iff.2
        ⟨hepoch, hpasses.offsets, hpasses.batchIds, hpasses.sequences, rfl⟩
    have hnew : duplicate st intent.append = .ok none := by
      have hcheck : checkProducer st intent.append.requestId intent.append.producer
          intent.append.recordCount intent.append.payloadDigest = .ok none := hadmits
      simp only [duplicate, hcheck]
      cases hgroup : intent.append.atomicGroup with
      | none => rfl
      | some g => exact checkAtomicGroup_eq_none_iff.2 (hpasses.chunk g hgroup)
    have hlen : st.batches.len + 1 < 2 ^ 64 := by
      have hseq : st.sequencer.nextPlacementSequence + 1 < 2 ^ 64 := hpasses.sequences
      have hkey : st.batches.nextKey = st.batches.firstKey + st.batches.len := rfl
      rw [hl.nextPlacementSequence, hl.nextBatchId] at hseq
      omega
    have hproducer : ∃ after, cursorAfter intent.append = .ok after := by
      simp only [cursorAfter]
      cases hname : intent.append.producer with
      | none => exact ⟨none, rfl⟩
      | some identity => exact ⟨_, if_pos (hpasses.producer identity hname)⟩
    have hatomic : ∃ after, snapshotAfter intent.append (snapshotBefore st intent.append)
        st.sequencer.nextBatchId = .ok after := by
      refine exists_snapshotAfter hc (fun h ↦ htaken ?_) _
      exact h
    obtain ⟨producerAfter, hproducer⟩ := hproducer
    obtain ⟨atomicAfter, hatomic⟩ := hatomic
    obtain ⟨p, hintent, hvalid, hprepare⟩ :=
      prepare_of_parts hnew hproposal hl.nextBatchId hlen hproducer hatomic
    have hproposed := hvalid.proposed
    rw [hintent, hproposal] at hproposed
    refine ⟨p, hprepare, ?_⟩
    rw [← Except.ok.inj hproposed]
    exact hpasses.next.symm

/-- The cursor that the unguarded path leaves is the one that the guarded path installs, if the
producer check takes the append for a new one. -/
theorem producers_of_advanceNamedProducer {requestId : Nat} {identity : ProducerIdentity}
    {count : NonZeroU32}
    (hcheck : checkProducer st requestId (some identity) count digest = .ok none)
    (hadvance : advanceNamedProducer st (some identity) count = .ok { st with producers }) :
    producers = st.producers.insert identity.producerId
      ⟨identity.epoch, identity.firstSequence + count.get, false⟩ := by
  rcases exists_of_advanceNamedProducer hadvance with ⟨-, hproducers⟩ | ⟨c, hc, hle, hproducers⟩
  · exact hproducers
  · -- of the same epoch, and not fenced
    rcases checkProducer_eq_none_iff.1 hcheck with ⟨hnone, -⟩ | ⟨c', hc', hle', -, hsame⟩
    · cases hnone.symm.trans hc
    · cases hc.symm.trans hc'
      have heq : identity.epoch = c.epoch := hle.antisymm hle'
      rw [hproducers, heq, ← (hsame heq).2]

end Guarded

/-- The same sequencer, batches, producer cursors and groups. -/
structure SameAdmission (st st' : PartitionState) : Prop where
  sequencer : st.sequencer = st'.sequencer
  batches : st.batches = st'.batches
  producers : st.producers = st'.producers
  atomicGroups : st.atomicGroups = st'.atomicGroups

/-- **The two paths write the same tables.** -/
theorem sameAdmission_of_prepare (hprepare : prepare st intent.append = .ok (.new p))
    (hres : p.proposal.reservation = intent.reservation)
    (hproducers : advanceNamedProducer (st.observed intent) intent.producer
      intent.reservation.recordCount = .ok { st.observed intent with producers }) :
    SameAdmission (st.allocated p) ((st.observed intent).replicaReserved intent.reservation
      intent.producer intent.atomicGroup intent.payloadBytes intent.payloadDigest producers) := by
  obtain ⟨hintent, hvalid⟩ := prepare_eq_new_iff.1 hprepare
  have hleader : p.leaderEpoch = intent.reservation.placement.leaderEpoch := by
    rw [PreparedAppend.leaderEpoch, hres]
  set X := (st.observed intent).replicaAppended producers (pendingBatch intent.reservation
    intent.producer intent.atomicGroup intent.payloadBytes intent.payloadDigest) with hX
  rw [replicaReserved, ← hX, registerNamedChunk_snd]
  refine ⟨?_, ?_, ?_, ?_⟩
  · change st.sequencer.advanced p.intent.recordCount p.leaderEpoch = _
    rw [hleader, hintent]
    rfl
  · change st.batches.snoc p.batch = st.batches.snoc _
    rw [PreparedAppend.batch, hintent, hres]
    rfl
  · cases hname : intent.producer with
    | none =>
      rw [hname] at hproducers
      have hsame : st.producers = producers := congrArg (·.producers) (Except.ok.inj hproducers)
      have hnone : p.intent.producer = none := by rw [hintent]; exact hname
      simp only [allocated, installPrepared, hnone]
      exact hsame
    | some identity =>
      have hsome : p.intent.producer = some identity := by rw [hintent]; exact hname
      have hcheck := hvalid.checkProducer
      rw [hname] at hproducers
      rw [hsome] at hcheck
      rw [hvalid.producers_allocated hsome, hintent]
      rw [hintent] at hcheck
      have hcheck' : checkProducer (st.observed intent) intent.append.requestId (some identity)
          intent.append.recordCount intent.append.payloadDigest = .ok none := hcheck
      exact (producers_of_advanceNamedProducer hcheck' hproducers).symm
  · rcases hvalid.groups with ⟨hnone, h⟩ |
      ⟨identity, hsome, -, hopen, hchunk, hbytes, hrecords, hroom, h⟩
    · rw [hintent] at hnone
      have hnone : intent.atomicGroup = none := hnone
      rw [h, hnone]
      rfl
    · rw [hintent] at hsome hbytes hrecords
      have hsome : intent.atomicGroup = some identity := hsome
      rw [h, hsome, hintent, hres]
      have hreg : registerAtomicChunk X identity intent.reservation intent.payloadBytes =
        (.ok (), _) :=
        registerAtomicChunk_eq_ok hopen hchunk hbytes hrecords hroom
      rw [registerNamedChunk, hreg]
      rfl

/-- What the unguarded path reserves for the next batch, and how. -/
theorem reserveObserved_isSome_iff (hl : st.Layout)
    (hid : intent.reservation.batchId = st.sequencer.nextBatchId) :
    (reservedIn (reserveObserved st intent).1).isSome = true ↔
      st.sequencer.leaderEpoch ≤ intent.reservation.placement.leaderEpoch ∧
        (st.observed intent).PassesChecks intent.reservation intent.producer intent.atomicGroup ∧
        ¬ (st.observed intent).RefusesChunk intent.atomicGroup intent.payloadBytes
          intent.reservation.recordCount := by
  have hget : (st.observed intent).batches.get intent.reservation.batchId = none :=
    get_eq_none_iff.2 (.inr (hid.trans hl.nextBatchId).ge)
  have hdense : (st.observed intent).sequencer.nextBatchId = (st.observed intent).batches.nextKey :=
    hl.nextBatchId
  by_cases hepoch : st.sequencer.leaderEpoch ≤ intent.reservation.placement.leaderEpoch
  · rw [reserveObserved_eq hepoch, and_iff_right hepoch]
    constructor
    · intro h
      obtain ⟨r, hr⟩ := Option.isSome_iff_exists.1 h
      exact passes_of_reserveReplica hget hr
    · rintro ⟨hpasses, htaken⟩
      obtain ⟨producers, -, hreserve⟩ : ∃ producers, _ ∧
          reserveReplica (st.observed intent) intent.reservation intent.producer intent.atomicGroup
            intent.payloadBytes intent.payloadDigest = _ :=
        reserveReplica_of_passes hdense hpasses htaken
      rw [hreserve]
      rfl
  · have hstale : reservedIn (reserveObserved st intent).1 = none := by
      simp [reserveObserved, observeLeaderEpoch, TopicSequencer.observeLeaderEpoch,
        Nat.not_le.1 hepoch, reservedIn]
    simp [hstale, hepoch]

/-- **Guarded and unguarded replicas.** In every partition reached, a replica intent for the next
batch is reserved by the guarded path if and only if the unguarded path reserves it and the producer
check takes it for a new append; the two paths then give the same answer and leave the same
sequencer, batches, producer cursors and groups. -/
theorem reserveGuarded_iff_observed {config : EngineConfig} {start st : PartitionState}
    (hstart : PartitionStart config start) (hrun : CommandRun (fun _ _ ↦ True) start st)
    (intent : ReplicaIntent) (hid : intent.reservation.batchId = st.sequencer.nextBatchId) :
    ((reservedIn (reserveGuarded st intent).1).isSome = true ↔
        (reservedIn (reserveObserved st intent).1).isSome = true ∧ st.ProducerAdmits intent) ∧
      ((reservedIn (reserveGuarded st intent).1).isSome = true →
        (reserveGuarded st intent).1 = (reserveObserved st intent).1 ∧
          SameAdmission (reserveGuarded st intent).2 (reserveObserved st intent).2) := by
  obtain ⟨hs, -, hc⟩ := hrun.chunksCounted hstart
  have hl := hs.layout
  have hget : st.batches.get intent.reservation.batchId = none :=
    get_eq_none_iff.2 (.inr (hid.trans hl.nextBatchId).ge)
  have hguarded : (reservedIn (reserveGuarded st intent).1).isSome = true ↔
      ∃ p, prepare st intent.append = .ok (.new p) ∧
        p.proposal.reservation = intent.reservation := by
    constructor
    · intro h
      obtain ⟨r, hr⟩ := Option.isSome_iff_exists.1 h
      exact prepare_of_reserveGuarded hget hr
    · rintro ⟨p, hprepare, hres⟩
      rw [reserveGuarded_of_prepare hget hprepare hres]
      rfl
  have hchecks := exists_prepare_iff hl hc hid
  refine ⟨?_, fun h ↦ ?_⟩
  · rw [hguarded, hchecks, reserveObserved_isSome_iff hl hid]
    tauto
  · obtain ⟨p, hprepare, hres⟩ := hguarded.1 h
    obtain ⟨hepoch, hpasses, htaken, -⟩ := hchecks.1 ⟨p, hprepare, hres⟩
    have hdense : (st.observed intent).sequencer.nextBatchId =
      (st.observed intent).batches.nextKey :=
      hl.nextBatchId
    obtain ⟨producers, hproducers, hreserve⟩ : ∃ producers, _ ∧
        reserveReplica (st.observed intent) intent.reservation intent.producer intent.atomicGroup
          intent.payloadBytes intent.payloadDigest = _ :=
      reserveReplica_of_passes hdense hpasses htaken
    obtain ⟨hintent, hvalid⟩ := prepare_eq_new_iff.1 hprepare
    rw [reserveGuarded_of_prepare hget hprepare hres, reserveObserved_eq hepoch, hreserve]
    refine ⟨?_, sameAdmission_of_prepare hprepare hres hproducers⟩
    simp only [PreparedAppend.reply, hres, hintent, hvalid.snapshots.1]
    rfl

/-- The first batch of a partition, of one record, from a producer that starts at
`firstSequence`. -/
def firstIntent (firstSequence : Nat) : ReplicaIntent where
  reservation := firstBatch
  producer := some ⟨9, 0, firstSequence, none⟩
  atomicGroup := some ⟨7, 0⟩
  payloadBytes := 1
  payloadDigest := 0

/-- A producer's first record is replicated and written; its second one is admitted by both paths,
with the same result. -/
theorem second_record_admitted_by_both :
    let producer : ProducerIdentity := ⟨9, 0, 0, none⟩
    let replicated := (Command.run oneLane (.ok ())
      (.reserveReplica firstBatch producer (some ⟨7, 0⟩) 1 0)).state
    let st := (Command.run replicated (.ok ())
      (.complete ⟨firstBatch, producer, 0, 1, false, appendResponse 0 firstBatch⟩)).state
    let intent := { firstIntent 1 with reservation := secondBatch, atomicGroup := some ⟨7, 1⟩ }
    st.contiguousLogEnd = 1 ∧ (reservedIn (reserveObserved st intent).1).isSome = true ∧
      SameAdmission (reserveGuarded st intent).2 (reserveObserved st intent).2 := by
  intro producer replicated st intent
  have hreserved : (reservedIn (reserveGuarded st intent).1).isSome = true := by decide +kernel
  have hrun : CommandRun (fun _ _ ↦ True) oneLane st :=
    .tail (.single ⟨_, _, trivial, rfl⟩) ⟨_, _, trivial, rfl⟩
  obtain ⟨hiff, hsame⟩ := reserveGuarded_iff_observed oneLane_created hrun intent rfl
  exact ⟨by decide +kernel, (hiff.1 hreserved).1, (hsame hreserved).2⟩

/-- **Only the unguarded path admits a producer out of sequence.** -/
theorem late_record_admitted_unguarded : ∃ start st intent,
    PartitionStart ⟨1, 1, 1⟩ start ∧ CommandRun (fun _ _ ↦ True) start st ∧
      intent.reservation.batchId = st.sequencer.nextBatchId ∧
      (reservedIn (reserveObserved st intent).1).isSome = true ∧
      (reservedIn (reserveGuarded st intent).1).isSome = false := by
  exact ⟨oneLane, oneLane, firstIntent 5, oneLane_created, .refl, rfl, by decide +kernel,
    by decide +kernel⟩

end ShardStream
