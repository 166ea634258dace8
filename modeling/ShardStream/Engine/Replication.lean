import ShardStream.Engine.ReadBack
import ShardStream.Engine.Resend

/-!
# Offering a recovered log to the followers

A leader that restarts offers what it recovered to its followers again (`replay_replication`): it
reads every partition back and hands the batches to the transport. A follower admits a batch only if
its id is the next one, so that what is offered has to be without holes.

The batches of aborted groups are in the log, and their extents on the shards, but a fetch does not
return them. So the replay is complete exactly if no retained batch is aborted and no fetch on its
way passes one over; otherwise an id is left out, or the replay fails at a tail that is aborted.
-/

namespace ShardStream

open PartitionCore List

variable {batches : List StoredBatch} {offered' : List ReplicaAppend}

/-! ### The replay -/

/-- A transport: what `replicate` answers to a batch after those that it was offered. The number of
followers that hold the batch is not looked at by the replay. -/
abbrev ReplicationTransport := List ReplicaAppend → ReplicaAppend → Except EngineError Nat

/-- The loop body of `replay_replication` for one batch, on the offset and what was offered. -/
def replicateBatch (transport : ReplicationTransport) (acc : Nat × List ReplicaAppend)
    (batch : StoredBatch) : Except EngineError (Nat × List ReplicaAppend) :=
  if 2 ^ 64 ≤ batch.reservation.lastOffset + 1 then
    .error (.corruptState "recovery replication offset space exhausted")
  else (transport acc.2 (replayedAppend batch)).map fun _ ↦
    (batch.reservation.lastOffset + 1, acc.2 ++ [replayedAppend batch])

/-- `replay_replication` for one partition. -/
def replayPartition (maxFetchBytes : Nat) (shards : List ShardStore)
    (transport : ReplicationTransport) (maxBytes : Nat) (tp : TopicPartition) (st : PartitionState)
    (offered : List ReplicaAppend) : Except EngineError (List ReplicaAppend) :=
  (replayLoop (storedFetch maxFetchBytes st shards tp maxBytes) (fun o ↦ .corruptState
      s!"recovery replication found no batch at offset {o} for {tp.topicId}/{tp.partitionId}")
    (fun acc batches ↦ batches.foldlM (replicateBatch transport) acc) Prod.fst st.contiguousLogEnd
    (st.contiguousLogEnd - st.logStart) (st.logStart, offered)).map Prod.snd

/-- `replay_replication`, on partitions and shards that do not change meanwhile. Returned is what
the transport was offered. -/
def replayReplication (maxFetchBytes : Nat) (states : Table TopicPartition PartitionState)
    (shards : List ShardStore) (transport : ReplicationTransport) (maxBytes : Nat) :
    List TopicPartition → List ReplicaAppend → Except EngineError (List ReplicaAppend)
  | [], offered => .ok offered
  | tp :: partitions, offered =>
    match states.get tp with
    | none => .error (.unknownPartition tp.topicId tp.partitionId)
    | some st => do
      let offered ← replayPartition maxFetchBytes shards transport maxBytes tp st offered
      replayReplication maxFetchBytes states shards transport maxBytes partitions offered

/-! ### What is to be offered -/

/-- What was offered of a partition. -/
def offersOf (tp : TopicPartition) (offered : List ReplicaAppend) : List ReplicaAppend :=
  offered.filter fun x ↦ decide (x.reservation.topicPartition = tp)

/-- The transport accepts the batches of a partition in the order of their ids, from whichever is
the first. -/
def ReplicationTransport.AcceptsInOrder (transport : ReplicationTransport) : Prop :=
  ∀ offered batch, (∀ previous, (offersOf batch.reservation.topicPartition offered).getLast? =
      some previous → batch.reservation.batchId = previous.reservation.batchId + 1) →
    ∃ followers, transport offered batch = .ok followers

/-- Some shard holds an extent of the batch. -/
def hasExtent (tp : TopicPartition) (shards : List ShardStore) (r : Reservation) : Bool :=
  (extentsOf tp shards).any fun l ↦ decide (l.reservation = r)

/-- A partition was offered as a follower needs it that starts at its first retained batch: every
retained batch with an extent, once and in the order of the ids, with no id left out. -/
structure OfferedInFull (st : PartitionState) (tp : TopicPartition) (shards : List ShardStore)
    (offers : List Reservation) : Prop where
  every : offers = st.reservations.filter (hasExtent tp shards)
  dense : offers.map Reservation.batchId = range' st.batches.firstKey offers.length

section Replay

variable {checksum : ExtentChecksum} {maxFetchBytes maxBytes : Nat}
  {st : PartitionState} {tp : TopicPartition} {shards : List ShardStore}
  {transport : ReplicationTransport} {offered : List ReplicaAppend}

theorem replicateBatch_eq_ok_iff {acc acc' : Nat × List ReplicaAppend} {batch : StoredBatch} :
    replicateBatch transport acc batch = .ok acc' ↔
      batch.reservation.lastOffset + 1 < 2 ^ 64 ∧
        (∃ followers, transport acc.2 (replayedAppend batch) = .ok followers) ∧
        acc' = (batch.reservation.lastOffset + 1, acc.2 ++ [replayedAppend batch]) := by
  rw [replicateBatch]
  split_ifs with hlt
  · constructor
    · intro h
      cases h
    · omega
  · rw [map_eq_ok_iff]
    constructor
    · rintro ⟨followers, hok, rfl⟩
      exact ⟨by omega, ⟨followers, hok⟩, rfl⟩
    · rintro ⟨-, ⟨followers, hok⟩, rfl⟩
      exact ⟨followers, hok, rfl⟩

/-- What was offered after a run of batches. -/
theorem snd_of_foldlM_replicateBatch {acc acc' : Nat × List ReplicaAppend}
    (h : batches.foldlM (replicateBatch transport) acc = .ok acc') :
    acc'.2 = acc.2 ++ batches.map replayedAppend := by
  induction batches generalizing acc with
  | nil =>
    cases h
    simp
  | cons b batches ih =>
    rw [foldlM_cons, bind_eq_ok_iff] at h
    obtain ⟨acc₁, hb, h⟩ := h
    obtain ⟨-, -, rfl⟩ := replicateBatch_eq_ok_iff.1 hb
    rw [ih h]
    simp

/-- A run of batches with consecutive ids is accepted. -/
theorem exists_foldlM_replicateBatch (htransport : transport.AcceptsInOrder) (tp : TopicPartition)
    (firstKey : Nat) {acc : Nat × List ReplicaAppend}
    (htp : ∀ b ∈ batches, b.reservation.topicPartition = tp ∧ b.reservation.lastOffset + 1 < 2 ^ 64)
    (hids : batches.map (fun b ↦ b.reservation.batchId) = range' firstKey batches.length)
    (hprevious : ∀ previous, (offersOf tp acc.2).getLast? = some previous →
      firstKey = previous.reservation.batchId + 1) :
    ∃ acc', batches.foldlM (replicateBatch transport) acc = .ok acc' := by
  induction batches generalizing acc firstKey with
  | nil => exact ⟨acc, rfl⟩
  | cons b batches ih =>
    obtain ⟨⟨hb, hlt⟩, htp⟩ := forall_mem_cons.1 htp
    rw [map_cons] at hids
    obtain ⟨hid, hids⟩ := cons_eq_cons.1 hids
    have hres : (replayedAppend b).reservation = b.reservation := rfl
    obtain ⟨followers, hok⟩ := htransport acc.2 (replayedAppend b) fun previous hp ↦ by
      rw [hres, hb] at hp
      rw [hres, hid]
      exact hprevious previous hp
    have hstep := replicateBatch_eq_ok_iff.2 ⟨hlt, ⟨followers, hok⟩, rfl⟩
    obtain ⟨acc', hacc'⟩ := @ih (firstKey + 1)
      (b.reservation.lastOffset + 1, acc.2 ++ [replayedAppend b]) htp hids fun previous hp ↦ by
        rw [offersOf, filter_append, filter_singleton, hres, hb, decide_eq_true rfl,
          Bool.cond_true, getLast?_concat] at hp
        cases hp
        rw [hres, hid]
    exact ⟨acc', by rw [foldlM_cons, hstep]; exact hacc'⟩

/-- Nothing but batches of the partition is offered for it. -/
theorem offersOf_append (other : List ReplicaAppend) :
    offersOf tp (offered ++ other) = offersOf tp offered ++ offersOf tp other :=
  filter_append ..

theorem map_batchId_reservations (hl : st.Layout) :
    st.reservations.map Reservation.batchId =
      range' st.batches.firstKey st.reservations.length := by
  refine ext_getElem (by simp) fun i hi hi' ↦ ?_
  rw [length_map] at hi
  rw [getElem_map, getElem_range', (hl.laid.getElem (getElem?_eq_getElem hi)).2.1, Nat.one_mul]

namespace RecoveredLog

variable (h : RecoveredLog checksum maxFetchBytes maxBytes st tp shards)

include h

/-- What is fetched reaches the offset. -/
theorem le_lastOffset (o : Nat) (batches : List StoredBatch)
    (hfetch : storedFetch maxFetchBytes st shards tp maxBytes o = .ok batches) (b : StoredBatch)
    (hb : b ∈ batches) : o ≤ b.reservation.lastOffset :=
  (readable_iff.1 ((h.round_of_eq_ok hfetch).2.readable hb)).1.1

/-- **What one partition offers**, if its replay succeeds: the batches that are read. -/
theorem replayPartition_eq_ok_iff :
    replayPartition maxFetchBytes shards transport maxBytes tp st offered = .ok offered' ↔
      ∃ batches, Reads (storedFetch maxFetchBytes st shards tp maxBytes) st.contiguousLogEnd
          st.logStart batches ∧
        (∃ acc, batches.foldlM (replicateBatch transport) (st.logStart, offered) = .ok acc) ∧
        offered' = offered ++ batches.map replayedAppend := by
  have hstep : ∀ acc b acc', replicateBatch transport acc b = .ok acc' →
      acc'.1 = b.reservation.lastOffset + 1 := fun acc b acc' hok ↦ by
    obtain ⟨-, -, rfl⟩ := replicateBatch_eq_ok_iff.1 hok
    rfl
  have hfuel : st.contiguousLogEnd ≤
      (st.logStart, offered).1 + (st.contiguousLogEnd - st.logStart) := by
    omega
  rw [replayPartition, map_eq_ok_iff]
  constructor
  · rintro ⟨acc, hok, rfl⟩
    obtain ⟨batches, hreads, hfold⟩ :=
      (replayLoop_eq_ok_iff hstep h.le_lastOffset (fun _ _ _ _ ↦ rfl) hfuel).1 hok
    exact ⟨batches, hreads, ⟨acc, hfold⟩, snd_of_foldlM_replicateBatch hfold⟩
  · rintro ⟨batches, hreads, ⟨acc, hfold⟩, rfl⟩
    exact ⟨acc, (replayLoop_eq_ok_iff hstep h.le_lastOffset (fun _ _ _ _ ↦ rfl) hfuel).2
      ⟨batches, hreads, hfold⟩, snd_of_foldlM_replicateBatch hfold⟩

/-- **When a partition is offered in full**: when nothing of it is aborted and nothing is passed
over. -/
theorem offeredInFull_iff (hreads : Reads (storedFetch maxFetchBytes st shards tp maxBytes)
      st.contiguousLogEnd st.logStart batches) :
    OfferedInFull st tp shards (batches.map StoredBatch.reservation) ↔
      NoneAborted st st.logStart ∧ PassesNoneOver st tp shards maxBytes st.logStart := by
  have hl := h.shardLayout.layout
  constructor
  · rintro ⟨hevery, hdense⟩
    have hids : batches.map (fun b ↦ b.reservation.batchId) =
        range' st.batches.firstKey batches.length := by
      rw [map_map, length_map] at hdense
      exact hdense
    have hall := hreads.eq_ahead h le_rfl (Nat.le_add_right ..)
      (offsetAt_firstKey st.toPartitionCore).symm hids
    refine ⟨hreads.noneAborted h hall, hreads.passesNoneOver h fun c hc hreadable ↦ ?_⟩
    rw [hevery]
    exact mem_filter.2 ⟨(mem_reservations_iff hl).2 (h.shardLayout.retains hc hreadable),
      any_eq_true.2 ⟨c, hc, decide_eq_true rfl⟩⟩
  · rintro ⟨hlive, hskips⟩
    obtain ⟨batches', hreads', hall⟩ := h.exists_reads le_rfl hlive hskips
    rw [← hreads.unique hreads', ahead_of_le hl le_rfl] at hall
    refine ⟨?_, by rw [hall]; exact map_batchId_reservations hl⟩
    rw [hall, filter_eq_self.2 fun r hr ↦ ?_]
    obtain ⟨b, hb, rfl⟩ := mem_map.1 (hall.symm ▸ hr)
    obtain ⟨l, hl', heq⟩ := h.stored.exists_extent (hreads.retains h hb) (hreads.readable h hb)
    exact any_eq_true.2 ⟨l, hl', decide_eq_true heq⟩

/-- A partition with nothing aborted and nothing passed over is replayed. -/
theorem exists_replayPartition (htransport : transport.AcceptsInOrder)
    (hfresh : offersOf tp offered = []) (hlive : NoneAborted st st.logStart)
    (hskips : PassesNoneOver st tp shards maxBytes st.logStart) :
    ∃ offered', replayPartition maxFetchBytes shards transport maxBytes tp st offered =
      .ok offered' := by
  have hl := h.shardLayout.layout
  obtain ⟨batches, hreads, hall⟩ := h.exists_reads le_rfl hlive hskips
  rw [ahead_of_le hl le_rfl] at hall
  refine ⟨_, h.replayPartition_eq_ok_iff.2 ⟨batches, hreads, ?_, rfl⟩⟩
  refine exists_foldlM_replicateBatch htransport tp st.batches.firstKey (fun b hb ↦ ?_) ?_
    fun previous hp ↦ ?_
  · obtain ⟨held, hheld, heq⟩ := hreads.retains h hb
    have hrange := (hreads.retains h hb).range hl
    have := hl.offset_lt
    refine ⟨?_, by omega⟩
    rw [← heq, (hl.get hheld).1, h.topicPartition]
  · have := map_batchId_reservations hl
    rw [← hall, map_map, length_map] at this
    exact this
  · rw [hfresh] at hp
    cases hp

end RecoveredLog

/-! ### All partitions -/

section Partitions

variable {states : Table TopicPartition PartitionState} {partitions : List TopicPartition}

/-- The replay of a partition offers what is read of it, and nothing of the others. -/
theorem RecoveredLog.offersOf_replayPartition
    (h : RecoveredLog checksum maxFetchBytes maxBytes st tp shards)
    (hok : replayPartition maxFetchBytes shards transport maxBytes tp st offered = .ok offered') :
    (∃ batches, Reads (storedFetch maxFetchBytes st shards tp maxBytes) st.contiguousLogEnd
        st.logStart batches ∧
      offersOf tp offered' = offersOf tp offered ++ batches.map replayedAppend) ∧
    ∀ tp' ≠ tp, offersOf tp' offered' = offersOf tp' offered := by
  obtain ⟨batches, hreads, -, rfl⟩ := h.replayPartition_eq_ok_iff.1 hok
  have htp : ∀ x ∈ batches.map replayedAppend, x.reservation.topicPartition = tp := by
    intro x hx
    obtain ⟨b, hb, rfl⟩ := mem_map.1 hx
    obtain ⟨held, hheld, heq⟩ := hreads.retains h hb
    change b.reservation.topicPartition = tp
    rw [← heq, (h.shardLayout.layout.get hheld).1, h.topicPartition]
  have hown : offersOf tp (batches.map replayedAppend) = batches.map replayedAppend :=
    filter_eq_self.2 fun x hx ↦ decide_eq_true (htp x hx)
  refine ⟨⟨batches, hreads, by rw [offersOf_append, hown]⟩, fun tp' hne ↦ ?_⟩
  have hother : offersOf tp' (batches.map replayedAppend) = [] :=
    filter_eq_nil_iff.2 fun x hx ↦ by
      rw [htp x hx, decide_eq_true_eq]
      exact hne.symm
  rw [offersOf_append, hother, append_nil]

/-- What was offered of each partition is what was read of it. -/
theorem offersOf_replayReplication (hnodup : partitions.Nodup)
    (hlog : ∀ tp ∈ partitions, ∀ st, states.get tp = some st →
      RecoveredLog checksum maxFetchBytes maxBytes st tp shards)
    (hok : replayReplication maxFetchBytes states shards transport maxBytes partitions offered =
      .ok offered') :
    (∀ tp ∉ partitions, offersOf tp offered' = offersOf tp offered) ∧
    ∀ tp ∈ partitions, ∀ st, states.get tp = some st →
      ∃ batches, Reads (storedFetch maxFetchBytes st shards tp maxBytes) st.contiguousLogEnd
          st.logStart batches ∧
        offersOf tp offered' = offersOf tp offered ++ batches.map replayedAppend := by
  induction partitions generalizing offered with
  | nil =>
    cases hok
    exact ⟨fun _ _ ↦ rfl, fun tp htp ↦ by cases htp⟩
  | cons first rest ih =>
    obtain ⟨hnotMem, hnodup⟩ := nodup_cons.1 hnodup
    obtain ⟨hfirst, hlog⟩ := forall_mem_cons.1 hlog
    rw [replayReplication] at hok
    cases hst : states.get first with
    | none =>
      rw [hst] at hok
      cases hok
    | some st =>
      rw [hst] at hok
      obtain ⟨offered₁, hone, hok⟩ := bind_eq_ok_iff.1 hok
      obtain ⟨⟨batches, hreads, hown⟩, hother⟩ := (hfirst st hst).offersOf_replayPartition hone
      obtain ⟨hothers, hall⟩ := ih hnodup hlog hok
      refine ⟨fun tp hmem ↦ ?_, fun tp hmem st' hst' ↦ ?_⟩
      · rw [mem_cons, not_or] at hmem
        rw [hothers tp hmem.2, hother tp hmem.1]
      · rcases mem_cons.1 hmem with heq | hmem
        · subst heq
          rw [hst] at hst'
          cases hst'
          exact ⟨batches, hreads, by rw [hothers _ hnotMem, hown]⟩
        · obtain ⟨batches', hreads', heq⟩ := hall tp hmem st' hst'
          exact ⟨batches', hreads', by rw [heq, hother tp fun h ↦ hnotMem (h ▸ hmem)]⟩

/-- The replay succeeds if that of every partition does. -/
theorem exists_replayReplication (hnodup : partitions.Nodup) (htransport : transport.AcceptsInOrder)
    (hknown : ∀ tp ∈ partitions, ∃ st, states.get tp = some st)
    (hlog : ∀ tp ∈ partitions, ∀ st, states.get tp = some st →
      RecoveredLog checksum maxFetchBytes maxBytes st tp shards ∧ NoneAborted st st.logStart ∧
        PassesNoneOver st tp shards maxBytes st.logStart)
    (hfresh : ∀ tp ∈ partitions, offersOf tp offered = []) :
    ∃ offered',
    replayReplication maxFetchBytes states shards transport maxBytes partitions offered =
      .ok offered' := by
  induction partitions generalizing offered with
  | nil => exact ⟨offered, rfl⟩
  | cons first rest ih =>
    obtain ⟨hnotMem, hnodup⟩ := nodup_cons.1 hnodup
    obtain ⟨⟨st, hst⟩, hknown⟩ := forall_mem_cons.1 hknown
    obtain ⟨hfirst, hlog⟩ := forall_mem_cons.1 hlog
    obtain ⟨hfresh₁, hfresh⟩ := forall_mem_cons.1 hfresh
    obtain ⟨h, hlive, hskips⟩ := hfirst st hst
    obtain ⟨offered₁, hone⟩ := h.exists_replayPartition htransport hfresh₁ hlive hskips
    obtain ⟨-, hother⟩ := h.offersOf_replayPartition hone
    obtain ⟨offered', hok⟩ := @ih offered₁ hnodup hknown hlog fun tp htp ↦ by
      rw [hother tp fun heq ↦ hnotMem (heq ▸ htp)]
      exact hfresh tp htp
    exact ⟨offered', by rw [replayReplication, hst]; exact bind_eq_ok_iff.2 ⟨offered₁, hone, hok⟩⟩

end Partitions

end Replay

/-- **Restart replication is complete exactly if no retained batch is aborted and none is passed
over.** After any run and any crash, for any of the recovered partitions and any transport that
accepts the batches of a partition in the order of their ids: the replay succeeds and offers every
partition in full if and only if none of them retains an aborted batch, and at no offset the replay
comes by a batch lies beyond the window of its shard while a later one is returned. -/
theorem replayReplication_complete_iff {checksum : ExtentChecksum}
    {config : EngineConfig} {s : ShardedEngine} {states : Table TopicPartition PartitionState}
    {shards : List ShardStore} {transport : ReplicationTransport} {partitions : List TopicPartition}
    {maxFetchBytes maxBytes : Nat} (hs : ShardedReachable checksum config s)
    (hrec : s.engine.recover config 1 = .ok states)
    (hshards : List.Forall₂ (Survives checksum s.engine.extents) s.shards shards)
    (htransport : transport.AcceptsInOrder) (hnodup : partitions.Nodup)
    (hknown : ∀ tp ∈ partitions, ∃ st, states.get tp = some st) (hpos : 0 < maxBytes)
    (hlt : maxBytes < 2 ^ 32) (hle : maxBytes ≤ maxFetchBytes) :
    (∃ offered, replayReplication maxFetchBytes states shards transport maxBytes partitions [] =
        .ok offered ∧
      ∀ tp ∈ partitions, ∀ st, states.get tp = some st →
        OfferedInFull st tp shards ((offersOf tp offered).map (·.reservation))) ↔
    ∀ tp ∈ partitions, ∀ st, states.get tp = some st →
      NoneAborted st st.logStart ∧ PassesNoneOver st tp shards maxBytes st.logStart := by
  have hlog : ∀ tp ∈ partitions, ∀ st, states.get tp = some st →
      RecoveredLog checksum maxFetchBytes maxBytes st tp shards := fun tp _ st hst ↦
    hs.recoveredLog hrec hshards hst hpos hlt hle
  have hfull : ∀ offered,
      replayReplication maxFetchBytes states shards transport maxBytes partitions
      [] = .ok offered → ∀ tp ∈ partitions, ∀ st, states.get tp = some st →
        (OfferedInFull st tp shards ((offersOf tp offered).map (·.reservation)) ↔
          NoneAborted st st.logStart ∧ PassesNoneOver st tp shards maxBytes st.logStart) := by
    intro offered hok tp htp st hst
    obtain ⟨-, hall⟩ := offersOf_replayReplication hnodup hlog hok
    obtain ⟨batches, hreads, heq⟩ := hall tp htp st hst
    have hmap : (offersOf tp offered).map (·.reservation) =
      batches.map StoredBatch.reservation := by
      rw [heq, offersOf, filter_nil, nil_append, map_map]
      rfl
    rw [hmap]
    exact (hlog tp htp st hst).offeredInFull_iff hreads
  constructor
  · rintro ⟨offered, hok, hcomplete⟩ tp htp st hst
    exact (hfull offered hok tp htp st hst).1 (hcomplete tp htp st hst)
  · intro hcond
    have hfresh : ∀ tp ∈ partitions, offersOf tp [] = [] := fun _ _ ↦ rfl
    obtain ⟨offered, hok⟩ := exists_replayReplication hnodup htransport hknown
      (fun tp htp st hst ↦ ⟨hlog tp htp st hst, hcond tp htp st hst⟩) hfresh
    exact ⟨offered, hok, fun tp htp st hst ↦
      (hfull offered hok tp htp st hst).2 (hcond tp htp st hst)⟩

/-- The two batches on two shards are offered after a restart. -/
theorem two_shards_offered_in_full : ∃ s states st offered,
    ShardedReachable lengthChecksum ⟨2, 1, 1⟩ s ∧ s.engine.recover ⟨2, 1, 1⟩ 1 = .ok states ∧
      states.get ⟨0, 0⟩ = some st ∧ st.reservations.length = 2 ∧
      replayReplication 10 states s.shards (fun _ _ ↦ .ok 0) 10 [⟨0, 0⟩] [] = .ok offered ∧
      OfferedInFull st ⟨0, 0⟩ s.shards ((offersOf ⟨0, 0⟩ offered).map (·.reservation)) := by
  obtain ⟨s, states, st, hs, hrec, hsurvives, hst, hsingle, hlength, hlive⟩ :=
    ShardedEngine.exists_recovered_of_play ⟨2, 1, 1⟩ 2 onTwoShards
    (fun s _ st ↦ (∀ shard ∈ s.shards, (shard.ix.locations ⟨0, 0⟩).length ≤ 1) ∧
      st.reservations.length = 2 ∧ ∀ b ∈ st.batches.values, b.status ≠ .aborted)
    (by decide +kernel)
  have hlive' : NoneAborted st st.logStart := fun _ b hb _ ↦
    hlive b (DenseOrderedMap.mem_values_of_get hb)
  obtain ⟨offered, hok, hfull⟩ : ∃ offered,
      replayReplication 10 states s.shards (fun _ _ ↦ .ok 0) 10
      [⟨0, 0⟩] [] = .ok offered ∧ ∀ tp ∈ [⟨0, 0⟩], ∀ st, states.get tp = some st →
        OfferedInFull st tp s.shards ((offersOf tp offered).map (·.reservation)) := by
    refine (replayReplication_complete_iff hs hrec hsurvives (fun _ _ _ ↦ ⟨0, rfl⟩)
      (nodup_singleton _) (fun tp htp ↦ ?_) (by decide) (by decide) le_rfl).2
      fun tp htp st' hst' ↦ ?_
    · rw [mem_singleton.1 htp]
      exact ⟨st, hst⟩
    · cases mem_singleton.1 htp
      rw [hst] at hst'
      cases hst'
      exact ⟨hlive', passesNoneOver_of_single hsingle⟩
  exact ⟨s, states, st, offered, hs, hrec, hst, hlength, hok, hfull _ (mem_singleton.2 rfl) st hst⟩

/-- **A restart with an aborted group at the end of the log fails to replicate.** The transport
accepts everything, but after the first batch the replay finds no batch. -/
theorem aborted_tail_fails_replay : ∃ s states,
    ShardedReachable lengthChecksum ⟨1, 1, 1⟩ s ∧ s.engine.recover ⟨1, 1, 1⟩ 1 = .ok states ∧
      List.Forall₂ (Survives lengthChecksum s.engine.extents) s.shards s.shards ∧
      replayReplication 10 states s.shards (fun _ _ ↦ .ok 0) 10 [⟨0, 0⟩] [] =
        .error (.corruptState "recovery replication found no batch at offset 1 for 0/0") := by
  obtain ⟨s, states, -, hs, hrec, hsurvives, -, hfails⟩ :=
    ShardedEngine.exists_recovered_of_play ⟨1, 1, 1⟩ 1 abortedLast
    (fun s states _ ↦ replayReplication 10 states s.shards (fun _ _ ↦ .ok 0) 10 [⟨0, 0⟩] [] =
      .error (.corruptState "recovery replication found no batch at offset 1 for 0/0"))
    (by decide +kernel)
  exact ⟨s, states, hs, hrec, hsurvives, hfails⟩

end ShardStream
