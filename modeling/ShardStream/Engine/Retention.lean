import ShardStream.Engine.ProducerCursors
import ShardStream.Engine.Visibility

/-!
# Retention and atomic groups

`truncate` refuses to start the log at a chunk that continues a group. It looks at nothing but the
first batch it would retain: when that batch is plain, or starts another group, it is accepted also
between two chunks of a group, and the group is split. Its entry then lists a batch that is gone,
and inspecting it fails.

In runs that never truncate to such a batch, and in which no replica reservation is refused after it
has touched a group, every group lists retained batches only, and its counters are the sums over
them (`PartitionState.Holds`). Retention then keeps or drops a group as a whole.
-/

namespace ShardStream

open PartitionCore DenseOrderedMap Option PartitionState AtomicGroupRuntime List

variable {g : AtomicGroupRuntime} {key txn logStart : Nat} {e : Engine} {tp : TopicPartition}
  {answer : Except EngineError Unit} {st : PartitionState}

/-- The group has a chunk below `key` and a chunk at or above it. -/
def AtomicGroupRuntime.Straddles (g : AtomicGroupRuntime) (key : Nat) : Prop :=
  ∃ first ∈ g.batchIds, ∃ last ∈ g.batchIds, first < key ∧ key ≤ last

theorem AtomicGroupRuntime.not_straddles_iff :
    ¬ g.Straddles key ↔ (∀ id ∈ g.batchIds, key ≤ id) ∨ ∀ id ∈ g.batchIds, id < key := by
  constructor
  · intro h
    by_cases hlow : ∃ first ∈ g.batchIds, first < key
    · obtain ⟨first, hfirst, hlt⟩ := hlow
      exact .inr fun last hlast ↦ Nat.lt_of_not_le fun hle ↦
        h ⟨first, hfirst, last, hlast, hlt, hle⟩
    · exact .inl fun id hid ↦ Nat.le_of_not_lt fun hlt ↦ hlow ⟨id, hid, hlt⟩
  · rintro (h | h) ⟨first, hfirst, last, hlast, hlt, hle⟩
    · have := h first hfirst
      omega
    · have := h last hlast
      omega

/-- The log does not start at a plain batch, or at the first chunk of a group, that has chunks of
one group on both sides. -/
def PartitionState.StartsBetweenGroups (st : PartitionState) (logStart : Nat) : Prop :=
  ∀ key b, st.batches.get key = some b → b.reservation.firstOffset = logStart →
    (∀ identity ∈ b.atomicGroup, identity.chunkSequence = 0) →
    ∀ txn g, st.atomicGroups.get txn = some g → ¬ g.Straddles key

/-- Runs that truncate between groups only, and in which a replica reservation that is refused
leaves the groups as they were. -/
def groupAligned : RunRule where
  command _ _ st c :=
    (∀ logStart, c = .truncate logStart → st.StartsBetweenGroups logStart) ∧
    ∀ r producer group bytes digest, c = .reserveReplica r producer group bytes digest →
      (c.run st (.ok ())).reserved = none →
      (c.run st (.ok ())).state.atomicGroups = st.atomicGroups
  restart _ := True

/-! ### Groups that list what is held -/

/-- The sum of `f` over the batches listed. -/
def PartitionState.weigh (st : PartitionState) (f : BatchRuntime → Nat) (ids : List Nat) : Nat :=
  (ids.map fun id ↦ ((st.batches.get id).map f).getD 0).sum

/-- The group lists at least one batch, all of them retained, and its counters are sums over
them. -/
structure PartitionState.Holds (st : PartitionState) (g : AtomicGroupRuntime) : Prop where
  nonempty : g.batchIds ≠ []
  held : ∀ id ∈ g.batchIds, ∃ b, st.batches.get id = some b
  bytes : g.payloadBytes = st.weigh (·.payloadBytes) g.batchIds
  records : g.recordCount = st.weigh (·.reservation.recordCount.get) g.batchIds

section Holds

variable {st' : PartitionState} {f : BatchRuntime → Nat} {ids : List Nat} {b : BatchRuntime}

/-- Sums over batches that stay the same stay the same. -/
theorem PartitionState.weigh_congr
    (h : ∀ id ∈ ids, ∃ b b', st.batches.get id = some b ∧ st'.batches.get id = some b' ∧
      f b' = f b) : st'.weigh f ids = st.weigh f ids := by
  unfold weigh
  congr 1
  refine map_congr_left fun id hid ↦ ?_
  obtain ⟨b, b', hb, hb', heq⟩ := h id hid
  rw [hb, hb', map_some, map_some, getD_some, getD_some, heq]

theorem PartitionState.weigh_concat {id : Nat} (hb : st.batches.get id = some b) :
    st.weigh f (ids ++ [id]) = st.weigh f ids + f b := by
  simp [weigh, hb]

/-- A group stays held when its batches do. -/
theorem PartitionState.Holds.mono (h : st.Holds g)
    (hsame : ∀ id ∈ g.batchIds, ∀ b, st.batches.get id = some b →
      ∃ b', st'.batches.get id = some b' ∧ b.SameBatch b') : st'.Holds g := by
  have hboth : ∀ id ∈ g.batchIds, ∃ b b', st.batches.get id = some b ∧
      st'.batches.get id = some b' ∧ b.SameBatch b' := by
    intro id hid
    obtain ⟨b, hb⟩ := h.held id hid
    obtain ⟨b', hb', hs⟩ := hsame id hid b hb
    exact ⟨b, b', hb, hb', hs⟩
  refine ⟨h.nonempty, fun id hid ↦ ?_, ?_, ?_⟩
  · obtain ⟨-, b', -, hb', -⟩ := hboth id hid
    exact ⟨b', hb'⟩
  · refine h.bytes.trans (weigh_congr fun id hid ↦ ?_).symm
    obtain ⟨b, b', hb, hb', hs⟩ := hboth id hid
    exact ⟨b, b', hb, hb', hs.payloadBytes⟩
  · refine h.records.trans (weigh_congr fun id hid ↦ ?_).symm
    obtain ⟨b, b', hb, hb', hs⟩ := hboth id hid
    exact ⟨b, b', hb, hb', by rw [hs.reservation]⟩

/-- A held group, or a new one, stays held with one more chunk. -/
theorem PartitionState.Holds.withChunk {o : Option AtomicGroupRuntime} (h : ∀ g ∈ o, st.Holds g)
    (hb : st.batches.get b.reservation.batchId = some b) :
    st.Holds ((o.getD .new).withChunk b.reservation.batchId b.payloadBytes
      b.reservation.recordCount.get) := by
  have hold : (∀ id ∈ (o.getD .new).batchIds, ∃ b, st.batches.get id = some b) ∧
      (o.getD .new).payloadBytes = st.weigh (·.payloadBytes) (o.getD .new).batchIds ∧
      (o.getD .new).recordCount =
        st.weigh (·.reservation.recordCount.get) (o.getD .new).batchIds := by
    cases o with
    | none => exact ⟨by simp [AtomicGroupRuntime.new], rfl, rfl⟩
    | some g => exact ⟨(h g rfl).held, (h g rfl).bytes, (h g rfl).records⟩
  obtain ⟨hheld, hbytes, hrecords⟩ := hold
  refine ⟨by simp [AtomicGroupRuntime.withChunk], fun id hid ↦ ?_, ?_, ?_⟩
  · rcases mem_append.1 hid with hid | hid
    · exact hheld id hid
    · rw [mem_singleton.1 hid]
      exact ⟨b, hb⟩
  · simp only [AtomicGroupRuntime.withChunk, weigh_concat hb, hbytes]
  · simp only [AtomicGroupRuntime.withChunk, weigh_concat hb, hrecords]

/-- A held group can be inspected. -/
theorem PartitionState.Holds.inspect (h : st.Holds g) (hg : st.atomicGroups.get txn = some g) :
    ∃ i, inspectAtomicGroup st txn = .ok i := by
  obtain ⟨hne, hheld, -⟩ := h
  obtain ⟨first, hfirst⟩ : ∃ first, g.batchIds.head? = some first :=
    isSome_iff_exists.1 (by simpa using hne)
  obtain ⟨last, hlast⟩ : ∃ last, g.batchIds.getLast? = some last :=
    isSome_iff_exists.1 (by simpa using hne)
  obtain ⟨b, hb⟩ := hheld first (mem_of_mem_head? hfirst)
  obtain ⟨b', hb'⟩ := hheld last (mem_of_getLast? hlast)
  simp [inspectAtomicGroup, hg, hfirst, hlast, hb, hb']

end Holds

/-! ### What a command does to held groups -/

/-- All groups are held. -/
def PartitionState.GroupsHeld (st : PartitionState) : Prop :=
  ∀ txn g, st.atomicGroups.get txn = some g → st.Holds g

section Step

variable {c : Command} {eff : Effect}

/-- A group that a truncation keeps has a chunk at or above the first batch that is kept. -/
theorem get_retain_last (hg : (st.dropBefore logStart key).atomicGroups.get txn = some g) :
    st.atomicGroups.get txn = some g ∧ ∃ last ∈ g.batchIds, key ≤ last := by
  change (st.atomicGroups.retain _).get txn = some g at hg
  rw [Table.get_retain, filter_eq_some_iff] at hg
  refine ⟨hg.1, ?_⟩
  cases hlast : g.batchIds.getLast? with
  | none => simp [hlast] at hg
  | some last => exact ⟨last, mem_of_getLast? hlast, by simpa [hlast] using hg.2⟩

/-- The log starts where it did, or a truncation moved it and kept the groups that reach beyond. -/
theorem Outcome.firstKey_cases (h : Outcome st answer c eff) (hs : st.Sound) :
    eff.state.batches.firstKey = st.batches.firstKey ∨
      ∃ key, c = .truncate (st.offsetAt key) ∧ eff.state.batches.firstKey = key ∧
        continuesGroup st key = false ∧
        ∀ txn g, eff.state.atomicGroups.get txn = some g →
          st.atomicGroups.get txn = some g ∧ ∃ last ∈ g.batchIds, key ≤ last := by
  by_cases hevent : eff.event = none ∨ ∃ e, answer = .error e
  · exact .inl (h.sameControl hevent).firstKey
  cases h with
  | quiet _ _ hquiet => exact absurd hquiet hevent
  | reconfigured | policyUpdated => exact .inl rfl
  | decided => exact .inl (firstKey_setStatuses ..)
  | allocated | appended | retried | refusedRetry | completed | acknowledged | frozen | failed =>
    exact absurd (.inl rfl) hevent
  | @truncated key hanswer hfirst hstable hlt hsplit =>
    have hle := hstable.trans hs.cursors.stable.inPlace.le_nextKey
    exact .inr ⟨key, rfl, firstKey_truncateBefore hfirst hle, hsplit, fun _ _ ↦ get_retain_last⟩

/-- A chunk of a group that is kept is not truncated, when the log starts between groups. -/
theorem Outcome.firstKey_le_chunk (h : Outcome st answer c eff) (hs : st.Sound) (ht : st.Tagged)
    (hrule : ∀ logStart, c = .truncate logStart → st.StartsBetweenGroups logStart)
    (hget : st.atomicGroups.get txn = some g) (hg : st.Holds g)
    (hkept : (eff.state.atomicGroups.get txn).isSome = true) :
    ∀ id ∈ g.batchIds, eff.state.batches.firstKey ≤ id := by
  intro id hid
  rcases h.firstKey_cases hs with heq | ⟨key, hc, hkey, hsplit, hgroups⟩
  · obtain ⟨b, hb⟩ := hg.held id hid
    rw [heq]
    exact (lt_nextKey_of_get hb).1
  · obtain ⟨g', hg'⟩ := isSome_iff_exists.1 hkept
    obtain ⟨hsame, last, hlast, hle⟩ := hgroups txn g' hg'
    rw [hget] at hsame
    cases hsame
    by_contra hlt
    -- the batch at the new log start would split the group
    have hrange := (ht txn g hget last hlast).1
    have hfirst := (h.range hs).firstKey_le
    obtain ⟨b, hb⟩ := exists_get (show st.batches.firstKey ≤ key by omega)
      (show key < st.batches.nextKey by omega)
    refine hrule _ hc key b hb (hs.layout.get hb).2.2.2.1 (fun identity hidentity ↦ ?_) txn g hget
      ⟨id, hid, last, hlast, by omega, hle⟩
    rw [mem_def] at hidentity
    simpa [continuesGroup, hb, hidentity] using hsplit

/-- **Groups stay held** under a command that truncates between groups. -/
theorem Outcome.groupsHeld (h : Outcome st answer c eff) (heff : eff = c.run st answer)
    (hs : st.Sound) (ht : st.Tagged) (hheld : st.GroupsHeld)
    (hrule : groupAligned.command e tp st c) : eff.state.GroupsHeld := by
  -- an entry that is not dropped is held by the new batches
  have hmono : ∀ txn g, st.atomicGroups.get txn = some g →
      (eff.state.atomicGroups.get txn).isSome = true → eff.state.Holds g := by
    intro txn g hget hkept
    have hg := hheld txn g hget
    have hfirst := h.firstKey_le_chunk hs ht hrule.1 hget hg hkept
    exact hg.mono fun id hid b hb ↦ h.heldAfter hs hb (hfirst id hid)
  intro txn g hg
  have hkept : (eff.state.atomicGroups.get txn).isSome = true := by rw [hg]; rfl
  have hmono := fun g hget ↦ hmono txn g hget hkept
  have hstep := h.groupStep hs txn
  rw [hg] at hstep
  generalize hget : st.atomicGroups.get txn = o at hstep hmono
  cases hstep with
  | kept => exact hmono g rfl
  | extended hopen hb =>
    exact Holds.withChunk (fun g₀ hg₀ ↦ hmono g₀ hg₀) hb
  | refused hc hrefused =>
    have hsame := hrule.2 _ _ _ _ _ hc
    rw [hc] at hsame heff
    have hgroups : eff.state.atomicGroups = st.atomicGroups := by
      rw [heff] at hrefused ⊢
      exact hsame hrefused
    rw [hgroups, hget] at hg
    exact hmono g hg
  | @shortened g₀ _ r producer b chunk hc hb hres hpending htag hlast hseq ho =>
    obtain ⟨hnone, -⟩ | ⟨g', hg', hstate, hids, hnext, -, hcounters⟩ := ho
    · cases hnone
    · cases hg'
      obtain ⟨-, hheld', hbytes, hrecords⟩ := hmono g₀ rfl
      have hlist := dropLast_append_getLast? r.batchId hlast
      obtain ⟨b', hb'⟩ := hheld' r.batchId (mem_of_getLast? hlast)
      obtain ⟨b₀, hb₀, hsame⟩ := h.heldBefore hs hb' (lt_nextKey_of_get hb).2.ne
      cases hb.symm.trans hb₀
      rw [← hlist, weigh_concat hb'] at hbytes hrecords
      rw [hsame.payloadBytes] at hbytes
      rw [hsame.reservation, hres] at hrecords
      obtain ⟨hne, hbytes', hrecords'⟩ := hcounters (by omega) (by omega)
      refine ⟨hids ▸ hne, fun id hid ↦ hheld' id (mem_of_mem_dropLast (hids ▸ hid)), ?_, ?_⟩
      · rw [hids]
        omega
      · rw [hids]
        omega
  | decided =>
    obtain ⟨hne, hheld', hbytes, hrecords⟩ := hmono _ rfl
    exact ⟨hne, hheld', hbytes, hrecords⟩

end Step

/-- A recovered group lists the extents it was rebuilt from. -/
theorem Recovered.groupsHeld {ctx : RecoveryContext} {E : List ExtentCatalogEntry}
    (h : Recovered ctx E st) : st.GroupsHeld := by
  intro txn g hg
  rw [h.groups] at hg
  split_ifs at hg with hempty
  cases hg
  have hentry : ∀ x ∈ chunksOf E txn, st.batches.get x.reservation.batchId =
      some (recoveredBatch ctx.outcomes ctx.replicas x) :=
    fun x hx ↦ h.entry x (mem_filter.1 hx).1
  have hweigh : ∀ f f', (∀ x, f (recoveredBatch ctx.outcomes ctx.replicas x) = f' x) →
      ((chunksOf E txn).map f').sum =
        st.weigh f ((chunksOf E txn).map (·.reservation.batchId)) := by
    intro f f' hf
    rw [weigh, List.map_map]
    congr 1
    refine map_congr_left fun x hx ↦ ?_
    simp [hentry x hx, hf]
  refine ⟨by simpa [groupOf] using hempty, fun id hid ↦ ?_, hweigh _ _ fun _ ↦ rfl,
    hweigh _ _ fun _ ↦ rfl⟩
  obtain ⟨x, hx, rfl⟩ := mem_map.1 hid
  exact ⟨_, hentry x hx⟩

/-! ### Over runs -/

/-- The groups of every partition reached are held. -/
theorem EngineReachable.groupsHeld {config : EngineConfig}
    (h : EngineReachable config groupAligned e) (hst : e.states.get tp = some st) :
    st.GroupsHeld := by
  refine h.partition_invariant (P := fun _ st ↦ st.GroupsHeld) ?_ ?_ ?_ hst
  · intro tp shards sequencer policy _ txn g hg
    cases hg
  · intro e tp st answer c he hst hheld _ hrule
    obtain ⟨hs, ht⟩ := he.sound_and_tagged hst
    exact (c.outcome hs answer).groupsHeld rfl hs ht hheld hrule
  · intro e s tp st st' _ _ _ _ hr
    exact hr.groupsHeld

/-- A truncation that answers `Ok` splits no held group exactly when it starts the log between
groups. -/
theorem PartitionState.GroupsHeld.startsBetweenGroups_iff (hheld : st.GroupsHeld) (hs : st.Sound)
    {w : PartitionWatermarks} (hok : (truncate st answer tp logStart).reply = .ok w) :
    st.StartsBetweenGroups logStart ↔ ∀ txn g, st.atomicGroups.get txn = some g →
      (∀ id ∈ g.batchIds, (truncate st answer tp logStart).state.batches.firstKey ≤ id) ∨
        ∀ id ∈ g.batchIds, id < (truncate st answer tp logStart).state.batches.firstKey := by
  have hl := hs.layout
  have hlow : ∀ txn g, st.atomicGroups.get txn = some g → ∀ id ∈ g.batchIds,
      st.batches.firstKey ≤ id := by
    intro txn g hg id hid
    obtain ⟨b, hb⟩ := (hheld txn g hg).held id hid
    exact (lt_nextKey_of_get hb).1
  rcases truncate_cases st answer tp logStart with
    ⟨hstate, -, hsame⟩ | ⟨key, hkey, hsplit, hlt, hstable, hfloor, -, hstate, -⟩
  · -- the log start does not move, and every chunk is retained
    have hsame := hsame w hok
    rw [hstate]
    refine iff_of_true (fun key b hb hfirst _ txn g hg hstraddles ↦ ?_)
      fun txn g hg ↦ .inl (hlow txn g hg)
    obtain ⟨id, hid, last, hlast, hlt, -⟩ := hstraddles
    have hrange := lt_nextKey_of_get hb
    have hid := hlow txn g hg id hid
    have hoff := hl.offsetAt_lt le_rfl (show st.batches.firstKey < key by omega) hrange.2.le
    rw [offsetAt_firstKey, ← (hl.get hb).2.2.2.1] at hoff
    omega
  · obtain ⟨hfirst, hle, hoff⟩ := firstRetained_spec hs hkey hfloor hstable
    have hnext := hle.trans hs.cursors.stable.inPlace.le_nextKey
    have hfirstKey : (st.dropBefore logStart key).batches.firstKey = key :=
      firstKey_truncateBefore hfirst hnext
    rw [hstate, hfirstKey]
    constructor
    · intro hbetween txn g hg
      refine not_straddles_iff.1 fun hstraddles ↦ ?_
      obtain ⟨id, hid, last, hlast, hlt', hle'⟩ := id hstraddles
      obtain ⟨b', hb'⟩ := (hheld txn g hg).held last hlast
      have hlast_lt := (lt_nextKey_of_get hb').2
      obtain ⟨b, hb⟩ := exists_get hfirst (show key < st.batches.nextKey by omega)
      refine hbetween key b hb ((hl.get hb).2.2.2.1.trans hoff) (fun identity hidentity ↦ ?_) txn g
        hg hstraddles
      rw [mem_def] at hidentity
      simpa [continuesGroup, hb, hidentity] using hsplit
    · intro hwhole key' b hb hstart _ txn g hg
      -- the batch at the new log start is the first one retained
      have hkey' : key' = key := by
        have hrange := lt_nextKey_of_get hb
        rw [(hl.get hb).2.2.2.1, ← hoff] at hstart
        have h₁ := (hl.offsetAt_le_iff hfirst hrange.2.le hnext).1 hstart.le
        have h₂ := (hl.offsetAt_le_iff hrange.1 hnext hrange.2.le).1 hstart.ge
        omega
      rw [hkey']
      exact not_straddles_iff.2 (hwhole txn g hg)

/-- **Retention keeps groups whole.** In every state reached by runs that truncate between groups,
an accepted truncation splits no group exactly when it is between groups too, and every group lists
retained batches only and can be inspected. -/
theorem retention_keeps_groups_whole {config : EngineConfig} {e : Engine}
    (h : EngineReachable config groupAligned e) {tp : TopicPartition} {st : PartitionState}
    (hst : e.states.get tp = some st) :
    (∀ answer logStart w, (truncate st answer tp logStart).reply = .ok w →
      (st.StartsBetweenGroups logStart ↔ ∀ txn g, st.atomicGroups.get txn = some g →
        (∀ id ∈ g.batchIds, (truncate st answer tp logStart).state.batches.firstKey ≤ id) ∨
          ∀ id ∈ g.batchIds, id < (truncate st answer tp logStart).state.batches.firstKey)) ∧
    ∀ txn g, st.atomicGroups.get txn = some g →
      (∀ id ∈ g.batchIds, ∃ b, st.batches.get id = some b) ∧
        ∃ i, inspectAtomicGroup st txn = .ok i := by
  have hheld := h.groupsHeld hst
  have hs := (h.sound_and_tagged hst).1
  refine ⟨fun answer logStart w hok ↦ hheld.startsBetweenGroups_iff hs hok, fun txn g hg ↦ ?_⟩
  exact ⟨(hheld txn g hg).held, (hheld txn g hg).inspect hg⟩

/-- Truncations to the end of the log, and replica reservations that are accepted. -/
def truncatesAtEnd : Guard where
  command _ _ st c := match c with
    | .truncate logStart => st.batches.values.all (·.reservation.firstOffset != logStart)
    | .reserveReplica .. => (c.run st (.ok ())).reserved.isSome
    | _ => true
  restart _ := true

theorem truncatesAtEnd_implies : truncatesAtEnd.Implies groupAligned := by
  refine ⟨fun e tp st c h ↦ ⟨fun logStart hc key b hb hstart ↦ ?_,
    fun r producer group bytes digest hc hnone ↦ ?_⟩, fun e _ ↦ trivial⟩ <;> subst hc
  · simpa [hstart] using all_eq_true.1 h b (mem_values_of_get hb)
  · simp [truncatesAtEnd, hnone] at h

/-- A replica's batch is completed and truncated; then producer 9 writes two chunks of a group, and
the group is committed. -/
def truncatedThenGroup : List Action :=
  let chunk (sequence : Nat) : Action :=
    .reserve ⟨0, 0⟩ (some ⟨9, 0, sequence, none⟩) (some ⟨7, sequence⟩) .one 1 0
  [.create ⟨0, 0⟩ [0] ⟨1, 1, 1⟩, .command ⟨0, 0⟩ fun _ ↦ some reserveFirst, .write ⟨0, 0⟩ 0,
    .complete ⟨0, 0⟩ 0, .command ⟨0, 0⟩ fun _ ↦ some (.truncate 1), chunk 0, chunk 1,
    .write ⟨0, 0⟩ 1, .write ⟨0, 0⟩ 2, .complete ⟨0, 0⟩ 1, .complete ⟨0, 0⟩ 2, commitInterleaved]

/-- The group, recovered after a restart. -/
theorem retention_keeps_recovered_group : ∃ e st g,
    EngineReachable ⟨1, 1, 1⟩ groupAligned e ∧ e.states.get ⟨0, 0⟩ = some st ∧ st.logStart = 1 ∧
      st.atomicGroups.get 7 = some g ∧ g.batchIds = [1, 2] ∧
      ∃ i, inspectAtomicGroup st 7 = .ok i := by
  obtain ⟨e, st, he, hst, h⟩ := Engine.exists_of_play ⟨1, 1, 1⟩
    (truncatedThenGroup ++ [.restart]) ⟨0, 0⟩
    (fun _ st ↦ st.logStart = 1 ∧ ∃ g, st.atomicGroups.get 7 = some g ∧ g.batchIds = [1, 2])
    truncatesAtEnd_implies (by decide +kernel)
  obtain ⟨hstart, g, hg, hids⟩ := h
  exact ⟨e, st, g, he, hst, hstart, hg, hids, ((retention_keeps_groups_whole he hst).2 7 g hg).2⟩

/-- **Retention can split a group.** The log is started at the plain batch between two committed
chunks: the group stays with its first chunk gone, and can no longer be inspected. -/
theorem truncate_splits_group : ∃ e st, EngineReachable ⟨1, 1, 1⟩ .any e ∧
    e.states.get ⟨0, 0⟩ = some st ∧ ∃ w t, truncate st (.ok ()) ⟨0, 0⟩ 1 = t ∧ t.reply = .ok w ∧
      (∃ g, t.state.atomicGroups.get 7 = some g ∧ g.batchIds = [0, 2] ∧
        t.state.batches.firstKey = 1) ∧
      ∃ err, inspectAtomicGroup t.state 7 = .error err := by
  obtain ⟨e, st, he, hst, h⟩ := Engine.exists_of_play ⟨1, 1, 1⟩
    (interleavedGroup ++ [.complete ⟨0, 0⟩ 1, commitInterleaved]) ⟨0, 0⟩
    (fun _ st ↦
      let t := truncate st (.ok ()) ⟨0, 0⟩ 1
      (∃ w, t.reply = .ok w ∧ ∃ g, t.state.atomicGroups.get 7 = some g ∧ g.batchIds = [0, 2] ∧
        t.state.batches.firstKey = 1) ∧ ¬ (inspectAtomicGroup t.state 7).isOk)
    Guard.any_implies (by decide +kernel)
  obtain ⟨⟨w, hw, hgroup⟩, hinspect⟩ := h
  refine ⟨e, st, he, hst, w, _, rfl, hw, hgroup, ?_⟩
  cases hi : inspectAtomicGroup (truncate st (.ok ()) ⟨0, 0⟩ 1).state 7 with
  | error err => exact ⟨err, rfl⟩
  | ok i => rw [hi] at hinspect; exact absurd rfl hinspect

/-! ### How many entries the tables have -/

/-- The keys under which a table has an entry. -/
def entries {κ ν : Type} (t : Table κ ν) : Set κ := {k | t.contains k = true}

/-- A retained batch gives the key. -/
def PartitionState.Owns {κ : Type} (st : PartitionState) (owner : BatchRuntime → Option κ) (k : κ) :
    Prop :=
  ∃ id b, st.batches.get id = some b ∧ owner b = some k

/-- The key under which a batch has its receipt. -/
def BatchRuntime.receiptKey (b : BatchRuntime) : Option (Nat × Nat × Nat) := b.producer.map (·.key)

/-- The group that a batch is a chunk of. -/
def BatchRuntime.groupKey (b : BatchRuntime) : Option Nat := b.atomicGroup.map (·.transactionId)

/-- A partition stays in memory, and a truncation drops no batch under whose key there is a receipt
and no chunk of a group that is decided. -/
def receiptsRetained : RunRule where
  command _ _ st c := ∀ logStart, c = .truncate logStart → ∀ id b, st.batches.get id = some b →
    b.reservation.firstOffset < logStart →
      (∀ k ∈ b.receiptKey, k ∉ entries st.dedup) ∧ ∀ txn ∈ b.groupKey,
        txn ∉ entries st.finalizedGroups
  restart _ := False

section Owned

variable {κ : Type} {owner : BatchRuntime → Option κ} {k : κ} {c : Command} {eff : Effect}

/-- A key keeps its batch, unless a truncation drops the batch. -/
theorem Outcome.owns (h : Outcome st answer c eff) (hs : st.Sound)
    (howner : ∀ {b b'}, b.SameBatch b' → owner b' = owner b) (hk : st.Owns owner k)
    (hdropped : ∀ logStart, c = .truncate logStart → ∀ id b, st.batches.get id = some b →
      b.reservation.firstOffset < logStart → owner b ≠ some k) : eff.state.Owns owner k := by
  obtain ⟨id, b, hb, hbk⟩ := hk
  suffices hle : eff.state.batches.firstKey ≤ id by
    obtain ⟨b', hb', hsame⟩ := h.heldAfter hs hb hle
    exact ⟨id, b', hb', (howner hsame).trans hbk⟩
  obtain ⟨hge, hlt⟩ := lt_nextKey_of_get hb
  rcases h.firstKey_cases hs with heq | ⟨key, hc, hkey, -⟩
  · exact heq.trans_le hge
  · by_contra hnot
    refine hdropped _ hc id b hb ?_ hbk
    have hle := (h.range hs).firstKey_le_nextKey
    rw [(hs.layout.get hb).2.2.2.1]
    exact hs.layout.offsetAt_lt hge (by omega) (by omega)

theorem BatchRuntime.SameBatch.groupKey {b b' : BatchRuntime} (h : b.SameBatch b') :
    b'.groupKey = b.groupKey := by
  rw [BatchRuntime.groupKey, h.atomicGroup]
  rfl

theorem BatchRuntime.SameBatch.receiptKey {b b' : BatchRuntime} (h : b.SameBatch b') :
    b'.receiptKey = b.receiptKey := by
  rw [BatchRuntime.receiptKey, h.producer]
  rfl

/-- **Every group has a retained chunk**: a truncation keeps the groups whose last chunk it
keeps. -/
theorem Outcome.groupsOwned (h : Outcome st answer c eff) (hs : st.Sound) (ht : st.Tagged)
    (hgroups : ∀ txn ∈ entries st.atomicGroups, st.Owns BatchRuntime.groupKey txn) :
    ∀ txn ∈ entries eff.state.atomicGroups, eff.state.Owns BatchRuntime.groupKey txn := by
  intro txn htxn
  obtain ⟨g, hg⟩ := Table.contains_iff.1 htxn
  rcases h.firstKey_cases hs with heq | ⟨key, hc, hkey, -, hkept⟩
  · -- nothing is dropped
    have hold : st.Owns BatchRuntime.groupKey txn → eff.state.Owns BatchRuntime.groupKey txn := by
      rintro ⟨id, b, hb, hbk⟩
      obtain ⟨b', hb', hsame⟩ := h.heldAfter hs hb (heq.trans_le (lt_nextKey_of_get hb).1)
      exact ⟨id, b', hb', hsame.groupKey.trans hbk⟩
    have hbefore : ∀ g₀, st.atomicGroups.get txn = some g₀ →
      eff.state.Owns BatchRuntime.groupKey txn :=
      fun g₀ hg₀ ↦ hold (hgroups txn (Table.contains_iff.2 ⟨g₀, hg₀⟩))
    have hstep := h.groupStep hs txn
    rw [hg] at hstep
    generalize st.atomicGroups.get txn = o at hstep hbefore
    cases hstep with
    | kept | shortened | decided => exact hbefore _ rfl
    | extended _ hget _ htag => exact ⟨_, _, hget, by rw [BatchRuntime.groupKey, htag]; rfl⟩
    | refused _ _ _ _ hbatch =>
      obtain ⟨b, chunk, hget, -, -, htag⟩ := hbatch
      exact ⟨_, b, hget, by rw [BatchRuntime.groupKey, htag]; rfl⟩
  · obtain ⟨hget, last, hlast, hge⟩ := hkept txn g hg
    obtain ⟨hlt, htag⟩ := ht txn g hget last hlast
    obtain ⟨b, hb⟩ := exists_get (((h.range hs).firstKey_le.trans hkey.le).trans hge) hlt
    obtain ⟨b', hb', hsame⟩ := h.heldAfter hs hb (hkey.trans_le hge)
    exact ⟨last, b', hb', hsame.groupKey.trans (htag b hb)⟩

end Owned

/-- The entries of the three tables belong to retained batches. -/
structure PartitionState.Accounted (st : PartitionState) : Prop where
  groups : ∀ txn ∈ entries st.atomicGroups, st.Owns BatchRuntime.groupKey txn
  receipts : ∀ k ∈ entries st.dedup, st.Owns BatchRuntime.receiptKey k
  decisions : ∀ txn ∈ entries st.finalizedGroups, st.Owns BatchRuntime.groupKey txn

/-- **A command keeps the account**, if what it drops has no receipt and no decision. -/
theorem Command.accounted {config : EngineConfig} {c : Command} (h : st.Accounted) (hs : st.Sound)
    (ht : st.Tagged) (hadmits : e.Admits config tp st c)
    (hrule : receiptsRetained.command e tp st c) : (c.run st answer).state.Accounted := by
  have hout := c.outcome hs answer
  refine ⟨hout.groupsOwned hs ht h.groups, fun k hk ↦ ?_, fun txn htxn ↦ ?_⟩
  · -- a receipt is that of an old one, or of the batch that is completed
    have howns : k ∈ entries st.dedup ∨ ∃ completion, c = .complete completion ∧
        st.Owns BatchRuntime.receiptKey k := by
      obtain ⟨record, hrecord⟩ := Table.contains_iff.1 hk
      rcases hout.dedup_cases hrecord with hold | ⟨completion, p, rfl, hp, rfl⟩
      · exact .inl (Table.contains_iff.2 hold)
      · obtain ⟨-, -, -, b, hb, -, hproducer, -⟩ := hadmits
        exact .inr ⟨completion, rfl, _, b, hb, by rw [BatchRuntime.receiptKey, hproducer, hp]; rfl⟩
    rcases howns with hold | ⟨completion, rfl, howns⟩
    · refine hout.owns hs (·.receiptKey) (h.receipts k hold) fun logStart hc id b hb hlt hbk ↦ ?_
      exact (hrule logStart hc id b hb hlt).1 k hbk hold
    · exact hout.owns hs (·.receiptKey) howns fun logStart hc ↦ by cases hc
  · obtain ⟨o, ho⟩ := Table.contains_iff.1 htxn
    rcases hout.finalizedGroups_get txn with hsame | ⟨g, outcome, rfl, -, hg, -⟩
    · have hold : txn ∈ entries st.finalizedGroups := Table.contains_iff.2 ⟨o, hsame ▸ ho⟩
      refine hout.owns hs (·.groupKey) (h.decisions txn hold) fun logStart hc id b hb hlt hbk ↦ ?_
      exact (hrule logStart hc id b hb hlt).2 txn hbk hold
    · exact hout.owns hs (·.groupKey) (h.groups txn (Table.contains_iff.2 ⟨g, hg⟩))
        fun logStart hc ↦ by cases hc

end ShardStream
