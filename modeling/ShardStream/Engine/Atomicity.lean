import ShardStream.Engine.Coherent
import ShardStream.Engine.Script

/-!
# All or nothing

An atomic group is decided at once, but its chunks are not neighbours: other batches lie between
them. An ordered reader sees the batches below the last stable offset, and that offset stops at the
first batch that is pending or undecided. A group is therefore shown whole exactly when nothing
between its chunks stops the offset.

`finalize_atomic_group` asks that every chunk is complete; it does not look at the batches between
the chunks. When one of them is still pending at that moment, the first chunks become visible and
the last ones do not. Runs in which groups are committed only when everything between their chunks
is settled, and in which nothing between the chunks of a committed group is opened again, show
groups all or nothing.
-/

namespace ShardStream

open PartitionCore List DenseOrderedMap AtomicGroupState

variable {txn : Nat} {g : AtomicGroupRuntime} {e : Engine} {tp : TopicPartition}
  {st : PartitionState}

/-- The key lies strictly between two chunks of the group. -/
def AtomicGroupRuntime.Spans (g : AtomicGroupRuntime) (key : Nat) : Prop :=
  ∃ first ∈ g.batchIds, ∃ last ∈ g.batchIds, first < key ∧ key < last

/-- Every retained batch of another owner between two chunks of the group is committed or
aborted. -/
def PartitionState.SettledWithin (st : PartitionState) (g : AtomicGroupRuntime) : Prop :=
  ∀ key b, g.Spans key → key ∉ g.batchIds → st.batches.get key = some b → b.stable = true

/-- **All or nothing.** Either every retained chunk of the group is committed with its whole range
below the last stable offset, or no retained chunk is both committed and visible. -/
def PartitionState.AllOrNothing (st : PartitionState) (g : AtomicGroupRuntime) : Prop :=
  (∀ id ∈ g.batchIds, ∀ b, st.batches.get id = some b →
    b.status = .committed ∧ b.reservation.lastOffset < st.lastStableOffset) ∨
  ∀ id ∈ g.batchIds, ∀ b, st.batches.get id = some b →
    ¬ (b.status = .committed ∧ b.reservation.firstOffset < st.lastStableOffset)

/-- Runs that respect the chunks of groups: a group is committed when everything between its chunks
is settled, no retry opens a batch between the chunks of a committed group, and at a restart no
extent of an undecided group lies between two extents of a committed one. -/
def groupRespecting : RunRule where
  command _ _ st c :=
    (∀ txn g, c = .finalizeAtomicGroup txn .committed → st.atomicGroups.get txn = some g →
      st.SettledWithin g) ∧
    ∀ b txn g, c.reopens st = some b → st.atomicGroups.get txn = some g → g.state = .committed →
      ¬ g.Spans b.reservation.batchId
  restart e := ∀ tp st, e.states.get tp = some st → ∀ txn, ∀ x ∈ e.extents, ∀ y ∈ e.extents,
    ∀ z ∈ e.extents, x.topicPartition = tp → y.topicPartition = tp → z.topicPartition = tp →
      st.finalizedGroups.get txn = some .committed →
      x.inGroup txn = true → y.inGroup txn = true →
      st.batches.firstKey ≤ x.reservation.batchId →
      x.reservation.batchId < z.reservation.batchId →
      z.reservation.batchId < y.reservation.batchId →
      ∀ group, z.inGroup group = true →
        ∃ outcome, outcome ≠ .unresolved ∧ st.finalizedGroups.get group = some outcome

/-- **Groups are whole.** The chunks of a committed group are committed and nothing between them can
stop the stable cursor; the chunks of another group are not committed. -/
structure PartitionState.GroupsWhole (st : PartitionState) : Prop where
  opened : ∀ txn g, st.atomicGroups.get txn = some g → g.state ≠ .committed →
    ∀ id ∈ g.batchIds, ∀ b, st.batches.get id = some b → b.status ≠ .committed
  committed : ∀ txn g, st.atomicGroups.get txn = some g → g.state = .committed →
    ∀ id ∈ g.batchIds, ∀ b, st.batches.get id = some b → b.status = .committed
  within : ∀ txn g, st.atomicGroups.get txn = some g → g.state = .committed → st.SettledWithin g

/-! ### What whole groups show -/

/-- A whole group is shown all or nothing: a cursor between two chunks would be stopped by a batch
that cannot stop it. -/
theorem PartitionState.GroupsWhole.allOrNothing (h : st.GroupsWhole) (hs : st.Sound)
    (hg : st.atomicGroups.get txn = some g) : st.AllOrNothing g := by
  have hl := hs.layout
  have hc := hs.cursors.stable
  by_cases hstate : g.state = .committed
  · by_cases hshown : ∃ id ∈ g.batchIds, ∃ b, st.batches.get id = some b ∧
        b.reservation.firstOffset < st.lastStableOffset
    · obtain ⟨first, hfirst, b₀, hb₀, hlt⟩ := hshown
      refine .inl fun last hlast b hb ↦ ⟨h.committed txn g hg hstate last hlast b hb, ?_⟩
      have hfirst_lt : first < st.stable.nextBatch := by
        by_contra hle
        have := hl.offsetAt_le (Nat.not_lt.1 hle) (lt_nextKey_of_get hb₀).2.le
        rw [← hc.inPlace.offset_eq, ← (hl.get hb₀).2.2.2.1] at this
        exact absurd hlt (Nat.not_lt.2 this)
      have hlast_lt : last < st.stable.nextBatch := by
        by_contra hle
        -- the batch at the cursor is the last chunk or lies between the two
        have hkey := lt_nextKey_of_get hb
        obtain ⟨b', hb'⟩ := exists_get hc.inPlace.firstKey_le
          (show st.stable.nextBatch < st.batches.nextKey by omega)
        have hblocked := hc.blocked b' hb'
        by_cases hmem : st.stable.nextBatch ∈ g.batchIds
        · simp [BatchRuntime.stable, h.committed txn g hg hstate _ hmem b' hb'] at hblocked
        · have hne : st.stable.nextBatch ≠ last := fun heq ↦ hmem (heq ▸ hlast)
          have := h.within txn g hg hstate _ b'
            ⟨first, hfirst, last, hlast, hfirst_lt, by omega⟩ hmem hb'
          rw [this] at hblocked
          cases hblocked
      change b.reservation.lastOffset < st.stable.offset
      rw [hc.inPlace.offset_eq]
      exact (hl.lastOffset_lt_iff hb hc.inPlace.firstKey_le hc.inPlace.le_nextKey).2 hlast_lt
    · refine .inr fun id hid b hb hlt ↦ hshown ⟨id, hid, b, hb, hlt.2⟩
  · exact .inr fun id hid b hb hshown ↦ h.opened txn g hg hstate id hid b hb hshown.1

/-! ### What a command does to whole groups -/

theorem AtomicGroupState.batchStatus_eq_committed_iff {o : AtomicGroupState} :
    o.batchStatus = .committed ↔ o = .committed := by
  cases o <;> simp [batchStatus]

section Step

variable {c : Command} {eff : Effect} {answer : Except EngineError Unit} {key : Nat}
  {b b' : BatchRuntime}

/-- A committed batch stays committed as long as it is held. -/
theorem KeyStep.committed (h : KeyStep st c eff key (some b) (some b'))
    (hb : b.status = .committed) : b'.status = .committed := by
  rcases h.status_of_stable (by simp [BatchRuntime.stable, hb]) with hstatus | ⟨haborted, -⟩
  · rw [hstatus, hb]
  · simp [hb] at haborted

/-- A batch that the stable cursor can pass stays so unless a retry opens it. -/
theorem KeyStep.stable (h : KeyStep st c eff key (some b) (some b')) (hb : b.stable = true)
    (hkept : c.reopens st ≠ some b) : b'.stable = true := by
  rcases h.status_of_stable hb with hstatus | ⟨-, hreopens⟩
  · rwa [BatchRuntime.stable, hstatus]
  · exact absurd hreopens hkept

/-- A chunk becomes committed only by the decision of its own group. -/
theorem Outcome.committed_chunk (h : Outcome st answer c eff) (hs : st.Sound)
    (ht : st.Tagged) (hb' : eff.state.batches.get key = some b')
    (htag : b'.atomicGroup.map (·.transactionId) = some txn) (hcommitted : b'.status = .committed) :
    (∃ b, st.batches.get key = some b ∧ b.status = .committed) ∨
      ∃ g, eff.state.atomicGroups.get txn = some g ∧ g.state = .committed := by
  have hstep := h.keyStep hs key
  rw [hb'] at hstep
  generalize hb : st.batches.get key = o at hstep
  cases hstep with
  | kept _ hstatus => exact .inl ⟨_, rfl, hstatus ▸ hcommitted⟩
  | born _ hstatus => simp [hcommitted] at hstatus
  | @completed b _ completion hc hkey hsame hpending hstatus =>
    -- a completed chunk waits for its group
    rw [hsame.atomicGroup] at htag
    have hsome : b.atomicGroup.isSome = true := by
      cases hgroup : b.atomicGroup with
      | none => rw [hgroup] at htag; cases htag
      | some => rfl
    simp [completedStatus, hsome, hcommitted] at hstatus
  | failed _ _ _ _ hstatus => simp [hcommitted] at hstatus
  | @decided b _ txn' outcome g hc hget hmem hout hfinal hentry hsame hopen hstatus =>
    have htag' := (ht txn' g hget key hmem).2 b hb
    rw [hsame.atomicGroup, htag'] at htag
    cases htag
    refine .inr ⟨_, hentry, ?_⟩
    exact batchStatus_eq_committed_iff.1 (hstatus.symm.trans hcommitted)
  | reopened _ _ _ _ _ hstatus => simp [hcommitted] at hstatus

/-- Where a committed entry comes from. -/
theorem GroupStep.committed_entry {o : Option AtomicGroupRuntime}
    (h : GroupStep st c eff txn o (some g)) (hg : g.state = .committed) :
    (∃ g₀, o = some g₀ ∧ g₀.state = .committed ∧ g.batchIds = g₀.batchIds) ∨
      (∃ g₀ id b, o = some g₀ ∧ g₀.state = .committed ∧ id ∈ g₀.batchIds ∧
        st.batches.get id = some b ∧ b.status = .pending) ∨
      ∃ g₀, o = some g₀ ∧ g.batchIds = g₀.batchIds ∧ c = .finalizeAtomicGroup txn .committed ∧
        ∀ id ∈ g.batchIds, ∀ b, eff.state.batches.get id = some b → b.status = .committed := by
  cases h with
  | kept => exact .inl ⟨g, rfl, hg, rfl⟩
  | extended hopen => simp [AtomicGroupRuntime.withChunk, hopen] at hg
  | refused hc hrefused hstate hids =>
    rw [hg] at hstate
    cases o with
    | none => simp [AtomicGroupRuntime.new] at hstate
    | some g₀ =>
      rcases hids with ⟨hids, -⟩ | ⟨hopen, -⟩
      · exact .inl ⟨g₀, rfl, hstate.symm, hids⟩
      · rw [← hstate] at hopen
        cases hopen
  | @shortened g₀ _ r producer b chunk hc hget hres hpending htag hlast hseq ho =>
    obtain ⟨hnone, -⟩ | ⟨g', hg', hstate, -⟩ := ho
    · cases hnone
    · cases hg'
      exact .inr (.inl ⟨g₀, r.batchId, b, rfl, hstate ▸ hg, mem_of_getLast? hlast, hget, hpending⟩)
  | @decided g₀ outcome hc hopen hout hchunks hstatus =>
    subst hg
    exact .inr (.inr ⟨g₀, rfl, rfl, hc, hstatus⟩)

/-- **Groups stay whole** under a command that respects them. -/
theorem Outcome.groupsWhole (h : Outcome st answer c eff) (hs : st.Sound) (ht : st.Tagged)
    (hw : st.GroupsWhole) (hrule : groupRespecting.command e tp st c) : eff.state.GroupsWhole := by
  have hl := hs.layout
  have ht' := h.tagged hs ht
  -- a listed chunk that is held now was held before, unless it is new
  have hheld : ∀ {key b'}, key < st.batches.nextKey →
      eff.state.batches.get key = some b' → ∃ b, st.batches.get key = some b ∧
        KeyStep st c eff key (some b) (some b') := by
    intro key b' hlt hb'
    obtain ⟨b, hb, -⟩ := h.heldBefore hs hb' hlt.ne
    exact ⟨b, hb, hb ▸ hb' ▸ h.keyStep hs key⟩
  refine ⟨fun txn g hg hstate id hid b' hb' hcommitted ↦ ?_, fun txn g hg hstate id hid b' hb' ↦ ?_,
    fun txn g hg hstate key b' hspan hnot hb' ↦ ?_⟩
  · -- the chunk was committed before, so the entry before was not open
    obtain ⟨b, hb, hwas⟩ : ∃ b, st.batches.get id = some b ∧ b.status = .committed := by
      refine (h.committed_chunk hs ht hb' ((ht' txn g hg id hid).2 b' hb') hcommitted).resolve_right
        ?_
      rintro ⟨g', hg', hstate'⟩
      rw [hg] at hg'
      cases hg'
      exact hstate hstate'
    have hbefore : ((st.atomicGroups.get txn).getD .new).state ≠ .committed →
        id ∉ ((st.atomicGroups.get txn).getD .new).batchIds := by
      cases hget : st.atomicGroups.get txn with
      | none => simp [AtomicGroupRuntime.new]
      | some g₀ => exact fun hne hmem ↦ hw.opened txn g₀ hget hne id hmem b hb hwas
    have hstep := h.groupStep hs txn
    rw [hg] at hstep
    generalize st.atomicGroups.get txn = o at hstep hbefore
    cases hstep with
    | kept => exact hbefore hstate hid
    | extended hopen hget hstatus =>
      rcases mem_append.1 hid with hid | hid
      · exact hbefore (by simp [hopen]) hid
      · rw [mem_singleton.1 hid, hget] at hb'
        cases hb'
        simp [hcommitted] at hstatus
    | refused hc hrefused hsame hids hbatch =>
      rw [hsame] at hstate
      obtain ⟨b₁, chunk, hget, -, hstatus, -⟩ := hbatch
      rcases hids with ⟨hids, -⟩ | ⟨-, hids, -⟩
      · exact hbefore hstate (hids ▸ hid)
      · rw [hids] at hid
        rcases mem_append.1 hid with hid | hid
        · exact hbefore hstate hid
        · rw [mem_singleton.1 hid, hget] at hb'
          cases hb'
          simp [hcommitted] at hstatus
    | shortened hc hget hres hpending htag hlast hseq ho =>
      obtain ⟨hnone, -⟩ | ⟨g', hg', hsame, hids, -⟩ := ho
      · cases hnone
      · cases hg'
        exact hbefore (hsame ▸ hstate) (mem_of_mem_dropLast (hids ▸ hid))
    | @decided _ outcome hc hopen hout hchunks hstatus =>
      exact hstate (batchStatus_eq_committed_iff.1 ((hstatus id hid b' hb').symm.trans hcommitted))
  · have hstep := h.groupStep hs txn
    rw [hg] at hstep
    rcases hstep.committed_entry hstate with ⟨g₀, hg₀, hstate₀, hids⟩ |
      ⟨g₀, id', b, hg₀, hstate₀, hid', hb, hpending⟩ | ⟨g₀, hg₀, hids, hc, hstatus⟩
    · obtain ⟨b, hb, hkey⟩ := hheld (ht txn g₀ hg₀ id (hids ▸ hid)).1 hb'
      exact hkey.committed (hw.committed txn g₀ hg₀ hstate₀ id (hids ▸ hid) b hb)
    · simp [hw.committed txn g₀ hg₀ hstate₀ id' hid' b hb] at hpending
    · exact hstatus id hid b' hb'
  · have hstep := h.groupStep hs txn
    rw [hg] at hstep
    obtain ⟨first, hfirst, last, hlast, hlt, hgt⟩ := id hspan
    -- before the command nothing between the chunks could stop the cursor, and nothing opens it
    have hkeep : ∀ {g₀}, st.atomicGroups.get txn = some g₀ →
        g.batchIds = g₀.batchIds → st.SettledWithin g₀ →
        (∀ b, c.reopens st = some b → ¬ g₀.Spans b.reservation.batchId) → b'.stable = true := by
      intro g₀ hg₀ hids hwithin hreopens
      have hspan₀ : g₀.Spans key := by
        rw [AtomicGroupRuntime.Spans, ← hids]
        exact hspan
      have hlast_lt := (ht txn g₀ hg₀ last (hids ▸ hlast)).1
      obtain ⟨b, hb, hkey⟩ := hheld (by omega) hb'
      refine hkey.stable (hwithin key b hspan₀ (hids ▸ hnot) hb) fun hreopen ↦ ?_
      refine hreopens b hreopen ?_
      rwa [(hl.get hb).2.1]
    rcases hstep.committed_entry hstate with ⟨g₀, hg₀, hstate₀, hids⟩ |
      ⟨g₀, id', b, hg₀, hstate₀, hid', hb, hpending⟩ | ⟨g₀, hg₀, hids, hc, hstatus⟩
    · exact hkeep hg₀ hids (hw.within txn g₀ hg₀ hstate₀) fun b hb ↦ hrule.2 b txn g₀ hb hg₀ hstate₀
    · simp [hw.committed txn g₀ hg₀ hstate₀ id' hid' b hb] at hpending
    · refine hkeep hg₀ hids (hrule.1 txn g₀ hc hg₀) fun b hb ↦ ?_
      rw [hc] at hb
      cases hb

end Step

/-! ### What a restart makes of groups -/

/-- A recovered group lists extents of its own, and they have the status of the group. -/
theorem Recovered.chunk {ctx : RecoveryContext} {E : List ExtentCatalogEntry}
    (h : Recovered ctx E st) {id : Nat} (hg : st.atomicGroups.get txn = some g)
    (hid : id ∈ g.batchIds) : g.state = (ctx.outcomes.get txn).getD .unresolved ∧
      ∃ x ∈ E, x.inGroup txn = true ∧ x.reservation.batchId = id ∧
        ∀ b, st.batches.get id = some b → b.status = g.state.batchStatus := by
  rw [h.groups] at hg
  split_ifs at hg with hempty
  cases hg
  obtain ⟨x, hx, rfl⟩ := mem_map.1 hid
  obtain ⟨hmem, hin⟩ := mem_filter.1 hx
  refine ⟨rfl, x, hmem, hin, rfl, fun b hb ↦ ?_⟩
  rw [h.entry x hmem] at hb
  cases hb
  simp only [recoveredBatch, ExtentCatalogEntry.inGroup] at hin ⊢
  cases hgroup : x.atomicGroup with
  | none => rw [hgroup] at hin; cases hin
  | some gs =>
    have htxn : gs.transactionId = txn := by simpa [hgroup] using hin
    rw [recoveredStatus, htxn]

/-- **A restart leaves groups whole** when no extent of an undecided group lies between two extents
of a committed one. -/
theorem groupsWhole_restart {config : EngineConfig} {s : ReplayState} {st' : PartitionState}
    (hb : BackedBy config e s) (hst : e.states.get tp = some st) (hrule : groupRespecting.restart e)
    (hr : Recovered (st.recoveryContext config s 1 tp) (e.entries tp) st') : st'.GroupsWhole := by
  have hbacked := hb.backed tp st hst
  refine ⟨fun txn g hg hstate id hid b hget hcommitted ↦ ?_, fun txn g hg hstate id hid b hget ↦ ?_,
    fun txn g hg hstate key b hspan hnot hget ↦ ?_⟩
  · obtain ⟨-, x, -, -, -, hstatus⟩ := hr.chunk hg hid
    exact hstate (batchStatus_eq_committed_iff.1 ((hstatus b hget).symm.trans hcommitted))
  · obtain ⟨-, x, -, -, -, hstatus⟩ := hr.chunk hg hid
    rw [hstatus b hget, hstate]
    rfl
  · obtain ⟨first, hfirst, last, hlast, hlt, hgt⟩ := hspan
    obtain ⟨hout, x, hx, hxin, rfl, -⟩ := hr.chunk hg hfirst
    obtain ⟨-, y, hy, hyin, rfl, -⟩ := hr.chunk hg hlast
    rcases hr.get_cases hget with ⟨z, hz, rfl, rfl⟩ | ⟨hplaceholder, -⟩
    · obtain ⟨hx, hxtp, bx, hbx⟩ := (hbacked.mem_entries_iff hb.replay).1 hx
      obtain ⟨hy, hytp, -⟩ := (hbacked.mem_entries_iff hb.replay).1 hy
      obtain ⟨hz, hztp, -⟩ := (hbacked.mem_entries_iff hb.replay).1 hz
      have hcommitted : st.finalizedGroups.get txn = some .committed := by
        rw [← hbacked.outcomes_get 1]
        cases ho : (st.recoveryContext config s 1 tp).outcomes.get txn with
        | none =>
          rw [ho, hstate] at hout
          cases hout
        | some o =>
          rw [ho, hstate] at hout
          rw [hout]
          rfl
      have hdecided := hrule tp st hst txn x hx y hy z hz hxtp hytp hztp hcommitted hxin hyin
        (lt_nextKey_of_get hbx).1 hlt hgt
      simp only [recoveredBatch]
      cases hgroup : z.atomicGroup with
      | none => rfl
      | some gs =>
        obtain ⟨outcome, hne, hget'⟩ := hdecided gs.transactionId
          (by simp [ExtentCatalogEntry.inGroup, hgroup])
        rw [recoveredStatus, hbacked.outcomes_get, hget']
        cases outcome with
        | unresolved => exact absurd rfl hne
        | committed | aborted => rfl
    · rw [hplaceholder]
      rfl

/-! ### Over runs -/

/-- **All or nothing.** In every run that respects the chunks of groups, every reachable partition
shows each of its groups all or nothing. -/
theorem all_or_nothing_of_respecting {config : EngineConfig} {e : Engine}
    (h : EngineReachable config groupRespecting e) {tp : TopicPartition} {st : PartitionState}
    (hst : e.states.get tp = some st) {txn : Nat} {g : AtomicGroupRuntime}
    (hg : st.atomicGroups.get txn = some g) : st.AllOrNothing g := by
  have hwhole : st.GroupsWhole := by
    refine h.partition_invariant (P := fun _ st ↦ st.GroupsWhole) ?_ ?_ ?_ hst
    · intro tp shards sequencer policy _
      refine ⟨?_, ?_, ?_⟩ <;> (intro txn g hg; cases hg)
    · intro e tp st answer c he hst hw _ hrule
      obtain ⟨hs, ht⟩ := he.sound_and_tagged hst
      exact (c.outcome hs answer).groupsWhole hs ht hw hrule
    · intro e s tp st st' hb hst _ hrule hr
      exact groupsWhole_restart hb hst hrule hr
  exact hwhole.allOrNothing (h.sound_and_tagged hst).1 hg

/-- Commits of groups with settled batches between the chunks, no replica reservations and no
restarts. -/
def settledCommits : Guard where
  command _ _ st
    | .finalizeAtomicGroup txn _ => (st.atomicGroups.get txn).all fun g ↦
      (range st.batches.nextKey).all fun key ↦
        key ∈ g.batchIds || (st.batches.get key).all (·.stable)
    | .reserveReplica .. => false
    | _ => true
  restart _ := false

theorem settledCommits_implies : settledCommits.Implies groupRespecting := by
  refine ⟨fun e tp st c h ↦ ⟨fun txn g hc hg key b _ hnot hb ↦ ?_, fun b txn g hb ↦ ?_⟩,
    fun e h ↦ by cases h⟩
  · subst hc
    simp only [settledCommits, hg, Option.all_some, all_eq_true, mem_range,
      Bool.or_eq_true, decide_eq_true_eq] at h
    have := (h key (lt_nextKey_of_get hb).2).resolve_left hnot
    rwa [hb] at this
  · cases c with
    | reserveReplica => cases h
    | _ => cases hb

/-- With the batch between the chunks completed before the commit, both chunks are shown. -/
theorem all_or_nothing_of_settled_commit : ∃ e st g,
    EngineReachable ⟨1, 1, 1⟩ groupRespecting e ∧ e.states.get ⟨0, 0⟩ = some st ∧
      st.atomicGroups.get 7 = some g ∧ g.batchIds = [0, 2] ∧ st.lastStableOffset = 3 ∧
      st.AllOrNothing g := by
  obtain ⟨e, st, he, hst, h⟩ := Engine.exists_of_play ⟨1, 1, 1⟩
    (interleavedGroup ++ [.complete ⟨0, 0⟩ 1, commitInterleaved]) ⟨0, 0⟩
    (fun _ st ↦ ∃ g, st.atomicGroups.get 7 = some g ∧ g.batchIds = [0, 2] ∧ st.lastStableOffset = 3)
    settledCommits_implies (by decide +kernel)
  obtain ⟨g, hg, hids, hend⟩ := h
  exact ⟨e, st, g, he, hst, hg, hids, hend, all_or_nothing_of_respecting he hst hg⟩

/-- **A commit can expose a part of a group.** The batch between the chunks is still pending when
the group is committed: the first chunk is visible, the second is not. -/
theorem commit_exposes_part_of_group : ∃ e st g,
    EngineReachable ⟨1, 1, 1⟩ .any e ∧ e.states.get ⟨0, 0⟩ = some st ∧
      st.atomicGroups.get 7 = some g ∧ g.state = .committed ∧ ¬ st.AllOrNothing g := by
  obtain ⟨e, st, he, hst, h⟩ := Engine.exists_of_play ⟨1, 1, 1⟩
    (interleavedGroup ++ [commitInterleaved]) ⟨0, 0⟩
    (fun _ st ↦ ∃ g, st.atomicGroups.get 7 = some g ∧ g.batchIds = [0, 2] ∧ g.state = .committed ∧
      (∃ b, st.batches.get 0 = some b ∧ b.status = .committed ∧
        b.reservation.firstOffset < st.lastStableOffset) ∧
      ∃ b, st.batches.get 2 = some b ∧ st.lastStableOffset ≤ b.reservation.lastOffset)
    Guard.any_implies (by decide +kernel)
  obtain ⟨g, hg, hids, hstate, ⟨b₀, hb₀, hcommitted, hshown⟩, b₂, hb₂, hhidden⟩ := h
  refine ⟨e, st, g, he, hst, hg, hstate, ?_⟩
  rintro (hall | hnone)
  · have := (hall 2 (by simp [hids]) b₂ hb₂).2
    omega
  · exact hnone 0 (by simp [hids]) b₀ hb₀ ⟨hcommitted, hshown⟩

end ShardStream
