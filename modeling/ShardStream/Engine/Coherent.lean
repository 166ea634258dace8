import ShardStream.Engine.Backed

/-!
# Every reachable engine is coherent

The pieces of `Backed` are put together per partition (`Backed`) and for the whole engine
(`BackedBy`), and shown to be kept by every step: creation, commands, extents becoming durable, and
restarts. The last case is where the recovery meets the run: what `Recovered` says about the rebuilt
partition is exactly what `Backed` asks of a live one.
-/

namespace ShardStream

open PartitionCore Table ExtentCatalogEntry TopicSequencer List DenseOrderedMap

variable {s' s : ReplayState} {x : ExtentCatalogEntry} {journal : List JournalEvent} {e' : Engine}
  {tp : TopicPartition} {config : EngineConfig} {extents : List ExtentCatalogEntry}
  {inFlight : List (TopicPartition × Nat)} {st st' : PartitionState} {replicas : Nat}

/-- **A live partition backed by durable state.** -/
structure Backed (config : EngineConfig) (s : ReplayState) (extents : List ExtentCatalogEntry)
    (inFlight : List (TopicPartition × Nat)) (tp : TopicPartition)
    (st : PartitionState) : Prop where
  sound : st.Sound
  topicPartition : st.sequencer.topicPartition = tp
  journaling : Journaling config s tp st
  tagged : st.Tagged
  keys : ∀ key b, st.batches.get key = some b →
    KeyBacked ((s.rings.get tp).getD []) st.finalizedGroups extents inFlight tp key b
  stable : ∀ key b, key < st.stable.nextBatch → st.batches.get key = some b →
    b.stable = true ∨ Excused st.finalizedGroups extents inFlight tp key b
  /-- What is in flight is held. -/
  flight : ∀ id, (tp, id) ∈ inFlight → ∃ b, st.batches.get id = some b
  /-- An extent is of a batch that is held, or wholly below the log start. -/
  extents : ∀ x ∈ extents, x.topicPartition = tp →
    (x.reservation.batchId < st.batches.firstKey ∧ x.reservation.lastOffset < st.logStart) ∨
      ∃ b, st.batches.get x.reservation.batchId = some b

/-- **The engine is backed** by the replay `s` of its journal. -/
structure BackedBy (config : EngineConfig) (e : Engine) (s : ReplayState) : Prop where
  replay : replay config e.journal = .ok s
  known : ∀ tp, s.rings.contains tp = (e.states.get tp).isSome
  nodup : (e.extents.map (·.key)).Nodup
  extents : ∀ x ∈ e.extents, (e.states.get x.topicPartition).isSome = true
  flight : ∀ p ∈ e.inFlight, (e.states.get p.1).isSome = true
  backed : ∀ tp st, e.states.get tp = some st → Backed config s e.extents e.inFlight tp st

/-- The engine is backed, or its journal no longer replays. -/
def Engine.Coherent (config : EngineConfig) (e : Engine) : Prop :=
  (∃ err, replay config e.journal = .error err) ∨ ∃ s, BackedBy config e s

section Extents

variable {key : Nat}

theorem ExtentCatalogEntry.key_eq_iff :
    x.key = (tp, key) ↔ x.topicPartition = tp ∧ x.reservation.batchId = key := by
  simp [ExtentCatalogEntry.key]

end Extents

/-! ### Other partitions -/

section Frame

variable {inFlight' : List (TopicPartition × Nat)}

/-- **A partition is backed by what is said about it**: what changes elsewhere does not matter. -/
theorem Backed.frame (h : Backed config s extents inFlight tp st) (hs : s.SameAt s' tp)
    (hflight : ∀ id, (tp, id) ∈ inFlight' ↔ (tp, id) ∈ inFlight) :
    Backed config s' extents inFlight' tp st where
  sound := h.sound
  topicPartition := h.topicPartition
  journaling := by
    have hj := h.journaling
    have htrunc : s'.truncation tp = s.truncation tp := by
      simp only [ReplayState.truncation, hs.truncations]
    exact ⟨hs.rings ▸ hj.ring, hs.rings ▸ hj.epochs, hs.policies ▸ hj.policy, hj.policy_valid,
      htrunc ▸ hj.aligned, htrunc ▸ hj.logStart, fun txn ↦
      (hs.outcomes txn).trans (hj.outcomes txn)⟩
  tagged := h.tagged
  keys key b hb := by
    have hk := h.keys key b hb
    exact ⟨hs.rings ▸ hk.placed, fun hf ↦ hk.flight ((hflight key).1 hf), hk.describes,
      hk.committed, hk.aborted, hk.durable⟩
  stable key b hlt hb := (h.stable key b hlt hb).imp_right fun hex ↦
    ⟨hex.pending, fun hf ↦ hex.idle ((hflight key).1 hf), hex.lost⟩
  flight id hf := h.flight id ((hflight id).1 hf)
  extents := h.extents

end Frame

/-! ### Commands -/

section Command

variable {c : Command} {eff : Effect} {answer : Except EngineError Unit}

/-- No extent has the next batch id yet. -/
theorem Backed.fresh (h : Backed config s extents inFlight tp st) (x : ExtentCatalogEntry)
    (hx : x ∈ extents) (hkey : x.key = (tp, st.batches.nextKey)) : False := by
  obtain ⟨htp, hid⟩ := key_eq_iff.1 hkey
  rcases h.extents x hx htp with ⟨hlt, -⟩ | ⟨b, hb⟩
  · have : st.batches.firstKey ≤ st.batches.nextKey := Nat.le_add_right ..
    omega
  · have := (lt_nextKey_of_get hb).2
    omega

/-- **A command keeps its partition backed**, by the journal it leaves. -/
theorem Backed.command (h : Backed config s extents inFlight tp st) (hout : Outcome st answer c eff)
    (hset : Settling extents inFlight tp c) (hj : Journaling config s' tp eff.state)
    (hgrown : Grown s s' tp) :
    Backed config s' extents (Engine.inFlightAfter inFlight tp c eff.reserved) tp eff.state := by
  have hs := h.sound
  have hrange := hout.range hs
  have hkept : ∀ txn o, st.finalizedGroups.get txn = some o →
      eff.state.finalizedGroups.get txn = some o := by
    intro txn o ho
    rw [← hj.outcomes]
    exact hgrown.outcomes txn o (by rw [h.journaling.outcomes]; exact ho)
  refine
    { sound := hout.core_effect.sound hs
      topicPartition := ?_
      journaling := hj
      tagged := hout.tagged hs h.tagged
      keys := ?_
      stable := ?_
      flight := ?_
      extents := ?_ }
  · rw [← h.topicPartition]
    exact hout.topicPartition_eq
  · intro key b' hb'
    have hstep := hout.keyStep hs key
    rw [hb'] at hstep
    exact hstep.keyBacked hset (fun b hb ↦ h.keys key b hb) rfl h.tagged h.fresh
      h.journaling.placedIn_next hgrown.rings hkept
  · intro key b' hlt hb'
    rcases hout.core_effect.passed hs hlt hb' with hstable | ⟨hold, hreserved⟩
    · exact .inl hstable
    · have hstep := hout.keyStep hs key
      rw [hb'] at hstep
      have hne : key ≠ st.batches.nextKey := by
        have := hs.cursors.stable.inPlace.le_nextKey
        omega
      exact hstep.stable_or_excused hset (fun b hb ↦ h.keys key b hb)
        (fun b hb ↦ h.stable key b hold hb) hne hreserved hkept
  · intro id hf
    rcases mem_inFlightAfter.1 hf with ⟨hf, -⟩ | ⟨r, hr, -, rfl⟩
    · obtain ⟨b, hb⟩ := h.flight id hf
      have hpending := (h.keys id b hb).flight hf
      have hstep := hout.keyStep hs id
      rw [hb] at hstep
      -- a batch in flight is not below the stable cursor, so it is not dropped
      cases hb' : eff.state.batches.get id with
      | some b' => exact ⟨b', rfl⟩
      | none =>
        rw [hb'] at hstep
        cases hstep with
        | dropped hkey hstable =>
          rcases h.stable id b hstable hb with hst | hex
          · rw [gate_stable.pending b hpending] at hst
            cases hst
          · exact absurd hf hex.idle
    · obtain ⟨b, hb, -⟩ := hout.reserved_get hs hr
      exact ⟨b, hb⟩
  · intro x hx htp
    rcases h.extents x hx htp with ⟨hid, hoff⟩ | ⟨b, hb⟩
    · refine .inl ⟨hid.trans_le hrange.firstKey_le, hoff.trans_le ?_⟩
      rw [hrange.logStart_eq, ← offsetAt_firstKey]
      exact hs.layout.offsetAt_le hrange.firstKey_le hrange.firstKey_le_nextKey
    · rcases lt_or_ge x.reservation.batchId eff.state.batches.firstKey with hkey | hkey
      · refine .inl ⟨hkey, ?_⟩
        have hdesc := (h.keys _ b hb).describes x hx (key_eq_iff.2 ⟨htp, rfl⟩)
        rw [hrange.logStart_eq, hdesc.reservation]
        exact (hs.layout.lastOffset_lt_iff hb hrange.firstKey_le hrange.firstKey_le_nextKey).2 hkey
      · obtain ⟨b', hb', -⟩ := hout.heldAfter hs hb hkey
        exact .inr ⟨b', hb'⟩

end Command

/-! ### Restarts -/

section Restart

/-- The context in which a live partition would be recovered. -/
def PartitionState.recoveryContext (st : PartitionState) (config : EngineConfig) (s : ReplayState)
    (replicas : Nat) (tp : TopicPartition) : RecoveryContext :=
  ShardStream.recoveryContext config s replicas tp st.sequencer.ringEpoch
    st.sequencer.virtualLanes st.batches.firstKey

/-- An extent describes the batch that a recovery makes of it. -/
theorem ExtentCatalogEntry.Describes.recoveredBatch {b : BatchRuntime} (h : x.Describes b)
    (outcomes : Table Nat AtomicGroupState) (replicas : Nat) :
    x.Describes (recoveredBatch outcomes replicas x) where
  reservation := rfl
  producer := rfl
  atomicGroup := rfl
  payloadBytes := rfl
  producerDigest p hp := by
    rw [Option.mem_def] at hp
    refine ⟨(h.producerDigest p hp).1, ?_⟩
    simp [ShardStream.recoveredBatch, hp]
  groupDigest g hg := by
    rw [Option.mem_def] at hg
    simp only [ShardStream.recoveredBatch, hg]
    cases hp : x.producer with
    | none => rfl
    | some p =>
      -- producer and group were stamped with the digest of the same payload
      have h₁ := (h.producerDigest p hp).2
      have h₂ := h.groupDigest g hg
      rw [h₁] at h₂
      exact h₂

/-- Recovered groups list their own batches. -/
theorem Recovered.tagged {ctx : RecoveryContext} {E : List ExtentCatalogEntry}
    (h : Recovered ctx E st') : st'.Tagged := by
  intro txn g hg id hid
  rw [h.groups] at hg
  split_ifs at hg with hempty
  cases hg
  obtain ⟨x, hx, rfl⟩ := mem_map.1 hid
  obtain ⟨hmem, hin⟩ := mem_filter.1 hx
  have hget := h.entry x hmem
  refine ⟨(lt_nextKey_of_get hget).2, fun b hb ↦ ?_⟩
  rw [hget] at hb
  cases hb
  simp only [recoveredBatch, inGroup] at hin ⊢
  cases hgroup : x.atomicGroup with
  | none => rw [hgroup] at hin; cases hin
  | some gs =>
    rw [hgroup] at hin
    simpa [AtomicGroupSequence.identity] using hin

variable (h : Backed config s extents inFlight tp st)

include h

theorem Backed.outcomes_get (replicas txn : Nat) :
    (st.recoveryContext config s replicas tp).outcomes.get txn = st.finalizedGroups.get txn :=
  h.journaling.outcomes txn

variable (hreplay : replay config journal = .ok s)

include hreplay

/-- The extents a recovery visits are those of the batches held. -/
theorem Backed.mem_entries_iff :
    x ∈ partitionEntries (retainedCatalog journal extents) tp ↔
      x ∈ extents ∧ x.topicPartition = tp ∧
        ∃ b, st.batches.get x.reservation.batchId = some b := by
  rw [mem_partitionEntries_iff hreplay, h.journaling.logStart]
  refine and_congr_right fun hx ↦ and_congr_right fun htp ↦ ?_
  constructor
  · intro hle
    exact (h.extents x hx htp).resolve_left fun hbelow ↦ by omega
  · rintro ⟨b, hb⟩
    have hl := h.sound.layout
    have hdesc := (h.keys _ b hb).describes x hx (key_eq_iff.2 ⟨htp, rfl⟩)
    have hfirst := (hl.get hb).2.2.2.1
    have hrange := lt_nextKey_of_get hb
    have hle := hl.offsetAt_le hrange.1 hrange.2.le
    rw [offsetAt_firstKey] at hle
    have := hl.firstOffset_le_lastOffset hb
    rw [hdesc.reservation]
    omega

theorem Backed.describes (hx : x ∈ partitionEntries (retainedCatalog journal extents) tp) :
    ∃ b, st.batches.get x.reservation.batchId = some b ∧ x.Describes b := by
  obtain ⟨hmem, htp, b, hb⟩ := (h.mem_entries_iff hreplay).1 hx
  exact ⟨b, hb, (h.keys _ b hb).describes x hmem (key_eq_iff.2 ⟨htp, rfl⟩)⟩

/-- What the recovery of a live partition needs of its checkpoint and its extents. -/
theorem Backed.recoverable :
    (s.truncation tp).logStart < 2 ^ 64 ∧ st.batches.firstKey < 2 ^ 64 ∧
      ∀ x ∈ partitionEntries (retainedCatalog journal extents) tp, x.reservation.Counted := by
  have hl := h.sound.layout
  refine ⟨?_, ?_, fun x hx ↦ ?_⟩
  · have hle := hl.offsetAt_le (j := st.batches.nextKey) (Nat.le_add_right ..) le_rfl
    rw [offsetAt_firstKey, hl.offsetAt_nextKey] at hle
    rw [h.journaling.logStart]
    exact hle.trans_lt hl.offset_lt
  · have hlt := hl.sequence_lt
    have hle : st.batches.firstKey ≤ st.batches.nextKey := Nat.le_add_right ..
    rw [hl.nextPlacementSequence, hl.nextBatchId] at hlt
    exact hle.trans_lt hlt
  · obtain ⟨b, hb, hdesc⟩ := h.describes hreplay hx
    rw [hdesc.reservation]
    exact (hl.get hb).2.2.2.2.2

/-- What a successful recovery of a live partition gives. -/
theorem Backed.recovered
    (hrec : recoverPartition config s (retainedCatalog journal extents) replicas tp = .ok st') :
    Recovered (st.recoveryContext config s replicas tp)
      (partitionEntries (retainedCatalog journal extents) tp) st' := by
  obtain ⟨hoff, hkey, hcount⟩ := h.recoverable hreplay
  exact recovered_of_recoverPartition h.journaling.ring h.journaling.aligned hoff hkey hcount hrec

/-- **A recovered partition is backed** by the same durable state, with nothing in flight. -/
theorem Backed.restart (hnodup : (extents.map (·.key)).Nodup)
    (hrec : recoverPartition config s (retainedCatalog journal extents) replicas tp = .ok st') :
    Backed config s extents [] tp st' := by
  have hr := h.recovered hreplay hrec
  have hj := h.journaling
  have hfinal : st'.finalizedGroups = st.finalizedGroups := by
    rw [hr.finalizedGroups]
    exact ext fun txn ↦ hj.outcomes txn
  have hstart : st'.logStart = st.logStart := hr.logStart.trans hj.logStart
  refine
    { sound := hr.sound
      topicPartition := hr.topicPartition
      journaling := ⟨hr.ring, hj.epochs, ?_, ?_, hr.firstKey ▸ hj.aligned, hstart ▸ hj.logStart,
        fun txn ↦ hfinal ▸ hj.outcomes txn⟩
      tagged := hr.tagged
      keys := fun key b hb ↦ ?_
      stable := fun key b hlt hb ↦ .inl (hr.exact.stable key b hlt hb)
      flight := fun id hf ↦ by cases hf
      extents := fun x hx htp ↦ ?_ }
  · rw [hr.policy]
    change s.replicationPolicies.get tp = some ((s.replicationPolicies.get tp).getD _)
    rw [hj.policy]
    rfl
  · rw [hr.policy]
    change PartitionReplicationPolicy.validate ((s.replicationPolicies.get tp).getD _) _ = _
    rw [hj.policy]
    exact hj.policy_valid
  · by_cases hextent : ∃ x ∈ partitionEntries (retainedCatalog journal extents) tp,
        x.reservation.batchId = key
    · obtain ⟨x, hx, rfl⟩ := hextent
      have hget := hr.entry x hx
      rw [hb] at hget
      cases hget
      obtain ⟨hmem, htp, -⟩ := (h.mem_entries_iff hreplay).1 hx
      -- the catalog holds one extent per batch
      have hunique : ∀ y ∈ extents, y.key = (tp, x.reservation.batchId) → y = x := fun y hy hk ↦
        inj_on_of_nodup_map hnodup hy hmem (hk.trans (key_eq_iff.2 ⟨htp, rfl⟩).symm)
      obtain ⟨b, -, hdesc⟩ := h.describes hreplay hx
      have hstatus : ∀ {status}, (recoveredBatch (st.recoveryContext config s replicas tp).outcomes
            (st.recoveryContext config s replicas tp).replicas x).status = status →
          ∀ y ∈ extents, y.key = (tp, x.reservation.batchId) →
            recoveredStatus st'.finalizedGroups y.atomicGroup = status := by
        intro status hst y hy hk
        rw [hunique y hy hk, hr.finalizedGroups]
        exact hst
      exact ⟨hr.placed x hx, by simp,
        fun y hy hk ↦ hunique y hy hk ▸ hdesc.recoveredBatch .., hstatus, hstatus,
        fun _ ↦ ⟨x, hmem, key_eq_iff.2 ⟨htp, rfl⟩⟩⟩
    · obtain ⟨hplace, hplaced⟩ := (hr.other key b hb).resolve_left hextent
      -- an extent of a held batch would have been visited
      have hnone : ∀ x ∈ extents, x.key = (tp, key) → False := by
        intro x hx hk
        obtain ⟨htp, hid⟩ := key_eq_iff.1 hk
        rcases h.extents x hx htp with ⟨hlt, -⟩ | hheld
        · have hge := (lt_nextKey_of_get hb).1
          rw [hr.firstKey] at hge
          change st.batches.firstKey ≤ key at hge
          omega
        · exact hextent ⟨x, (h.mem_entries_iff hreplay).2 ⟨hx, htp, hheld⟩, hid⟩
      refine ⟨hplaced, by simp, fun x hx hk ↦ (hnone x hx hk).elim,
        fun _ x hx hk ↦ (hnone x hx hk).elim, fun _ x hx hk ↦ (hnone x hx hk).elim, fun hst ↦ ?_⟩
      rw [hplace] at hst
      rcases hst with hst | hst <;> cases hst
  · rcases h.extents x hx htp with ⟨hlt, hoff⟩ | hheld
    · refine .inl ⟨?_, by rw [hstart]; exact hoff⟩
      rw [hr.firstKey]
      exact hlt
    · exact .inr ⟨_, hr.entry x ((h.mem_entries_iff hreplay).2 ⟨hx, htp, hheld⟩)⟩

end Restart

/-! ### Extents becoming durable -/

section Write

/-- **A new extent keeps every partition backed**, if it describes a batch in flight. -/
theorem Backed.write (h : Backed config s extents inFlight tp st)
    (hx : x.topicPartition = tp → (tp, x.reservation.batchId) ∈ inFlight ∧
      ∃ b, st.batches.get x.reservation.batchId = some b ∧ x.Describes b) :
    Backed config s (extents ++ [x]) inFlight tp st := by
  -- the new extent concerns one pending batch
  have hnew : ∀ {key b}, st.batches.get key = some b →
      x.key = (tp, key) → (tp, key) ∈ inFlight ∧ b.status = .pending ∧ x.Describes b := by
    intro key b hb hk
    obtain ⟨htp, rfl⟩ := key_eq_iff.1 hk
    obtain ⟨hf, b', hb', hdesc⟩ := hx htp
    rw [hb] at hb'
    cases hb'
    exact ⟨hf, (h.keys _ b hb).flight hf, hdesc⟩
  have hsplit : ∀ {P : ExtentCatalogEntry → Prop} {key},
      (∀ y ∈ extents, y.key = (tp, key) → P y) → (x.key = (tp, key) → P x) →
      ∀ y ∈ extents ++ [x], y.key = (tp, key) → P y := by
    intro P key hold hx' y hy hk
    rcases mem_append.1 hy with hy | hy
    · exact hold y hy hk
    · rw [mem_singleton.1 hy] at hk ⊢
      exact hx' hk
  refine
    { sound := h.sound
      topicPartition := h.topicPartition
      journaling := h.journaling
      tagged := h.tagged
      keys := fun key b hb ↦ ?_
      stable := fun key b hlt hb ↦ ?_
      flight := h.flight
      extents := fun y hy htp ↦ ?_ }
  · have hk := h.keys key b hb
    refine ⟨hk.placed, hk.flight, hsplit hk.describes fun hxk ↦ (hnew hb hxk).2.2, fun hst ↦ ?_,
      fun hst ↦ ?_, fun hst ↦ ?_⟩
    · refine hsplit (hk.committed hst) fun hxk ↦ ?_
      have := (hnew hb hxk).2.1
      rw [hst] at this
      cases this
    · refine hsplit (hk.aborted hst) fun hxk ↦ ?_
      have := (hnew hb hxk).2.1
      rw [hst] at this
      cases this
    · obtain ⟨y, hy, hyk⟩ := hk.durable hst
      exact ⟨y, mem_append_left _ hy, hyk⟩
  · refine (h.stable key b hlt hb).imp_right fun hex ↦ ⟨hex.pending, hex.idle, ?_⟩
    exact hsplit hex.lost fun hxk ↦ absurd (hnew hb hxk).1 hex.idle
  · rcases mem_append.1 hy with hy | hy
    · exact h.extents y hy htp
    · rw [mem_singleton.1 hy] at htp ⊢
      obtain ⟨-, b, hb, -⟩ := hx htp
      exact .inr ⟨b, hb⟩

end Write

/-! ### Creation -/

section Create

/-- **A fresh partition is backed** by the record that created it. -/
theorem backed_created {sequencer : TopicSequencer} {shards : List Nat}
    {policy : PartitionReplicationPolicy}
    (hnew : TopicSequencer.new tp 1 shards = .ok sequencer) (hring : s.rings.get tp = none)
    (htrunc : s.truncations.get tp = none) (hout : ∀ txn, s.groupOutcomes.get (tp, txn) = none)
    (hext : ∀ x ∈ extents, x.topicPartition ≠ tp) (hflight : ∀ id, (tp, id) ∉ inFlight)
    (happly : applyEvent config s (.createPartition tp 1 shards policy.policyGeneration
      policy.replicationFactor policy.minInSyncReplicas) = .ok s') :
    Backed config s' extents inFlight tp (.empty sequencer policy) := by
  obtain ⟨hlanes, hseq⟩ := new_eq_ok_iff.1 hnew
  obtain ⟨ring, -, hring', -, hpolicy, rfl⟩ := applyEvent_createPartition_eq_ok_iff.1 happly
  have hhistory : (((s.rings.insert tp ((s.rings.get tp).getD [] ++ [(1, ring)])).get tp).getD []) =
      [(1, ring)] := by
    rw [get_insert_self, hring]
    rfl
  have hsame : ring = sequencer.virtualLanes := PlacementRing.ext (hring'.trans hlanes.symm)
  have hget : ∀ key b, (PartitionState.empty sequencer policy).batches.get key ≠ some b := by
    simp [PartitionState.empty]
  refine
    { sound := PartitionState.sound_empty hnew policy
      topicPartition := by rw [hseq]; rfl
      journaling := ⟨?_, ?_, get_insert_self .., hpolicy, ?_, ?_, hout⟩
      tagged := fun txn g hg ↦ by cases hg
      keys := fun key b hb ↦ absurd hb (hget key b)
      stable := fun key b _ hb ↦ absurd hb (hget key b)
      flight := fun id hf ↦ absurd hf (hflight id)
      extents := fun x hx htp ↦ absurd htp (hext x hx) }
  · change (((s.rings.insert tp _).get tp).getD []).getLast? = some (sequencer.ringEpoch, _)
    rw [hhistory, hseq, ← hsame]
    rfl
  · change (((s.rings.insert tp _).get tp).getD []).Pairwise _
    rw [hhistory]
    simp
  · change RecoveredTruncation.Aligned ((s.truncations.get tp).getD ⟨0, none⟩) 0
    rw [htrunc]
    exact ⟨rfl, fun _ ↦ rfl⟩
  · change RecoveredTruncation.logStart ((s.truncations.get tp).getD ⟨0, none⟩) = 0
    rw [htrunc]
    rfl

end Create

/-! ### The engine -/

section Engine

variable {rule : RunRule} {e : Engine} {states : Table TopicPartition PartitionState}

/-- A journal that does not replay never replays again. -/
theorem replay_recorded_error {err : EngineError} (h : replay config journal = .error err)
    (answer : Except EngineError Unit) (event : Option JournalEvent) :
    ∃ err', replay config (Engine.recorded journal answer event) = .error err' := by
  cases answer with
  | error => exact ⟨err, h⟩
  | ok =>
    cases event with
    | none => exact ⟨err, by simpa [Engine.recorded] using h⟩
    | some event =>
      refine ⟨err, ?_⟩
      change replay config (journal ++ [event]) = _
      rw [replay_append, h]
      rfl

/-- What a request to create a partition does. -/
theorem createPartition_cases (existing : Option PartitionState) (answer : Except EngineError Unit)
    (tp : TopicPartition) (shards : List Nat) (policy : PartitionReplicationPolicy) :
    (createPartition existing answer tp shards policy).2 = (existing, none) ∨
      ∃ sequencer, existing = none ∧ new tp 1 shards = .ok sequencer ∧
        (createPartition existing answer tp shards policy).2 = (match answer with
            | .error _ => none
            | .ok _ => some (.empty sequencer policy),
          some (.createPartition tp 1 shards policy.policyGeneration policy.replicationFactor
            policy.minInSyncReplicas)) := by
  cases existing with
  | some st =>
    left
    simp only [createPartition]
    split_ifs <;> rfl
  | none =>
    cases hnew : new tp 1 shards with
    | error e =>
      left
      simp only [createPartition, hnew]
    | ok sequencer =>
      right
      refine ⟨sequencer, rfl, rfl, ?_⟩
      cases answer <;> simp only [createPartition, hnew]

/-- A request to create a partition either changes nothing or creates it. -/
theorem Engine.created_cases (e : Engine) (tp : TopicPartition)
    (answer : Except EngineError Unit) (shards : List Nat) (policy : PartitionReplicationPolicy) :
    e.created tp answer shards policy = e ∨
      ∃ sequencer, e.states.get tp = none ∧ answer = .ok () ∧
        new tp 1 shards = .ok sequencer ∧
        e.created tp answer shards policy = { e with
          states := e.states.insert tp (.empty sequencer policy)
          journal := e.journal ++ [.createPartition tp 1 shards policy.policyGeneration
            policy.replicationFactor policy.minInSyncReplicas] } := by
  rcases createPartition_cases (e.states.get tp) answer tp shards policy with
    h | ⟨sequencer, hnone, hnew, h⟩
  · left
    simp only [Engine.created, h, recorded_eq (.inl rfl)]
    cases hget : e.states.get tp with
    | none => rfl
    | some st => simp only [insert_of_get hget]
  · simp only [Engine.created, h]
    cases answer with
    | error err => exact .inl rfl
    | ok u => exact .inr ⟨sequencer, hnone, rfl, hnew, rfl⟩

/-- A recovery of a backed engine has the same partitions, each of them rebuilt. -/
theorem BackedBy.recovers (hb : BackedBy config e s)
    (hrec : e.recover config replicas = .ok states) :
    (∀ tp, (states.get tp).isSome = (e.states.get tp).isSome) ∧ ∀ tp st', states.get tp = some st' →
      recoverPartition config s (retainedCatalog e.journal e.extents) replicas tp = .ok st' := by
  obtain ⟨-, -, s', hs', -, hall, hget⟩ := recoverPartitionStates_eq_ok_iff.1 hrec
  obtain rfl : s' = s := Except.ok.inj (hs'.symm.trans hb.replay)
  refine ⟨fun tp ↦ ?_, fun tp st' hst' ↦ ?_⟩
  · rw [hget tp, ← hb.known]
    split_ifs with hconf
    · obtain ⟨st, hst⟩ := hall tp hconf
      rw [hst, (mem_configured_iff hb.replay tp).1 hconf]
      rfl
    · rw [mem_configured_iff hb.replay, Bool.not_eq_true] at hconf
      rw [hconf]
      rfl
  · rw [hget tp] at hst'
    split_ifs at hst' with hconf
    obtain ⟨st'', hst''⟩ := hall tp hconf
    rw [hst''] at hst'
    cases hst'
    exact hst''

theorem Engine.Admits.checked (h : e.Admits config tp st c) : c.Checked config := by
  cases c <;> first | exact h | trivial

/-- **A step keeps the engine backed**, unless a group is open that was decided before. -/
theorem BackedBy.step (hb : BackedBy config e s) (hstep : EngineStep config rule e e') :
    ((∃ tp st, e.states.get tp = some st ∧ st.Redecides) ∧
      ∃ err, ShardStream.replay config e'.journal = .error err) ∨ ∃ s', BackedBy config e' s' := by
  cases hstep with
  | @create tp answer shards policy hring hpolicy =>
    rcases e.created_cases tp answer shards policy with h | ⟨sequencer, hnone, rfl, hnew, h⟩
    · rw [h]
      exact .inr ⟨s, hb⟩
    · rw [h]
      have hunknown : s.rings.contains tp = false := by rw [hb.known, hnone]; rfl
      have hrings := contains_eq_false_iff.1 hunknown
      obtain ⟨ring, hlanes⟩ : ∃ ring : PlacementRing, ring.lanes = shards :=
        ⟨sequencer.virtualLanes, (new_eq_ok_iff.1 hnew).1⟩
      have happly : applyEvent config s (.createPartition tp 1 shards policy.policyGeneration
          policy.replicationFactor policy.minInSyncReplicas) = .ok _ :=
        applyEvent_createPartition_eq_ok_iff.2 ⟨ring, hring, hlanes, hunknown, hpolicy, rfl⟩
      set s' : ReplayState := { s.addRing tp 1 ring with
        replicationPolicies := s.replicationPolicies.insert tp ⟨policy.policyGeneration,
          policy.replicationFactor, policy.minInSyncReplicas⟩ } with hs'
      have hsome : ∀ {tp'}, (e.states.get tp').isSome = true →
          ((e.states.insert tp (.empty sequencer policy)).get tp').isSome = true := by
        intro tp' h'
        rw [get_insert]
        split_ifs
        · rfl
        · exact h'
      refine .inr ⟨s', ?_, fun tp' ↦ ?_, hb.nodup, fun x hx ↦ hsome (hb.extents x hx),
        fun p hp ↦ hsome (hb.flight p hp), fun tp' st hst ↦ ?_⟩
      · rw [replay_append, hb.replay]
        exact happly
      · by_cases htp : tp' = tp
        · subst htp
          rw [get_insert_self]
          exact contains_of_applyEvent happly
        · rw [get_insert_of_ne _ _ htp, ← hb.known, Table.contains, Table.contains,
            (sameAt_of_applyEvent happly htp).rings]
      · rcases get_insert_eq_some_iff.1 hst with ⟨rfl, rfl⟩ | ⟨htp, hst⟩
        · obtain ⟨htrunc, hout⟩ := unrecorded_of_replay hb.replay hrings
          refine backed_created hnew hrings htrunc hout (fun x hx heq ↦ ?_) (fun id hf ↦ ?_) happly
          · have := hb.extents x hx
            rw [heq, hnone] at this
            cases this
          · have := hb.flight _ hf
            rw [hnone] at this
            cases this
        · exact (hb.backed tp' st hst).frame (sameAt_of_applyEvent happly htp) fun _ ↦ Iff.rfl
  | @command tp st answer c hst hadmits =>
    have hbt := hb.backed tp st hst
    have hout := c.outcome hbt.sound answer
    have hset := hadmits.settling
    rcases hout.replayed hbt.sound hbt.journaling hbt.topicPartition hb.replay hadmits.checked
      with ⟨hredecides, herr⟩ | ⟨s', hreplay, hj, hgrown, hsame, hknown⟩
    · exact .inl ⟨⟨tp, st, hst, hredecides⟩, herr⟩
    · have hsome : ∀ {tp'}, ((e.states.insert tp (c.run st answer).state).get tp').isSome =
          (e.states.get tp').isSome := by
        intro tp'
        rw [get_insert]
        split_ifs with heq
        · rw [heq, hst]
          rfl
        · rfl
      refine .inr ⟨s', hreplay, fun tp' ↦ ?_, hb.nodup, fun x hx ↦ ?_, fun p hp ↦ ?_,
        fun tp' st' hst' ↦ ?_⟩
      · rw [hknown, hb.known]
        exact hsome.symm
      · exact hsome.trans (hb.extents x hx)
      · refine hsome.trans ?_
        rcases mem_inFlightAfter.1 (show (p.1, p.2) ∈ _ from hp) with ⟨hf, -⟩ | ⟨r, -, htp, -⟩
        · exact hb.flight p hf
        · rw [htp, hst]
          rfl
      · rcases get_insert_eq_some_iff.1 hst' with ⟨rfl, rfl⟩ | ⟨htp, hst'⟩
        · exact hbt.command hout hset hj hgrown
        · refine (hb.backed tp' st' hst').frame (hsame tp' htp) fun id ↦ ?_
          rw [show (e.commanded tp st answer c).inFlight = Engine.inFlightAfter e.inFlight tp c
            (c.run st answer).reserved from rfl, mem_inFlightAfter]
          simp [htp]
  | @write tp st b x hst hflight hget hdescribes hnew =>
    have hbt := hb.backed tp st hst
    have htpx : x.topicPartition = tp := by
      rw [ExtentCatalogEntry.topicPartition, hdescribes.reservation,
        (hbt.sound.layout.get hget).1, hbt.topicPartition]
    refine .inr ⟨s, hb.replay, hb.known, ?_, fun y hy ↦ ?_, hb.flight, fun tp' st' hst' ↦ ?_⟩
    · rw [map_append, nodup_append]
      refine ⟨hb.nodup, by simp, fun k hk k' hk' heq ↦ hnew ?_⟩
      obtain ⟨y, hy, rfl⟩ := mem_map.1 hk
      rw [mem_singleton.1 hk'] at heq
      exact ⟨y, hy, heq.trans (key_eq_iff.2 ⟨htpx, rfl⟩)⟩
    · rcases mem_append.1 hy with hy | hy
      · exact hb.extents y hy
      · rw [mem_singleton.1 hy, htpx, hst]
        rfl
    · refine (hb.backed tp' st' hst').write fun htp ↦ ?_
      rw [htpx] at htp
      subst htp
      rw [hst] at hst'
      cases hst'
      exact ⟨hflight, b, hget, hdescribes⟩
  | @restart states hrule hrec =>
    obtain ⟨hsome, hall⟩ := hb.recovers hrec
    refine .inr ⟨s, hb.replay, fun tp ↦ (hb.known tp).trans (hsome tp).symm, hb.nodup,
      fun x hx ↦ (hsome _).trans (hb.extents x hx), by simp, fun tp st' hst' ↦ ?_⟩
    obtain ⟨st, hst⟩ := Option.isSome_iff_exists.1 ((hsome tp).symm.trans (by rw [hst']; rfl))
    exact (hb.backed tp st hst).restart hb.replay hb.nodup (hall tp st' hst')

/-- **Every step keeps the engine coherent.** -/
theorem Engine.Coherent.step (h : e.Coherent config) (hstep : EngineStep config rule e e') :
    e'.Coherent config := by
  rcases h with ⟨err, herr⟩ | ⟨s, hb⟩
  · left
    cases hstep with
    | @create tp answer shards policy =>
      rcases e.created_cases tp answer shards policy with h | ⟨sequencer, -, rfl, -, h⟩
      · rw [h]
        exact ⟨err, herr⟩
      · rw [h]
        exact replay_recorded_error herr (.ok ()) (some _)
    | command => exact replay_recorded_error herr ..
    | write => exact ⟨err, herr⟩
    | restart hrule hrec =>
      obtain ⟨-, -, s, hs, -⟩ := recoverPartitionStates_eq_ok_iff.1 hrec
      rw [herr] at hs
      cases hs
  · exact (hb.step hstep).imp_left And.right

theorem Engine.coherent_initial (config : EngineConfig) : Engine.initial.Coherent config :=
  .inr ⟨.initial, rfl, fun _ ↦ rfl, nodup_nil, by simp [Engine.initial],
    by simp [Engine.initial], fun _ _ h ↦ by cases h⟩

/-- Where a partition after a step comes from. -/
theorem EngineStep.partition_cases (h : EngineStep config rule e e')
    (hst' : e'.states.get tp = some st') : e.states.get tp = some st' ∨
      (∃ (shards : List Nat) (sequencer : TopicSequencer) (policy : PartitionReplicationPolicy),
        e.states.get tp = none ∧ new tp 1 shards = .ok sequencer ∧
          st' = .empty sequencer policy) ∨
      (∃ (st : PartitionState) (answer : Except EngineError Unit) (c : Command),
        e.states.get tp = some st ∧ e.Admits config tp st c ∧ rule.command e tp st c ∧
          st' = (c.run st answer).state) ∨
      ∃ states, rule.restart e ∧ e.recover config 1 = .ok states ∧ states.get tp = some st' := by
  cases h with
  | @create tp' answer shards policy =>
    rcases e.created_cases tp' answer shards policy with h | ⟨sequencer, hnone, -, hnew, h⟩
    · rw [h] at hst'
      exact .inl hst'
    · rw [h] at hst'
      rcases get_insert_eq_some_iff.1 hst' with ⟨rfl, rfl⟩ | ⟨-, hst'⟩
      · exact .inr (.inl ⟨shards, sequencer, policy, hnone, hnew, rfl⟩)
      · exact .inl hst'
  | @command tp' st answer c hst hadmits hrule =>
    rcases get_insert_eq_some_iff.1 hst' with ⟨rfl, rfl⟩ | ⟨-, hst'⟩
    · exact .inr (.inr (.inl ⟨st, answer, c, hst, hadmits, hrule, rfl⟩))
    · exact .inl hst'
  | write => exact .inl hst'
  | @restart states hrule hrec => exact .inr (.inr (.inr ⟨states, hrule, hrec, hst'⟩))

/-- The extents of `tp` that a recovery visits. -/
abbrev Engine.entries (e : Engine) (tp : TopicPartition) : List ExtentCatalogEntry :=
  partitionEntries (retainedCatalog e.journal e.extents) tp

variable (h : EngineReachable config rule e)

include h

/-- **Every reachable engine is coherent.** -/
theorem EngineReachable.coherent : e.Coherent config :=
  h.invariant (Engine.coherent_initial config) fun _ _ _ h hs ↦ h.step hs

/-- In runs that never decide a group twice, every reachable engine is backed. -/
theorem EngineReachable.backed (hrule : ∀ e, EngineReachable config rule e →
      ∀ tp st, e.states.get tp = some st → ¬ st.Redecides) : ∃ s, BackedBy config e s := by
  refine @EngineReachable.invariant config rule e (fun e ↦ ∃ s, BackedBy config e s) ?_ ?_ h
  · exact (Engine.coherent_initial config).resolve_left fun ⟨err, herr⟩ ↦ by cases herr
  · rintro e e' hreach ⟨s, hb⟩ hstep
    refine (hb.step hstep).resolve_left ?_
    rintro ⟨⟨tp, st, hst, hredecides⟩, -⟩
    exact hrule e hreach tp st hst hredecides

/-- An engine that recovers is backed. -/
theorem EngineReachable.backed_of_recover (hrec : e.recover config replicas = .ok states) :
    ∃ s, BackedBy config e s := by
  obtain ⟨-, -, s, hs, -⟩ := recoverPartitionStates_eq_ok_iff.1 hrec
  exact h.coherent.resolve_left fun ⟨err, herr⟩ ↦ by cases herr.symm.trans hs

/-- A recovery of a reachable engine rebuilds every partition from what backs it. -/
theorem EngineReachable.recovered (hrec : e.recover config replicas = .ok states)
    (hst' : states.get tp = some st') :
    ∃ s st, BackedBy config e s ∧ e.states.get tp = some st ∧
      recoverPartition config s (retainedCatalog e.journal e.extents) replicas tp = .ok st' ∧
      Recovered (st.recoveryContext config s replicas tp) (e.entries tp) st' := by
  obtain ⟨s, hb⟩ := h.backed_of_recover hrec
  obtain ⟨hsome, hall⟩ := hb.recovers hrec
  obtain ⟨st, hst⟩ := Option.isSome_iff_exists.1 ((hsome tp).symm.trans (by rw [hst']; rfl))
  have hpartition := hall tp st' hst'
  exact ⟨s, st, hb, hst, hpartition, (hb.backed tp st hst).recovered hb.replay hpartition⟩

/-- Every live partition of a reachable engine comes back from a recovery. -/
theorem EngineReachable.recovered_of_live (hrec : e.recover config replicas = .ok states)
    (hst : e.states.get tp = some st) :
    ∃ s st', BackedBy config e s ∧ states.get tp = some st' ∧
      Recovered (st.recoveryContext config s replicas tp) (e.entries tp) st' := by
  obtain ⟨s, hb⟩ := h.backed_of_recover hrec
  obtain ⟨hsome, hall⟩ := hb.recovers hrec
  obtain ⟨st', hst'⟩ := Option.isSome_iff_exists.1 ((hsome tp).trans (by rw [hst]; rfl))
  exact ⟨s, st', hb, hst', (hb.backed tp st hst).recovered hb.replay (hall tp st' hst')⟩

/-- **Invariants of all partitions**: what holds of fresh and of recovered partitions and is kept by
the commands that are executed, holds of every partition reached. -/
theorem EngineReachable.partition_invariant {P : TopicPartition → PartitionState → Prop}
    (hcreate : ∀ (tp : TopicPartition) (shards : List Nat) (sequencer : TopicSequencer)
      (policy : PartitionReplicationPolicy), new tp 1 shards = .ok sequencer →
      P tp (.empty sequencer policy))
    (hcommand : ∀ (e : Engine) (tp : TopicPartition) (st : PartitionState)
      (answer : Except EngineError Unit) (c : Command), EngineReachable config rule e →
      e.states.get tp = some st → P tp st → e.Admits config tp st c → rule.command e tp st c →
      P tp (c.run st answer).state)
    (hrestart : ∀ (e : Engine) (s : ReplayState) (tp : TopicPartition) (st st' : PartitionState),
      BackedBy config e s → e.states.get tp = some st → P tp st → rule.restart e →
      Recovered (st.recoveryContext config s 1 tp) (e.entries tp) st' → P tp st') :
    ∀ {tp : TopicPartition} {st : PartitionState}, e.states.get tp = some st → P tp st := by
  refine @h.invariant config rule e (fun e ↦ ∀ {tp st}, e.states.get tp = some st → P tp st)
    (fun hst ↦ by cases hst) ?_
  intro e e' hreach ih hstep tp st hst
  rcases hstep.partition_cases hst with hst | ⟨shards, sequencer, policy, -, hnew, rfl⟩ |
    ⟨st₀, answer, c, hst₀, hadmits, hrule, rfl⟩ | ⟨states, hrule, hrec, hst⟩
  · exact ih hst
  · exact hcreate tp shards sequencer policy hnew
  · exact hcommand e tp st₀ answer c hreach hst₀ (ih hst₀) hadmits hrule
  · obtain ⟨s, st₀, hb, hst₀, -, hr⟩ := hreach.recovered hrec hst
    exact hrestart e s tp st₀ st hb hst₀ (ih hst₀) hrule hr

/-- Every reachable partition is sound, and its groups list their own batches. -/
theorem EngineReachable.sound_and_tagged (hst : e.states.get tp = some st) :
    st.Sound ∧ st.Tagged := by
  refine h.partition_invariant (P := fun _ st ↦ st.Sound ∧ st.Tagged) ?_ ?_ ?_ hst
  · intro tp shards sequencer policy hnew
    exact ⟨PartitionState.sound_empty hnew policy, fun txn g hg ↦ by cases hg⟩
  · rintro e tp st answer c - - ⟨hs, ht⟩ - -
    have hout := c.outcome hs answer
    exact ⟨hout.core_effect.sound hs, hout.tagged hs ht⟩
  · intro e s tp st st' _ _ _ _ hr
    exact ⟨hr.sound, hr.tagged⟩

/-- A partition is kept under its own name. -/
theorem EngineReachable.topicPartition_eq (hst : e.states.get tp = some st) :
    st.sequencer.topicPartition = tp := by
  refine h.partition_invariant (P := fun tp st ↦ st.sequencer.topicPartition = tp) ?_ ?_ ?_ hst
  · intro tp shards sequencer policy hnew
    obtain ⟨-, hseq⟩ := new_eq_ok_iff.1 hnew
    rw [hseq]
    rfl
  · intro e tp st answer c he hst htp _ _
    rw [(c.outcome (he.sound_and_tagged hst).1 answer).topicPartition_eq, htp]
  · intro e s tp st st' _ _ _ _ hr
    exact hr.topicPartition

end Engine

end ShardStream
