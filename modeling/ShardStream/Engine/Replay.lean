import ShardStream.Engine.Recovered

/-!
# Replaying control records

One inversion lemma per kind of control record that a coordinator writes, the frame lemma that a
record touches its own partition only, and from them the shape of every replayed journal. The last
section lifts the recovery of one partition to the recovery of all of them.
-/

namespace ShardStream

open Table List Except

/-- The partition a record is about. -/
def JournalEvent.tp : JournalEvent → TopicPartition
  | .configure tp _ _ | .createPartition tp _ _ _ _ _ | .updateReplicationPolicy tp _ _ _ _
  | .truncate tp _ | .truncateCheckpoint tp _ _ _ _ | .groupCommit tp _ | .groupAbort tp _ => tp

section Events

variable {config : EngineConfig} {s s' : ReplayState} {tp : TopicPartition} {shards : List Nat}
  {epoch txn : Nat} {outcome : AtomicGroupState}

theorem checkedRing_eq_ok_iff {ring : PlacementRing} :
    checkedRing config shards = .ok ring ↔
      validateRing config shards = .ok () ∧ ring.lanes = shards := by
  unfold checkedRing
  split
  · next e he => simp [he]
  · next he =>
    simp only [ok.injEq, he, true_and]
    constructor
    · rintro rfl; rfl
    · intro h
      exact PlacementRing.ext h.symm

theorem applyEvent_configure_eq_ok_iff :
    applyEvent config s (.configure tp epoch shards) = .ok s' ↔
      ∃ ring : PlacementRing, validateRing config shards = .ok () ∧ ring.lanes = shards ∧
        (∀ last ∈ ((s.rings.get tp).getD []).getLast?, last.1 < epoch) ∧
        s' = { s.addRing tp epoch ring with
          replicationPolicies := s.replicationPolicies.insert tp
            ((s.replicationPolicies.get tp).getD config.defaultReplicationPolicy) } := by
  simp only [applyEvent, ↓unit_bind_eq_ok_iff, bind_eq_ok_iff, refuseIf_eq_ok_iff,
    checkedRing_eq_ok_iff, not_exists, not_and, not_le, and_assoc, pure, Except.pure,
    Except.ok.injEq, eq_comm (b := s')]
  rfl

theorem applyEvent_createPartition_eq_ok_iff {g f m : Nat} :
    applyEvent config s (.createPartition tp epoch shards g f m) = .ok s' ↔
      ∃ ring : PlacementRing, validateRing config shards = .ok () ∧ ring.lanes = shards ∧
        s.rings.contains tp = false ∧
        (⟨g, f, m⟩ : PartitionReplicationPolicy).validate config.replicationFactor = .ok () ∧
        s' = { s.addRing tp epoch ring with
          replicationPolicies := s.replicationPolicies.insert tp ⟨g, f, m⟩ } := by
  simp only [applyEvent, ↓unit_bind_eq_ok_iff, bind_eq_ok_iff, refuseIf_eq_ok_iff,
    checkedRing_eq_ok_iff, Bool.not_eq_true, and_assoc, pure, Except.pure, Except.ok.injEq,
    eq_comm (b := s')]
  rfl

theorem applyEvent_updateReplicationPolicy_eq_ok_iff {expected g f m : Nat} :
    applyEvent config s (.updateReplicationPolicy tp expected g f m) = .ok s' ↔
      s.rings.contains tp = true ∧
        (⟨g, f, m⟩ : PartitionReplicationPolicy).validate config.replicationFactor = .ok () ∧
        (((s.replicationPolicies.get tp).getD config.defaultReplicationPolicy = ⟨g, f, m⟩ ∧
            s' = s) ∨
          ((s.replicationPolicies.get tp).getD config.defaultReplicationPolicy ≠ ⟨g, f, m⟩ ∧
            ((s.replicationPolicies.get tp).getD
              config.defaultReplicationPolicy).policyGeneration = expected ∧
            s' = { s with
              replicationPolicies := s.replicationPolicies.insert tp ⟨g, f, m⟩ })) := by
  simp only [applyEvent, unit_bind_eq_ok_iff, refuseIf_eq_ok_iff, not_not]
  refine and_congr_right' (and_congr_right' ?_)
  split_ifs with hsame hgen
  · simp [hsame, pure, Except.pure, eq_comm]
  · simp [hsame, hgen]
  · simp [hsame, not_not.1 hgen, pure, Except.pure, eq_comm]

theorem applyEvent_truncateCheckpoint_eq_ok_iff {logStart id off seq : Nat} :
    applyEvent config s (.truncateCheckpoint tp logStart id off seq) = .ok s' ↔
      s.rings.contains tp = true ∧ s.logStart tp ≤ logStart ∧ logStart ≤ off ∧ id = seq ∧
        s' = { s with truncations := s.truncations.insert tp ⟨logStart, some (id, off, seq)⟩ } := by
  simp only [applyEvent, ite_error_eq_ok_iff, not_or, not_not, not_lt, ok.injEq, and_assoc,
    eq_comm (b := s')]

theorem recordGroupOutcome_eq_ok_iff :
    recordGroupOutcome s tp txn outcome = .ok s' ↔
      s.rings.contains tp = true ∧ (∀ o ∈ s.groupOutcomes.get (tp, txn), o = outcome) ∧
        s' = { s with groupOutcomes := s.groupOutcomes.insert (tp, txn) outcome } := by
  simp only [recordGroupOutcome, ite_error_eq_ok_iff]
  cases s.groupOutcomes.get (tp, txn) with
  | none => simp [eq_comm (a := s')]
  | some previous =>
    simp only [ite_error_eq_ok_iff, Option.mem_def, Option.some.injEq, forall_eq', not_not,
      ok.injEq, eq_comm (a := s')]

/-- A marker written for a decided group. -/
theorem applyEvent_finalizeMarker_eq_ok_iff (hout : outcome ≠ .unresolved) :
    applyEvent config s (finalizeMarker tp txn outcome) = .ok s' ↔
      s.rings.contains tp = true ∧ (∀ o ∈ s.groupOutcomes.get (tp, txn), o = outcome) ∧
        s' = { s with groupOutcomes := s.groupOutcomes.insert (tp, txn) outcome } := by
  cases outcome with
  | unresolved => exact absurd rfl hout
  | committed | aborted => exact recordGroupOutcome_eq_ok_iff

end Events

/-! ### Frames -/

/-- What the replay knows about one partition. -/
structure ReplayState.SameAt (s s' : ReplayState) (tp : TopicPartition) : Prop where
  configured : tp ∈ s'.configured ↔ tp ∈ s.configured
  rings : s'.rings.get tp = s.rings.get tp
  policies : s'.replicationPolicies.get tp = s.replicationPolicies.get tp
  truncations : s'.truncations.get tp = s.truncations.get tp
  outcomes : ∀ txn, s'.groupOutcomes.get (tp, txn) = s.groupOutcomes.get (tp, txn)

section Frames

variable {config : EngineConfig} {s s' : ReplayState} {tp : TopicPartition} {event : JournalEvent}
  {events : List JournalEvent}

theorem ReplayState.mem_configured_addRing {tp' : TopicPartition} (h : tp' ≠ tp) (epoch : Nat)
    (ring : PlacementRing) : tp' ∈ (s.addRing tp epoch ring).configured ↔ tp' ∈ s.configured := by
  simp only [ReplayState.addRing]
  split_ifs <;> simp [h]

/-- What a record that is taken can do: add a ring, or change what is known about a partition that
has one. -/
theorem applyEvent_cases (h : applyEvent config s event = .ok s') :
    (∃ epoch ring policy, s' = { s.addRing event.tp epoch ring with
      replicationPolicies := s.replicationPolicies.insert event.tp policy }) ∨
    s.rings.contains event.tp = true ∧ (s' = s ∨
      (∃ policy, s' = { s with
        replicationPolicies := s.replicationPolicies.insert event.tp policy }) ∨
      (∃ start, s' = { s with truncations := s.truncations.insert event.tp start }) ∨
      ∃ txn outcome, s' = { s with
        groupOutcomes := s.groupOutcomes.insert (event.tp, txn) outcome }) := by
  cases event with
  | configure =>
    obtain ⟨ring, -, -, -, rfl⟩ := applyEvent_configure_eq_ok_iff.1 h
    exact .inl ⟨_, ring, _, rfl⟩
  | createPartition =>
    obtain ⟨ring, -, -, -, -, rfl⟩ := applyEvent_createPartition_eq_ok_iff.1 h
    exact .inl ⟨_, ring, _, rfl⟩
  | updateReplicationPolicy =>
    obtain ⟨hknown, -, ⟨-, rfl⟩ | ⟨-, -, rfl⟩⟩ := applyEvent_updateReplicationPolicy_eq_ok_iff.1 h
    · exact .inr ⟨hknown, .inl rfl⟩
    · exact .inr ⟨hknown, .inr (.inl ⟨_, rfl⟩)⟩
  | truncate =>
    simp only [applyEvent] at h
    split_ifs at h with hknown
    cases h
    exact .inr ⟨hknown, .inr (.inr (.inl ⟨_, rfl⟩))⟩
  | truncateCheckpoint =>
    obtain ⟨hknown, -, -, -, rfl⟩ := applyEvent_truncateCheckpoint_eq_ok_iff.1 h
    exact .inr ⟨hknown, .inr (.inr (.inl ⟨_, rfl⟩))⟩
  | groupCommit | groupAbort =>
    obtain ⟨hknown, -, rfl⟩ := recordGroupOutcome_eq_ok_iff.1 h
    exact .inr ⟨hknown, .inr (.inr (.inr ⟨_, _, rfl⟩))⟩

/-- **A record touches its own partition only.** -/
theorem sameAt_of_applyEvent (h : applyEvent config s event = .ok s') (hne : tp ≠ event.tp) :
    s.SameAt s' tp := by
  obtain ⟨epoch, ring, policy, rfl⟩ |
    ⟨-, rfl | ⟨policy, rfl⟩ | ⟨start, rfl⟩ | ⟨txn, outcome, rfl⟩⟩ := applyEvent_cases h
  · exact ⟨ReplayState.mem_configured_addRing hne epoch ring, get_insert_of_ne _ _ hne,
      get_insert_of_ne _ _ hne, rfl, fun _ ↦ rfl⟩
  · exact ⟨Iff.rfl, rfl, rfl, rfl, fun _ ↦ rfl⟩
  · exact ⟨Iff.rfl, rfl, get_insert_of_ne _ _ hne, rfl, fun _ ↦ rfl⟩
  · exact ⟨Iff.rfl, rfl, rfl, get_insert_of_ne _ _ hne, fun _ ↦ rfl⟩
  · exact ⟨Iff.rfl, rfl, rfl, rfl, fun t ↦ get_insert_of_ne _ _ (by
      intro heq; exact hne (congrArg Prod.fst heq))⟩

/-- Replaying one more record. -/
theorem replay_append (events : List JournalEvent) (event : JournalEvent) :
    replay config (events ++ [event]) =
      (replay config events).bind fun s ↦ applyEvent config s event := by
  simp only [replay, foldlM_append]
  cases events.foldlM (applyEvent config) ReplayState.initial with
  | error e => rfl
  | ok s =>
    change (applyEvent config s event >>= pure) = applyEvent config s event
    rw [bind_pure]

/-- Configured partitions are exactly those with a ring history. -/
theorem mem_configured_iff_of_applyEvent (hs : ∀ tp, tp ∈ s.configured ↔ s.rings.contains tp = true)
    (h : applyEvent config s event = .ok s') (tp : TopicPartition) :
    tp ∈ s'.configured ↔ s'.rings.contains tp = true := by
  obtain ⟨epoch, ring, policy, rfl⟩ |
    ⟨-, rfl | ⟨policy, rfl⟩ | ⟨start, rfl⟩ | ⟨txn, outcome, rfl⟩⟩ := applyEvent_cases h
  · have hcontains : (s.addRing event.tp epoch ring).rings.contains tp = true ↔
        tp = event.tp ∨ s.rings.contains tp = true := by
      simp only [ReplayState.addRing, Table.contains, get_insert]
      split_ifs with heq <;> simp [heq]
    rw [hcontains]
    simp only [ReplayState.addRing]
    split_ifs with hk
    · rw [hs]
      constructor
      · exact .inr
      · rintro (rfl | h')
        · exact hk
        · exact h'
    · rw [mem_append, mem_singleton, hs, or_comm]
  all_goals exact hs tp

theorem mem_configured_iff (h : replay config events = .ok s) (tp : TopicPartition) :
    tp ∈ s.configured ↔ s.rings.contains tp = true := by
  induction events using List.reverseRecOn generalizing s tp with
  | nil =>
    cases h
    simp [ReplayState.initial, Table.contains]
  | append_singleton events event ih =>
    rw [replay_append] at h
    obtain ⟨s₀, h₀, h⟩ := bind_eq_ok_iff.1 h
    exact mem_configured_iff_of_applyEvent (ih h₀) h tp

/-- After a record its partition is configured. -/
theorem contains_of_applyEvent (h : applyEvent config s event = .ok s') :
    s'.rings.contains event.tp = true := by
  obtain ⟨epoch, ring, policy, rfl⟩ |
    ⟨hknown, rfl | ⟨policy, rfl⟩ | ⟨start, rfl⟩ | ⟨txn, outcome, rfl⟩⟩ := applyEvent_cases h
  · exact contains_iff.2 ⟨_, get_insert_self ..⟩
  all_goals exact hknown

/-- Nothing is recorded for a partition that is not configured. -/
theorem unrecorded_of_replay (h : replay config events = .ok s) (hring : s.rings.get tp = none) :
    s.truncations.get tp = none ∧ ∀ txn, s.groupOutcomes.get (tp, txn) = none := by
  induction events using List.reverseRecOn generalizing s with
  | nil =>
    cases h
    exact ⟨rfl, fun _ ↦ rfl⟩
  | append_singleton events event ih =>
    rw [replay_append] at h
    obtain ⟨s₀, h₀, h⟩ := bind_eq_ok_iff.1 h
    have hne : tp ≠ event.tp := by
      rintro rfl
      have := contains_of_applyEvent h
      rw [Table.contains, hring] at this
      cases this
    have hsame := sameAt_of_applyEvent h hne
    rw [hsame.rings] at hring
    obtain ⟨htrunc, hout⟩ := ih h₀ hring
    exact ⟨hsame.truncations.trans htrunc, fun txn ↦ (hsame.outcomes txn).trans (hout txn)⟩

/-- The hints handed to the shards are the log starts that the replay records. -/
theorem retentionHints_eq (h : replay config events = .ok s) (tp : TopicPartition) :
    retentionHints events tp = (s.truncations.get tp).map (·.logStart) := by
  induction events using reverseRecOn generalizing s with
  | nil =>
    cases h
    rfl
  | append_singleton events event ih =>
    rw [replay_append] at h
    obtain ⟨s₀, h₀, h⟩ := bind_eq_ok_iff.1 h
    have ih := ih h₀
    -- the newest log start is the largest, because the replay refuses smaller ones
    have hmax : ∀ {tp' logStart} {floor : Option (Nat × Nat × Nat)}, s₀.logStart tp' ≤ logStart →
        (if tp' = tp then some (max ((retentionHints events tp).getD 0) logStart)
          else retentionHints events tp) =
          ((s₀.truncations.insert tp' ⟨logStart, floor⟩).get tp).map (·.logStart) := by
      intro tp' logStart floor hle
      rw [get_insert]
      by_cases htp : tp' = tp
      · subst htp
        rw [if_pos rfl, if_pos rfl, ih]
        simp only [Option.map_some, Option.some.injEq]
        exact max_eq_right hle
      · rw [if_neg htp, if_neg (Ne.symm htp), ih]
    rw [retentionHints, foldl_append]
    cases event with
    | configure tp' epoch shards =>
      obtain ⟨ring, -, -, -, rfl⟩ := applyEvent_configure_eq_ok_iff.1 h
      exact ih
    | createPartition tp' epoch shards g f m =>
      obtain ⟨ring, -, -, -, -, rfl⟩ := applyEvent_createPartition_eq_ok_iff.1 h
      exact ih
    | updateReplicationPolicy tp' expected g f m =>
      obtain ⟨-, -, ⟨-, rfl⟩ | ⟨-, -, rfl⟩⟩ := applyEvent_updateReplicationPolicy_eq_ok_iff.1 h <;>
        exact ih
    | truncate tp' logStart =>
      simp only [applyEvent] at h
      split_ifs at h with hknown hlt
      cases h
      exact hmax (by omega)
    | truncateCheckpoint tp' logStart id off seq =>
      obtain ⟨-, hle, -, -, rfl⟩ := applyEvent_truncateCheckpoint_eq_ok_iff.1 h
      exact hmax hle
    | groupCommit | groupAbort =>
      obtain ⟨-, -, rfl⟩ := recordGroupOutcome_eq_ok_iff.1 h
      exact ih

/-- The extents of `tp` that a recovery visits. -/
theorem mem_partitionEntries_iff (h : replay config events = .ok s)
    {extents : List ExtentCatalogEntry} {x : ExtentCatalogEntry} :
    x ∈ partitionEntries (retainedCatalog events extents) tp ↔
      x ∈ extents ∧ x.topicPartition = tp ∧
        (s.truncation tp).logStart ≤ x.reservation.lastOffset := by
  simp only [partitionEntries, mem_insertionSort, retainedCatalog, mem_filter,
    decide_eq_true_eq, retentionHints_eq h, and_assoc]
  refine and_congr_right fun _ ↦ ?_
  rw [and_comm]
  refine and_congr_right fun htp ↦ ?_
  rw [htp, ReplayState.truncation]
  cases s.truncations.get tp <;> simp

end Frames

/-! ### All partitions -/

/-- Building a table with a fallible function: every key must succeed. -/
theorem foldlM_insert_eq_ok_iff {κ ν ε : Type} [DecidableEq κ] {f : κ → Except ε ν} :
    ∀ {keys : List κ} {t t' : Table κ ν},
      keys.foldlM (fun t k ↦ do let v ← f k; pure (t.insert k v)) t = .ok t' ↔
        (∀ k ∈ keys, ∃ v, f k = .ok v) ∧
          ∀ k, t'.get k = if k ∈ keys then (f k).toOption else t.get k
  | [], t, t' => by
    simp only [foldlM_nil, pure, Except.pure, Except.ok.injEq, not_mem_nil, if_false,
      false_implies, implies_true, true_and]
    exact ⟨fun h k ↦ h ▸ rfl, fun h ↦ ext fun k ↦ (h k).symm⟩
  | key :: keys, t, t' => by
    rw [foldlM_cons]
    cases hf : f key with
    | error e =>
      constructor
      · intro h
        obtain ⟨a, ha, -⟩ := bind_eq_ok_iff.1 h
        obtain ⟨v, hv, -⟩ := bind_eq_ok_iff.1 ha
        cases hv
      · rintro ⟨h, -⟩
        obtain ⟨v, hv⟩ := h key (by simp)
        rw [hf] at hv
        cases hv
    | ok v =>
      change keys.foldlM _ (t.insert key v) = ok t' ↔ _
      rw [foldlM_insert_eq_ok_iff]
      simp only [mem_cons, forall_eq_or_imp, get_insert]
      refine and_congr (and_iff_right ⟨v, hf⟩).symm (forall_congr' fun k ↦ ?_)
      by_cases hk : k = key
      · subst hk
        simp [hf, Except.toOption]
      · simp [hk]

/-- **Recovery of all partitions.** -/
theorem recoverPartitionStates_eq_ok_iff {config : EngineConfig} {events : List JournalEvent}
    {catalog : List ExtentCatalogEntry} {replicas : Nat}
    {states : Table TopicPartition PartitionState} :
    recoverPartitionStates config events catalog replicas = .ok states ↔
      0 < replicas ∧ replicas ≤ config.replicationFactor ∧
        ∃ s, replay config events = .ok s ∧
          (∀ e ∈ catalog, s.rings.contains e.topicPartition = true) ∧
          (∀ tp ∈ s.configured, ∃ st, recoverPartition config s catalog replicas tp = .ok st) ∧
          ∀ tp, states.get tp = if tp ∈ s.configured
            then (recoverPartition config s catalog replicas tp).toOption else none := by
  constructor
  · intro h
    obtain ⟨u, hrep, h⟩ := bind_eq_ok_iff.1 h
    obtain ⟨s, hs, h⟩ := bind_eq_ok_iff.1 h
    rw [refuseIf_eq_ok_iff] at hrep
    cases hfind : catalog.find? fun e ↦ ¬ s.rings.contains e.topicPartition with
    | some e => rw [hfind] at h; cases h
    | none =>
      rw [hfind] at h
      obtain ⟨hall, hget⟩ := foldlM_insert_eq_ok_iff.1 h
      refine ⟨by omega, by omega, s, hs, fun e he ↦ ?_, hall, hget⟩
      simpa using find?_eq_none.1 hfind e he
  · rintro ⟨hpos, hle, s, hs, hknown, hall, hget⟩
    refine bind_eq_ok_iff.2 ⟨(), refuseIf_eq_ok_iff.2 (by omega), bind_eq_ok_iff.2 ⟨s, hs, ?_⟩⟩
    have hfind : (catalog.find? fun e ↦ ¬ s.rings.contains e.topicPartition) = none :=
      find?_eq_none.2 fun e he ↦ by simp [hknown e he]
    rw [hfind]
    exact foldlM_insert_eq_ok_iff.2 ⟨hall, hget⟩

end ShardStream
