import ShardStream.Engine.Coherent

/-!
# Journal writes that fail late

`CoordinatorJournal::append` writes a record and then syncs the file. When the write fails the
record is cut off again; when the sync fails it stays. The coordinator treats both alike: the
command is answered with the error and the partition is left as it was. From then on the file is
**ahead** of memory by the records that were kept and answered with an error.

Recovery reads the file. It refuses a second creation of a partition, a ring epoch that does not
grow, a policy update from another generation, a log start that moves back, and two different
decisions of one group. The coordinator makes the same checks, but against memory, so a command
issued after a late failure can pass them and leave a file that recovery refuses.

What is enough: every record that reaches the file is compatible with the records the file is ahead
by (`JournalEvent.Compatible`). Then memory *trails* the file in a way that lets every further
record be replayed (`Trails`).
-/

namespace ShardStream

open PartitionCore Table Journaled

variable {tp : TopicPartition} {expected : Nat} {policy : PartitionReplicationPolicy}
  {r : JournalEvent} {shards : List Nat} {ahead : List JournalEvent} {c : Command}
  {st st' : PartitionState} {eff : Effect} {config : EngineConfig} {s s' : ReplayState}

/-! ### Faulty runs -/

/-- How the write of a control record ends. -/
inductive AppendResult where
  /-- Written and synced. -/
  | stored
  /-- Not written. -/
  | refused (error : EngineError)
  /-- Written, and answered with an error because the sync failed. -/
  | storedUnsynced (error : EngineError)

/-- What the coordinator is told. -/
def AppendResult.answer : AppendResult → Except EngineError Unit
  | .stored => .ok ()
  | .refused e | .storedUnsynced e => .error e

/-- Live partitions, the records in the file, and those among them that memory does not know. -/
structure FaultyEngine where
  states : Table TopicPartition PartitionState
  journal : List JournalEvent
  ahead : List JournalEvent

/-- An empty directory. -/
def FaultyEngine.initial : FaultyEngine := ⟨.empty, [], []⟩

/-- The engine after a record was offered to the file and memory was left with `states`. -/
def FaultyEngine.offered (f : FaultyEngine) (result : AppendResult) (event : Option JournalEvent)
    (states : Table TopicPartition PartitionState) : FaultyEngine :=
  match result with
  | .stored => { f with states, journal := f.journal ++ event.toList }
  | .refused _ => { f with states }
  | .storedUnsynced _ =>
    { states, journal := f.journal ++ event.toList, ahead := f.ahead ++ event.toList }

/-- The record that a request to create `tp` offers. -/
def FaultyEngine.creation (f : FaultyEngine) (tp : TopicPartition) (result : AppendResult)
    (shards : List Nat) (policy : PartitionReplicationPolicy) : Option JournalEvent :=
  (createPartition (f.states.get tp) result.answer tp shards policy).2.2

/-- The engine after a request to create `tp`. -/
def FaultyEngine.created (f : FaultyEngine) (tp : TopicPartition) (result : AppendResult)
    (shards : List Nat) (policy : PartitionReplicationPolicy) : FaultyEngine :=
  f.offered result (f.creation tp result shards policy)
    (match (createPartition (f.states.get tp) result.answer tp shards policy).2.1 with
      | some st => f.states.insert tp st
      | none => f.states)

/-- The engine after a command on `tp`. -/
def FaultyEngine.commanded (f : FaultyEngine) (tp : TopicPartition) (st : PartitionState)
    (result : AppendResult) (c : Command) : FaultyEngine :=
  f.offered result (c.run st result.answer).event
    (f.states.insert tp (c.run st result.answer).state)

/-- The record `r` can follow the record `a`, which is in the file and not in memory. -/
def JournalEvent.Compatible : JournalEvent → JournalEvent → Prop
  | .createPartition tp _ _ _ _ _, .createPartition tp' _ _ _ _ _ => tp ≠ tp'
  | .configure tp epoch _, .configure tp' epoch' _ => tp = tp' → epoch < epoch'
  | .updateReplicationPolicy tp _ g f m, .updateReplicationPolicy tp' expected g' f' m' =>
    tp = tp' → (g = g' ∧ f = f' ∧ m = m') ∨ g ≤ expected
  | .truncateCheckpoint tp logStart _ _ _, .truncateCheckpoint tp' logStart' _ _ _ =>
    tp = tp' → logStart ≤ logStart'
  | .groupCommit tp txn, .groupAbort tp' txn' => ¬ (tp = tp' ∧ txn = txn')
  | .groupAbort tp txn, .groupCommit tp' txn' => ¬ (tp = tp' ∧ txn = txn')
  | _, _ => True

/-- The steps of an engine whose journal may fail early or late. `allowed` restricts the records
that reach the file, given those it is ahead by. -/
inductive FaultyStep (config : EngineConfig) (allowed : List JournalEvent → JournalEvent → Prop) :
    FaultyEngine → FaultyEngine → Prop
  /-- A partition is created, or the request is refused. -/
  | create {f : FaultyEngine} {tp : TopicPartition} {result : AppendResult} {shards : List Nat}
      {policy : PartitionReplicationPolicy} (hring : validateRing config shards = .ok ())
      (hpolicy : policy.validate config.replicationFactor = .ok ())
      (hallowed : ∀ r ∈ f.creation tp result shards policy, (∀ e, result ≠ .refused e) →
        allowed f.ahead r) :
      FaultyStep config allowed f (f.created tp result shards policy)
  /-- A coordinator executes a command. -/
  | command {f : FaultyEngine} {tp : TopicPartition} {st : PartitionState} {result : AppendResult}
      {c : Command} (hst : f.states.get tp = some st) (hchecked : c.Checked config)
      (hleader : ∀ r producer group bytes digest, c ≠ .reserveReplica r producer group bytes digest)
      (hallowed : ∀ r ∈ (c.run st result.answer).event, (∀ e, result ≠ .refused e) →
        allowed f.ahead r) :
      FaultyStep config allowed f (f.commanded tp st result c)

/-- The engines reached from an empty directory. -/
def FaultyReachable (config : EngineConfig) (allowed : List JournalEvent → JournalEvent → Prop)
    (f : FaultyEngine) : Prop :=
  Relation.ReflTransGen (FaultyStep config allowed) .initial f

/-- Every record that reaches the file is compatible with those the file is ahead by. -/
def compatibleRecords (ahead : List JournalEvent) (r : JournalEvent) : Prop :=
  ∀ a ∈ ahead, a.Compatible r

/-! ### What a command does without a record -/

section Commands

variable {answer : Except EngineError Unit}

@[simp] theorem Journaled.event_write {α : Type} (st : PartitionState)
    (answer : Except EngineError Unit) (event : JournalEvent) (reply : Except EngineError α)
    (after : PartitionState) : (write st answer event reply after).event = some event := by
  cases answer <;> rfl

/-- The record a handler offers does not depend on how it will fare. -/
theorem Command.event_eq (c : Command) (st : PartitionState)
    (answer answer' : Except EngineError Unit) :
    (c.run st answer).event = (c.run st answer').event := by
  cases c with
  | finalizeAtomicGroup txn outcome =>
    simp only [Command.run, ShardStream.finalizeAtomicGroup]
    repeat' split
    all_goals simp only [event_write]
  | reconfigure epoch shards =>
    simp only [Command.run, ShardStream.reconfigure]
    repeat' split
    all_goals simp only [event_write]
  | updateReplicationPolicy expected policy =>
    simp only [Command.run, ShardStream.updateReplicationPolicy]
    repeat' split
    all_goals simp only [event_write]
  | truncate logStart =>
    simp only [Command.run, ShardStream.truncate]
    repeat' split
    all_goals simp only [event_write]
  | _ => rfl

/-- A policy update that offers a record advances the generation. -/
theorem generation_lt_of_event
    (h : (updateReplicationPolicy st answer tp expected policy).event = some r) :
    expected < policy.policyGeneration := by
  simp only [updateReplicationPolicy] at h
  split_ifs at h with hsame hgen hadvance
  all_goals first | cases h | exact not_le.1 hadvance

end Commands

/-! ### Memory trails the file -/

/-- What the file's replay `s` knows about `tp` is known to the live partition, or the file is ahead
by the record that said so. -/
structure Trails (config : EngineConfig) (s : ReplayState) (ahead : List JournalEvent)
    (tp : TopicPartition) (st : PartitionState) : Prop where
  known : s.rings.contains tp = true
  ring : ∀ last ∈ ((s.rings.get tp).getD []).getLast?,
    last.1 ≤ st.sequencer.ringEpoch ∨ ∃ shards, .configure tp last.1 shards ∈ ahead
  policy : (s.replicationPolicies.get tp).getD config.defaultReplicationPolicy =
      st.replicationPolicy ∨
    ∃ expected p, (s.replicationPolicies.get tp).getD config.defaultReplicationPolicy = p ∧
      st.replicationPolicy.policyGeneration < p.policyGeneration ∧
      .updateReplicationPolicy tp expected p.policyGeneration p.replicationFactor
        p.minInSyncReplicas ∈ ahead
  logStart : s.logStart tp ≤ st.logStart ∨
    ∃ id off seq, .truncateCheckpoint tp (s.logStart tp) id off seq ∈ ahead
  outcomes : ∀ txn o, s.groupOutcomes.get (tp, txn) = some o → o ≠ .unresolved ∧
    (st.finalizedGroups.get txn = some o ∨ finalizeMarker tp txn o ∈ ahead)

section Trails

variable {ahead' : List JournalEvent}

theorem Trails.mono (h : Trails config s ahead tp st) (hsub : ∀ a ∈ ahead, a ∈ ahead') :
    Trails config s ahead' tp st where
  known := h.known
  ring last hlast := (h.ring last hlast).imp_right fun ⟨shards, ha⟩ ↦ ⟨shards, hsub _ ha⟩
  policy := h.policy.imp_right fun ⟨expected, p, hp, hlt, ha⟩ ↦ ⟨expected, p, hp, hlt, hsub _ ha⟩
  logStart := h.logStart.imp_right fun ⟨id, off, seq, ha⟩ ↦ ⟨id, off, seq, hsub _ ha⟩
  outcomes txn o ho := (h.outcomes txn o ho).imp_right fun h ↦ h.imp_right (hsub _)

theorem Trails.congr (h : Trails config s ahead tp st) (hsame : SameControl st st') :
    Trails config s ahead tp st' where
  known := h.known
  ring := by rw [hsame.ringEpoch]; exact h.ring
  policy := by rw [hsame.policy]; exact h.policy
  logStart := by rw [hsame.logStart]; exact h.logStart
  outcomes := by rw [hsame.finalizedGroups]; exact h.outcomes

theorem Trails.frame (h : Trails config s ahead tp st) (hs : s.SameAt s' tp) :
    Trails config s' ahead tp st := by
  have hstart : s'.logStart tp = s.logStart tp := by
    rw [ReplayState.logStart, ReplayState.logStart, hs.truncations]
  refine ⟨?_, ?_, ?_, ?_, ?_⟩
  · rw [contains, hs.rings]
    exact h.known
  · rw [hs.rings]
    exact h.ring
  · rw [hs.policies]
    exact h.policy
  · rw [hstart]
    exact h.logStart
  · intro txn o ho
    rw [hs.outcomes] at ho
    exact h.outcomes txn o ho

end Trails

/-! ### The file stays readable -/

/-- What the reducer needs of every partition in the file once the records are replayed. -/
def ReplayState.Rebuildable (config : EngineConfig) (s : ReplayState) : Prop :=
  ∀ tp, s.rings.contains tp = true →
    (∃ last, ((s.rings.get tp).getD []).getLast? = some last) ∧
    ((s.replicationPolicies.get tp).getD config.defaultReplicationPolicy).validate
      config.replicationFactor = .ok () ∧
    (s.truncation tp).logStart < 2 ^ 64 ∧ ∃ key, key < 2 ^ 64 ∧ (s.truncation tp).Aligned key

/-- The record `r` can be replayed over `s`. Afterwards memory still trails the file: with `st'`
when the coordinator was told that the record is stored, and with `st` when it was not. -/
def Absorbs (config : EngineConfig) (s : ReplayState) (ahead : List JournalEvent)
    (tp : TopicPartition) (st st' : PartitionState) (r : JournalEvent) : Prop :=
  ∃ s', applyEvent config s r = .ok s' ∧ r.tp = tp ∧ s'.Rebuildable config ∧
    Trails config s' ahead tp st' ∧ Trails config s' (ahead ++ [r]) tp st

section Records

theorem Trails.behind (h : Trails config s ahead tp st) (r : JournalEvent) :
    Trails config s (ahead ++ [r]) tp st :=
  h.mono fun _ ha ↦ List.mem_append_left _ ha

theorem mem_behind (ahead : List JournalEvent) (r : JournalEvent) : r ∈ ahead ++ [r] :=
  List.mem_append_right _ (List.mem_singleton.2 rfl)

theorem ReplayState.Rebuildable.applied (h : s.Rebuildable config)
    (happly : applyEvent config s r = .ok s') (hr : r.tp = tp)
    (hlast : ∃ last, ((s'.rings.get tp).getD []).getLast? = some last)
    (hvalid : ((s'.replicationPolicies.get tp).getD config.defaultReplicationPolicy).validate
      config.replicationFactor = .ok ())
    (hstart : (s'.truncation tp).logStart < 2 ^ 64)
    (haligned : ∃ key, key < 2 ^ 64 ∧ (s'.truncation tp).Aligned key) :
    s'.Rebuildable config := by
  intro tp' hknown
  by_cases hne : tp' = tp
  · subst hne
    exact ⟨hlast, hvalid, hstart, haligned⟩
  · have hs := sameAt_of_applyEvent happly (hr ▸ hne)
    rw [contains, hs.rings] at hknown
    simp only [ReplayState.truncation, hs.rings, hs.policies, hs.truncations]
    exact h tp' hknown

variable (ht : Trails config s ahead tp st) (hrebuild : s.Rebuildable config)

include ht hrebuild

theorem Trails.absorbs_decision {txn : Nat} (g : AtomicGroupRuntime) {outcome : AtomicGroupState}
    (hout : outcome ≠ .unresolved) (hundecided : st.finalizedGroups.get txn = none)
    (hcompatible : compatibleRecords ahead (finalizeMarker tp txn outcome)) :
    Absorbs config s ahead tp st (st.decideGroup txn g outcome)
      (finalizeMarker tp txn outcome) := by
  obtain ⟨hlast, hvalid, hlog, haligned⟩ := hrebuild tp ht.known
  have hagree : ∀ o ∈ s.groupOutcomes.get (tp, txn), o = outcome := by
    intro o ho
    obtain ⟨hne, hfinal | hahead⟩ := ht.outcomes txn o ho
    · rw [hundecided] at hfinal
      cases hfinal
    · have := hcompatible _ hahead
      cases o <;> cases outcome <;> simp_all [finalizeMarker, JournalEvent.Compatible]
  have happly : applyEvent config s (finalizeMarker tp txn outcome) = .ok _ :=
    (applyEvent_finalizeMarker_eq_ok_iff hout).2 ⟨ht.known, hagree, rfl⟩
  have hrtp : (finalizeMarker tp txn outcome).tp = tp := by cases outcome <;> rfl
  refine ⟨_, happly, hrtp, hrebuild.applied happly hrtp hlast hvalid hlog haligned, ?_, ?_⟩
  · refine ⟨ht.known, ht.ring, ht.policy, ht.logStart, fun t o ho ↦ ?_⟩
    -- the decision in the file is the new one or an old one
    rcases get_insert_eq_some_iff.1 ho with ⟨⟨⟩, rfl⟩ | ⟨hne, ho⟩
    · exact ⟨hout, .inl (get_insert_self ..)⟩
    · refine (ht.outcomes t o ho).imp_right (Or.imp_left fun ho ↦ ?_)
      exact (get_insert_of_ne _ _ (by simpa using hne)).trans ho
  · have hb := ht.behind (finalizeMarker tp txn outcome)
    refine ⟨ht.known, hb.ring, hb.policy, hb.logStart, fun t o ho ↦ ?_⟩
    rcases get_insert_eq_some_iff.1 ho with ⟨⟨⟩, rfl⟩ | ⟨-, ho⟩
    · exact ⟨hout, .inr (mem_behind ..)⟩
    · exact hb.outcomes t o ho

theorem Trails.absorbs_ring {epoch : Nat} {ring : PlacementRing}
    (hring : validateRing config shards = .ok ()) (hlanes : ring.lanes = shards)
    (hgrows : st.sequencer.ringEpoch < epoch)
    (hcompatible : compatibleRecords ahead (.configure tp epoch shards)) :
    Absorbs config s ahead tp st { st with
        sequencer := { st.sequencer with ringEpoch := epoch, virtualLanes := ring } }
      (.configure tp epoch shards) := by
  obtain ⟨-, hvalid, hlog, haligned⟩ := hrebuild tp ht.known
  have hlater : ∀ last ∈ ((s.rings.get tp).getD []).getLast?, last.1 < epoch := by
    intro last hl
    rcases ht.ring last hl with hle | ⟨shards', hahead⟩
    · omega
    · exact hcompatible _ hahead rfl
  have happly : applyEvent config s (.configure tp epoch shards) = .ok _ :=
    applyEvent_configure_eq_ok_iff.2 ⟨ring, hring, hlanes, hlater, rfl⟩
  have hpolicies : ((s.replicationPolicies.insert tp ((s.replicationPolicies.get tp).getD
      config.defaultReplicationPolicy)).get tp).getD config.defaultReplicationPolicy =
      (s.replicationPolicies.get tp).getD config.defaultReplicationPolicy := by
    rw [get_insert_self]; rfl
  -- the file now ends with the new ring
  have hnewest : (((s.rings.insert tp ((s.rings.get tp).getD [] ++ [(epoch, ring)])).get
      tp).getD []).getLast? = some (epoch, ring) := by
    rw [get_insert_self, Option.getD_some, List.getLast?_concat]
  have hlast : ∀ last ∈ (((s.rings.insert tp ((s.rings.get tp).getD [] ++ [(epoch, ring)])).get
      tp).getD []).getLast?, last.1 = epoch := by
    rw [hnewest]
    rintro last ⟨⟩
    rfl
  refine ⟨_, happly, rfl, hrebuild.applied happly rfl ⟨_, hnewest⟩
    ((congrArg (·.validate config.replicationFactor) hpolicies).trans hvalid) hlog haligned, ?_, ?_⟩
  · exact ⟨contains_of_applyEvent happly, fun last hl ↦ .inl (hlast last hl).le,
      ht.policy.imp hpolicies.trans
        fun ⟨expected, p, hp, hrest⟩ ↦ ⟨expected, p, hpolicies.trans hp, hrest⟩,
      ht.logStart, ht.outcomes⟩
  · have hb := ht.behind (.configure tp epoch shards)
    refine ⟨contains_of_applyEvent happly, fun last hl ↦ .inr ⟨shards, ?_⟩, ?_, hb.logStart,
      hb.outcomes⟩
    · rw [hlast last hl]
      exact mem_behind ..
    · exact hb.policy.imp hpolicies.trans
        fun ⟨expected, p, hp, hrest⟩ ↦ ⟨expected, p, hpolicies.trans hp, hrest⟩

theorem Trails.absorbs_policy (hvalid : policy.validate config.replicationFactor = .ok ())
    (hne : st.replicationPolicy ≠ policy) (hgen : st.replicationPolicy.policyGeneration = expected)
    (hadvance : expected < policy.policyGeneration)
    (hcompatible : compatibleRecords ahead (.updateReplicationPolicy tp expected
      policy.policyGeneration policy.replicationFactor policy.minInSyncReplicas)) :
    Absorbs config s ahead tp st
      (PartitionState.resetCachedWatermarksAfterTruncate { st with replicationPolicy := policy })
      (.updateReplicationPolicy tp expected policy.policyGeneration policy.replicationFactor
        policy.minInSyncReplicas) := by
  obtain ⟨hlast, -, hlog, haligned⟩ := hrebuild tp ht.known
  have hb := ht.behind (.updateReplicationPolicy tp expected policy.policyGeneration
    policy.replicationFactor policy.minInSyncReplicas)
  -- the file's policy is memory's, or already the new one
  have hfile : (s.replicationPolicies.get tp).getD config.defaultReplicationPolicy =
        st.replicationPolicy ∨
      (s.replicationPolicies.get tp).getD config.defaultReplicationPolicy = policy := by
    refine ht.policy.imp_right ?_
    rintro ⟨expected', p, hp, hlt, hahead⟩
    rcases hcompatible _ hahead rfl with ⟨hg, hf, hm⟩ | hle
    · rw [hp]
      cases p
      cases policy
      simp_all
    · omega
  rcases hfile with hfile | hfile
  · have happly : applyEvent config s (.updateReplicationPolicy tp expected
        policy.policyGeneration policy.replicationFactor policy.minInSyncReplicas) = .ok _ :=
      applyEvent_updateReplicationPolicy_eq_ok_iff.2
        ⟨ht.known, hvalid, .inr ⟨hfile ▸ hne, hfile ▸ hgen, rfl⟩⟩
    have hnewest : ((s.replicationPolicies.insert tp policy).get tp).getD
        config.defaultReplicationPolicy = policy := by
      rw [get_insert_self]; rfl
    refine ⟨_, happly, rfl, hrebuild.applied happly rfl hlast
      ((congrArg (·.validate config.replicationFactor) hnewest).trans hvalid) hlog haligned, ?_, ?_⟩
    · exact ⟨ht.known, ht.ring, .inl hnewest, ht.logStart, ht.outcomes⟩
    · exact ⟨ht.known, hb.ring, .inr ⟨expected, policy, hnewest, hgen.trans_lt hadvance,
        mem_behind ..⟩, hb.logStart, hb.outcomes⟩
  · have happly : applyEvent config s (.updateReplicationPolicy tp expected
        policy.policyGeneration policy.replicationFactor policy.minInSyncReplicas) = .ok s :=
      applyEvent_updateReplicationPolicy_eq_ok_iff.2 ⟨ht.known, hvalid, .inl ⟨hfile, rfl⟩⟩
    exact ⟨s, happly, rfl, hrebuild, ⟨ht.known, ht.ring, .inl hfile, ht.logStart, ht.outcomes⟩, hb⟩

theorem Trails.absorbs_truncation {key off : Nat} (hkey : key < 2 ^ 64) (hoff : off < 2 ^ 64)
    (hforward : st.logStart ≤ off)
    (hcompatible : compatibleRecords ahead (.truncateCheckpoint tp off key off key)) :
    Absorbs config s ahead tp st (st.dropBefore off key)
      (.truncateCheckpoint tp off key off key) := by
  obtain ⟨hlast, hvalid, -⟩ := hrebuild tp ht.known
  have hlater : s.logStart tp ≤ off := by
    rcases ht.logStart with hle | ⟨id, off', seq, hahead⟩
    · exact hle.trans hforward
    · exact hcompatible _ hahead rfl
  let s' : ReplayState := { s with
    truncations := s.truncations.insert tp ⟨off, some (key, off, key)⟩ }
  have happly : applyEvent config s (.truncateCheckpoint tp off key off key) = .ok s' :=
    applyEvent_truncateCheckpoint_eq_ok_iff.2 ⟨ht.known, hlater, le_rfl, rfl, rfl⟩
  have hnewest : s'.truncation tp = ⟨off, some (key, off, key)⟩ := by
    simp only [s', ReplayState.truncation, get_insert_self, Option.getD_some]
  have hlogStart : s'.logStart tp = off := by
    simp only [s', ReplayState.logStart, get_insert_self, Option.map_some, Option.getD_some]
  have haligned : (s'.truncation tp).Aligned key := by
    rw [hnewest]
    exact ⟨rfl, fun h ↦ by cases h⟩
  have hb := ht.behind (.truncateCheckpoint tp off key off key)
  exact ⟨s', happly, rfl, hrebuild.applied happly rfl hlast hvalid
    ((congrArg RecoveredTruncation.logStart hnewest).trans_lt hoff) ⟨key, hkey, haligned⟩,
    ⟨ht.known, ht.ring, ht.policy, .inl hlogStart.le, ht.outcomes⟩,
    ⟨ht.known, hb.ring, hb.policy, .inr ⟨key, off, key, by rw [hlogStart]; exact mem_behind ..⟩,
      hb.outcomes⟩⟩

/-- **One record.** The record of a live partition is absorbed when it is compatible with those the
file is ahead by. -/
theorem Outcome.absorbs (h : Outcome st (.ok ()) c eff) (hs : st.Sound)
    (htp : st.sequencer.topicPartition = tp) (hopen : ¬ st.Redecides) (hchecked : c.Checked config)
    (hadvances : ∀ expected policy, c = .updateReplicationPolicy expected policy →
      expected < policy.policyGeneration) (hr : eff.event = some r)
    (hcompatible : compatibleRecords ahead r) : Absorbs config s ahead tp st eff.state r := by
  cases h with
  | quiet hreopens hepoch hevent =>
    rcases hevent with rfl | ⟨e, he⟩
    · cases hr
    · cases he
  | allocated | appended | retried | refusedRetry | completed | acknowledged | frozen | failed =>
    cases hr
  | @decided txn outcome g hanswer hget hunresolved hout =>
    cases hr
    rw [htp] at hcompatible ⊢
    have hundecided : st.finalizedGroups.get txn = none := by
      cases ho : st.finalizedGroups.get txn with
      | none => rfl
      | some o => exact absurd ⟨txn, g, o, hget, hunresolved, ho⟩ hopen
    exact ht.absorbs_decision hrebuild g hout hundecided hcompatible
  | @reconfigured epoch shards ring hanswer hlanes hepoch =>
    cases hr
    rw [htp] at hcompatible ⊢
    exact ht.absorbs_ring hrebuild hchecked hlanes hepoch hcompatible
  | @policyUpdated expected policy hanswer hne hgen =>
    cases hr
    rw [htp] at hcompatible ⊢
    exact ht.absorbs_policy hrebuild hchecked hne hgen (hadvances _ _ rfl)
      hcompatible
  | @truncated key hanswer hfirst hstable hlt =>
    cases hr
    rw [htp] at hcompatible ⊢
    have hle := hstable.trans hs.cursors.stable.inPlace.le_nextKey
    have hkey : key < 2 ^ 64 := by
      have := hs.layout.sequence_lt
      rw [hs.layout.nextPlacementSequence, hs.layout.nextBatchId] at this
      omega
    have hoff : st.offsetAt key < 2 ^ 64 := by
      have := hs.layout.offsetAt_le hle le_rfl
      rw [hs.layout.offsetAt_nextKey] at this
      exact this.trans_lt hs.layout.offset_lt
    exact ht.absorbs_truncation hrebuild hkey hoff hlt.le hcompatible

end Records

/-! ### Runs -/

/-- The file replays to `s`, every partition of `s` can be rebuilt, and memory trails `s`. -/
structure Readable (config : EngineConfig) (f : FaultyEngine) (s : ReplayState) : Prop where
  replay : replay config f.journal = .ok s
  rebuildable : s.Rebuildable config
  /-- A partition that only the file knows was created by a record the file is ahead by. -/
  unknown : ∀ tp, f.states.get tp = none → s.rings.contains tp = true →
    ∃ epoch shards g rf m, .createPartition tp epoch shards g rf m ∈ f.ahead
  sound : ∀ tp st, f.states.get tp = some st → st.Sound ∧
    st.sequencer.topicPartition = tp ∧ ¬ st.Redecides
  trails : ∀ tp st, f.states.get tp = some st → Trails config s f.ahead tp st

section Runs

variable {f f' : FaultyEngine} {journal : List JournalEvent} {result : AppendResult}

/-- One partition moves on, with at most one record about it. -/
theorem Readable.update (h : Readable config f s)
    (hreplay : ShardStream.replay config journal = .ok s') (hrebuild : s'.Rebuildable config)
    (hframe : ∀ tp', tp' ≠ tp → s.SameAt s' tp') (hahead : ∀ a ∈ f.ahead, a ∈ ahead)
    (hsound : st'.Sound ∧ st'.sequencer.topicPartition = tp ∧ ¬ st'.Redecides)
    (htrails : Trails config s' ahead tp st') :
    Readable config ⟨f.states.insert tp st', journal, ahead⟩ s' := by
  refine ⟨hreplay, hrebuild, fun tp' hnone hknown ↦ ?_, fun tp' st'' hst ↦ ?_,
    fun tp' st'' hst ↦ ?_⟩
  · have hne : tp' ≠ tp := by
      rintro rfl
      rw [get_insert_self] at hnone
      cases hnone
    rw [get_insert_of_ne _ _ hne] at hnone
    rw [contains, (hframe tp' hne).rings] at hknown
    obtain ⟨epoch, shards, g, rf, m, ha⟩ := h.unknown tp' hnone hknown
    exact ⟨epoch, shards, g, rf, m, hahead _ ha⟩
  · rcases get_insert_eq_some_iff.1 hst with ⟨rfl, rfl⟩ | ⟨hne, hst⟩
    · exact hsound
    · exact h.sound tp' st'' hst
  · rcases get_insert_eq_some_iff.1 hst with ⟨rfl, rfl⟩ | ⟨hne, hst⟩
    · exact htrails
    · exact ((h.trails tp' st'' hst).frame (hframe tp' hne)).mono hahead

theorem ReplayState.SameAt.refl (s : ReplayState) (tp : TopicPartition) : s.SameAt s tp :=
  ⟨Iff.rfl, rfl, rfl, rfl, fun _ ↦ rfl⟩

theorem replay_appended (h : replay config journal = .ok s)
    (happly : applyEvent config s r = .ok s') : replay config (journal ++ [r]) = .ok s' := by
  rw [replay_append, h]
  exact happly

theorem Readable.command (h : Readable config f s) (hst : f.states.get tp = some st)
    (hchecked : c.Checked config)
    (hleader : ∀ r producer group bytes digest, c ≠ .reserveReplica r producer group bytes digest)
    (hallowed : ∀ r ∈ (c.run st result.answer).event, (∀ e, result ≠ .refused e) →
      compatibleRecords f.ahead r) : ∃ s', Readable config (f.commanded tp st result c) s' := by
  obtain ⟨hs, htp, hopen⟩ := h.sound tp st hst
  have ht := h.trails tp st hst
  have hout := c.outcome hs result.answer
  have hsound : (c.run st result.answer).state.Sound ∧
      (c.run st result.answer).state.sequencer.topicPartition = tp ∧
      ¬ (c.run st result.answer).state.Redecides :=
    ⟨hout.core_effect.sound hs, hout.topicPartition_eq.trans htp,
      hout.not_redecides hs hleader hopen⟩
  have hframe : ∀ {r s'}, applyEvent config s r = .ok s' → r.tp = tp → ∀ tp', tp' ≠ tp →
      s.SameAt s' tp' := fun happly hr tp' hne ↦ sameAt_of_applyEvent happly (hr ▸ hne)
  -- a record that reaches the file is absorbed, whatever the coordinator is told
  have habsorbs : ∀ r, (c.run st result.answer).event = some r → (∀ e, result ≠ .refused e) →
      Absorbs config s f.ahead tp st (c.run st (.ok ())).state r := by
    intro r hr hreached
    refine (c.outcome hs (.ok ())).absorbs ht h.rebuildable hs htp hopen hchecked ?_
      (by rw [c.event_eq st _ result.answer]; exact hr) (hallowed r hr hreached)
    rintro expected policy rfl
    exact generation_lt_of_event hr
  cases hevent : (c.run st result.answer).event with
  | none =>
    have hsame := ht.congr (hout.sameControl (.inl hevent))
    refine ⟨s, ?_⟩
    have hupdate := h.update h.replay h.rebuildable (fun _ _ ↦ .refl s _) (fun _ ha ↦ ha)
      hsound hsame
    cases result <;> simpa [FaultyEngine.commanded, FaultyEngine.offered, hevent] using hupdate
  | some r =>
    cases result with
    | refused e =>
      have hsame := ht.congr (hout.sameControl (.inr ⟨e, rfl⟩))
      exact ⟨s, h.update h.replay h.rebuildable (fun _ _ ↦ .refl s _) (fun _ ha ↦ ha) hsound hsame⟩
    | stored =>
      obtain ⟨s', happly, hr, hrebuild, htrails, -⟩ := habsorbs r hevent (by simp)
      refine ⟨s', ?_⟩
      have hupdate := h.update (replay_appended h.replay happly) hrebuild (hframe happly hr)
        (fun _ ha ↦ ha) hsound htrails
      simpa [FaultyEngine.commanded, FaultyEngine.offered, hevent] using hupdate
    | storedUnsynced e =>
      obtain ⟨s', happly, hr, hrebuild, -, htrails⟩ := habsorbs r hevent (by simp)
      refine ⟨s', ?_⟩
      have hupdate := h.update (replay_appended h.replay happly) hrebuild (hframe happly hr)
        (fun _ ha ↦ List.mem_append_left _ ha) hsound
        (htrails.congr (hout.sameControl (.inr ⟨e, rfl⟩)))
      simpa [FaultyEngine.commanded, FaultyEngine.offered, hevent] using hupdate

/-- A creation that the file can take is replayed, and a fresh partition trails it. -/
theorem Readable.creation (h : Readable config f s) {sequencer : TopicSequencer}
    (hring : validateRing config shards = .ok ())
    (hpolicy : policy.validate config.replicationFactor = .ok ())
    (hnew : TopicSequencer.new tp 1 shards = .ok sequencer) (hunknown : s.rings.get tp = none) :
    ∃ s', applyEvent config s (.createPartition tp 1 shards policy.policyGeneration
        policy.replicationFactor policy.minInSyncReplicas) = .ok s' ∧ s'.Rebuildable config ∧
      Trails config s' f.ahead tp (.empty sequencer policy) := by
  obtain ⟨htrunc, hout⟩ := unrecorded_of_replay h.replay hunknown
  have happly : applyEvent config s (.createPartition tp 1 shards policy.policyGeneration
      policy.replicationFactor policy.minInSyncReplicas) = .ok _ :=
    applyEvent_createPartition_eq_ok_iff.2 ⟨sequencer.virtualLanes, hring,
      (TopicSequencer.new_eq_ok_iff.1 hnew).1, contains_eq_false_iff.2 hunknown, hpolicy, rfl⟩
  have hbacked : Backed config _ [] [] tp (.empty sequencer policy) :=
    backed_created hnew hunknown htrunc hout (by simp) (by simp) happly
  have hj := hbacked.journaling
  have hvalue : ∀ {o : Option PartitionReplicationPolicy} {p d}, o = some p → o.getD d = p := by
    rintro o p d rfl
    rfl
  refine ⟨_, happly, h.rebuildable.applied happly rfl ⟨_, hj.ring⟩ ?_ ?_ ⟨0, by omega, hj.aligned⟩,
    ⟨contains_of_applyEvent happly, fun last hl ↦ .inl ?_, .inl (hvalue hj.policy), .inl ?_,
      fun txn o ho ↦ ?_⟩⟩
  · exact (congrArg (·.validate config.replicationFactor) (hvalue hj.policy)).trans hpolicy
  · exact hj.logStart.trans_lt (by simp [PartitionState.empty])
  · rw [hj.ring] at hl
    cases hl
    exact le_rfl
  · change ((s.truncations.get tp).map _).getD 0 ≤ _
    rw [htrunc]
    exact Nat.zero_le _
  · exact absurd ((hout txn).symm.trans ho) (by simp)

theorem Readable.create (h : Readable config f s) (hring : validateRing config shards = .ok ())
    (hpolicy : policy.validate config.replicationFactor = .ok ())
    (hallowed : ∀ r ∈ f.creation tp result shards policy, (∀ e, result ≠ .refused e) →
      compatibleRecords f.ahead r) :
    ∃ s', Readable config (f.created tp result shards policy) s' := by
  rcases createPartition_cases (f.states.get tp) result.answer tp shards policy with
    hcase | ⟨sequencer, hnone, hnew, hcase⟩
  · -- nothing is offered and nothing changes
    have hstates : (match f.states.get tp with
        | some st => f.states.insert tp st
        | none => f.states) = f.states := by
      cases hget : f.states.get tp with
      | none => rfl
      | some st => exact insert_of_get hget
    refine ⟨s, ?_⟩
    rw [FaultyEngine.created, FaultyEngine.creation, hcase, hstates]
    cases result <;> simpa [FaultyEngine.offered] using h
  · have hcreation : f.creation tp result shards policy = some (.createPartition tp 1 shards
        policy.policyGeneration policy.replicationFactor policy.minInSyncReplicas) := by
      rw [FaultyEngine.creation, hcase]
    -- a partition that is in the file cannot be created again
    have hunknown : (∀ e, result ≠ .refused e) → s.rings.get tp = none := by
      intro hreached
      rw [← contains_eq_false_iff, ← Bool.not_eq_true]
      intro hknown
      obtain ⟨epoch, shards', g, rf, m, ha⟩ := h.unknown tp hnone hknown
      exact hallowed _ hcreation hreached _ ha rfl
    cases result with
    | refused e =>
      refine ⟨s, ?_⟩
      rw [FaultyEngine.created, hcase]
      exact h
    | stored =>
      obtain ⟨s', happly, hrebuild, htrails⟩ := h.creation hring hpolicy hnew (hunknown (by simp))
      have hseq := (TopicSequencer.new_eq_ok_iff.1 hnew).2
      refine ⟨s', ?_⟩
      have hupdate := h.update (replay_appended h.replay happly) hrebuild
        (fun tp' hne ↦ sameAt_of_applyEvent happly hne) (fun _ ha ↦ ha)
        ⟨PartitionState.sound_empty hnew policy, by rw [hseq]; rfl,
          by rintro ⟨txn, g, o, hg, -⟩; cases hg⟩ htrails
      rw [FaultyEngine.created, hcreation, hcase]
      exact hupdate
    | storedUnsynced e =>
      obtain ⟨s', happly, hrebuild, -⟩ := h.creation hring hpolicy hnew (hunknown (by simp))
      rw [FaultyEngine.created, hcreation, hcase]
      refine ⟨s', replay_appended h.replay happly, hrebuild, fun tp' hnone' hknown ↦ ?_,
        h.sound, fun tp' st hst ↦ ?_⟩
      · by_cases hne : tp' = tp
        · subst hne
          exact ⟨_, _, _, _, _, mem_behind ..⟩
        · rw [contains, (sameAt_of_applyEvent happly hne).rings] at hknown
          obtain ⟨epoch, shards', g, rf, m, ha⟩ := h.unknown tp' hnone' hknown
          exact ⟨epoch, shards', g, rf, m, List.mem_append_left _ ha⟩
      · have hne : tp' ≠ tp := by
          rintro rfl
          exact absurd (hnone.symm.trans hst) (by simp)
        exact ((h.trails tp' st hst).frame (sameAt_of_applyEvent happly hne)).mono
          fun _ ha ↦ List.mem_append_left _ ha

theorem FaultyReachable.readable (h : FaultyReachable config compatibleRecords f) :
    ∃ s, Readable config f s := by
  induction h with
  | refl =>
    refine ⟨.initial, rfl, fun tp hknown ↦ ?_, fun tp _ hknown ↦ ?_, fun tp st hst ↦ ?_,
      fun tp st hst ↦ ?_⟩
    · cases hknown
    · cases hknown
    · cases hst
    · cases hst
  | tail _ hstep ih =>
    obtain ⟨s, hs⟩ := ih
    cases hstep with
    | create hring hpolicy hallowed => exact hs.create hring hpolicy hallowed
    | command hst hchecked hleader hallowed => exact hs.command hst hchecked hleader hallowed

/-- **What the reducer left can be rebuilt.** Without extents every partition of the file
recovers. -/
theorem ReplayState.Rebuildable.recovers (h : s.Rebuildable config) {events : List JournalEvent}
    (hreplay : replay config events = .ok s) {replicas : Nat} (hreplicas : 0 < replicas)
    (hfactor : replicas ≤ config.replicationFactor) :
    ∃ states, recoverPartitionStates config events [] replicas = .ok states := by
  refine ⟨_, recoverPartitionStates_eq_ok_iff.2 ⟨hreplicas, hfactor, s, hreplay, by simp,
    fun tp hmem ↦ ?_, fun _ ↦ rfl⟩⟩
  obtain ⟨⟨⟨ringEpoch, ring⟩, hring⟩, hvalid, hlog, key, hkey, haligned⟩ :=
    h tp ((mem_configured_iff hreplay tp).1 hmem)
  exact ⟨_, (recoverPartition_eq_ok_iff hring haligned hlog hkey (by simp [partitionEntries])).2
    ⟨hvalid, _, rfl, rfl⟩⟩

/-- **A file that is ahead stays readable.** When every record that reaches the file is compatible
with the records that were kept and answered with an error, the journal recovers in every state of
the run. -/
theorem journal_recovers_of_compatible (h : FaultyReachable config compatibleRecords f)
    {replicas : Nat} (hreplicas : 0 < replicas) (hfactor : replicas ≤ config.replicationFactor) :
    ∃ states, recoverPartitionStates config f.journal [] replicas = .ok states := by
  obtain ⟨s, hs⟩ := h.readable
  exact hs.rebuildable.recovers hs.replay hreplicas hfactor

/-- A ring change that fails late and a later one with a larger epoch. -/
theorem journal_recovers_after_late_failure :
    ∃ f, FaultyReachable ⟨1, 1, 1⟩ compatibleRecords f ∧ f.ahead = [.configure ⟨0, 0⟩ 2 [0]] ∧
      f.journal.length = 3 ∧
      ∃ states, recoverPartitionStates ⟨1, 1, 1⟩ f.journal [] 1 = .ok states := by
  let policy : PartitionReplicationPolicy := ⟨1, 1, 1⟩
  have hring : validateRing ⟨1, 1, 1⟩ [0] = .ok () := by decide +kernel
  have hpolicy : policy.validate 1 = .ok () := by decide +kernel
  let f₁ := FaultyEngine.initial.created ⟨0, 0⟩ .stored [0] policy
  have h₁ : FaultyReachable ⟨1, 1, 1⟩ compatibleRecords f₁ :=
    .tail .refl (.create hring hpolicy (by rintro r - - a ⟨⟩))
  obtain ⟨st₁, hst₁⟩ : ∃ st, f₁.states.get ⟨0, 0⟩ = some st := ⟨_, rfl⟩
  let f₂ := f₁.commanded ⟨0, 0⟩ st₁ (.storedUnsynced (.storage "sync failed")) (.reconfigure 2 [0])
  have h₂ : FaultyReachable ⟨1, 1, 1⟩ compatibleRecords f₂ :=
    .tail h₁ (.command hst₁ hring (by simp) (by rintro r - - a ⟨⟩))
  obtain ⟨st₂, hst₂⟩ : ∃ st, f₂.states.get ⟨0, 0⟩ = some st := ⟨_, rfl⟩
  let f₃ := f₂.commanded ⟨0, 0⟩ st₂ .stored (.reconfigure 3 [0])
  have h₃ : FaultyReachable ⟨1, 1, 1⟩ compatibleRecords f₃ := by
    refine .tail h₂ (.command hst₂ hring (by simp) ?_)
    cases hst₁
    cases hst₂
    rintro r ⟨⟩ - a ha
    rw [List.mem_singleton.1 (show a ∈ [JournalEvent.configure ⟨0, 0⟩ 2 [0]] from ha)]
    exact fun _ ↦ by decide
  refine ⟨f₃, h₃, ?_, ?_, journal_recovers_of_compatible h₃ (by decide) le_rfl⟩
  · cases hst₁
    rfl
  · cases hst₁
    cases hst₂
    rfl

/-- **A creation retried after a late failure makes the journal unreadable.** The first request is
answered with an error and leaves its record behind, the second is stored. -/
theorem retried_creation_unreadable :
    ∃ f, FaultyReachable ⟨1, 1, 1⟩ (fun _ _ ↦ True) f ∧
      f.journal = [.createPartition ⟨0, 0⟩ 1 [0] 1 1 1, .createPartition ⟨0, 0⟩ 1 [0] 1 1 1] ∧
      ∀ catalog replicas states,
        recoverPartitionStates ⟨1, 1, 1⟩ f.journal catalog replicas ≠ .ok states := by
  let policy : PartitionReplicationPolicy := ⟨1, 1, 1⟩
  have hring : validateRing ⟨1, 1, 1⟩ [0] = .ok () := by decide +kernel
  have hpolicy : policy.validate 1 = .ok () := by decide +kernel
  refine ⟨(FaultyEngine.initial.created ⟨0, 0⟩ (.storedUnsynced (.storage "sync failed")) [0]
    policy).created ⟨0, 0⟩ .stored [0] policy, ?_, rfl, ?_⟩
  · exact .tail (.tail .refl (.create hring hpolicy fun _ _ _ ↦ trivial))
      (.create hring hpolicy fun _ _ _ ↦ trivial)
  · intro catalog replicas states h
    obtain ⟨-, -, s, hs, -⟩ := recoverPartitionStates_eq_ok_iff.1 h
    have hfails : (replay ⟨1, 1, 1⟩ [.createPartition ⟨0, 0⟩ 1 [0] 1 1 1,
        .createPartition ⟨0, 0⟩ 1 [0] 1 1 1]).toOption.isNone = true := by decide +kernel
    change replay _ [_, _] = .ok s at hs
    rw [hs] at hfails
    cases hfails

end Runs

end ShardStream
