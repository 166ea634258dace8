import ShardStream.Engine.Groups
import ShardStream.Engine.System

/-!
# Live partitions are backed by durable state

`Backed` ties a live partition to what is durable: the journal replays to its ring, policy, log
start and group decisions; every extent describes the batch it was written for; a completed batch
has an extent; and the status a restart would give an extent agrees with the status the batch has
now, if that is final. A batch below the stable cursor is stable, up to one **excuse**: a replica
retry that was refused half way leaves its batch pending behind the cursor, and such a batch is in
nobody's hands and cannot come back as anything but aborted.

Replica retries can also drive a group to a second decision that contradicts the first. The journal
then holds conflicting markers and no longer replays. Every state reached is therefore either backed
or beyond recovery (`Engine.Coherent`).
-/

namespace ShardStream

open PartitionCore List Table

variable {journal : List JournalEvent} {answer : Except EngineError Unit} {b b' : BatchRuntime}
  {outcomes : Table Nat AtomicGroupState} {inFlight : List (TopicPartition × Nat)}
  {tp : TopicPartition} {c : Command} {config : EngineConfig} {st : PartitionState}
  {s : ReplayState} {history : RingHistory} {eff : Effect}

/-! ### The journal -/

/-- The journal of `s` replays to the configuration of the live partition. -/
structure Journaling (config : EngineConfig) (s : ReplayState) (tp : TopicPartition)
    (st : PartitionState) : Prop where
  ring : ((s.rings.get tp).getD []).getLast? =
    some (st.sequencer.ringEpoch, st.sequencer.virtualLanes)
  epochs : ((s.rings.get tp).getD []).Pairwise fun a b ↦ a.1 < b.1
  policy : s.replicationPolicies.get tp = some st.replicationPolicy
  policy_valid : st.replicationPolicy.validate config.replicationFactor = .ok ()
  aligned : (s.truncation tp).Aligned st.batches.firstKey
  logStart : (s.truncation tp).logStart = st.logStart
  outcomes : ∀ txn, s.groupOutcomes.get (tp, txn) = st.finalizedGroups.get txn

/-- Rings and decisions that were known stay known. -/
structure Grown (s s' : ReplayState) (tp : TopicPartition) : Prop where
  rings : ∀ epoch ring, ((s.rings.get tp).getD []).lookup epoch = some ring →
    ((s'.rings.get tp).getD []).lookup epoch = some ring
  outcomes : ∀ txn o, s.groupOutcomes.get (tp, txn) = some o →
    s'.groupOutcomes.get (tp, txn) = some o

theorem Grown.refl (s : ReplayState) (tp : TopicPartition) : Grown s s tp :=
  ⟨fun _ _ h ↦ h, fun _ _ h ↦ h⟩

section Journal

variable {epoch : Nat} {ring : PlacementRing}

theorem Journaling.contains (h : Journaling config s tp st) : s.rings.contains tp = true := by
  rw [contains_iff]
  cases hget : s.rings.get tp with
  | none =>
    have := h.ring
    rw [hget] at this
    cases this
  | some history => exact ⟨history, rfl⟩

/-- A partition with the same configuration is journaled the same. -/
theorem Journaling.congr (h : Journaling config s tp st) {st' : PartitionState}
    (hsame : SameControl st st') : Journaling config s tp st' where
  ring := by rw [hsame.ringEpoch, hsame.virtualLanes]; exact h.ring
  epochs := h.epochs
  policy := by rw [hsame.policy]; exact h.policy
  policy_valid := by rw [hsame.policy]; exact h.policy_valid
  aligned := by rw [hsame.firstKey]; exact h.aligned
  logStart := by rw [hsame.logStart]; exact h.logStart
  outcomes := by rw [hsame.finalizedGroups]; exact h.outcomes

/-- The lookup of the newest epoch finds the newest ring. -/
theorem lookup_getLast? (h : history.Pairwise fun a b ↦ a.1 < b.1)
    (hlast : history.getLast? = some (epoch, ring)) : history.lookup epoch = some ring := by
  obtain ⟨front, rfl⟩ := getLast?_eq_some_iff.1 hlast
  refine lookup_eq_some_iff.2 ⟨front, [], rfl, fun p hp ↦ ?_⟩
  have hlt := (pairwise_append.1 h).2.2 p hp _ (mem_singleton.2 rfl)
  simpa using hlt.ne'

/-- A newer ring does not hide an older one. -/
theorem lookup_append_of_some (h : history.lookup epoch = some ring) (more : RingHistory) :
    (history ++ more).lookup epoch = some ring := by
  rw [lookup_append, h, Option.some_or]

/-- The next reservation of a journaled partition agrees with its ring. -/
theorem Journaling.placedIn_next (h : Journaling config s tp st) (count : NonZeroU32)
    (epoch : Nat) :
    PlacedIn ((s.rings.get tp).getD []) (st.sequencer.nextReservation count epoch) :=
  ⟨st.sequencer.virtualLanes, lookup_getLast? h.epochs h.ring, rfl⟩

end Journal

/-- The journal after a record that was not written, or not offered. -/
theorem recorded_eq {event : Option JournalEvent} (h : event = none ∨ ∃ e, answer = .error e) :
    Engine.recorded journal answer event = journal := by
  rcases h with rfl | ⟨e, rfl⟩
  · cases answer <;> simp [Engine.recorded]
  · rfl

section Journal

/-- **The journal follows the commands**, unless a decision contradicts an earlier one. -/
theorem Outcome.replayed (h : Outcome st answer c eff) (hs : st.Sound)
    (hj : Journaling config s tp st) (htp : st.sequencer.topicPartition = tp)
    (hreplay : replay config journal = .ok s) (hchecked : c.Checked config) :
    (st.Redecides ∧ ∃ e, replay config (Engine.recorded journal answer eff.event) = .error e) ∨
      ∃ s', replay config (Engine.recorded journal answer eff.event) = .ok s' ∧
        Journaling config s' tp eff.state ∧ Grown s s' tp ∧
        (∀ tp', tp' ≠ tp → s.SameAt s' tp') ∧
        ∀ tp', s'.rings.contains tp' = s.rings.contains tp' := by
  -- commands without a record
  by_cases hevent : eff.event = none ∨ ∃ e, answer = .error e
  · rw [recorded_eq hevent]
    exact .inr ⟨s, hreplay, hj.congr (h.sameControl hevent), .refl s tp,
      fun _ _ ↦ ⟨Iff.rfl, rfl, rfl, rfl, fun _ ↦ rfl⟩, fun _ ↦ rfl⟩
  -- commands whose record was written: what it replays to decides
  have hwritten : ∀ {st' event s'},
      answer = .ok () → event.tp = tp → applyEvent config s event = .ok s' →
      Journaling config s' tp st' → Grown s s' tp →
      ∃ s', replay config (Engine.recorded journal answer (some event)) = .ok s' ∧
        Journaling config s' tp st' ∧ Grown s s' tp ∧ (∀ tp', tp' ≠ tp → s.SameAt s' tp') ∧
        ∀ tp', s'.rings.contains tp' = s.rings.contains tp' := by
    rintro st' event s' rfl hevent happly hj' hgrown
    have hsame : ∀ tp', tp' ≠ tp → s.SameAt s' tp' := fun tp' hne ↦
      sameAt_of_applyEvent happly (by rw [hevent]; exact hne)
    refine ⟨s', ?_, hj', hgrown, hsame, fun tp' ↦ ?_⟩
    · change replay config (journal ++ [event]) = _
      rw [replay_append, hreplay]
      exact happly
    · by_cases hne : tp' = tp
      · subst hne
        rw [hj.contains, hj'.contains]
      · rw [Table.contains, Table.contains, (hsame tp' hne).rings]
  cases h with
  | quiet _ _ hquiet => exact absurd hquiet hevent
  | allocated | appended | retried | refusedRetry | completed | acknowledged | frozen | failed =>
    exact absurd (.inl rfl) hevent
  | @decided txn outcome g hanswer hget hopen hout =>
    have htpe : (finalizeMarker st.sequencer.topicPartition txn outcome).tp = tp := by
      rw [← htp]; cases outcome <;> rfl
    rw [htp] at htpe ⊢
    by_cases hconflict : ∀ o ∈ s.groupOutcomes.get (tp, txn), o = outcome
    · have happly : applyEvent config s (finalizeMarker tp txn outcome) = .ok _ :=
        (applyEvent_finalizeMarker_eq_ok_iff hout).2 ⟨hj.contains, hconflict, rfl⟩
      refine .inr (hwritten hanswer htpe happly ?_ ⟨fun _ _ h ↦ h, fun t o ho ↦ ?_⟩)
      · refine ⟨hj.ring, hj.epochs, hj.policy, hj.policy_valid, ?_, hj.logStart, fun t ↦ ?_⟩
        · change (s.truncation tp).Aligned (setStatuses ..).firstKey
          rw [firstKey_setStatuses]
          exact hj.aligned
        · change (s.groupOutcomes.insert (tp, txn) outcome).get (tp, t) =
            (st.finalizedGroups.insert txn outcome).get t
          simp only [get_insert, Prod.mk.injEq, true_and, hj.outcomes]
      · simp only [get_insert, Prod.mk.injEq, true_and]
        split_ifs with heq
        · subst heq
          rw [hconflict o ho]
        · exact ho
    · left
      have hredecides : st.Redecides := by
        simp only [not_forall] at hconflict
        obtain ⟨o, ho, -⟩ := hconflict
        exact ⟨txn, g, o, hget, hopen, by rw [← hj.outcomes, ho]⟩
      refine ⟨hredecides, ?_⟩
      cases hev : replay config (Engine.recorded journal answer
          (some (finalizeMarker tp txn outcome))) with
      | error e => exact ⟨e, rfl⟩
      | ok s' =>
        subst hanswer
        change replay config (journal ++ [_]) = _ at hev
        rw [replay_append, hreplay] at hev
        exact absurd ((applyEvent_finalizeMarker_eq_ok_iff hout).1 hev).2.1 hconflict
  | @reconfigured epoch shards ring hanswer hlanes hepoch =>
    rw [htp]
    have hlast : ∀ last ∈ ((s.rings.get tp).getD []).getLast?, last.1 < epoch := by
      intro last hl
      rw [hj.ring] at hl
      cases hl
      exact hepoch
    have happly : applyEvent config s (.configure tp epoch shards) = .ok _ :=
      applyEvent_configure_eq_ok_iff.2 ⟨ring, hchecked, hlanes, hlast, rfl⟩
    have hhistory : ((s.rings.insert tp ((s.rings.get tp).getD [] ++ [(epoch, ring)])).get
        tp).getD [] = (s.rings.get tp).getD [] ++ [(epoch, ring)] := by
      rw [get_insert_self]; rfl
    refine .inr (hwritten hanswer rfl happly ?_ ⟨fun e r hr ↦ ?_, fun _ _ h ↦ h⟩)
    · refine ⟨?_, ?_, ?_, hj.policy_valid, hj.aligned, hj.logStart, hj.outcomes⟩
      · change (((s.rings.insert tp _).get tp).getD []).getLast? = _
        rw [hhistory, getLast?_concat]
      · change (((s.rings.insert tp _).get tp).getD []).Pairwise _
        rw [hhistory, pairwise_append]
        refine ⟨hj.epochs, by simp, fun a ha b hb ↦ ?_⟩
        rw [mem_singleton.1 hb]
        -- every epoch of the history is at most the last one
        rcases getLast?_eq_some_iff.1 hj.ring with ⟨front, hfront⟩
        rw [hfront] at ha
        rcases mem_append.1 ha with ha | ha
        · have := hj.epochs
          rw [hfront, pairwise_append] at this
          exact (this.2.2 a ha _ (mem_singleton.2 rfl)).trans hepoch
        · rw [mem_singleton.1 ha]
          exact hepoch
      · rw [get_insert_self, hj.policy]
        rfl
    · change (((s.rings.insert tp _).get tp).getD []).lookup e = _
      rw [hhistory]
      exact lookup_append_of_some hr _
  | @policyUpdated expected policy hanswer hne hgen =>
    rw [htp]
    have hcurrent : (s.replicationPolicies.get tp).getD config.defaultReplicationPolicy =
        st.replicationPolicy := by rw [hj.policy]; rfl
    have happly : applyEvent config s (.updateReplicationPolicy tp expected policy.policyGeneration
        policy.replicationFactor policy.minInSyncReplicas) = .ok _ :=
      applyEvent_updateReplicationPolicy_eq_ok_iff.2
        ⟨hj.contains, hchecked, .inr ⟨hcurrent ▸ hne, hcurrent ▸ hgen, rfl⟩⟩
    refine .inr (hwritten hanswer rfl happly ?_ ⟨fun _ _ h ↦ h, fun _ _ h ↦ h⟩)
    exact ⟨hj.ring, hj.epochs, get_insert_self .., hchecked, hj.aligned, hj.logStart,
      hj.outcomes⟩
  | @truncated key hanswer hfirst hstable hlt =>
    rw [htp]
    have hle := hstable.trans hs.cursors.stable.inPlace.le_nextKey
    have hstart : s.logStart tp = st.logStart := by
      rw [← hj.logStart, ReplayState.logStart, ReplayState.truncation]
      cases s.truncations.get tp <;> rfl
    have happly : applyEvent config s (.truncateCheckpoint tp (st.offsetAt key) key
        (st.offsetAt key) key) = .ok _ := applyEvent_truncateCheckpoint_eq_ok_iff.2
      ⟨hj.contains, hstart.trans_le hlt.le, le_rfl, rfl, rfl⟩
    have htrunc : ReplayState.truncation { s with
        truncations := s.truncations.insert tp
          ⟨st.offsetAt key, some (key, st.offsetAt key, key)⟩ } tp =
          ⟨st.offsetAt key, some (key, st.offsetAt key, key)⟩ := by
      simp only [ReplayState.truncation, get_insert_self, Option.getD_some]
    refine .inr (hwritten hanswer rfl happly ?_ ⟨fun _ _ h ↦ h, fun _ _ h ↦ h⟩)
    refine ⟨hj.ring, hj.epochs, hj.policy, hj.policy_valid, ?_, ?_, hj.outcomes⟩
    · rw [htrunc]
      refine ⟨?_, fun h ↦ by cases h⟩
      change (key, st.offsetAt key, key) = ((st.batches.truncateBefore key).firstKey, _,
        (st.batches.truncateBefore key).firstKey)
      rw [DenseOrderedMap.firstKey_truncateBefore hfirst hle]
    · rw [htrunc]
      rfl

end Journal

/-! ### One batch -/

/-- What the durable state knows about the batch under `key`. -/
structure KeyBacked (history : RingHistory) (outcomes : Table Nat AtomicGroupState)
    (extents : List ExtentCatalogEntry) (inFlight : List (TopicPartition × Nat))
    (tp : TopicPartition) (key : Nat) (b : BatchRuntime) : Prop where
  placed : PlacedIn history b.reservation
  /-- Batches in flight are pending. -/
  flight : (tp, key) ∈ inFlight → b.status = .pending
  /-- An extent records the batch it was written for. -/
  describes : ∀ x ∈ extents, x.key = (tp, key) → x.Describes b
  /-- A committed batch comes back committed. -/
  committed : b.status = .committed → ∀ x ∈ extents, x.key = (tp, key) →
    recoveredStatus outcomes x.atomicGroup = .committed
  /-- An aborted batch with an extent comes back aborted. -/
  aborted : b.status = .aborted → ∀ x ∈ extents, x.key = (tp, key) →
    recoveredStatus outcomes x.atomicGroup = .aborted
  /-- A completed batch is durable. -/
  durable : b.status = .committed ∨ b.status = .unresolved → ∃ x ∈ extents, x.key = (tp, key)

/-- A pending batch that nobody holds and that can only come back aborted. -/
structure Excused (outcomes : Table Nat AtomicGroupState) (extents : List ExtentCatalogEntry)
    (inFlight : List (TopicPartition × Nat)) (tp : TopicPartition) (key : Nat) (b : BatchRuntime) :
    Prop where
  pending : b.status = .pending
  idle : (tp, key) ∉ inFlight
  lost : ∀ x ∈ extents, x.key = (tp, key) → recoveredStatus outcomes x.atomicGroup = .aborted

theorem ExtentCatalogEntry.Describes.sameBatch {x : ExtentCatalogEntry} (h : x.Describes b)
    (hsame : b.SameBatch b') : x.Describes b' where
  reservation := h.reservation.trans hsame.reservation.symm
  producer := h.producer.trans hsame.producer.symm
  atomicGroup := h.atomicGroup.trans hsame.atomicGroup.symm
  payloadBytes := h.payloadBytes.trans hsame.payloadBytes.symm
  producerDigest p hp :=
    ⟨(h.producerDigest p hp).1, hsame.payloadDigest _ (h.producerDigest p hp).2⟩
  groupDigest g hg := hsame.payloadDigest _ (h.groupDigest g hg)

/-- Decisions do not change, so a status that a restart would give for good stays. -/
theorem recoveredStatus_grown {outcomes' : Table Nat AtomicGroupState}
    (h : ∀ txn o, outcomes.get txn = some o → outcomes'.get txn = some o)
    {group : Option AtomicGroupSequence} {status : BatchStatus}
    (hstatus : recoveredStatus outcomes group = status) (hne : status ≠ .unresolved) :
    recoveredStatus outcomes' group = status := by
  cases group with
  | none => exact hstatus
  | some g =>
    simp only [recoveredStatus] at hstatus ⊢
    cases hget : outcomes.get g.transactionId with
    | none =>
      rw [hget] at hstatus
      exact absurd hstatus.symm hne
    | some o => rw [h _ _ hget, ← hget]; exact hstatus

theorem mem_inFlightAfter {tp' : TopicPartition} {reserved : Option Reservation} {id : Nat} :
    (tp', id) ∈ Engine.inFlightAfter inFlight tp c reserved ↔
      ((tp', id) ∈ inFlight ∧ ¬ (tp' = tp ∧ c.settles = some id)) ∨
        ∃ r, reserved = some r ∧ tp' = tp ∧ id = r.batchId := by
  simp only [Engine.inFlightAfter, mem_append, mem_filter, decide_eq_true_eq]
  cases reserved <;> simp

section Keys

variable {history' : RingHistory} {extents : List ExtentCatalogEntry} {key : Nat}
  {o : Option BatchRuntime}

/-- Of a pending batch only the extents that are there matter. -/
theorem KeyBacked.of_pending (hplaced : PlacedIn history b.reservation)
    (hpending : b.status = .pending)
    (hdescribes : ∀ x ∈ extents, x.key = (tp, key) → x.Describes b) :
    KeyBacked history outcomes extents inFlight tp key b :=
  ⟨hplaced, fun _ ↦ hpending, hdescribes, by simp [hpending], by simp [hpending],
    by simp [hpending]⟩

theorem KeyBacked.placed_of_grown (h : KeyBacked history outcomes extents inFlight tp key b)
    (hsame : b.SameBatch b')
    (hgrown : ∀ epoch ring, history.lookup epoch = some ring → history'.lookup epoch = some ring) :
    PlacedIn history' b'.reservation := by
  obtain ⟨ring, hring, hlane⟩ := h.placed
  rw [hsame.reservation]
  exact ⟨ring, hgrown _ _ hring, hlane⟩

/-- What a command may assume about the batch it settles. -/
structure Settling (extents : List ExtentCatalogEntry) (inFlight : List (TopicPartition × Nat))
    (tp : TopicPartition) (c : Command) : Prop where
  flight : ∀ id, c.settles = some id → (tp, id) ∈ inFlight
  complete : ∀ completion, c = .complete completion →
    ∃ x ∈ extents, x.key = (tp, completion.reservation.batchId)
  fail : ∀ r producer, c = .fail r producer true → ¬ ∃ x ∈ extents, x.key = (tp, r.batchId)

theorem Engine.Admits.settling {e : Engine} (h : e.Admits config tp st c) :
    Settling e.extents e.inFlight tp c where
  flight id hid := by
    cases c with
    | complete completion =>
      cases hid
      exact h.1
    | fail r producer definite =>
      cases definite with
      | false => cases hid
      | true =>
        cases hid
        exact h.1
    | _ => cases hid
  complete := by
    rintro completion rfl
    exact h.2.1
  fail := by
    rintro r producer rfl
    exact h.2.1 rfl

/-- **The batch under a key stays backed.** -/
theorem KeyStep.keyBacked (h : KeyStep st c eff key o (some b'))
    (hset : Settling extents inFlight tp c)
    (hold : ∀ b, o = some b → KeyBacked history st.finalizedGroups extents inFlight tp key b)
    (hget : st.batches.get key = o) (htag : st.Tagged)
    (hfresh : ∀ x ∈ extents, x.key = (tp, st.batches.nextKey) → False)
    (hnext : ∀ count epoch, PlacedIn history (st.sequencer.nextReservation count epoch))
    (hgrown : ∀ epoch ring, history.lookup epoch = some ring → history'.lookup epoch = some ring)
    (hkept : ∀ txn o, st.finalizedGroups.get txn = some o →
      eff.state.finalizedGroups.get txn = some o) :
    KeyBacked history' eff.state.finalizedGroups extents
      (Engine.inFlightAfter inFlight tp c eff.reserved) tp key b' := by
  -- the settled batch is no longer in flight
  have hsettled : c.settles = some key → eff.reserved = none →
      (tp, key) ∉ Engine.inFlightAfter inFlight tp c eff.reserved := by
    simp +contextual [mem_inFlightAfter]
  cases h with
  | @kept b _ hsame hstatus hreserved =>
    have hb := hold b rfl
    refine ⟨hb.placed_of_grown hsame hgrown, fun hf ↦ ?_,
      fun x hx hk ↦ (hb.describes x hx hk).sameBatch hsame,
      fun hc x hx hk ↦ recoveredStatus_grown hkept (hb.committed (hstatus ▸ hc) x hx hk) (by simp),
      fun ha x hx hk ↦ recoveredStatus_grown hkept (hb.aborted (hstatus ▸ ha) x hx hk) (by simp),
      fun hd ↦ hb.durable (hstatus ▸ hd)⟩
    rw [hstatus]
    rcases mem_inFlightAfter.1 hf with ⟨hf, -⟩ | ⟨r, hr, -, hid⟩
    · exact hb.flight hf
    · exact absurd hid.symm (hreserved r hr)
  | born hkey hstatus hdigest hres =>
    obtain ⟨count, epoch, hres⟩ := hres
    obtain ⟨ring, hring, hlane⟩ := hnext count epoch
    exact .of_pending (hres ▸ ⟨ring, hgrown _ _ hring, hlane⟩) hstatus fun x hx hk ↦
      (hfresh x hx (hkey ▸ hk)).elim
  | @completed b _ completion hc hkey hsame hpending hstatus hreserved =>
    have hb := hold b rfl
    have hplain : completedStatus (some b) = .committed → b.atomicGroup = none := by
      cases hg : b.atomicGroup <;> simp [completedStatus, hg]
    have hcases : b'.status = .committed ∨ b'.status = .unresolved := by
      rw [hstatus]
      unfold completedStatus
      split_ifs <;> simp
    refine ⟨hb.placed_of_grown hsame hgrown,
      fun hf ↦ absurd hf (hsettled (hc ▸ congrArg some hkey) hreserved),
      fun x hx hk ↦ (hb.describes x hx hk).sameBatch hsame, fun hcom x hx hk ↦ ?_, fun hab ↦ ?_,
      fun _ ↦ hkey ▸ hset.complete completion hc⟩
    · have hgroup := (hb.describes x hx hk).atomicGroup
      rw [hplain (hstatus ▸ hcom), Option.map_eq_none_iff] at hgroup
      rw [hgroup]
      rfl
    · rcases hcases with h | h <;> rw [hab] at h <;> cases h
  | @failed b _ r producer hc hkey hsame hpending hstatus hreserved =>
    have hb := hold b rfl
    have hnone : ∀ x ∈ extents, x.key = (tp, key) → False := fun x hx hk ↦
      hset.fail r producer hc ⟨x, hx, hkey ▸ hk⟩
    exact ⟨hb.placed_of_grown hsame hgrown,
      fun hf ↦ absurd hf (hsettled (hc ▸ congrArg some hkey) hreserved),
      fun x hx hk ↦ (hnone x hx hk).elim, fun _ x hx hk ↦ (hnone x hx hk).elim,
      fun _ x hx hk ↦ (hnone x hx hk).elim, by simp [hstatus]⟩
  | @decided b _ txn outcome g hc hgroup hmem hout hfinal hentry hsame hopen hstatus hreserved =>
    have hb := hold b rfl
    -- the extents of the batch carry the decided transaction
    have hextent : ∀ x ∈ extents, x.key = (tp, key) →
        recoveredStatus eff.state.finalizedGroups x.atomicGroup = outcome.batchStatus := by
      intro x hx hk
      have htagged := (htag txn g hgroup key hmem).2 b hget
      rw [← (hb.describes x hx hk).atomicGroup] at htagged
      cases hx' : x.atomicGroup with
      | none => rw [hx'] at htagged; cases htagged
      | some gs =>
        rw [hx'] at htagged
        have htxn : gs.transactionId = txn := Option.some.inj htagged
        simp only [recoveredStatus, htxn, hfinal, Option.getD_some]
    refine ⟨hb.placed_of_grown hsame hgrown, fun hf ↦ ?_,
      fun x hx hk ↦ (hb.describes x hx hk).sameBatch hsame,
      fun hcom x hx hk ↦ (hextent x hx hk).trans (hstatus ▸ hcom),
      fun hab x hx hk ↦ (hextent x hx hk).trans (hstatus ▸ hab), fun _ ↦ hb.durable (.inr hopen)⟩
    rcases mem_inFlightAfter.1 hf with ⟨hf, -⟩ | ⟨r, hr, -⟩
    · have := hb.flight hf
      rw [hopen] at this
      cases this
    · rw [hreserved] at hr
      cases hr
  | @reopened b _ r producer group bytes digest hc hkey hreopens hsame haborted hstatus =>
    have hb := hold b rfl
    exact .of_pending (hb.placed_of_grown hsame hgrown) hstatus fun x hx hk ↦
      (hb.describes x hx hk).sameBatch hsame

/-- **A batch below the stable cursor stays stable or excused.** -/
theorem KeyStep.stable_or_excused (h : KeyStep st c eff key o (some b'))
    (hset : Settling extents inFlight tp c)
    (hback : ∀ b, o = some b → KeyBacked history st.finalizedGroups extents inFlight tp key b)
    (hold : ∀ b, o = some b → b.stable = true ∨
      Excused st.finalizedGroups extents inFlight tp key b)
    (hlt : key ≠ st.batches.nextKey) (hreserved : c.reopens st ≠ none → eff.reserved = none)
    (hkept : ∀ txn o, st.finalizedGroups.get txn = some o →
      eff.state.finalizedGroups.get txn = some o) :
    b'.stable = true ∨ Excused eff.state.finalizedGroups extents
      (Engine.inFlightAfter inFlight tp c eff.reserved) tp key b' := by
  -- nothing that was not in flight is put there
  have hidle : (∀ r ∈ eff.reserved, r.batchId ≠ key) → (tp, key) ∉ inFlight →
      (tp, key) ∉ Engine.inFlightAfter inFlight tp c eff.reserved := by
    intro hother hidle hf
    rcases mem_inFlightAfter.1 hf with ⟨hf, -⟩ | ⟨r, hr, -, hid⟩
    · exact hidle hf
    · exact hother r hr hid.symm
  cases h with
  | @kept b _ hsame hstatus hother =>
    rcases hold b rfl with hb | hb
    · left
      unfold BatchRuntime.stable at hb ⊢
      rw [hstatus]
      exact hb
    · exact .inr ⟨hstatus.trans hb.pending, hidle hother hb.idle, fun x hx hk ↦
        recoveredStatus_grown hkept (hb.lost x hx hk) (by simp)⟩
  | born hkey => exact absurd hkey hlt
  | @completed b _ completion hc hkey hsame hpending =>
    rcases hold b rfl with hb | hb
    · rw [gate_stable.pending b hpending] at hb
      cases hb
    · exact absurd (hset.flight key (by rw [hc]; exact congrArg some hkey)) hb.idle
  | @failed b _ r producer hc hkey hsame hpending hstatus =>
    left
    unfold BatchRuntime.stable
    rw [hstatus]
    rfl
  | @decided b _ txn outcome g hc hgroup hmem hout hfinal hentry hsame hopen =>
    rcases hold b rfl with hb | hb
    · simp [BatchRuntime.stable, hopen] at hb
    · have := hb.pending
      rw [hopen] at this
      cases this
  | @reopened b _ r producer group bytes digest hc hkey hreopens hsame haborted hstatus =>
    right
    have hb := hback b rfl
    refine ⟨hstatus, hidle (by simp [hreserved, hreopens]) fun hf ↦ ?_, fun x hx hk ↦
      recoveredStatus_grown hkept (hb.aborted haborted x hx hk) (by simp)⟩
    have := hb.flight hf
    rw [haborted] at this
    cases this

end Keys

end ShardStream
