import ShardStream.Engine.Selection

/-!
# Fetching while the engine runs

The engine together with the stores of its physical shards. A shard is sent frames of batches that
are in flight, each to the shard of its lane; it seals packs and collects garbage on its own. A
fetch asks the coordinator for the bounds, then every shard for a plan, then the coordinator again,
and reads; in between anything may happen. `InterleavedFetch` records such a fetch.

Whatever a shard has indexed is a reservation that the coordinator retains or has truncated past,
and stays so (`ShardedReachable.sound`, `LiveRun.knows`). This is all that the safety of a fetch
needs.
-/

namespace ShardStream

open PartitionCore List Option ShardStore

variable {e : Engine} {r : Reservation} {i : Nat} {shard shard' : ShardStore} {s s' : ShardedEngine}
  {st : PartitionState} {checksum : ExtentChecksum} {config : EngineConfig}

/-! ### The system -/

/-- The engine and the stores of its physical shards. -/
structure ShardedEngine where
  engine : Engine
  shards : List ShardStore

/-- `physical_shard_for_lane`. -/
def physicalShardForLane (shardCount lane : Nat) : Nat := lane % shardCount

namespace ShardedEngine

/-- The append path sends the frame to shard `i`: its batch is in flight, and its lane is on that
shard. -/
def Sends (s : ShardedEngine) (i : Nat) (x : PreparedExtent) : Prop :=
  physicalShardForLane s.shards.length x.reservation.placement.virtualLaneId = i ∧
    (x.reservation.topicPartition, x.reservation.batchId) ∈ s.engine.inFlight ∧
    ∃ st, s.engine.states.get x.reservation.topicPartition = some st ∧ st.Retains x.reservation

/-- Some shard has indexed the extent. -/
def Indexed (s : ShardedEngine) (x : ExtentCatalogEntry) : Prop :=
  ∃ shard ∈ s.shards, shard.ix.hasKey x.key = true

end ShardedEngine

/-- The steps of a running engine. -/
inductive LiveStep (checksum : ExtentChecksum) (config : EngineConfig) :
    ShardedEngine → ShardedEngine → Prop
  /-- A coordinator moves, or an extent that a shard has written becomes durable. -/
  | engine {s : ShardedEngine} {e : Engine} (h : EngineStep config .live s.engine e)
      (hwritten : ∀ x ∈ e.extents, x ∈ s.engine.extents ∨ s.Indexed x) :
      LiveStep checksum config s ⟨e, s.shards⟩
  /-- A shard appends a group of frames. -/
  | append {s : ShardedEngine} {i : Nat} {shard shard' : ShardStore}
      {prepared : List PreparedExtent} (hi : s.shards[i]? = some shard)
      (hsends : ∀ x ∈ prepared, s.Sends i x)
      (h : shard.appendPreparedGroup checksum prepared = .ok shard') :
      LiveStep checksum config s ⟨s.engine, s.shards.set i shard'⟩
  /-- A shard seals its active pack. -/
  | sealPack {s : ShardedEngine} {i : Nat} {shard shard' : ShardStore}
      (hi : s.shards[i]? = some shard) (h : shard.sealActive = .ok shard') :
      LiveStep checksum config s ⟨s.engine, s.shards.set i shard'⟩
  /-- A shard collects garbage below the log starts of the coordinators. -/
  | collect {s : ShardedEngine} {i : Nat} {shard shard' : ShardStore}
      {logStarts : Table TopicPartition Nat} (hi : s.shards[i]? = some shard)
      (hstarts : ∀ tp start, logStarts.get tp = some start →
        ∃ st, s.engine.states.get tp = some st ∧ start ≤ st.logStart)
      (h : shard.garbageCollect logStarts = .ok shard') :
      LiveStep checksum config s ⟨s.engine, s.shards.set i shard'⟩

/-- Runs of a running engine. -/
def LiveRun (checksum : ExtentChecksum) (config : EngineConfig) :
    ShardedEngine → ShardedEngine → Prop :=
  Relation.ReflTransGen (LiveStep checksum config)

/-- What a crash leaves of a shard: of the extents it had indexed, those that are durable. -/
def Survives (checksum : ExtentChecksum) (extents : List ExtentCatalogEntry)
    (shard shard' : ShardStore) : Prop :=
  (∃ front last, shard'.Holds checksum front last) ∧
    ∀ r, (∃ l ∈ shard'.ix.byBatch, l.reservation = r) ↔
      (∃ l ∈ shard.ix.byBatch, l.reservation = r) ∧ ∃ x ∈ extents, x.reservation = r

/-- The engines reached from empty directories, by running and by restarts. -/
inductive ShardedReachable (checksum : ExtentChecksum) (config : EngineConfig) :
    ShardedEngine → Prop
  | opened {shards : List ShardStore} (h : ∀ shard ∈ shards, ∃ storeConfig storeToken,
        openInner checksum storeConfig storeToken [] = .ok shard) :
      ShardedReachable checksum config ⟨.initial, shards⟩
  | live {s s' : ShardedEngine} (hs : ShardedReachable checksum config s)
      (h : LiveStep checksum config s s') : ShardedReachable checksum config s'
  | restart {s : ShardedEngine} {states : Table TopicPartition PartitionState}
      {shards : List ShardStore} (hs : ShardedReachable checksum config s)
      (hrec : s.engine.recover config 1 = .ok states)
      (hshards : List.Forall₂ (Survives checksum s.engine.extents) s.shards shards) :
      ShardedReachable checksum config ⟨{ s.engine with states, inFlight := [] }, shards⟩

/-! ### What the shards have indexed -/

section Known

variable {rule : RunRule} {e' : Engine} {tp : TopicPartition}

/-- **A running engine forgets no reservation**, and no log start moves down. -/
theorem EngineStep.knows (h : EngineStep config .live e e') (hreach : EngineReachable config rule e)
    (hst : e.states.get tp = some st) :
    ∃ st', e'.states.get tp = some st' ∧ st.logStart ≤ st'.logStart ∧
      ∀ r, st.Knows r → st'.Knows r := by
  obtain ⟨st', hst', rfl | ⟨answer, c, rfl⟩⟩ := h.partition hst
  · exact ⟨st', hst', le_rfl, fun _ hr ↦ hr⟩
  · have hs := (hreach.sound_and_tagged hst).1
    have hout := c.outcome hs answer
    obtain ⟨hfirst, hfirst', -, hstart⟩ := hout.range hs
    refine ⟨_, hst', ?_, fun r ↦ hout.knows hs⟩
    rw [hstart, ← offsetAt_firstKey]
    exact hs.layout.offsetAt_le hfirst hfirst'

end Known

namespace ShardedEngine

/-- The reservation belongs on shard `i`, and its partition knows it. -/
def Places (s : ShardedEngine) (i : Nat) (r : Reservation) : Prop :=
  physicalShardForLane s.shards.length r.placement.virtualLaneId = i ∧
    r.firstOffset ≤ r.lastOffset ∧
    ∃ st, s.engine.states.get r.topicPartition = some st ∧ st.Knows r

/-- What shard `i` has indexed is placed there. -/
def ShardSound (checksum : ExtentChecksum) (s : ShardedEngine) (i : Nat)
    (shard : ShardStore) : Prop :=
  (∃ front last, shard.Holds checksum front last) ∧
    ∀ l ∈ shard.ix.byBatch, s.Places i l.reservation

/-- The invariant of the system. -/
structure Sound (checksum : ExtentChecksum) (config : EngineConfig) (s : ShardedEngine) : Prop where
  reachable : EngineReachable config .any s.engine
  shards : ∀ i shard, s.shards[i]? = some shard → s.ShardSound checksum i shard

theorem ShardSound.mono (h : s.ShardSound checksum i shard)
    (hmono : ∀ r, s.Places i r → s'.Places i r) : s'.ShardSound checksum i shard :=
  ⟨h.1, fun l hl ↦ hmono _ (h.2 l hl)⟩

/-- A step of one shard. -/
theorem Sound.set (h : s.Sound checksum config) (hset : s.ShardSound checksum i shard') :
    (⟨s.engine, s.shards.set i shard'⟩ : ShardedEngine).Sound checksum config := by
  refine ⟨h.reachable, fun j shard hj ↦ ?_⟩
  have hmono : ∀ j r, s.Places j r →
      (⟨s.engine, s.shards.set i shard'⟩ : ShardedEngine).Places j r := by
    rintro j r ⟨hlane, hst⟩
    exact ⟨by rwa [length_set], hst⟩
  rw [getElem?_set] at hj
  split_ifs at hj with heq hlt
  · cases hj
    subst heq
    exact hset.mono (hmono _)
  · exact (h.shards j shard hj).mono (hmono _)

theorem places_of_engineStep (h : EngineStep config .live s.engine e)
    (hreach : EngineReachable config .any s.engine) (hr : s.Places i r) :
    (⟨e, s.shards⟩ : ShardedEngine).Places i r := by
  obtain ⟨hlane, hrange, st, hst, hknows⟩ := hr
  obtain ⟨st', hst', -, hmono⟩ := h.knows hreach hst
  exact ⟨hlane, hrange, st', hst', hmono r hknows⟩

/-- **A step keeps the invariant.** -/
theorem Sound.live (h : s.Sound checksum config)
    (hstep : LiveStep checksum config s s') : s'.Sound checksum config := by
  cases hstep with
  | engine hstep =>
    refine ⟨h.reachable.tail hstep.of_live, fun i shard hi ↦ ?_⟩
    exact (h.shards i shard hi).mono fun r ↦ places_of_engineStep hstep h.reachable
  | append hi hsends happend =>
    obtain ⟨⟨front, last, hholds⟩, hplaces⟩ := h.shards _ _ hi
    obtain ⟨front', last', hholds', -, hframes⟩ := hholds.appendPreparedGroup happend
    refine h.set ⟨⟨front', last', hholds'⟩, fun l hl ↦ ?_⟩
    obtain ⟨x, hx, hreservation⟩ := hholds'.exists_frame hl
    rw [hframes] at hx
    rcases mem_append.1 hx with hx | hx
    · obtain ⟨l', hl', hsame⟩ := hholds.exists_location hx
      rw [hreservation, ← hsame]
      exact hplaces l' hl'
    · obtain ⟨hlane, -, st, hst, hretains⟩ := hsends x hx
      rw [hreservation]
      have hl := (h.reachable.sound_and_tagged hst).1.layout
      exact ⟨hlane, (hretains.range hl).2.1, st, hst, hretains.knows⟩
  | sealPack hi hseal =>
    obtain ⟨⟨front, last, hholds⟩, hplaces⟩ := h.shards _ _ hi
    obtain ⟨front', last', hholds', -⟩ := hholds.sealActive hseal
    refine h.set ⟨⟨front', last', hholds'⟩, ?_⟩
    rwa [ix_sealActive hseal]
  | collect hi _ hcollect =>
    obtain ⟨⟨front, last, hholds⟩, hplaces⟩ := h.shards _ _ hi
    refine h.set ⟨⟨_, _, (hholds.garbageCollect hcollect).1⟩, fun l hl ↦ hplaces l ?_⟩
    obtain ⟨planEpoch, rfl⟩ := Holds.garbageCollect_eq_ok hcollect
    exact (mem_filter.1 hl).1

end ShardedEngine

section Runs

/-- **The invariant holds in every run**, through restarts. -/
theorem ShardedReachable.sound (h : ShardedReachable checksum config s) :
    s.Sound checksum config := by
  induction h with
  | opened hshards =>
    refine ⟨.refl, fun i shard hi ↦ ?_⟩
    obtain ⟨storeConfig, storeToken, hopen⟩ := hshards shard (mem_of_getElem? hi)
    have hholds := (holds_of_openInner_nil hopen).1
    refine ⟨⟨_, _, hholds⟩, fun l hl ↦ ?_⟩
    cases hholds.byBatch.mem_iff.1 hl
  | live _ hstep ih => exact ih.live hstep
  | @restart s states shards _ hrec hshards ih =>
    have hreach : EngineReachable config .any { s.engine with states, inFlight := [] } :=
      ih.reachable.tail (.restart trivial hrec)
    refine ⟨hreach, fun i shard' hi ↦ ?_⟩
    obtain ⟨hlt', rfl⟩ := List.getElem?_eq_some_iff.1 hi
    have hlt : i < s.shards.length := by rwa [hshards.length_eq]
    obtain ⟨hholds, hsurvives⟩ := hshards.get hlt hlt'
    refine ⟨hholds, fun l hl ↦ ?_⟩
    obtain ⟨⟨l₀, hl₀, hsame⟩, x, hx, hdurable⟩ := (hsurvives l.reservation).1 ⟨l, hl, rfl⟩
    have hplaces := (ih.shards i _ (List.getElem?_eq_getElem hlt)).2 l₀ hl₀
    -- what survived is durable, and a durable extent is known after the restart
    obtain ⟨-, st, hst, hknows⟩ := hreach.extentsKnown x hx
    rw [ExtentCatalogEntry.topicPartition, hdurable] at hst
    rw [hsame] at hplaces
    refine ⟨?_, hplaces.2.1, st, hst, hdurable ▸ hknows⟩
    rw [← hplaces.1, hshards.length_eq]

/-- Shards that have indexed only durable extents survive as they are. -/
theorem ShardedReachable.survives (h : ShardedReachable checksum config s)
    (hdurable : ∀ shard ∈ s.shards, ∀ l ∈ shard.ix.byBatch,
      ∃ x ∈ s.engine.extents, x.reservation = l.reservation) :
    List.Forall₂ (Survives checksum s.engine.extents) s.shards s.shards := by
  refine forall₂_same.2 fun shard hshard ↦ ?_
  obtain ⟨i, hi⟩ := mem_iff_getElem?.1 hshard
  refine ⟨(h.sound.shards i shard hi).1, fun r ↦ ⟨fun ⟨l, hl, heq⟩ ↦ ⟨⟨l, hl, heq⟩, ?_⟩, And.left⟩⟩
  rw [← heq]
  exact hdurable shard hshard l hl

namespace ShardedEngine

/-- Every durable extent is indexed by a shard, or below the log start of its partition. -/
def Complete (s : ShardedEngine) : Prop :=
  ∀ x ∈ s.engine.extents,
  (∃ shard ∈ s.shards, ∃ l ∈ shard.ix.byBatch, l.reservation = x.reservation) ∨
    ∃ st, s.engine.states.get x.topicPartition = some st ∧ x.reservation.lastOffset < st.logStart

/-- A step of one shard that drops nothing above the log starts. -/
theorem Complete.set (h : s.Complete) (hi : s.shards[i]? = some shard)
    (hkept : ∀ l ∈ shard.ix.byBatch, (∃ l' ∈ shard'.ix.byBatch, l'.reservation = l.reservation) ∨
      ∃ st, s.engine.states.get l.reservation.topicPartition = some st ∧
        l.reservation.lastOffset < st.logStart) :
    (⟨s.engine, s.shards.set i shard'⟩ : ShardedEngine).Complete := by
  intro x hx
  rcases h x hx with ⟨other, hother, l, hl, heq⟩ | hbelow
  · obtain ⟨j, hj⟩ := mem_iff_getElem?.1 hother
    by_cases hij : i = j
    · subst hij
      rw [hi] at hj
      cases hj
      rcases hkept l hl with ⟨l', hl', heq'⟩ | ⟨st, hst, hlt⟩
      · refine .inl ⟨shard', mem_set (List.getElem?_eq_some_iff.1 hi).1 _, l', hl', ?_⟩
        rw [heq', heq]
      · rw [heq] at hst hlt
        exact .inr ⟨st, hst, hlt⟩
    · refine .inl ⟨other, ?_, l, hl, heq⟩
      refine mem_of_getElem? (i := j) ?_
      rw [List.getElem?_set_ne hij]
      exact hj
  · exact .inr hbelow

/-- **A step loses no durable extent.** -/
theorem Complete.live (h : s.Complete) (hsound : s.Sound checksum config)
    (hstep : LiveStep checksum config s s') : s'.Complete := by
  have hsound' := hsound.live hstep
  cases hstep with
  | engine hstep hwritten =>
    intro x hx
    rcases hwritten x hx with hold | ⟨shard, hshard, hkey⟩
    · refine (h x hold).imp_right fun ⟨st, hst, hlt⟩ ↦ ?_
      obtain ⟨st', hst', hle, -⟩ := hstep.knows hsound.reachable hst
      exact ⟨st', hst', hlt.trans_le hle⟩
    · obtain ⟨l, hl, hsame⟩ := any_eq_true.1 hkey
      obtain ⟨i, hi⟩ := mem_iff_getElem?.1 hshard
      obtain ⟨-, -, st, hst, hknows⟩ := (hsound'.shards i shard hi).2 l hl
      obtain ⟨-, st', hst', hknows'⟩ := hsound'.reachable.extentsKnown x hx
      obtain ⟨htp, hid⟩ := Prod.ext_iff.1 (of_decide_eq_true hsame)
      change l.reservation.topicPartition = x.topicPartition at htp
      change l.reservation.batchId = x.reservation.batchId at hid
      rw [htp, hst'] at hst
      obtain rfl := Option.some.inj hst
      -- the partition holds at most one reservation under an id
      rcases hknows' with ⟨-, hlt⟩ | hretains
      · exact .inr ⟨st', hst', hlt⟩
      · obtain ⟨b, hb, -⟩ := id hretains
        exact .inl ⟨shard, hshard, l, hl, (hknows.retains (hid ▸ hb)).eq_of_batchId hretains hid⟩
  | append hi hsends happend =>
    obtain ⟨⟨front, last, hholds⟩, -⟩ := hsound.shards _ _ hi
    obtain ⟨front', last', hholds', -, hframes⟩ := hholds.appendPreparedGroup happend
    refine h.set hi fun l hl ↦ .inl ?_
    obtain ⟨x, hx, heq⟩ := hholds.exists_frame hl
    obtain ⟨l', hl', heq'⟩ := hholds'.exists_location (hframes ▸ mem_append_left _ hx)
    exact ⟨l', hl', heq'.trans heq.symm⟩
  | sealPack hi hseal =>
    refine h.set hi fun l hl ↦ .inl ⟨l, ?_, rfl⟩
    rwa [ix_sealActive hseal]
  | @collect i shard shard' logStarts hi hstarts hcollect =>
    refine h.set hi fun l hl ↦ ?_
    by_cases hremoved : l.packSequence ∈ shard.removedPacks logStarts
    · -- a removed pack lies below the log starts
      obtain ⟨pack, hpack, hsequence⟩ := mem_map.1 hremoved
      obtain ⟨-, hremovable⟩ := mem_filter.1 hpack
      obtain ⟨-, hall⟩ := Bool.and_eq_true_iff.1 hremovable
      have hbefore := all_eq_true.1 hall l (mem_filter.2 ⟨hl, decide_eq_true hsequence.symm⟩)
      obtain ⟨start, hstart, hlt⟩ := (Option.any_eq_true ..).1 hbefore
      obtain ⟨st, hst, hle⟩ := hstarts _ _ hstart
      exact .inr ⟨st, hst, (of_decide_eq_true hlt).trans_le hle⟩
    · obtain ⟨planEpoch, rfl⟩ := ShardStore.Holds.garbageCollect_eq_ok hcollect
      exact .inl ⟨l, mem_filter.2 ⟨hl, decide_eq_true hremoved⟩, rfl⟩

end ShardedEngine

/-- **No durable extent is lost** in any run, through restarts. -/
theorem ShardedReachable.complete (h : ShardedReachable checksum config s) : s.Complete := by
  induction h with
  | opened => exact fun x hx ↦ by cases hx
  | live hs hstep ih => exact ih.live hs.sound hstep
  | @restart s states shards hs hrec hshards ih =>
    intro x hx
    rcases ih x hx with ⟨shard, hshard, l, hl, heq⟩ | ⟨st, hst, hlt⟩
    · obtain ⟨i, hi, rfl⟩ := mem_iff_getElem.1 hshard
      have hi' : i < shards.length := by rwa [← hshards.length_eq]
      obtain ⟨-, hsurvives⟩ := hshards.get hi hi'
      exact .inl ⟨_, getElem_mem hi', (hsurvives x.reservation).2 ⟨⟨l, hl, heq⟩, x, hx, rfl⟩⟩
    · obtain ⟨r, st', hb, hst', hr⟩ := hs.sound.reachable.recovered_of_live hrec hst
      refine .inr ⟨st', hst', ?_⟩
      have hstart : st'.logStart = st.logStart :=
        hr.logStart.trans (hb.backed _ st hst).journaling.logStart
      rwa [hstart]

/-- A run of a running engine keeps the invariant, the number of shards and what is known. -/
theorem LiveRun.keeps (h : LiveRun checksum config s s')
    (hs : s.Sound checksum config) : s'.Sound checksum config ∧
      s'.shards.length = s.shards.length ∧ ∀ i r, s.Places i r → s'.Places i r := by
  induction h with
  | refl => exact ⟨hs, rfl, fun _ _ h ↦ h⟩
  | @tail s₁ s₂ _ hstep ih =>
    obtain ⟨hs₁, hlength, hplaces⟩ := ih
    suffices hstep' : s₂.shards.length = s₁.shards.length ∧ ∀ i r, s₁.Places i r →
      s₂.Places i r from
      ⟨hs₁.live hstep, hstep'.1.trans hlength, fun i r h ↦ hstep'.2 i r (hplaces i r h)⟩
    cases hstep with
    | engine hstep =>
      exact ⟨rfl, fun i r ↦ ShardedEngine.places_of_engineStep hstep hs₁.reachable⟩
    | append | sealPack | collect =>
      refine ⟨length_set, fun i r ⟨hlane, hst⟩ ↦ ⟨?_, hst⟩⟩
      rwa [length_set]

end Runs

/-! ### A fetch and what happens meanwhile -/

/-- A fetch that was answered, with the states of the engine in which its phases were served. -/
structure InterleavedFetch (checksum : ExtentChecksum) (config : EngineConfig)
    (request : FetchRequest) where
  /-- The engine when the coordinator gives the bounds. -/
  atBounds : ShardedEngine
  /-- The engine when the coordinator tells which batches are committed. -/
  atCandidates : ShardedEngine
  reachable : ShardedReachable checksum config atBounds
  run : LiveRun checksum config atBounds atCandidates
  snapshot : PartitionState
  snapshot_eq : atBounds.engine.states.get request.topicPartition = some snapshot
  bounds : FetchBounds
  bounds_eq : snapshot.fetchBounds request.startOffset = .ok bounds
  shardPlans : List (List StoredBatchMetadata)
  length_shardPlans : shardPlans.length = atBounds.shards.length
  /-- Each shard plans at a time of its own. -/
  planned : ∀ (i : Nat) (plan : List StoredBatchMetadata), shardPlans[i]? = some plan →
    ∃ s shard, LiveRun checksum config atBounds s ∧
    LiveRun checksum config s atCandidates ∧
      s.shards[i]? = some shard ∧ shard.planFetch request.topicPartition request.startOffset
        request.maxBytes maxFetchPlanBatchesPerShard = .ok plan
  answering : PartitionState
  answering_eq : atCandidates.engine.states.get request.topicPartition = some answering
  committed : CommittedBatchSet
  committed_eq : committedCandidates answering.toPartitionCore
    (shardPlans.flatten.map (·.reservation.batchId)) false = .ok committed
  selection : FetchSelection
  selection_eq : selectFetchPlan shardPlans request.mode (bounds.fetchEnd request.mode false)
    committed request.maxBytes = .ok selection
  shardBatches : List (List StoredBatch)
  /-- Each shard reads its part, in whatever state it then is. -/
  read : List.Forall₂ (fun planned batches ↦
    ∃ shard : ShardStore, shard.readFetchPlan planned = .ok batches) selection.byShard shardBatches
  batches : List StoredBatch
  batches_eq : materializeStoredBatches shardBatches selection.mergeOrder = .ok batches

namespace InterleavedFetch

variable {request : FetchRequest}

/-- A fetch whose bounds and plans are those of one state, and whose candidates and parts those of
another. -/
def phases (st st' : PartitionCore) (shards shards' : List ShardStore) (request : FetchRequest) :
    Except EngineError (List StoredBatch) := do
  let bounds ← st.fetchBounds request.startOffset
  let shardPlans ← shards.mapM fun shard ↦ liftStorage (shard.planFetch request.topicPartition
    request.startOffset request.maxBytes maxFetchPlanBatchesPerShard)
  let committed ← committedCandidates st' (shardPlans.flatten.map (·.reservation.batchId)) false
  let selection ← selectFetchPlan shardPlans request.mode (bounds.fetchEnd request.mode false)
    committed request.maxBytes
  let shardBatches ← (shards'.zip selection.byShard).mapM fun (shard, planned) ↦
    liftStorage (shard.readFetchPlan planned)
  materializeStoredBatches shardBatches selection.mergeOrder

theorem exists_of_phases {batches : List StoredBatch} {st' : PartitionState}
    (hs : ShardedReachable checksum config s) (hrun : LiveRun checksum config s s')
    (hshards : s'.shards.length = s.shards.length)
    (hst : s.engine.states.get request.topicPartition = some st)
    (hst' : s'.engine.states.get request.topicPartition = some st')
    (h : phases st.toPartitionCore st'.toPartitionCore s.shards s'.shards request = .ok batches) :
    ∃ f : InterleavedFetch checksum config request,
      f.snapshot = st ∧ f.answering = st' ∧ f.batches = batches := by
  unfold phases at h
  obtain ⟨bounds, hbounds, h⟩ := bind_eq_ok_iff.1 h
  obtain ⟨shardPlans, hplans, h⟩ := bind_eq_ok_iff.1 h
  obtain ⟨committed, hcommitted, h⟩ := bind_eq_ok_iff.1 h
  obtain ⟨selection, hselection, h⟩ := bind_eq_ok_iff.1 h
  obtain ⟨shardBatches, hread, h⟩ := bind_eq_ok_iff.1 h
  have hplans := mapM_eq_ok_iff.1 hplans
  have hlength : shardPlans.length = s.shards.length := hplans.length_eq.symm
  refine ⟨⟨s, s', hs, hrun, st, hst, bounds, hbounds, shardPlans, hlength, fun i plan hi ↦ ?_, st',
    hst', committed, hcommitted, selection, hselection, shardBatches, ?_, batches, h⟩, rfl, rfl,
    rfl⟩
  · obtain ⟨hi', rfl⟩ := List.getElem?_eq_some_iff.1 hi
    have hlt : i < s.shards.length := by omega
    exact ⟨s, _, .refl, hrun, List.getElem?_eq_getElem hlt,
      liftStorage_eq_ok_iff.1 (hplans.get hlt hi')⟩
  · obtain ⟨selected, -, rfl⟩ := map_eq_ok_iff.1 hselection
    have hzip : (s'.shards.zip (Lanes.deal shardPlans.length selected)).map Prod.snd =
        Lanes.deal shardPlans.length selected :=
      map_snd_zip (by simp [Lanes.deal, hlength, hshards])
    rw [← hzip]
    exact forall₂_map_left_iff.2 ((mapM_eq_ok_iff.1 hread).imp fun p batches hp ↦
      ⟨p.1, liftStorage_eq_ok_iff.1 hp⟩)

variable (f : InterleavedFetch checksum config request)

include f

theorem atCandidates_sound : f.atCandidates.Sound checksum config :=
  (f.run.keeps f.reachable.sound).1

/-- What a shard plans is placed there when the coordinator answers. -/
theorem places {plan : List StoredBatchMetadata} (h : f.shardPlans[i]? = some plan) :
    ∃ shard, PlanShape request.topicPartition request.startOffset shard plan ∧
      ∀ m ∈ plan, f.atCandidates.Places i m.reservation := by
  obtain ⟨s, shard, hbefore, hafter, hi, hplan⟩ := f.planned i plan h
  have hsound := (hbefore.keeps f.reachable.sound).1
  obtain ⟨⟨front, last, hholds⟩, hplaces⟩ := hsound.shards i shard hi
  have hshape := hholds.planShape hplan
  exact ⟨shard, hshape, fun m hm ↦
    (hafter.keeps hsound).2.2 i _ (hplaces _ (hshape.indexed m hm).1)⟩

theorem toPlanned : Planned f.answering request.startOffset f.shardPlans := by
  have hs := (f.atCandidates_sound.reachable.sound_and_tagged f.answering_eq).1
  refine .of_planShape hs.layout request.topicPartition (fun plan hplan ↦ ?_) (fun plan hplan m hm ↦
    ?_) ?_
  · obtain ⟨i, hi⟩ := mem_iff_getElem?.1 hplan
    obtain ⟨shard, hshape, -⟩ := f.places hi
    exact ⟨shard, hshape⟩
  · obtain ⟨i, hi⟩ := mem_iff_getElem?.1 hplan
    obtain ⟨shard, hshape, hplaces⟩ := f.places hi
    obtain ⟨-, -, st, hst, hknows⟩ := hplaces m hm
    rw [(hshape.indexed m hm).2, f.answering_eq] at hst
    cases hst
    exact hknows
  · intro i j plan plan' hi hj hlt m hm m' hm' heq
    -- one lane is on one shard
    obtain ⟨-, -, hplaces⟩ := f.places hi
    obtain ⟨-, -, hplaces'⟩ := f.places hj
    have hshard := (hplaces m hm).1
    have hshard' := (hplaces' m' hm').1
    rw [heq] at hshard
    omega

/-- The returned batches are those that the loop selected. -/
theorem exists_selected (hmode : request.mode ≠ .asAvailable) :
    ∃ selected : List (Nat × StoredBatchMetadata),
      f.batches.map StoredBatch.reservation = selected.map (·.2.reservation) ∧
      selected.Sublist ((Planned.merged f.shardPlans).filter
        fun p ↦ f.committed.contains p.2.reservation.batchId) ∧
      ∀ p ∈ selected, p.2.reservation.lastOffset < f.bounds.fetchEnd request.mode false := by
  obtain ⟨selected, hselected, hselection⟩ := map_eq_ok_iff.1 f.selection_eq
  obtain ⟨hsub, hbelow⟩ := selectLoop_sublist hmode hselected
  have hlanes : ∀ p ∈ selected, p.1 < f.shardPlans.length := fun p hp ↦ by
    obtain ⟨plan, hplan, -⟩ := Planned.exists_of_mem_merged (filter_sublist.subset (hsub.subset hp))
    exact (List.getElem?_eq_some_iff.1 hplan).1
  refine ⟨selected, ?_, hsub, hbelow⟩
  have hread := f.read
  have hbatches := f.batches_eq
  rw [← hselection] at hread hbatches
  refine reservation_materialize hlanes ?_ hbatches
  dsimp only at hread
  generalize Lanes.deal f.shardPlans.length selected = byShard, f.shardBatches = shardBatches
    at hread
  induction hread with
  | nil => rfl
  | cons h _ ih =>
    obtain ⟨shard, hshard⟩ := h
    rw [map_cons, map_cons, ih, readFetchPlan_reservation hshard]

end InterleavedFetch

/-- **Fetched data is committed and in order.** Whatever happens between the phases of an ordered or
a replicated fetch, the batches it returns have increasing and disjoint ranges, each reaches the
start and lies below the end of the snapshot, and each was committed when the coordinator was asked;
no batch is returned twice. -/
theorem interleaved_fetch_committed_in_order {checksum : ExtentChecksum}
    {config : EngineConfig} {request : FetchRequest}
    (f : InterleavedFetch checksum config request) (hmode : request.mode ≠ .asAvailable) :
    (f.batches.Pairwise fun a b ↦ a.reservation.lastOffset < b.reservation.firstOffset) ∧
      (f.batches.map fun b ↦ b.reservation.batchId).Nodup ∧
      ∀ b ∈ f.batches, b.reservation.firstOffset ≤ b.reservation.lastOffset ∧
        request.startOffset ≤ b.reservation.lastOffset ∧
        b.reservation.lastOffset < f.bounds.fetchEnd request.mode false ∧
        ∃ held, f.answering.batches.get b.reservation.batchId = some held ∧
          held.reservation = b.reservation ∧ held.status = .committed := by
  obtain ⟨selected, hbatches, hsub, hbelow⟩ := f.exists_selected hmode
  have hl := (f.atCandidates_sound.reachable.sound_and_tagged f.answering_eq).1.layout
  have hplanned := f.toPlanned
  -- what holds of each selected batch
  have hheld : ∀ b ∈ f.batches, request.startOffset ≤ b.reservation.lastOffset ∧
      b.reservation.lastOffset < f.bounds.fetchEnd request.mode false ∧
      ∃ held, f.answering.batches.get b.reservation.batchId = some held ∧
        held.reservation = b.reservation ∧ held.status = .committed := by
    intro b hb
    have hmem := mem_map_of_mem (f := StoredBatch.reservation) hb
    rw [hbatches] at hmem
    obtain ⟨p, hp, hreservation⟩ := mem_map.1 hmem
    obtain ⟨hstart, held, hget, hsame, hstatus⟩ :=
      hplanned.mem_filter_contains f.committed_eq (hsub.subset hp)
    rw [← hreservation]
    exact ⟨hstart, hbelow p hp, held, hget, hsame, by simpa [BatchRuntime.fetchable] using hstatus⟩
  have hrange : ∀ b ∈ f.batches, b.reservation.firstOffset ≤ b.reservation.lastOffset := by
    intro b hb
    obtain ⟨-, -, held, hget, hsame, -⟩ := hheld b hb
    have hretains : f.answering.Retains b.reservation := ⟨held, hget, hsame⟩
    exact (hretains.range hl).2.1
  have hpairs : f.batches.Pairwise
      fun a b ↦ a.reservation.lastOffset < b.reservation.firstOffset := by
    have hselected := (hplanned.pairwise_filter_contains hl f.committed_eq).sublist hsub
    have hreservations : (selected.map (·.2.reservation)).Pairwise
        fun a b ↦ a.lastOffset < b.firstOffset := pairwise_map.2 hselected
    rw [← hbatches] at hreservations
    exact pairwise_map.1 hreservations
  refine ⟨hpairs, ?_, fun b hb ↦ ⟨hrange b hb, hheld b hb⟩⟩
  refine pairwise_map.2 (hpairs.imp_of_mem fun {a b} ha hb hlt heq ↦ ?_)
  obtain ⟨-, -, held, hget, hsame, -⟩ := hheld a ha
  obtain ⟨-, -, held', hget', hsame', -⟩ := hheld b hb
  rw [heq, hget'] at hget
  cases hget
  have := hrange a ha
  rw [hsame.symm.trans hsame'] at hlt this
  omega

/-! ### Scripted runs -/

instance (r : Reservation) : Decidable r.Typed :=
  decidable_of_iff (r.topicId < 2 ^ 128 ∧ r.partitionId < 2 ^ 32 ∧ r.batchId < 2 ^ 128 ∧
      r.firstOffset < 2 ^ 64 ∧ r.lastOffset < 2 ^ 64 ∧ r.placement.virtualLaneId < 2 ^ 32 ∧
      r.placement.ringEpoch < 2 ^ 64 ∧ r.placement.leaderEpoch < 2 ^ 64 ∧
      r.placement.sequence < 2 ^ 64)
    ⟨fun ⟨h₁, h₂, h₃, h₄, h₅, h₆, h₇, h₈, h₉⟩ ↦ ⟨h₁, h₂, h₃, h₄, h₅, h₆, h₇, h₈, h₉⟩,
      fun ⟨h₁, h₂, h₃, h₄, h₅, h₆, h₇, h₈, h₉⟩ ↦ ⟨h₁, h₂, h₃, h₄, h₅, h₆, h₇, h₈, h₉⟩⟩

instance (g : AtomicGroupSequence) : Decidable g.Typed :=
  decidable_of_iff (g.transactionId < 2 ^ 128 ∧ g.chunkSequence < 2 ^ 64)
    ⟨fun ⟨h₁, h₂⟩ ↦ ⟨h₁, h₂⟩, fun ⟨h₁, h₂⟩ ↦ ⟨h₁, h₂⟩⟩

/-- The frame of a reservation and a payload, for a batch without a producer. -/
def Reservation.prepare (r : Reservation) (atomicGroup : Option AtomicGroupSequence)
    (payload : Bytes) : Option PreparedExtent :=
  if h : r.Typed ∧ (∀ g ∈ atomicGroup, g.Typed) ∧ payload.length < 2 ^ 63 then
    some { reservation := r, producer := none, atomicGroup, payload
           reservation_typed := h.1, producer_typed := typed_of_no_producer
           atomicGroup_typed := h.2.1, payload_lt := h.2.2, supported := supported_of_no_producer }
  else none

/-- One action of a script. -/
inductive ShardAction where
  | engine (a : Action)
  /-- A shard appends the frame of a batch. -/
  | append (shard : Nat) (tp : TopicPartition) (batchId : Nat) (payload : Bytes)

/-- The guard against restarts. -/
def Guard.live : Guard := ⟨fun _ _ _ _ ↦ true, fun _ ↦ false⟩

theorem Guard.live_implies : Guard.live.Implies .live :=
  ⟨fun _ _ _ _ _ ↦ trivial, fun _ h ↦ by cases h⟩

namespace ShardedEngine

/-- Execute one action; `none` if the engine cannot make that step. -/
def act (checksum : ExtentChecksum) (config : EngineConfig) (guard : Guard) (s : ShardedEngine) :
    ShardAction → Option ShardedEngine
  | .engine a => do
    let e ← s.engine.act config guard a
    if e.extents.all fun x ↦ decide (x ∈ s.engine.extents) || s.shards.any (·.ix.hasKey x.key) then
      some ⟨e, s.shards⟩
    else none
  | .append i tp batchId payload => do
    let shard ← s.shards[i]?
    let st ← s.engine.states.get tp
    let b ← st.batches.get batchId
    let x ← b.reservation.prepare (b.atomicGroup.map fun g ↦
      ⟨g.transactionId, g.chunkSequence, b.payloadDigest.getD 0⟩) payload
    if b.reservation.batchId = batchId ∧ b.reservation.topicPartition = tp ∧
        (tp, batchId) ∈ s.engine.inFlight ∧
        physicalShardForLane s.shards.length b.reservation.placement.virtualLaneId = i then
      match shard.appendPreparedGroup checksum [x] with
      | .ok shard' => some ⟨s.engine, s.shards.set i shard'⟩
      | .error _ => none
    else none

variable {guard : Guard}

/-- An action is one of the engine, whose extents are written before, or one of a shard. -/
theorem act_cases {a : ShardAction} (h : s.act checksum config guard a = some s') :
    (∃ a e, s.engine.act config guard a = some e ∧
      (∀ x ∈ e.extents, x ∈ s.engine.extents ∨ s.Indexed x) ∧ s' = ⟨e, s.shards⟩) ∨
    ∃ shards, s' = ⟨s.engine, shards⟩ ∧ LiveStep checksum config s ⟨s.engine, shards⟩ := by
  cases a with
  | engine a =>
    simp only [act, bind_eq_bind, bind_eq_some_iff, ite_none_right_eq_some, some.injEq] at h
    obtain ⟨e, he, hwritten, rfl⟩ := h
    refine .inl ⟨a, e, he, fun x hx ↦ ?_, rfl⟩
    simpa [Indexed] using all_eq_true.1 hwritten x hx
  | append i tp batchId payload =>
    simp only [act, bind_eq_bind, bind_eq_some_iff, ite_none_right_eq_some] at h
    obtain ⟨shard, hi, st, hst, b, hb, x, hx, ⟨rfl, rfl, hflight, hshard⟩, h⟩ := h
    unfold Reservation.prepare at hx
    split_ifs at hx with htyped
    cases hx
    split at h
    next shard' happend =>
      cases h
      refine .inr ⟨_, rfl, .append hi (fun y hy ↦ ?_) happend⟩
      rw [mem_singleton.1 hy]
      exact ⟨hshard, hflight, st, hst, b, hb, rfl⟩
    next => cases h

theorem act_sound {a : ShardAction} (h : s.act checksum config .live a = some s') :
    LiveStep checksum config s s' := by
  rcases act_cases h with ⟨a, e, he, hwritten, rfl⟩ | ⟨shards, rfl, hstep⟩
  · exact .engine (Engine.act_sound Guard.live_implies he) hwritten
  · exact hstep

/-- Execute a script on `count` empty shards. -/
def play (checksum : ExtentChecksum) (config : EngineConfig) (guard : Guard)
    (storeConfig : ShardStoreConfig) (count : Nat) (script : List ShardAction) :
    Option ShardedEngine := do
  let shard ← (openInner checksum storeConfig 0 []).toOption
  script.foldlM (act checksum config guard) ⟨.initial, replicate count shard⟩

/-- What holds at the start and is kept by every action holds where a script gets to. -/
theorem play_induction {storeConfig : ShardStoreConfig} {count : Nat} {script : List ShardAction}
    {P : ShardedEngine → Prop}
    (hstart : ∀ shards : List ShardStore, (∀ shard ∈ shards, ∃ storeConfig storeToken,
      openInner checksum storeConfig storeToken [] = .ok shard) → P ⟨.initial, shards⟩)
    (hact : ∀ s a s', P s → s.act checksum config guard a = some s' → P s')
    (h : play checksum config guard storeConfig count script = some s) : P s := by
  simp only [play, bind_eq_bind, bind_eq_some_iff] at h
  obtain ⟨shard, hshard, h⟩ := h
  have hopen := toOption_eq_some_iff.1 hshard
  exact foldlM_induction hact
    (hstart _ fun _ hmem ↦ ⟨storeConfig, 0, by rw [eq_of_mem_replicate hmem, hopen]⟩) h

/-- A property of an engine that a script reaches. -/
theorem exists_of_play (checksum : ExtentChecksum) (config : EngineConfig)
    (storeConfig : ShardStoreConfig) (count : Nat) (script : List ShardAction)
    (P : ShardedEngine → Prop)
    (h : ∃ s, play checksum config .live storeConfig count script = some s ∧ P s) :
    ∃ s, ShardedReachable checksum config s ∧ P s := by
  obtain ⟨s, hs, hP⟩ := h
  exact ⟨s, play_induction (fun _ ↦ .opened) (fun _ _ _ hs hact ↦ hs.live (act_sound hact)) hs, hP⟩

/-- A property of an engine that a script reaches, with shards that have indexed only durable
extents, and of what it recovers. -/
theorem exists_recovered_of_play (config : EngineConfig) (count : Nat) (script : List ShardAction)
    (P : ShardedEngine → Table TopicPartition PartitionState → PartitionState → Prop)
    (h : ∃ s, play lengthChecksum config .live ⟨1000, 100⟩ count script = some s ∧
      (∀ shard ∈ s.shards, ∀ l ∈ shard.ix.byBatch,
        ∃ x ∈ s.engine.extents, x.reservation = l.reservation) ∧
      ∃ states, s.engine.recover config 1 = .ok states ∧
        ∃ st, states.get ⟨0, 0⟩ = some st ∧ P s states st) :
    ∃ s states st, ShardedReachable lengthChecksum config s ∧
      s.engine.recover config 1 = .ok states ∧
      List.Forall₂ (Survives lengthChecksum s.engine.extents) s.shards s.shards ∧
      states.get ⟨0, 0⟩ = some st ∧ P s states st := by
  obtain ⟨s, hs, hdurable, states, hrec, st, hst, hP⟩ := exists_of_play _ _ _ _ _ _ h
  exact ⟨s, states, st, hs, hrec, hs.survives hdurable, hst, hP⟩

end ShardedEngine

/-- The actions that append a plain batch of one record on a shard and complete it. -/
def appendedOn (shard batchId : Nat) (payload : Bytes) : List ShardAction :=
  [.engine (.reserve ⟨0, 0⟩ none none .one payload.length 0),
    .append shard ⟨0, 0⟩ batchId payload, .engine (.write ⟨0, 0⟩ batchId),
    .engine (.complete ⟨0, 0⟩ batchId)]

/-- Two batches on two shards. -/
def onTwoShards : List ShardAction :=
  .engine (.create ⟨0, 0⟩ [0, 1] ⟨1, 1, 1⟩) :: appendedOn 0 0 [1] ++ appendedOn 1 1 [2, 3]

/-- Two batches, of which the first is truncated. -/
def truncatedFirst : List ShardAction :=
  .engine (.create ⟨0, 0⟩ [0] ⟨1, 1, 1⟩) :: appendedOn 0 0 [1] ++ appendedOn 0 1 [2] ++
    [.engine (.command ⟨0, 0⟩ fun _ ↦ some (.truncate 1))]

/-- A plain batch, and a chunk of a group that is aborted behind it. -/
def abortedLast : List ShardAction :=
  .engine (.create ⟨0, 0⟩ [0] ⟨1, 1, 1⟩) :: appendedOn 0 0 [1] ++
    [.engine (.reserve ⟨0, 0⟩ none (some ⟨7, 0⟩) .one 1 0),
      .append 0 ⟨0, 0⟩ 1 [2], .engine (.write ⟨0, 0⟩ 1), .engine (.complete ⟨0, 0⟩ 1),
      .engine (.command ⟨0, 0⟩ fun _ ↦ some (.finalizeAtomicGroup 7 .aborted))]

/-- The two batches are fetched in order. A third one, which is planned with them, is completed
after the bounds were given. -/
theorem two_shards_fetched_in_order : ∃ f : InterleavedFetch lengthChecksum ⟨2, 1, 1⟩
      ⟨⟨0, 0⟩, 0, 10, .ordered⟩,
    f.snapshot.lastStableOffset = 2 ∧ f.answering.lastStableOffset = 3 ∧
      f.batches.map StoredBatch.payload = [[1], [2, 3]] ∧
      f.batches.Pairwise fun a b ↦ a.reservation.lastOffset < b.reservation.firstOffset := by
  obtain ⟨s, hs, h⟩ := ShardedEngine.exists_of_play lengthChecksum ⟨2, 1, 1⟩ ⟨1000, 100⟩ 2
    (onTwoShards ++ (appendedOn 0 2 [4]).take 3)
    (fun s ↦ ∃ st, s.engine.states.get ⟨0, 0⟩ = some st ∧
      ∃ s', s.act lengthChecksum ⟨2, 1, 1⟩ .live (.engine (.complete ⟨0, 0⟩ 2)) = some s' ∧
        s'.shards.length = s.shards.length ∧
        ∃ st', s'.engine.states.get ⟨0, 0⟩ = some st' ∧ st.lastStableOffset = 2 ∧
          st'.lastStableOffset = 3 ∧ ∃ batches, InterleavedFetch.phases st.toPartitionCore
            st'.toPartitionCore s.shards s'.shards ⟨⟨0, 0⟩, 0, 10, .ordered⟩ = .ok batches ∧
              batches.map StoredBatch.payload = [[1], [2, 3]])
    (by decide +kernel)
  obtain ⟨st, hst, s', hact, hshards, st', hst', hend, hend', batches, hfetch, hpayloads⟩ := h
  obtain ⟨f, rfl, rfl, rfl⟩ := InterleavedFetch.exists_of_phases hs
    (.single (ShardedEngine.act_sound hact)) hshards hst hst' hfetch
  exact ⟨f, hend, hend', hpayloads, (interleaved_fetch_committed_in_order f (by decide)).1⟩

end ShardStream
