import ShardStream.Storage.Fetch

/-!
# Garbage collection

Garbage collection removes sealed packs in two steps each: the file is renamed to a tombstone and
the tombstone is deleted. If it is interrupted, the next opening of the directory deletes the
tombstones that are left. `CollectRun` is a run of a store in which collections may be interrupted
in this way; nothing is lost that a later collection was not allowed to remove.

A shard store holds the extents of many partitions in one pack, and a pack is removed when all of
them are below the log starts of the call. The worker collects for one partition at a time.
`ShardStore.runOps` runs such collections; a pack with extents of two partitions is never removed by
it (`ShardStore.Holds.sealedPack_of_runOps`).
-/

namespace ShardStream

open List Table ShardStore

variable {checksum : ExtentChecksum} {config : ShardStoreConfig}
  {store store' : ShardStore} {front : List PackFrames} {last : PackFrames}
  {logStarts : Table TopicPartition Nat} {ops : List CollectOp} {op : CollectOp}
  {tp : TopicPartition} {logStart sequence : Nat} {x : ExtentInput}

/-! ### Removal in two steps -/

/-- The directory of a store: its packs, and the tombstones (`.sse.gc-pending`). -/
@[ext] structure StoreDirectory where
  packs : List PackFile
  pending : List PackFile

/-- A change that `garbage_collect` makes to the directory. -/
inductive RemovalStep where
  /-- The pack becomes a tombstone. -/
  | rename (sequence : Nat)
  /-- The tombstone is deleted. -/
  | remove (sequence : Nat)

/-- The directory after the change. -/
def StoreDirectory.apply (directory : StoreDirectory) : RemovalStep → StoreDirectory
  | .rename sequence =>
    ⟨directory.packs.filter (·.sequence ≠ sequence),
      directory.pending ++ directory.packs.filter (·.sequence = sequence)⟩
  | .remove sequence =>
    { directory with pending := directory.pending.filter (·.sequence ≠ sequence) }

/-- The changes that remove packs, one after the other. -/
def removalSteps (removed : List Nat) : List RemovalStep :=
  removed.flatMap fun sequence ↦ [.rename sequence, .remove sequence]

/-- The directory when `garbage_collect` is interrupted after `n` changes. -/
def ShardStore.interruptedCollect (store : ShardStore) (logStarts : Table TopicPartition Nat)
    (n : Nat) : StoreDirectory :=
  ((removalSteps (store.removedPacks logStarts)).take n).foldl StoreDirectory.apply
    ⟨store.files, []⟩

/-- `cleanup_pending_pack_deletions`. -/
def StoreDirectory.cleanup (directory : StoreDirectory) : StoreDirectory :=
  { directory with pending := [] }

/-- `open_inner` on a directory that may have tombstones. -/
def StoreDirectory.openStore (checksum : ExtentChecksum) (config : ShardStoreConfig)
    (storeToken : Nat) (directory : StoreDirectory) : Except StorageError ShardStore :=
  openInner checksum config storeToken directory.cleanup.packs

/-- The packs that the changes take away. -/
def renamedBy (steps : List RemovalStep) : List Nat :=
  steps.filterMap fun
    | .rename sequence => some sequence
    | .remove _ => none

theorem packs_foldl_apply (directory : StoreDirectory) (steps : List RemovalStep) :
    (steps.foldl StoreDirectory.apply directory).packs =
      directory.packs.filter (·.sequence ∉ renamedBy steps) := by
  induction steps generalizing directory with
  | nil => simp [renamedBy]
  | cons step steps ih =>
    rw [foldl_cons, ih]
    cases step with
    | rename sequence =>
      simp only [StoreDirectory.apply]
      simp [renamedBy, Bool.and_comm]
    | remove sequence => rfl

theorem renamedBy_removalSteps (removed : List Nat) :
    renamedBy (removalSteps removed) = removed := by
  induction removed with
  | nil => rfl
  | cons sequence removed ih => exact congrArg (sequence :: ·) ih

/-- **An interrupted collection leaves all packs but some of those it was to remove.** -/
theorem ShardStore.packs_interruptedCollect (store : ShardStore)
    (logStarts : Table TopicPartition Nat) (n : Nat) :
    ∃ gone, gone ⊆ store.removedPacks logStarts ∧
      (store.interruptedCollect logStarts n).packs = store.files.filter (·.sequence ∉ gone) := by
  refine ⟨_, ?_, packs_foldl_apply ..⟩
  conv_rhs => rw [← renamedBy_removalSteps (store.removedPacks logStarts)]
  exact ((take_sublist ..).filterMap _).subset

/-- A pack that holds no tombstones goes through both changes without a trace. -/
theorem pending_foldl_removalSteps {directory : StoreDirectory} (hpending : directory.pending = [])
    (removed : List Nat) :
    ((removalSteps removed).foldl StoreDirectory.apply directory).pending = [] := by
  induction removed generalizing directory with
  | nil => exact hpending
  | cons sequence removed ih =>
    refine ih ?_
    simp [StoreDirectory.apply, hpending]

/-- **A collection that is not interrupted** leaves the files of the store it returns, and no
tombstones. -/
theorem ShardStore.Holds.interruptedCollect_complete (h : store.Holds checksum front last)
    (hok : store.garbageCollect logStarts = .ok store') :
    store.interruptedCollect logStarts (removalSteps (store.removedPacks logStarts)).length =
      ⟨store'.files, []⟩ := by
  have hactive : store.active.sequence ∉ store.removedPacks logStarts := by
    rw [h.active]
    exact h.sequence_last_notMem_removedPacks logStarts
  obtain ⟨planEpoch, rfl⟩ := garbageCollect_eq_ok hok
  rw [ShardStore.interruptedCollect, take_length]
  refine StoreDirectory.ext ?_ (pending_foldl_removalSteps rfl _)
  rw [packs_foldl_apply, renamedBy_removalSteps]
  simp [ShardStore.files, hactive]

/-- The store that an interrupted collection would have left. -/
theorem ShardStore.Holds.interruptedCollect (h : store.Holds checksum front last)
    (logStarts : Table TopicPartition Nat) (n : Nat) :
    ∃ gone, ∃ left : ShardStore, gone ⊆ store.removedPacks logStarts ∧
      left.files = (store.interruptedCollect logStarts n).packs ∧ left.config = store.config ∧
      left.Holds checksum (front.filter fun p ↦ decide (p.sequence ∉ gone)) last := by
  obtain ⟨gone, hgone, hpacks⟩ := store.packs_interruptedCollect logStarts n
  have hlast : last.sequence ∉ gone :=
    fun hmem ↦ h.sequence_last_notMem_removedPacks logStarts (hgone hmem)
  refine ⟨gone, _, hgone, ?_, ?_, h.drop hlast 0⟩
  · have hactive : store.active.sequence ∉ gone := by rwa [h.active]
    rw [hpacks]
    simp [ShardStore.files, hactive]
  · rfl

/-! ### Runs with interrupted collections -/

/-- A call to a store, or a collection that is interrupted after some changes, with the opening of
the directory that follows. -/
inductive CollectOp where
  | call (op : StoreOp)
  | interrupted (logStarts : Table TopicPartition Nat) (changes storeToken : Nat)

namespace CollectOp

/-- What the call does. -/
def apply (checksum : ExtentChecksum) (store : ShardStore) :
    CollectOp → Except StorageError ShardStore
  | call op => op.apply checksum store
  | interrupted logStarts changes storeToken =>
    (store.interruptedCollect logStarts changes).openStore checksum store.config storeToken

/-- The extents that the call appends. -/
def extents : CollectOp → List ExtentInput
  | call op => op.extents
  | interrupted .. => []

/-- The call permits the removal of the extent. -/
def Collects : CollectOp → ExtentInput → Prop
  | call op, x => op.Collects x
  | interrupted logStarts _ _, x => (StoreOp.garbageCollect logStarts).Collects x

end CollectOp

/-- The calls all succeed on a store that begins with an empty directory, and leave `store`. -/
inductive CollectRun (checksum : ExtentChecksum) (config : ShardStoreConfig) :
    List CollectOp → ShardStore → Prop
  | opened {storeToken : Nat} {store : ShardStore}
      (h : ShardStore.openInner checksum config storeToken [] = .ok store) :
      CollectRun checksum config [] store
  | step {ops : List CollectOp} {op : CollectOp} {store store' : ShardStore}
      (run : CollectRun checksum config ops store)
      (h : op.apply checksum store = .ok store') :
      CollectRun checksum config (ops ++ [op]) store'

/-- The extent was appended, and no later collection was allowed to remove it: its partition had no
log start there, or the extent ends at or above it. -/
def Needed (ops : List CollectOp) (x : ExtentInput) : Prop :=
  ∃ before op later, ops = before ++ op :: later ∧ x ∈ op.extents ∧ ∀ op' ∈ later, ¬ op'.Collects x

theorem needed_append (h : Needed (ops ++ [op]) x) :
    Needed ops x ∧ ¬ op.Collects x ∨ x ∈ op.extents := by
  obtain ⟨before, op', later, heq, hx, hlater⟩ := h
  rcases eq_nil_or_concat later with rfl | ⟨later, op'', rfl⟩
  · obtain ⟨-, heq⟩ := append_inj' heq rfl
    cases heq
    exact .inr hx
  · rw [concat_eq_append] at heq hlater
    rw [← cons_append, ← append_assoc] at heq
    obtain ⟨rfl, hlast⟩ := append_inj' heq rfl
    cases hlast
    exact .inl ⟨⟨before, op', later, rfl, hx, fun o ho ↦ hlater o (mem_append_left _ ho)⟩,
      hlater op (by simp)⟩

/-- **What a call does to the frames of a store**, also when it is interrupted. -/
theorem ShardStore.Holds.applyCollect (h : store.Holds checksum front last)
    (hok : op.apply checksum store = .ok store') :
    ∃ front' last', store'.Holds checksum front' last' ∧
      (∀ x ∈ heldFrames (front ++ [last]), x ∈ heldFrames (front' ++ [last']) ∨
        op.Collects x.toExtentInput) ∧
      ∀ x ∈ op.extents, ∃ y ∈ heldFrames (front' ++ [last']), y.toExtentInput = x := by
  cases op with
  | call op =>
    obtain ⟨front', last', h', -, heffect⟩ := h.apply hok
    exact ⟨front', last', h', heffect.kept, heffect.appended⟩
  | interrupted logStarts changes storeToken =>
    obtain ⟨gone, left, hgone, hfiles, hconfig, hleft⟩ := h.interruptedCollect logStarts changes
    have hopen : openInner checksum left.config storeToken left.files =
        .ok store' := by
      rw [hfiles, hconfig]
      exact hok
    exact ⟨_, last, (hleft.of_openInner hopen).1, fun x hx ↦ h.mem_heldFrames_filter hgone hx,
      by simp [CollectOp.extents]⟩

theorem CollectRun.exists_holds (run : CollectRun checksum config ops store) :
    ∃ front last, store.Holds checksum front last ∧
      ∀ x, Needed ops x → ∃ y ∈ heldFrames (front ++ [last]), y.toExtentInput = x := by
  induction run with
  | opened h =>
    refine ⟨[], ⟨0, []⟩, (holds_of_openInner_nil h).1, fun x hx ↦ ?_⟩
    obtain ⟨before, op, later, heq, -⟩ := hx
    simp at heq
  | step run hok ih =>
    obtain ⟨front, last, h, hneeded⟩ := ih
    obtain ⟨front', last', h', hkept, happended⟩ := h.applyCollect hok
    refine ⟨front', last', h', fun x hx ↦ ?_⟩
    obtain ⟨hx, hcollects⟩ | hx := needed_append hx
    · obtain ⟨y, hy, rfl⟩ := hneeded x hx
      exact ⟨y, (hkept y hy).resolve_right hcollects, rfl⟩
    · exact happended x hx

/-- **Garbage collection removes nothing that is needed.** After any run in which collections may be
interrupted and finished when the directory is opened again, the index, the batch lookup and the
pack files agree; every extent that was appended and that no later collection was allowed to remove
lies in a pack and can be read; and no collection, interrupted or not, removes the active pack. -/
theorem collection_keeps_needed_extents {ops : List CollectOp}
    (run : CollectRun checksum config ops store) :
    ∃ front last, store.Holds checksum front last ∧
      (∀ x, Needed ops x → ∃ y ∈ heldFrames (front ++ [last]), y.toExtentInput = x ∧
        store.readBatch x.reservation =
          .ok (some ⟨x.reservation, x.producer, x.atomicGroup, x.payload⟩)) ∧
      ∀ logStarts, (∀ changes,
          store.active ∈ (store.interruptedCollect logStarts changes).cleanup.packs) ∧
        ∀ store', store.garbageCollect logStarts = .ok store' →
          store'.active = store.active ∧ store.interruptedCollect logStarts
            (removalSteps (store.removedPacks logStarts)).length = ⟨store'.files, []⟩ := by
  obtain ⟨front, last, h, hneeded⟩ := run.exists_holds
  refine ⟨front, last, h, fun x hx ↦ ?_, fun logStarts ↦ ⟨fun changes ↦ ?_, fun store' hok ↦ ?_⟩⟩
  · obtain ⟨y, hy, rfl⟩ := hneeded x hx
    exact ⟨y, hy, rfl, h.readBatch_eq hy⟩
  · obtain ⟨gone, left, hgone, hfiles, -, hleft⟩ := h.interruptedCollect logStarts changes
    have hactive : left.active = store.active := hleft.active.trans h.active.symm
    rw [StoreDirectory.cleanup, ← hfiles, ← hactive]
    exact mem_append_right _ (mem_singleton_self _)
  · refine ⟨?_, h.interruptedCollect_complete hok⟩
    exact (h.garbageCollect hok).1.active.trans h.active.symm

/-- A run that goes on. -/
theorem CollectRun.append {ops' : List CollectOp} (run : CollectRun checksum config ops store)
    (h : ops'.foldlM (fun store op ↦ op.apply checksum store) store = .ok store') :
    CollectRun checksum config (ops ++ ops') store' := by
  induction ops' generalizing ops store with
  | nil =>
    cases h
    rwa [append_nil]
  | cons op ops' ih =>
    obtain ⟨next, hnext, h⟩ := bind_eq_ok_iff.1 h
    have := ih (run.step hnext) h
    rwa [append_assoc] at this

/-- The calls, one after the other, on a store that begins with an empty directory. -/
def runCollect (checksum : ExtentChecksum) (config : ShardStoreConfig)
    (ops : List CollectOp) : Except StorageError ShardStore := do
  let store ← openInner checksum config 0 []
  ops.foldlM (fun store op ↦ op.apply checksum store) store

theorem CollectRun.of_runCollect (h : runCollect checksum config ops = .ok store) :
    CollectRun checksum config ops store := by
  obtain ⟨opened, hopened, h⟩ := bind_eq_ok_iff.1 h
  exact (CollectRun.opened hopened).append h

/-- Two extents in two packs; a collection is interrupted when the first pack is a tombstone. -/
def interruptedOps : List CollectOp :=
  [.call (.append firstExtent.toExtentInput), .call .sealActive, .call (.append secondExtent),
    .interrupted (empty.insert ⟨0, 0⟩ 1) 1 1]

theorem second_extent_readable_after_interruption :
    ∃ store, CollectRun lengthChecksum ⟨1000, 16⟩ interruptedOps store ∧
      Needed interruptedOps secondExtent ∧
      store.readBatch secondExtent.reservation = .ok (some ⟨secondExtent.reservation,
        secondExtent.producer, secondExtent.atomicGroup, secondExtent.payload⟩) := by
  have hok : (runCollect lengthChecksum ⟨1000, 16⟩ interruptedOps).toOption.isSome = true := by
    decide +kernel
  obtain ⟨store, hstore⟩ := Option.isSome_iff_exists.1 hok
  have run := CollectRun.of_runCollect (toOption_eq_some_iff.1 hstore)
  have hneeded : Needed interruptedOps secondExtent := by
    refine ⟨[.call (.append firstExtent.toExtentInput), .call .sealActive],
      .call (.append secondExtent), [.interrupted (empty.insert ⟨0, 0⟩ 1) 1 1], rfl,
      mem_singleton_self secondExtent, fun op hop hcollects ↦ ?_⟩
    obtain rfl := mem_singleton.1 hop
    obtain ⟨logStarts, start, heq, hstart, hlt⟩ := hcollects
    cases heq
    obtain rfl : 1 = start := Option.some.inj hstart
    exact absurd hlt (by decide)
  obtain ⟨front, last, -, hread, -⟩ := collection_keeps_needed_extents run
  obtain ⟨-, -, -, hbatch⟩ := hread secondExtent hneeded
  exact ⟨store, run, hneeded, hbatch⟩

/-! ### Collecting one partition at a time -/

/-- A call to a shard by the engine. -/
inductive ShardOp where
  | append (x : ExtentInput)
  | appendPreparedGroup (prepared : List PreparedExtent)
  | sealActive
  | reopen (storeToken : Nat)
  /-- `garbage_collect` of the worker, for a partition that was truncated. -/
  | truncate (tp : TopicPartition) (logStart : Nat)

/-- The call that the worker makes to its store: a collection gets the log start of one
partition. -/
def ShardOp.toStoreOp : ShardOp → StoreOp
  | append x => .append x
  | appendPreparedGroup prepared => .appendPreparedGroup prepared
  | sealActive => .sealActive
  | reopen storeToken => .reopen storeToken
  | truncate tp logStart => .garbageCollect (empty.insert tp logStart)

/-- The calls, one after the other. -/
def ShardStore.runOps (checksum : ExtentChecksum) (store : ShardStore)
    (ops : List ShardOp) : Except StorageError ShardStore :=
  ops.foldlM (fun store op ↦ op.toStoreOp.apply checksum store) store

/-- The log starts that the calls bring, each partition with its largest. -/
def combinedStarts (ops : List ShardOp) : Table TopicPartition Nat :=
  ops.foldr (fun
    | .truncate tp logStart, starts => starts.insert tp (max logStart ((starts.get tp).getD 0))
    | _, starts => starts) empty

theorem get_combinedStarts_truncate {ops : List ShardOp} {tp' : TopicPartition} :
    (combinedStarts (.truncate tp' logStart :: ops)).get tp =
      if tp = tp' then some (max logStart (((combinedStarts ops).get tp').getD 0))
      else (combinedStarts ops).get tp :=
  get_insert ..

/-- The largest log start of a partition is one that a call brought. -/
theorem mem_of_combinedStarts {ops : List ShardOp}
    (h : (combinedStarts ops).get tp = some logStart) : .truncate tp logStart ∈ ops := by
  induction ops with
  | nil => cases h
  | cons op ops ih =>
    cases op with
    | truncate tp' logStart' =>
      rw [get_combinedStarts_truncate] at h
      split at h
      next heq =>
        cases hget : (combinedStarts ops).get tp with
        | none => simp_all
        | some other =>
          rcases max_choice logStart' other with hmax | hmax <;> simp_all
      · exact mem_cons_of_mem _ (ih h)
    | _ => exact mem_cons_of_mem _ (ih h)

/-- No call brought a larger one. -/
theorem le_combinedStarts {ops : List ShardOp} (h : .truncate tp logStart ∈ ops) :
    ∃ largest, (combinedStarts ops).get tp = some largest ∧ logStart ≤ largest := by
  induction ops with
  | nil => cases h
  | cons op ops ih =>
    cases op with
    | truncate tp' logStart' =>
      rw [get_combinedStarts_truncate]
      split
      next heq =>
        subst heq
        refine ⟨_, rfl, ?_⟩
        rcases mem_cons.1 h with h | h
        · cases h
          exact le_max_left ..
        · obtain ⟨largest, hlargest, hle⟩ := ih h
          rw [hlargest]
          exact hle.trans (le_max_right ..)
      next hne =>
        rcases mem_cons.1 h with h | h
        · cases h
          exact absurd rfl hne
        · exact ih h
    | _ =>
      rcases mem_cons.1 h with h | h
      · cases h
      · exact ih h

/-- A call that collects nothing leaves the sealed packs and their extents, and adds new ones behind
them. -/
structure ShardStore.Grows (store store' : ShardStore) : Prop where
  sealedPacks : ∃ packs, store'.sealedPacks = store.sealedPacks ++ packs ∧
    ∀ pack ∈ packs, store.active.sequence ≤ pack.sequence
  byBatch : ∃ ls, store'.ix.byBatch = store.ix.byBatch ++ ls ∧
    ∀ l ∈ ls, store.active.sequence ≤ l.packSequence
  active : store.active.sequence ≤ store'.active.sequence

namespace ShardStore.Grows

variable {store'' : ShardStore} {xs : List PreparedExtent}

theorem refl (store : ShardStore) : store.Grows store :=
  ⟨⟨[], by simp⟩, ⟨[], by simp⟩, le_rfl⟩

theorem trans (h : store.Grows store') (h' : store'.Grows store'') : store.Grows store'' := by
  obtain ⟨packs, hpacks, hnew⟩ := h.sealedPacks
  obtain ⟨packs', hpacks', hnew'⟩ := h'.sealedPacks
  obtain ⟨ls, hls, hpack⟩ := h.byBatch
  obtain ⟨ls', hls', hpack'⟩ := h'.byBatch
  refine ⟨⟨packs ++ packs', by rw [hpacks', hpacks, append_assoc], ?_⟩,
    ⟨ls ++ ls', by rw [hls', hls, append_assoc], ?_⟩, h.active.trans h'.active⟩
  · exact forall_mem_append.2 ⟨hnew, fun pack hmem ↦ h.active.trans (hnew' pack hmem)⟩
  · exact forall_mem_append.2 ⟨hpack, fun l hmem ↦ h.active.trans (hpack' l hmem)⟩

theorem rotate (h : store.rotate = .ok store') : store.Grows store' := by
  unfold ShardStore.rotate at h
  split at h
  · cases h
    exact ⟨⟨[store.active], rfl, by simp⟩, ⟨[], by simp⟩, Nat.le_succ _⟩
  · cases h

theorem rotateIfFull {frameLen : Nat} (h : store.rotateIfFull frameLen = .ok store') :
    store.Grows store' := by
  unfold ShardStore.rotateIfFull at h
  split at h
  · exact rotate h
  · cases h
    exact refl store

theorem sealActive (h : store.sealActive = .ok store') : store.Grows store' := by
  unfold ShardStore.sealActive at h
  split at h
  · cases h
    exact refl store
  · exact rotate h

theorem appendPreparedSegment (store : ShardStore) (xs : List PreparedExtent) :
    store.Grows (store.appendPreparedSegment checksum xs) := by
  refine ⟨⟨[], by simp [ShardStore.appendPreparedSegment]⟩, ⟨_, byBatch_foldl_installLocation ..,
    fun l hl ↦ ?_⟩, le_rfl⟩
  exact (packSequence_of_mem_locate hl).ge

theorem appendSegments {fuel : Nat} (h : appendSegments checksum fuel store xs = .ok store') :
    store.Grows store' := by
  induction fuel generalizing store xs with
  | zero =>
    cases xs <;> cases h <;> exact refl _
  | succ fuel ih =>
    cases xs with
    | nil =>
      cases h
      exact refl _
    | cons x xs =>
      obtain ⟨rotated, hrotated, h⟩ := bind_eq_ok_iff.1 h
      obtain ⟨count, -, h⟩ := bind_eq_ok_iff.1 h
      exact (rotateIfFull hrotated).trans ((appendPreparedSegment rotated _).trans (ih h))

theorem appendPreparedGroup (h : store.appendPreparedGroup checksum xs = .ok store') :
    store.Grows store' := by
  obtain ⟨-, -, h⟩ := bind_eq_ok_iff.1 h
  exact appendSegments h

theorem appendAtomic (h : store.appendAtomic checksum x = .ok store') :
    store.Grows store' := by
  obtain ⟨prepared, -, h⟩ := bind_eq_ok_iff.1 h
  obtain ⟨rotated, hrotated, h⟩ := bind_eq_ok_iff.1 h
  split at h
  · cases h
  · cases h
    exact (rotateIfFull hrotated).trans (appendPreparedSegment rotated _)

/-- A sealed pack stays, with its extents. -/
theorem extentsOf (h : store.Grows store') (hsealed : sequence < store.active.sequence) :
    store'.extentsOf sequence = store.extentsOf sequence := by
  obtain ⟨ls, hls, hpack⟩ := h.byBatch
  rw [ShardStore.extentsOf, hls, filter_append, ShardStore.extentsOf,
    append_right_eq_self, filter_eq_nil_iff]
  intro l hl
  have := hpack l hl
  simp only [decide_eq_true_eq]
  omega

theorem mem_sealedPacks_iff (h : store.Grows store') (hsealed : sequence < store.active.sequence) :
    sequence ∈ store'.sealedPacks.map PackFile.sequence ↔
      sequence ∈ store.sealedPacks.map PackFile.sequence := by
  obtain ⟨packs, hpacks, hnew⟩ := h.sealedPacks
  rw [hpacks, map_append, mem_append, or_iff_left]
  intro hmem
  obtain ⟨pack, hpack, rfl⟩ := mem_map.1 hmem
  have := hnew pack hpack
  omega

end ShardStore.Grows

theorem removes_congr {ls ls' : List ExtentLocation} (h : ls.Perm ls') :
    Removes logStarts ls ↔ Removes logStarts ls' := by
  simp only [Removes, ne_eq, h.mem_iff]
  rw [← length_eq_zero_iff, h.length_eq, length_eq_zero_iff]

/-- What a call leaves of a sealed pack: it stays with its extents, unless a collection removes
it. -/
structure ShardOp.LeavesPack (op : ShardOp) (store store' : ShardStore)
    (sequence : Nat) : Prop where
  lt_active : sequence < store'.active.sequence
  mem_iff : sequence ∈ store'.sealedPacks.map PackFile.sequence ↔
    sequence ∈ store.sealedPacks.map PackFile.sequence ∧ ∀ tp start, op = .truncate tp start →
      ¬ Removes (empty.insert tp start) (store.extentsOf sequence)
  perm : sequence ∈ store'.sealedPacks.map PackFile.sequence →
    (store'.extentsOf sequence).Perm (store.extentsOf sequence)

theorem ShardStore.Grows.leavesPack (h : store.Grows store')
    (hsealed : sequence < store.active.sequence) {op : ShardOp}
    (hop : ∀ tp start, op ≠ .truncate tp start) : op.LeavesPack store store' sequence := by
  refine ⟨hsealed.trans_le h.active, ?_, fun _ ↦ .of_eq (h.extentsOf hsealed)⟩
  rw [h.mem_sealedPacks_iff hsealed, iff_self_and]
  exact fun _ tp start heq ↦ absurd heq (hop tp start)

/-- **What a call does to a sealed pack.** -/
theorem ShardStore.Holds.leavesPack (h : store.Holds checksum front last)
    {op : ShardOp} (hok : op.toStoreOp.apply checksum store = .ok store')
    (hsealed : sequence < store.active.sequence) : op.LeavesPack store store' sequence := by
  cases op with
  | append x => exact (Grows.appendAtomic hok).leavesPack hsealed (by simp)
  | appendPreparedGroup prepared =>
    exact (Grows.appendPreparedGroup hok).leavesPack hsealed (by simp)
  | sealActive => exact (Grows.sealActive hok).leavesPack hsealed (by simp)
  | reopen storeToken =>
    obtain ⟨h', -⟩ := h.of_openInner hok
    have hactive : store'.active = store.active := h'.active.trans h.active.symm
    have hpacks : store'.sealedPacks = store.sealedPacks := h'.sealedPacks.trans h.sealedPacks.symm
    refine ⟨hactive ▸ hsealed, ?_, fun _ ↦ (h'.byBatch.trans h.byBatch.symm).filter _⟩
    rw [hpacks]
    simp
  | truncate tp start =>
    obtain ⟨planEpoch, rfl⟩ := garbageCollect_eq_ok hok
    have hmem : sequence ∈ (store.sealedPacks.filter (·.sequence ∉ store.removedPacks
        (empty.insert tp start))).map PackFile.sequence ↔
        sequence ∈ store.sealedPacks.map PackFile.sequence ∧
          sequence ∉ store.removedPacks (empty.insert tp start) := by
      simp only [mem_map, mem_filter, decide_eq_true_eq]
      constructor
      · rintro ⟨pack, ⟨hpack, hstays⟩, rfl⟩
        exact ⟨⟨pack, hpack, rfl⟩, hstays⟩
      · rintro ⟨⟨pack, hpack, rfl⟩, hstays⟩
        exact ⟨pack, ⟨hpack, hstays⟩, rfl⟩
    refine ⟨hsealed, ?_, fun hpresent ↦ .of_eq ?_⟩
    · rw [hmem, mem_removedPacks_iff_removes]
      refine and_congr_right fun hpresent ↦ ?_
      rw [and_iff_right hpresent]
      exact ⟨fun hstays tp' start'
        heq ↦ by cases heq; exact hstays, fun hstays ↦ hstays tp start rfl⟩
    · have hstays := (hmem.1 hpresent).2
      simp only [extentsOf, dropPacks, filter_filter]
      refine filter_congr fun l _ ↦ ?_
      by_cases hl : l.packSequence = sequence
      · simp [hl, hstays]
      · simp [hl]

/-- **When a sealed pack is removed**: when one of the calls truncated the partition of all its
extents far enough. -/
theorem ShardStore.Holds.sealedPack_of_runOps (h : store.Holds checksum front last)
    {ops : List ShardOp} (hok : store.runOps checksum ops = .ok store')
    (hsealed : sequence < store.active.sequence) :
    sequence < store'.active.sequence ∧
    (sequence ∈ store'.sealedPacks.map PackFile.sequence ↔
      sequence ∈ store.sealedPacks.map PackFile.sequence ∧ ∀ tp start, .truncate tp start ∈ ops →
        ¬ Removes (empty.insert tp start) (store.extentsOf sequence)) := by
  induction ops generalizing store front last with
  | nil =>
    cases hok
    exact ⟨hsealed, by simp⟩
  | cons op ops ih =>
    obtain ⟨next, hnext, hok⟩ := bind_eq_ok_iff.1 hok
    obtain ⟨hsealed', hmem, hperm⟩ := h.leavesPack hnext hsealed
    obtain ⟨front', last', h', -⟩ := h.apply hnext
    obtain ⟨hend, hmem'⟩ := ih h' hok hsealed'
    refine ⟨hend, ?_⟩
    rw [hmem']
    constructor
    · rintro ⟨hpresent, hkept⟩
      obtain ⟨hbefore, hstays⟩ := hmem.1 hpresent
      refine ⟨hbefore, fun tp start hop ↦ ?_⟩
      rcases mem_cons.1 hop with rfl | hop
      · exact hstays tp start rfl
      · rw [← removes_congr (hperm hpresent)]
        exact hkept tp start hop
    · rintro ⟨hbefore, hkept⟩
      have hpresent := hmem.2 ⟨hbefore, fun tp start hop ↦ hkept tp start (by simp [hop])⟩
      refine ⟨hpresent, fun tp start hop ↦ ?_⟩
      rw [removes_congr (hperm hpresent)]
      exact hkept tp start (mem_cons_of_mem _ hop)

/-- **Which expired packs are reclaimed.** The shard holds any extents, and calls follow in which
partitions are truncated. A sealed pack is removed if and only if one collection with the log starts
of all these calls would remove it, and its extents are all of one partition. -/
theorem expired_pack_reclaimed_iff (h : store.Holds checksum front last) {ops : List ShardOp}
    (hok : store.runOps checksum ops = .ok store') {pack : PackFile}
    (hpack : pack ∈ store.sealedPacks) :
    pack.sequence ∉ store'.files.map PackFile.sequence ↔
      pack.sequence ∈ store.removedPacks (combinedStarts ops) ∧
        ∀ l ∈ store.extentsOf pack.sequence, ∀ l' ∈ store.extentsOf pack.sequence,
          l.reservation.topicPartition = l'.reservation.topicPartition := by
  have hmem : pack.sequence ∈ store.sealedPacks.map PackFile.sequence := mem_map_of_mem hpack
  have hsealed : pack.sequence < store.active.sequence := by
    rw [h.sealedPacks] at hpack
    obtain ⟨p, hp, rfl⟩ := mem_map.1 hpack
    have hpairs := h.sequences
    rw [map_append, pairwise_append] at hpairs
    rw [h.active]
    exact hpairs.2.2 p.sequence (mem_map_of_mem hp) last.sequence (by simp)
  obtain ⟨hend, hstays⟩ := h.sealedPack_of_runOps hok hsealed
  have hfiles : pack.sequence ∉ store'.files.map PackFile.sequence ↔
      ∃ tp start, .truncate tp start ∈ ops ∧
        Removes (empty.insert tp start) (store.extentsOf pack.sequence) := by
    rw [files, map_append, mem_append, not_or, hstays]
    simp only [hmem, true_and, not_forall, not_not, map_cons, map_nil, mem_singleton, exists_prop]
    exact and_iff_left hend.ne
  rw [hfiles, mem_removedPacks_iff_removes]
  constructor
  · rintro ⟨tp, start, hop, hne, hbefore⟩
    have htp : ∀ l ∈ store.extentsOf pack.sequence, l.reservation.topicPartition = tp ∧
        l.reservation.lastOffset < start := by
      intro l hl
      obtain ⟨start', hstart, hlt⟩ := hbefore l hl
      rw [get_insert] at hstart
      split at hstart
      next heq =>
        cases hstart
        exact ⟨heq, hlt⟩
      · cases hstart
    refine ⟨⟨hmem, hne, fun l hl ↦ ?_⟩, fun l hl l' hl' ↦ (htp l hl).1.trans (htp l' hl').1.symm⟩
    obtain ⟨largest, hlargest, hle⟩ := le_combinedStarts hop
    exact ⟨largest, (htp l hl).1 ▸ hlargest, (htp l hl).2.trans_le hle⟩
  · rintro ⟨⟨-, hne, hbefore⟩, hsame⟩
    obtain ⟨l₀, hl₀⟩ := exists_mem_of_ne_nil _ hne
    obtain ⟨start, hstart, -⟩ := hbefore l₀ hl₀
    refine ⟨l₀.reservation.topicPartition, start, mem_of_combinedStarts hstart, hne,
      fun l hl ↦ ⟨start, ?_, ?_⟩⟩
    · rw [hsame l hl l₀ hl₀, get_insert_self]
    · obtain ⟨start', hstart', hlt⟩ := hbefore l hl
      rw [hsame l hl l₀ hl₀, hstart] at hstart'
      cases hstart'
      exact hlt

/-- One record of another partition. -/
def otherExtent : ExtentInput :=
  { firstInput with
    reservation := ⟨0, 1, 0, 0, 0, .one, ⟨0, 1, 0, 0⟩⟩
    reservation_typed := by constructor <;> decide }

/-- Truncations of two partitions to the offset one. -/
def bothTruncated : List ShardOp := [.truncate ⟨0, 0⟩ 1, .truncate ⟨0, 1⟩ 1]

/-- A pack with extents of two partitions is sealed, and both partitions are truncated beyond it. A
collection with both log starts would remove the pack; it is still there. -/
theorem mixed_pack_not_reclaimed : ∃ store store', CollectRun lengthChecksum ⟨1000, 16⟩
      [.call (.append firstExtent.toExtentInput), .call (.append otherExtent), .call .sealActive]
      store ∧
    store.runOps lengthChecksum bothTruncated = .ok store' ∧
    0 ∈ store.removedPacks (combinedStarts bothTruncated) ∧
    0 ∈ store'.files.map PackFile.sequence := by
  have hok : ((runCollect lengthChecksum ⟨1000, 16⟩ [.call (.append firstExtent.toExtentInput),
      .call (.append otherExtent), .call .sealActive]).bind fun store ↦
        (store.runOps lengthChecksum bothTruncated).map fun store' ↦
          decide (0 ∈ store.removedPacks (combinedStarts bothTruncated) ∧
            0 ∈ store'.files.map PackFile.sequence)).toOption = some true := by decide +kernel
  obtain ⟨store, hstore, hrest⟩ := bind_eq_ok_iff.1 (toOption_eq_some_iff.1 hok)
  obtain ⟨store', hstore', hboth⟩ := map_eq_ok_iff.1 hrest
  exact ⟨store, store', .of_runCollect hstore, hstore', of_decide_eq_true hboth⟩

/-- A pack with extents of one partition is removed. -/
theorem single_partition_pack_reclaimed : ∃ store store', CollectRun lengthChecksum ⟨1000, 16⟩
      [.call (.append firstExtent.toExtentInput), .call (.append secondExtent), .call .sealActive]
      store ∧
    store.runOps lengthChecksum [.truncate ⟨0, 0⟩ 3] = .ok store' ∧
    0 ∉ store'.files.map PackFile.sequence := by
  have hok : ((runCollect lengthChecksum ⟨1000, 16⟩ [.call (.append firstExtent.toExtentInput),
      .call (.append secondExtent), .call .sealActive]).bind fun store ↦
        (store.runOps lengthChecksum [.truncate ⟨0, 0⟩ 3]).map fun _ ↦
          decide ((∃ pack ∈ store.sealedPacks, pack.sequence = 0) ∧
            0 ∈ store.removedPacks (combinedStarts [.truncate ⟨0, 0⟩ 3]) ∧
            ∀ l ∈ store.extentsOf 0, ∀ l' ∈ store.extentsOf 0,
              l.reservation.topicPartition = l'.reservation.topicPartition)).toOption =
      some true := by decide +kernel
  obtain ⟨store, hstore, hrest⟩ := bind_eq_ok_iff.1 (toOption_eq_some_iff.1 hok)
  obtain ⟨store', hstore', hboth⟩ := map_eq_ok_iff.1 hrest
  obtain ⟨⟨pack, hpack, hzero⟩, hremoved, hsame⟩ := of_decide_eq_true hboth
  have run := CollectRun.of_runCollect hstore
  obtain ⟨front, last, h, -⟩ := run.exists_holds
  have hgone := (expired_pack_reclaimed_iff h hstore' hpack).2 ⟨by rwa [hzero], by rwa [hzero]⟩
  rw [hzero] at hgone
  exact ⟨store, store', run, hstore', hgone⟩

end ShardStream
