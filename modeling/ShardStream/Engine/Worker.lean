import ShardStream.Storage.Reopen

/-!
# The shard worker and its sync worker

A shard has two threads. The lane worker owns the store: it writes groups of frames, moves on to a
new pack when the active one is full, seals packs, and removes them. It does not wait for the disk;
instead it sends the descriptor of the active pack, with the answers for the group, to the sync
worker. The sync worker takes several requests at once, syncs the descriptor of the last one only,
and sends the answers of all of them.

The steps of both threads interleave (`Worker.act`), down to the single writes of a group. Every
file operation gets its answer from the step that performs it, so that any of them may fail at any
time. The state records the writes that were made, and for every sync that succeeded the contents
the file had when the sync was issued: what a sync is taken to persist.

A frame that is not in the active pack is covered, because a rotation syncs the pack it leaves
(`Lane.Sound`). So syncing the newest descriptor is enough for older requests. This carries over to
the requests that are queued or being synced (`Worker.Sound`), whatever the interleaving.
-/

namespace ShardStream

open List

variable {x : PreparedExtent} {xs : List PreparedExtent} {lane lane' : Lane} {write : Write}
  {contents : Bytes} {checksum : ExtentChecksum}

/-! ### The lane -/

/-- A frame written to a pack. -/
structure Write where
  extent : PreparedExtent
  sequence : Nat
  offset : Nat

/-- The frame lies in the contents, at its offset. -/
def Write.In (checksum : ExtentChecksum) (w : Write) (contents : Bytes) : Prop :=
  ∃ front rest, contents = front ++ (w.extent.frame checksum ++ rest) ∧
  front.length = w.offset

/-- The writes of consecutive frames. -/
def writesAt (sequence : Nat) : Nat → List PreparedExtent → List Write
  | _, [] => []
  | offset, x :: xs => ⟨x, sequence, offset⟩ :: writesAt sequence (offset + x.frameLen) xs

/-- The store of a shard, with what was written to its packs so far, and the successful syncs, each
with the pack and its contents when the sync was issued. -/
structure Lane where
  store : ShardStore
  writes : List Write
  syncs : List (Nat × Bytes)

/-- The answers of the file system to a rotation. -/
structure RotateAnswers where
  syncData : Except StorageError Unit
  create : Except StorageError Unit
  syncDirectory : Except StorageError Unit

/-- The answers of the file system to one turn of the loop of `append_prepared_group`. -/
structure TurnAnswers where
  rotate : RotateAnswers
  write : Except StorageError Unit

namespace Lane

/-- A sync of the active pack succeeds. -/
def synced (lane : Lane) : Lane :=
  { lane with syncs := (lane.store.active.sequence, lane.store.active.contents) :: lane.syncs }

/-- `rotate`: the active pack is synced before the next one is created. -/
def rotate (answers : RotateAnswers) (lane : Lane) : Lane × Except StorageError Unit :=
  match answers.syncData with
  | .error e => (lane, .error e)
  | .ok () =>
    match (do
        let store ← lane.store.rotate
        answers.create
        answers.syncDirectory
        pure store) with
    | .error e => (lane.synced, .error e)
    | .ok store => ({ lane.synced with store }, .ok ())

/-- The rotation before a frame that would exceed the target size of a pack with frames. -/
def rotateIfFull (answers : RotateAnswers) (lane : Lane) (frameLen : Nat) :
    Lane × Except StorageError Unit :=
  if 0 < lane.store.active.contents.length ∧
      (2 ^ 64 ≤ lane.store.active.contents.length + frameLen ∨
        lane.store.config.targetPackBytes < lane.store.active.contents.length + frameLen) then
    lane.rotate answers
  else (lane, .ok ())

/-- `append_prepared_segment`. A write that fails leaves nothing within the length that the store
keeps for the pack. -/
def appendPreparedSegment (checksum : ExtentChecksum)
    (answer : Except StorageError Unit) (lane : Lane) (segment : List PreparedExtent) :
    Lane × Except StorageError Unit :=
  match answer with
  | .error e => (lane, .error e)
  | .ok () => ({ lane with
      store := lane.store.appendPreparedSegment checksum segment
      writes := lane.writes ++
        writesAt lane.store.active.sequence lane.store.active.contents.length segment }, .ok ())

/-- One turn of the loop of `append_prepared_group`, and the extents that are left. -/
def turn (checksum : ExtentChecksum) (answers : TurnAnswers) (lane : Lane)
    (x : PreparedExtent) (xs : List PreparedExtent) :
    Lane × Except StorageError (List PreparedExtent) :=
  match lane.rotateIfFull answers.rotate x.frameLen with
  | (lane, .error e) => (lane, .error e)
  | (lane, .ok ()) =>
    match ShardStore.preparedSegmentEnd lane.store.config.targetPackBytes
        lane.store.active.contents.length ShardStore.maxExtentsPerWrite (x :: xs) with
    | .error e => (lane, .error e)
    | .ok count =>
      match lane.appendPreparedSegment checksum answers.write ((x :: xs).take count) with
      | (lane, .error e) => (lane, .error e)
      | (lane, .ok ()) => (lane, .ok ((x :: xs).drop count))

/-- `seal_active`. -/
def sealActive (answers : RotateAnswers) (lane : Lane) : Lane × Except StorageError Unit :=
  if lane.store.active.contents.length = 0 then (lane, .ok ()) else lane.rotate answers

/-- The contents behind a descriptor. -/
def contentsOf (lane : Lane) (sequence : Nat) : Bytes :=
  if sequence = lane.store.active.sequence then lane.store.active.contents
  else ((lane.store.sealedPacks.find? fun pack ↦ pack.sequence = sequence).map (·.contents)).getD []

end Lane

/-! ### The two threads -/

/-- `AppendDurability`. -/
structure AppendDurability where
  durableReplicas : Nat
  objectDurable : Bool
  deriving DecidableEq

/-- `AppendCommand`. -/
structure AppendCommand where
  input : ExtentInput
  objectDurable : Bool

/-- The answer to a command. -/
abbrev AppendAnswer := AppendCommand × Except StorageError AppendDurability

/-- A group of commands, each with the frame prepared for it. -/
structure AppendGroup where
  appends : List (AppendCommand × Except StorageError PreparedExtent)

namespace AppendGroup

/-- The frames to write. -/
def prepared (group : AppendGroup) : List PreparedExtent :=
  group.appends.filterMap fun append ↦ append.2.toOption

/-- Some command with a frame waits for the object tier. -/
def requiresObject (group : AppendGroup) : Bool :=
  group.appends.any fun append ↦ append.2.toOption.isSome && append.1.objectDurable

/-- The outcomes of the group: `result` for the commands with a frame. -/
def outcomes (group : AppendGroup) (result : Except StorageError AppendDurability) :
    List AppendAnswer :=
  group.appends.map fun append ↦ (append.1, append.2.bind fun _ ↦ result)

end AppendGroup

/-- `SyncRequest`: the pack of its descriptor, and the outcomes to be sent. A barrier has none. -/
structure SyncRequest where
  file : Nat
  outcomes : List AppendAnswer

/-- `fail_durable_outcomes`. -/
def failDurableOutcomes (outcomes : List AppendAnswer) (error : StorageError) : List AppendAnswer :=
  outcomes.map fun answer ↦ (answer.1, answer.2.bind fun _ ↦ .error error)

/-- `MAX_SYNC_BATCH`. -/
def maxSyncBatch : Nat := 8

/-- The lane worker and the sync worker of a shard. -/
structure Worker where
  lane : Lane
  /-- There is an object tier. -/
  tier : Bool
  /-- The group being written, and what is left of it. -/
  writing : Option (AppendGroup × List PreparedExtent)
  /-- The requests the sync worker has not taken. -/
  queue : List SyncRequest
  /-- The requests it has taken, the pack it syncs and the contents of that when the sync was
  issued. -/
  syncing : Option (List SyncRequest × Nat × Bytes)
  /-- The answers sent. -/
  answers : List AppendAnswer

/-- The steps of the two threads, with the answers of the file system. -/
inductive WorkerAction where
  /-- The lane worker takes a group of commands. -/
  | append (commands : List AppendCommand)
  /-- It writes the next frames of the group. -/
  | turn (answers : TurnAnswers)
  /-- It passes the written group to the sync worker, if that still runs. -/
  | enqueue (clone : Except StorageError Unit) (running : Bool)
  /-- It syncs the written group itself and offloads it. -/
  | offload (sync : Except StorageError Unit) (rotate : RotateAnswers) (offloaded : Bool)
  /-- It seals the active pack. -/
  | sealPack (answers : RotateAnswers)
  /-- It collects garbage. -/
  | collect (logStarts : Table TopicPartition Nat)
  /-- It sends a barrier. The source then waits for the answer. -/
  | barrier
  /-- The sync worker takes requests, one more than the number given, and issues a sync. -/
  | issueSync (more : Nat)
  /-- The sync is done. -/
  | completeSync (result : Except StorageError Unit)

namespace Worker

/-- One step of one of the threads; `none` if it cannot be made. -/
def act (checksum : ExtentChecksum) (w : Worker) : WorkerAction → Option Worker
  | .append commands =>
    let group : AppendGroup := ⟨commands.map fun c ↦ (c, w.lane.store.prepareAppendAtomic c.input)⟩
    match w.writing with
    | some _ => none
    | none =>
      match w.lane.store.validateGroup [] group.prepared with
      | .error e => some { w with answers := w.answers ++ group.outcomes (.error e) }
      | .ok () =>
        -- without a frame to write, every outcome is the error of its preparation
        if group.prepared.isEmpty then
          some { w with answers := w.answers ++ group.outcomes (.ok ⟨0, false⟩) }
        else some { w with writing := some (group, group.prepared) }
  | .turn answers =>
    match w.writing with
    | some (group, x :: xs) =>
      match w.lane.turn checksum answers x xs with
      | (lane, .ok remaining) => some { w with lane, writing := some (group, remaining) }
      | (lane, .error e) =>
        some { w with lane, writing := none, answers := w.answers ++ group.outcomes (.error e) }
    | _ => none
  | .enqueue clone running =>
    match w.writing with
    | some (group, []) =>
      if group.requiresObject then none
      else match clone with
        | .error e =>
          some { w with writing := none, answers := w.answers ++ group.outcomes (.error e) }
        | .ok () =>
          let outcomes := group.outcomes (.ok ⟨1, false⟩)
          if running then
            some { w with writing := none, queue := w.queue ++
            [⟨w.lane.store.active.sequence, outcomes⟩] }
          else
            some { w with writing := none, answers := w.answers ++
                     failDurableOutcomes outcomes (.io "shard sync worker stopped") }
    | _ => none
  | .offload sync rotate offloaded =>
    match w.writing with
    | some (group, []) =>
      if group.requiresObject then
        match sync with
        | .error e =>
          some { w with writing := none, answers := w.answers ++ group.outcomes (.error e) }
        | .ok () =>
          if w.tier then
            match w.lane.synced.sealActive rotate with
            | (lane, sealed) =>
              some { w with lane, writing := none, answers := w.answers ++
                       group.outcomes (.ok ⟨1, sealed.toOption.isSome && offloaded⟩) }
          else
            some { w with lane := w.lane.synced, writing := none
                          answers := w.answers ++ group.outcomes (.ok ⟨1, false⟩) }
      else none
    | _ => none
  | .sealPack answers =>
    if w.writing.isSome then none else some { w with lane := (w.lane.sealActive answers).1 }
  | .collect logStarts =>
    if w.writing.isSome then none
    else match w.lane.store.garbageCollect logStarts with
      | .error _ => some w
      | .ok store => some { w with lane := { w.lane with store } }
  | .barrier =>
    if w.writing.isSome then none
    else some { w with queue := w.queue ++ [⟨w.lane.store.active.sequence, []⟩] }
  | .issueSync more =>
    let batch := w.queue.take (more + 1)
    match w.syncing, batch.getLast? with
    | none, some last =>
      -- a barrier, unless it comes first, is the last request that is taken
      if more < maxSyncBatch ∧ batch.tail.dropLast.all fun request ↦ !request.outcomes.isEmpty then
        some { w with queue := w.queue.drop (more + 1)
                      syncing := some (batch, last.file, w.lane.contentsOf last.file) }
      else none
    | _, _ => none
  | .completeSync result =>
    match w.syncing with
    | some (batch, file, contents) =>
      match result with
      | .ok () =>
        some { w with lane := { w.lane with syncs := (file, contents) :: w.lane.syncs }, syncing :=
        none
                      answers := w.answers ++ batch.flatMap SyncRequest.outcomes }
      | .error e =>
        some { w with syncing := none, answers := w.answers ++
                 batch.flatMap fun request ↦ failDurableOutcomes request.outcomes e }
    | none => none

end Worker

/-- The states of the two threads after any steps, from any opened store. -/
inductive WorkerReachable (checksum : ExtentChecksum) : Worker → Prop
  | opened (store : ShardStore) (tier : Bool) :
      WorkerReachable checksum ⟨⟨store, [], []⟩, tier, none, [], none, []⟩
  | step {w w' : Worker} {a : WorkerAction} (hw : WorkerReachable checksum w)
      (h : w.act checksum a = some w') : WorkerReachable checksum w'

/-! ### What is covered -/

/-- A successful sync was issued when the frame was in its pack. -/
def Lane.Covered (checksum : ExtentChecksum) (lane : Lane) (write : Write) : Prop :=
  ∃ contents, (write.sequence, contents) ∈ lane.syncs ∧ write.In checksum contents

/-- Every frame is in the active pack, or covered. -/
structure Lane.Sound (checksum : ExtentChecksum) (lane : Lane) : Prop where
  le : ∀ write ∈ lane.writes, write.sequence ≤ lane.store.active.sequence
  held : ∀ write ∈ lane.writes, write.sequence = lane.store.active.sequence →
    write.In checksum lane.store.active.contents
  covered : ∀ write ∈ lane.writes, write.sequence < lane.store.active.sequence →
    lane.Covered checksum write

/-- What a later lane keeps of an earlier one. -/
structure Lane.Extends (lane lane' : Lane) : Prop where
  writes : ∀ write ∈ lane.writes, write ∈ lane'.writes
  syncs : ∀ sync ∈ lane.syncs, sync ∈ lane'.syncs
  sequence_le : lane.store.active.sequence ≤ lane'.store.active.sequence

section Lane

variable {lane'' : Lane} {sequence : Nat}

theorem Write.In.append (h : write.In checksum contents) (more : Bytes) :
    write.In checksum (contents ++ more) := by
  obtain ⟨front, rest, rfl, hfront⟩ := h
  exact ⟨front, rest ++ more, by simp, hfront⟩

theorem sequence_of_mem_writesAt {offset : Nat} (h : write ∈ writesAt sequence offset xs) :
    write.sequence = sequence := by
  induction xs generalizing offset with
  | nil => cases h
  | cons x xs ih =>
    rcases mem_cons.1 h with rfl | h
    · rfl
    · exact ih h

theorem extent_mem_writesAt (sequence offset : Nat) (h : x ∈ xs) :
    ∃ write ∈ writesAt sequence offset xs, write.extent = x := by
  induction xs generalizing offset with
  | nil => cases h
  | cons y xs ih =>
    rcases mem_cons.1 h with rfl | h
    · exact ⟨_, mem_cons_self .., rfl⟩
    · obtain ⟨write, hwrite, heq⟩ := ih (offset + y.frameLen) h
      exact ⟨write, mem_cons_of_mem _ hwrite, heq⟩

/-- Consecutive frames lie where they are written. -/
theorem in_of_mem_writesAt (h : write ∈ writesAt sequence contents.length xs) :
    write.In checksum (contents ++ packBytes checksum xs) := by
  induction xs generalizing contents with
  | nil => cases h
  | cons x xs ih =>
    rw [packBytes_cons]
    rcases mem_cons.1 h with rfl | h
    · exact ⟨contents, packBytes checksum xs, rfl, rfl⟩
    · rw [← append_assoc]
      refine ih ?_
      rwa [length_append, PreparedExtent.length_frame]

namespace Lane

theorem Extends.refl (lane : Lane) : lane.Extends lane :=
  ⟨fun _ h ↦ h, fun _ h ↦ h, le_rfl⟩

theorem Extends.trans (h : lane.Extends lane') (h' : lane'.Extends lane'') : lane.Extends lane'' :=
  ⟨fun _ hw ↦ h'.writes _ (h.writes _ hw), fun _ hs ↦ h'.syncs _ (h.syncs _ hs),
    h.sequence_le.trans h'.sequence_le⟩

theorem Covered.mono (h : lane.Covered checksum write) (hext : lane.Extends lane') :
    lane'.Covered checksum write :=
  h.imp fun _ ⟨hsync, hin⟩ ↦ ⟨hext.syncs _ hsync, hin⟩

variable (h : lane.Sound checksum)

include h

/-- A lane with the same active pack and writes, and no fewer syncs. -/
theorem Sound.congr (hactive : lane'.store.active = lane.store.active)
    (hwrites : lane'.writes = lane.writes) (hsyncs : ∀ sync ∈ lane.syncs, sync ∈ lane'.syncs) :
    lane'.Sound checksum ∧ lane.Extends lane' := by
  have hext : lane.Extends lane' := ⟨fun _ hw ↦ hwrites ▸ hw, hsyncs, by rw [hactive]⟩
  refine ⟨⟨?_, ?_, ?_⟩, hext⟩
  · rw [hwrites, hactive]
    exact h.le
  · rw [hwrites, hactive]
    exact h.held
  · rw [hwrites, hactive]
    exact fun write hw hlt ↦ (h.covered write hw hlt).mono hext

/-- After a sync of the active pack every frame is covered. -/
theorem Sound.covered_synced (hw : write ∈ lane.writes) :
    lane.synced.Covered checksum write := by
  rcases (h.le write hw).lt_or_eq with hlt | heq
  · obtain ⟨contents, hsync, hin⟩ := h.covered write hw hlt
    exact ⟨contents, mem_cons_of_mem _ hsync, hin⟩
  · exact ⟨lane.store.active.contents, by rw [heq]; exact mem_cons_self .., h.held write hw heq⟩

theorem Sound.synced : lane.synced.Sound checksum ∧ lane.Extends lane.synced :=
  h.congr rfl rfl fun _ ↦ mem_cons_of_mem _

/-- **A rotation leaves a pack whose frames are covered.** -/
theorem Sound.rotate (answers : RotateAnswers) :
    (lane.rotate answers).1.Sound checksum ∧ lane.Extends (lane.rotate answers).1 := by
  unfold Lane.rotate
  split
  · exact ⟨h, .refl lane⟩
  · split
    · exact h.synced
    next store heq =>
      obtain ⟨store', hrotate, heq⟩ := bind_eq_ok_iff.1 heq
      obtain ⟨-, -, heq⟩ := bind_eq_ok_iff.1 heq
      obtain ⟨-, -, heq⟩ := bind_eq_ok_iff.1 heq
      cases heq
      unfold ShardStore.rotate at hrotate
      split_ifs at hrotate
      cases hrotate
      have hlt : ∀ write ∈ lane.writes, write.sequence < lane.store.active.sequence + 1 :=
        fun write hw ↦ Nat.lt_succ_of_le (h.le write hw)
      refine ⟨⟨fun write hw ↦ (hlt write hw).le, fun write hw heq ↦ ?_, fun write hw _ ↦ ?_⟩,
        fun _ hw ↦ hw, fun _ ↦ mem_cons_of_mem _, Nat.le_succ _⟩
      · exact absurd heq (hlt write hw).ne
      · exact h.covered_synced hw

theorem Sound.rotateIfFull (answers : RotateAnswers) (frameLen : Nat) :
    (lane.rotateIfFull answers frameLen).1.Sound checksum ∧
      lane.Extends (lane.rotateIfFull answers frameLen).1 := by
  unfold Lane.rotateIfFull
  split_ifs
  · exact h.rotate answers
  · exact ⟨h, .refl lane⟩

theorem Sound.sealActive (answers : RotateAnswers) :
    (lane.sealActive answers).1.Sound checksum ∧
    lane.Extends (lane.sealActive answers).1 := by
  unfold Lane.sealActive
  split_ifs
  · exact ⟨h, .refl lane⟩
  · exact h.rotate answers

theorem Sound.appendPreparedSegment (answer : Except StorageError Unit)
    (segment : List PreparedExtent) :
    (lane.appendPreparedSegment checksum answer segment).1.Sound checksum ∧
      lane.Extends (lane.appendPreparedSegment checksum answer segment).1 := by
  unfold Lane.appendPreparedSegment
  split
  · exact ⟨h, .refl lane⟩
  · have hcases : ∀ {write}, write ∈ lane.writes ++ writesAt lane.store.active.sequence
        lane.store.active.contents.length segment → write ∈ lane.writes ∨
          write.sequence = lane.store.active.sequence ∧ write.In checksum
            (lane.store.active.contents ++ packBytes checksum segment) := fun hw ↦
      (mem_append.1 hw).imp_right fun hw ↦ ⟨sequence_of_mem_writesAt hw, in_of_mem_writesAt hw⟩
    have hext : lane.Extends { lane with
        store := lane.store.appendPreparedSegment checksum segment
        writes := lane.writes ++
          writesAt lane.store.active.sequence lane.store.active.contents.length segment } :=
      ⟨fun _ ↦ mem_append_left _, fun _ hs ↦ hs, le_rfl⟩
    refine ⟨⟨fun write hw ↦ ?_, fun write hw heq ↦ ?_, fun write hw hlt ↦ ?_⟩, hext⟩
    · exact (hcases hw).elim (h.le write) fun hw ↦ hw.1.le
    · exact (hcases hw).elim (fun hw ↦ (h.held write hw heq).append _) fun hw ↦ hw.2
    · exact (hcases hw).elim (fun hw ↦ (h.covered write hw hlt).mono hext)
        fun hw ↦ absurd hw.1 (ne_of_lt hlt)

/-- One turn of a group, and that it writes what it takes from the extents. -/
theorem Sound.turn (answers : TurnAnswers) (x : PreparedExtent) (xs : List PreparedExtent) :
    (lane.turn checksum answers x xs).1.Sound checksum ∧
      lane.Extends (lane.turn checksum answers x xs).1 ∧
      ∀ remaining, (lane.turn checksum answers x xs).2 = .ok remaining →
        ∀ y ∈ x :: xs, y ∈ remaining ∨
          ∃ write ∈ (lane.turn checksum answers x xs).1.writes, write.extent = y := by
  have hrotate := h.rotateIfFull answers.rotate x.frameLen
  unfold Lane.turn
  split
  next rotated e heq =>
    rw [heq] at hrotate
    exact ⟨hrotate.1, hrotate.2, fun _ hok ↦ by cases hok⟩
  next rotated heq =>
    rw [heq] at hrotate
    split
    · exact ⟨hrotate.1, hrotate.2, fun _ hok ↦ by cases hok⟩
    next count hcount =>
      have hwrite := hrotate.1.appendPreparedSegment answers.write ((x :: xs).take count)
      split
      next written e heq' =>
        rw [heq'] at hwrite
        exact ⟨hwrite.1, hrotate.2.trans hwrite.2, fun _ hok ↦ by cases hok⟩
      next written heq' =>
        rw [heq'] at hwrite
        refine ⟨hwrite.1, hrotate.2.trans hwrite.2, fun remaining hok y hy ↦ ?_⟩
        cases hok
        rw [← take_append_drop count (x :: xs), mem_append] at hy
        refine hy.symm.imp_right fun hy ↦ ?_
        -- the segment was written
        unfold Lane.appendPreparedSegment at heq'
        split at heq'
        · cases heq'
        · cases heq'
          obtain ⟨write, hmem, rfl⟩ := extent_mem_writesAt rotated.store.active.sequence
            rotated.store.active.contents.length hy
          exact ⟨write, mem_append_right _ hmem, rfl⟩

omit h in
/-- A turn that succeeds does to the store what a turn of `append_prepared_group` does. -/
theorem appendSegments_eq_of_turn {answers : TurnAnswers} {remaining : List PreparedExtent}
    (h : lane.turn checksum answers x xs = (lane', .ok remaining)) (fuel : Nat) :
    ShardStore.appendSegments checksum (fuel + 1) lane.store (x :: xs) =
      ShardStore.appendSegments checksum fuel lane'.store remaining := by
  unfold turn at h
  split at h
  · cases h
  next rotated hrotated =>
    have hstore : lane.store.rotateIfFull x.frameLen = .ok rotated.store := by
      unfold rotateIfFull at hrotated
      unfold ShardStore.rotateIfFull
      split_ifs at hrotated ⊢
      · unfold rotate at hrotated
        split at hrotated
        · cases hrotated
        · split at hrotated
          · cases hrotated
          next store heq =>
            cases hrotated
            obtain ⟨store', hrotate, heq⟩ := bind_eq_ok_iff.1 heq
            obtain ⟨-, -, heq⟩ := bind_eq_ok_iff.1 heq
            obtain ⟨-, -, heq⟩ := bind_eq_ok_iff.1 heq
            cases heq
            exact hrotate
      · cases hrotated
        rfl
    split at h
    · cases h
    next count hcount =>
      cases hwrite : answers.write with
      | error e =>
        rw [hwrite] at h
        cases h
      | ok =>
        rw [hwrite] at h
        cases h
        rw [ShardStore.appendSegments, hstore]
        change (do
          let count ← ShardStore.preparedSegmentEnd _ _ _ _
          _) = _
        rw [hcount]
        rfl

end Lane

end Lane

/-! ### What is acknowledged -/

/-- The write stored the frame of the command. -/
def Lane.Wrote (lane : Lane) (c : AppendCommand) (write : Write) : Prop :=
  write ∈ lane.writes ∧ write.extent.toExtentInput = c.input

/-- What holds of the two threads: the outcomes that wait for a sync are of frames in packs up to
the one to be synced, and what was acknowledged is covered. -/
structure Worker.Sound (checksum : ExtentChecksum) (w : Worker) : Prop where
  lane : w.lane.Sound checksum
  writing : ∀ group remaining, w.writing = some (group, remaining) →
    ∀ c x, (c, .ok x) ∈ group.appends → x.toExtentInput = c.input ∧
      (x ∈ remaining ∨ ∃ write ∈ w.lane.writes, write.extent = x)
  sorted : w.queue.Pairwise fun a b ↦ a.file ≤ b.file
  queued : ∀ request ∈ w.queue, request.file ≤ w.lane.store.active.sequence ∧
    ∀ c d, (c, .ok d) ∈ request.outcomes → ∃ write, w.lane.Wrote c write ∧
    write.sequence ≤ request.file
  syncing : ∀ batch file contents, w.syncing = some (batch, file, contents) →
    ∀ request ∈ batch, ∀ c d, (c, .ok d) ∈ request.outcomes → ∃ write, w.lane.Wrote c write ∧
      (w.lane.Covered checksum write ∨
        write.sequence = file ∧ write.In checksum contents)
  answered : ∀ c d, (c, .ok d) ∈ w.answers →
    ∃ write, w.lane.Wrote c write ∧ w.lane.Covered checksum write

section Acknowledged

variable {w w' : Worker} {group : AppendGroup} {c : AppendCommand} {d : AppendDurability}

theorem Lane.Wrote.mono (h : lane.Wrote c write) (hext : lane.Extends lane') :
    lane'.Wrote c write :=
  ⟨hext.writes _ h.1, h.2⟩

/-- Only a command with a frame succeeds, with the result of the group. -/
theorem AppendGroup.exists_of_mem_outcomes {result : Except StorageError AppendDurability}
    (h : (c, .ok d) ∈ group.outcomes result) : ∃ x, (c, .ok x) ∈ group.appends ∧
    result = .ok d := by
  obtain ⟨⟨c', prepared⟩, hmem, heq⟩ := mem_map.1 h
  obtain ⟨rfl, hok⟩ := Prod.mk.inj heq
  obtain ⟨x, rfl, hresult⟩ := bind_eq_ok_iff.1 hok
  exact ⟨x, hmem, hresult⟩

theorem AppendGroup.mem_prepared_iff : x ∈ group.prepared ↔ ∃ c, (c, .ok x) ∈ group.appends := by
  simp only [AppendGroup.prepared, mem_filterMap, toOption_eq_some_iff, Prod.exists]
  constructor
  · rintro ⟨c, prepared, hmem, rfl⟩
    exact ⟨c, hmem⟩
  · rintro ⟨c, hmem⟩
    exact ⟨c, _, hmem, rfl⟩

theorem notMem_failDurableOutcomes {outcomes : List AppendAnswer} {e : StorageError} :
    (c, .ok d) ∉ failDurableOutcomes outcomes e := by
  intro h
  obtain ⟨answer, -, heq⟩ := mem_map.1 h
  obtain ⟨-, -, herror⟩ := bind_eq_ok_iff.1 (Prod.mk.inj heq).2
  cases herror

theorem ShardStore.prepareAppendAtomic_input {store : ShardStore} {input : ExtentInput}
    (h : store.prepareAppendAtomic input = .ok x) : x.toExtentInput = input := by
  obtain ⟨-, -, hx⟩ := bind_eq_ok_iff.1 h
  unfold ShardStore.prepareExtent at hx
  split_ifs at hx
  cases hx
  rfl

namespace Worker.Sound

variable (h : w.Sound checksum)

include h

/-- The lane moves on. -/
theorem extend (hlane : lane'.Sound checksum) (hext : w.lane.Extends lane') :
    Worker.Sound checksum { w with lane := lane' } where
  lane := hlane
  writing group remaining hw c x hx := by
    obtain ⟨hinput, hx⟩ := h.writing group remaining hw c x hx
    exact ⟨hinput, hx.imp_right fun ⟨write, hwrite, heq⟩ ↦ ⟨write, hext.writes _ hwrite, heq⟩⟩
  sorted := h.sorted
  queued request hrequest := by
    obtain ⟨hle, hall⟩ := h.queued request hrequest
    refine ⟨hle.trans hext.sequence_le, fun c d hd ↦ ?_⟩
    obtain ⟨write, hwrote, hseq⟩ := hall c d hd
    exact ⟨write, hwrote.mono hext, hseq⟩
  syncing batch file contents hs request hrequest c d hd := by
    obtain ⟨write, hwrote, hcases⟩ := h.syncing batch file contents hs request hrequest c d hd
    exact ⟨write, hwrote.mono hext, hcases.imp_left fun hc ↦ hc.mono hext⟩
  answered c d hd := by
    obtain ⟨write, hwrote, hcovered⟩ := h.answered c d hd
    exact ⟨write, hwrote.mono hext, hcovered.mono hext⟩

/-- The group is done, and its answers are sent. -/
theorem settle {more : List AppendAnswer} (hmore : ∀ c d, (c, .ok d) ∈ more →
      ∃ write, w.lane.Wrote c write ∧ w.lane.Covered checksum write) :
    Worker.Sound checksum { w with writing := none, answers := w.answers ++ more } :=
  { h with
    writing := fun _ _ hw ↦ by cases hw
    answered := fun c d hd ↦ (mem_append.1 hd).elim (h.answered c d) (hmore c d) }

theorem settle_error (group : AppendGroup) (e : StorageError) :
    Worker.Sound checksum
      { w with writing := none, answers := w.answers ++ group.outcomes (.error e) } :=
  h.settle fun _ _ hd ↦ by
    obtain ⟨-, -, herror⟩ := AppendGroup.exists_of_mem_outcomes hd
    cases herror

/-- The frames of a group that is written out are in the packs. -/
theorem wrote (hw : w.writing = some (group, [])) {result : Except StorageError AppendDurability}
    (hd : (c, .ok d) ∈ group.outcomes result) : ∃ write, w.lane.Wrote c write := by
  obtain ⟨x, hx, -⟩ := AppendGroup.exists_of_mem_outcomes hd
  obtain ⟨hinput, hx⟩ := h.writing group [] hw c x hx
  obtain ⟨write, hwrite, rfl⟩ := hx.resolve_left (by simp)
  exact ⟨write, hwrite, hinput⟩

/-- A request for the active pack is queued. -/
theorem enqueue {outcomes : List AppendAnswer}
    (houtcomes : ∀ c d, (c, .ok d) ∈ outcomes → ∃ write, w.lane.Wrote c write) :
    Worker.Sound checksum { w with
      writing := none, queue := w.queue ++ [⟨w.lane.store.active.sequence, outcomes⟩] } :=
  { h with
    writing := fun _ _ hw ↦ by cases hw
    sorted := pairwise_append.2 ⟨h.sorted, pairwise_singleton .., fun a ha b hb ↦ by
      rw [mem_singleton.1 hb]
      exact (h.queued a ha).1⟩
    queued := fun request hrequest ↦ by
      rcases mem_append.1 hrequest with hrequest | hrequest
      · exact h.queued request hrequest
      · rw [mem_singleton.1 hrequest]
        refine ⟨le_rfl, fun c d hd ↦ ?_⟩
        obtain ⟨write, hwrote⟩ := houtcomes c d hd
        exact ⟨write, hwrote, h.lane.le write hwrote.1⟩ }

/-- **Issuing a sync of the newest descriptor**: what the requests wait for is covered already, or
in the contents that are synced. -/
theorem issueSync {more : Nat} {last : SyncRequest}
    (hlast : (w.queue.take (more + 1)).getLast? = some last) :
    Worker.Sound checksum { w with
      queue := w.queue.drop (more + 1)
      syncing := some (w.queue.take (more + 1), last.file, w.lane.contentsOf last.file) } :=
  { h with
    sorted := h.sorted.sublist (drop_sublist ..)
    queued := fun request hrequest ↦ h.queued request ((drop_sublist ..).subset hrequest)
    syncing := by
      rintro batch file contents ⟨⟩ request hrequest c d hd
      obtain ⟨front, hfront⟩ := getLast?_eq_some_iff.1 hlast
      have hsorted := h.sorted.sublist (take_sublist (more + 1) w.queue)
      have hle : request.file ≤ last.file := by
        rw [hfront] at hrequest hsorted
        rcases mem_append.1 hrequest with hrequest | hrequest
        · exact (pairwise_append.1 hsorted).2.2 request hrequest last (by simp)
        · rw [mem_singleton.1 hrequest]
      have hactive := (h.queued last ((take_sublist ..).subset (mem_of_getLast? hlast))).1
      obtain ⟨write, hwrote, hseq⟩ :=
        (h.queued request ((take_sublist ..).subset hrequest)).2 c d hd
      refine ⟨write, hwrote, ?_⟩
      rcases (h.lane.le write hwrote.1).lt_or_eq with hlt | heq
      · exact .inl (h.lane.covered write hwrote.1 hlt)
      · have hfile : last.file = w.lane.store.active.sequence := by omega
        refine .inr ⟨heq.trans hfile.symm, ?_⟩
        rw [Lane.contentsOf, if_pos hfile]
        exact h.lane.held write hwrote.1 heq }

/-- The sync is done: the answers are those of the requests. -/
theorem completeSync {batch : List SyncRequest} {file : Nat}
    (hs : w.syncing = some (batch, file, contents)) : Worker.Sound checksum { w with
      lane := { w.lane with syncs := (file, contents) :: w.lane.syncs }, syncing := none
      answers := w.answers ++ batch.flatMap SyncRequest.outcomes } := by
  obtain ⟨hlane, hext⟩ : Lane.Sound checksum
      { w.lane with syncs := (file, contents) :: w.lane.syncs } ∧ w.lane.Extends _ :=
    h.lane.congr rfl rfl fun _ ↦ mem_cons_of_mem _
  have hsync := h.extend hlane hext
  refine { hsync with
    syncing := fun _ _ _ hnone ↦ by cases hnone
    answered := fun c d hd ↦ (mem_append.1 hd).elim (hsync.answered c d) fun hd ↦ ?_ }
  obtain ⟨request, hrequest, hd⟩ := mem_flatMap.1 hd
  obtain ⟨write, hwrote, hcases⟩ := h.syncing batch file contents hs request hrequest c d hd
  refine ⟨write, hwrote.mono hext, ?_⟩
  rcases hcases with hcovered | ⟨rfl, hin⟩
  · exact hcovered.mono hext
  · exact ⟨contents, mem_cons_self .., hin⟩

/-- **Every step keeps what was acknowledged covered.** -/
theorem act {a : WorkerAction} (ha : w.act checksum a = some w') :
    w'.Sound checksum := by
  cases a with
  | append commands =>
    simp only [Worker.act] at ha
    (repeat' split at ha) <;> cases ha
    next hidle _ _ _ =>
      rw [hidle]
      exact h.settle_error _ _
    next hidle _ _ hempty =>
      rw [hidle]
      refine h.settle fun c d hd ↦ ?_
      obtain ⟨x, hx, -⟩ := AppendGroup.exists_of_mem_outcomes hd
      have hmem := AppendGroup.mem_prepared_iff.2 ⟨c, hx⟩
      rw [isEmpty_iff.1 hempty] at hmem
      cases hmem
    · refine { h with writing := ?_ }
      rintro group remaining ⟨⟩ c x hx
      refine ⟨?_, .inl (AppendGroup.mem_prepared_iff.2 ⟨c, hx⟩)⟩
      obtain ⟨c', -, heq⟩ := mem_map.1 hx
      obtain ⟨rfl, hprepared⟩ := Prod.mk.inj heq
      exact ShardStore.prepareAppendAtomic_input hprepared
  | turn answers =>
    simp only [Worker.act] at ha
    split at ha
    next group x xs hw =>
      obtain ⟨hlane, hext, hwritten⟩ := h.lane.turn answers x xs
      split at ha
      next lane remaining heq =>
        cases ha
        rw [heq] at hlane hext hwritten
        refine { h.extend hlane hext with writing := ?_ }
        rintro group' remaining' ⟨⟩ c y hy
        obtain ⟨hinput, hy⟩ := h.writing _ _ hw c y hy
        refine ⟨hinput, ?_⟩
        rcases hy with hy | ⟨write, hwrite, heq⟩
        · exact hwritten _ rfl y hy
        · exact .inr ⟨write, hext.writes _ hwrite, heq⟩
      next lane e heq =>
        cases ha
        rw [heq] at hlane hext
        exact (h.extend hlane hext).settle_error group e
    · cases ha
  | enqueue clone running =>
    simp only [Worker.act] at ha
    (repeat' split at ha) <;> cases ha
    · exact h.settle_error _ _
    next group hw _ _ _ => exact h.enqueue fun c d hd ↦ h.wrote hw hd
    · exact h.settle fun c d hd ↦ absurd hd notMem_failDurableOutcomes
  | offload sync rotate offloaded =>
    simp only [Worker.act] at ha
    -- the sync comes before the pack is sealed
    obtain ⟨hsynced, hext⟩ := h.lane.synced
    (repeat' split at ha) <;> cases ha
    · exact h.settle_error _ _
    next hw _ _ _ =>
      obtain ⟨hsealed, hext'⟩ := hsynced.sealActive rotate
      refine (h.extend hsealed (hext.trans hext')).settle fun c d hd ↦ ?_
      obtain ⟨write, hwrote⟩ := h.wrote hw hd
      exact ⟨write, hwrote.mono (hext.trans hext'), (h.lane.covered_synced hwrote.1).mono hext'⟩
    next hw _ _ _ =>
      refine (h.extend hsynced hext).settle fun c d hd ↦ ?_
      obtain ⟨write, hwrote⟩ := h.wrote hw hd
      exact ⟨write, hwrote.mono hext, h.lane.covered_synced hwrote.1⟩
  | sealPack answers =>
    simp only [Worker.act] at ha
    split_ifs at ha
    cases ha
    exact h.extend (h.lane.sealActive answers).1 (h.lane.sealActive answers).2
  | collect logStarts =>
    simp only [Worker.act] at ha
    (repeat' split at ha) <;> cases ha
    · exact h
    next store hcollect =>
      -- collecting garbage leaves the active pack as it is
      have hactive : store.active = w.lane.store.active := by
        simp only [ShardStore.garbageCollect] at hcollect
        split at hcollect <;> cases hcollect
        rfl
      obtain ⟨hlane, hext⟩ : Lane.Sound checksum { w.lane with store } ∧ w.lane.Extends _ :=
        h.lane.congr hactive rfl fun _ hs ↦ hs
      exact h.extend hlane hext
  | barrier =>
    simp only [Worker.act] at ha
    split_ifs at ha with hidle
    cases ha
    rw [Option.not_isSome_iff_eq_none.1 hidle]
    exact h.enqueue fun c d hd ↦ by cases hd
  | issueSync more =>
    simp only [Worker.act] at ha
    (repeat' split at ha) <;> cases ha
    next last _ hlast _ => exact h.issueSync hlast
  | completeSync result =>
    simp only [Worker.act] at ha
    (repeat' split at ha) <;> cases ha
    next hs _ => exact h.completeSync hs
    · refine { h with
        syncing := fun _ _ _ hnone ↦ by cases hnone
        answered := fun c d hd ↦ (mem_append.1 hd).elim (h.answered c d) fun hd ↦ ?_ }
      obtain ⟨request, -, hd⟩ := mem_flatMap.1 hd
      exact absurd hd notMem_failDurableOutcomes

end Worker.Sound

/-- **What holds of the two threads holds in every state they reach.** -/
theorem WorkerReachable.sound (h : WorkerReachable checksum w) : w.Sound checksum := by
  induction h with
  | opened store tier =>
    -- nothing was written, queued or answered
    refine ⟨⟨?_, ?_, ?_⟩, ?_, ?_, ?_, ?_, ?_⟩ <;> simp
  | step _ ha ih => exact ih.act ha

end Acknowledged

/-- **An acknowledged append is on stable storage**: in whatever order the steps of the two threads
come and whichever file operations fail, a command that was answered with success had its frame
written, and a sync of that pack succeeded that was issued with the frame in the file. -/
theorem acknowledged_append_is_synced {checksum : ExtentChecksum} {w : Worker}
    (h : WorkerReachable checksum w) {c : AppendCommand} {d : AppendDurability}
    (hd : (c, .ok d) ∈ w.answers) :
    ∃ write, w.lane.Wrote c write ∧ w.lane.Covered checksum write :=
  h.sound.answered c d hd

/-- A property of a state that a list of steps reaches. -/
theorem WorkerReachable.exists_of_run (checksum : ExtentChecksum)
    (config : ShardStoreConfig) (actions : List WorkerAction) (P : Worker → Bool)
    (h : (do
      let store ← (ShardStore.openInner checksum config 0 []).toOption
      actions.foldlM (Worker.act checksum)
        ⟨⟨store, [], []⟩, false, none, [], none, []⟩).any P = true) :
    ∃ w, WorkerReachable checksum w ∧ P w = true := by
  obtain ⟨w, hw, hP⟩ := (Option.any_eq_true ..).1 h
  refine ⟨w, ?_, hP⟩
  obtain ⟨store, -, hrun⟩ := Option.bind_eq_some_iff.1 hw
  exact foldlM_induction (fun _ _ _ hw hact ↦ hw.step hact) (.opened store false) hrun

/-- Two appends with a rotation between them, and one sync of the newer pack. -/
def twoPacks : List WorkerAction :=
  let answers : TurnAnswers := ⟨⟨.ok (), .ok (), .ok ()⟩, .ok ()⟩
  [.append [⟨firstExtent.toExtentInput, false⟩], .turn answers, .enqueue (.ok ()) true,
    .append [⟨secondExtent, false⟩], .turn answers, .enqueue (.ok ()) true, .issueSync 1,
    .completeSync (.ok ())]

/-- Both appends are acknowledged by the sync of the newer pack, and both are covered. -/
theorem two_packs_acknowledged : ∃ w c d c' d', WorkerReachable lengthChecksum w ∧
    w.answers = [(c, .ok d), (c', .ok d')] ∧ w.lane.store.active.sequence = 1 ∧
    (∃ write, w.lane.Wrote c write ∧ w.lane.Covered lengthChecksum write) ∧
    ∃ write, w.lane.Wrote c' write ∧ w.lane.Covered lengthChecksum write := by
  obtain ⟨w, hw, h⟩ := WorkerReachable.exists_of_run lengthChecksum ⟨1, 16⟩ twoPacks
    (fun w ↦ decide (w.lane.store.active.sequence = 1) &&
      decide (w.answers.map (fun answer ↦ answer.2.toOption) = [some ⟨1, false⟩, some ⟨1, false⟩]))
    (by decide +kernel)
  simp only [Bool.and_eq_true, decide_eq_true_eq] at h
  obtain ⟨hactive, hanswers⟩ := h
  obtain ⟨answer, rest, heq, hfirst, hrest⟩ := map_eq_cons_iff.1 hanswers
  obtain ⟨answer', rest, rfl, hsecond, hrest⟩ := map_eq_cons_iff.1 hrest
  rw [map_eq_nil_iff.1 hrest] at heq
  obtain ⟨c, result⟩ := answer
  obtain ⟨c', result'⟩ := answer'
  obtain rfl := toOption_eq_some_iff.1 hfirst
  obtain rfl := toOption_eq_some_iff.1 hsecond
  exact ⟨w, c, _, c', _, hw, heq, hactive,
    acknowledged_append_is_synced hw (d := ⟨1, false⟩) (by simp [heq]),
    acknowledged_append_is_synced hw (d := ⟨1, false⟩) (by simp [heq])⟩

end ShardStream
