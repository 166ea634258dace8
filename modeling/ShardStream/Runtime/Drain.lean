import ShardStream.Runtime.Lifecycle

/-!
# Completed drains

A drain that has returned without an error promises that nothing is allocated any more and that its
sync covers what was. The lifecycle is checked once by every call, before it does its work: what
passes the check before the drain may still be on its way when the drain is over, and a `ready` that
has passed its check publishes `Ready` over the drain.

The promise is kept if each drain starts its sync when the runtime is quiet (`Runtime.Quiet`): the
lifecycle is out of reach of `Ready`, no `recover` or `ready` is between its check and its last
store, and every append or topic creation that has passed its check is with its shard. A quiet
runtime stays quiet, whatever is called.
-/

namespace ShardStream

open List Table

variable {n : Nat} {pc : AppendPc} {guarded : Bool} {call id : Nat} {answer : Answer}

/-- The call has passed its check and can still allocate, hand over an append or publish. -/
def Frame.Pending : Frame n → Prop
  | .recover pc => pc = .resumeSink ∨ pc = .resumeReplication ∨ pc = .publish
  | .ready pc => pc = .checkAssignments ∨ pc = .waitForReplication ∨ pc = .noteCaughtUp ∨
      (∃ blocked, pc = .askEngine blocked ∨ pc = .takeSnapshot blocked) ∨ pc = .noteCorruption ∨
      pc = .publish
  | .createTopic pc => pc = .create
  | .append _ _ pc => pc = .allocate ∨ ∃ guarded, pc = .enqueue guarded
  | .drain _ _ => False

namespace Runtime

/-- **The runtime is quiet**: it cannot become ready, and nothing that was admitted is on its
way. -/
structure Quiet (x : Runtime n) : Prop where
  lifecycle : ¬ x.lifecycle.Admits
  calls : ∀ id frame, x.calls.get id = some frame → ¬ frame.Pending

/-- **Every drain starts its sync when the runtime is quiet.** -/
def SyncsQuietly (x : Runtime n) (event : RuntimeEvent n) : Prop :=
  ∀ id answer transfer, event = .step id answer → (∀ corruption, answer ≠ .error corruption) →
    x.calls.get id = some (.drain transfer .checkDeadline) → x.Quiet

/-- The runtimes reached by events, each allowed where it happens. -/
def Run (allowed : Runtime n → RuntimeEvent n → Prop) : Runtime n → Runtime n → Prop :=
  Relation.ReflTransGen fun x y ↦ ∃ event, allowed x event ∧ y = x.after event

/-- A drain, or the preparation of a leadership transfer, has returned without an error. -/
def Drained (x : Runtime n) (id : Nat) : Prop :=
  ∃ transfer, x.calls.get id = some (.drain transfer (.returned (.ok ())))

/-- The append is before the barrier of the drain in the queue of its shard, and the worker has come
to the barrier; or the append was reported as not written. -/
def Covers (x : Runtime n) (drain append : Nat) (shard : Fin n) : Prop :=
  append ∈ x.aborted ∨ ∃ i j guarded, i < j ∧
    (x.shards shard).queue[i]? = some (.append append guarded) ∧
    (x.shards shard).queue[j]? = some (.sync drain) ∧ j < (x.shards shard).processed

end Runtime

/-! ### Steps in a quiet runtime -/

/-- What a step does in a quiet runtime: it may queue its barrier, and nothing else. -/
structure QuietStep (id : Nat) (s s' : Shared n) : Prop where
  lifecycle : ¬ s'.lifecycle.Admits
  topics : s'.topics = s.topics
  allocated : s'.allocated = s.allocated
  aborted : s'.aborted = s.aborted
  processed : ∀ shard, (s'.shards shard).processed = (s.shards shard).processed
  queue : ∀ shard, (s'.shards shard).queue = (s.shards shard).queue ∨
    (s'.shards shard).queue = (s.shards shard).queue ++ [.sync id]

section QuietStep

variable {s : Shared n}

/-- The flag is stored, and a lifecycle that cannot become ready. -/
theorem QuietStep.store {lifecycle : LifecycleState} (h : ¬ lifecycle.Admits)
    (corruptionDetected : Bool) : QuietStep id s { s with lifecycle, corruptionDetected } :=
  ⟨h, rfl, rfl, rfl, fun _ ↦ rfl, fun _ ↦ .inl rfl⟩

theorem Shared.queue_push (s : Shared n) (shard shard' : Fin n) (command : ShardCommand) :
    ((s.push shard command).shards shard').queue =
      if shard' = shard then (s.shards shard).queue ++ [command] else (s.shards shard').queue := by
  by_cases h : shard' = shard
  · subst h
    simp [Shared.push]
  · simp [Shared.push, h]

@[simp] theorem Shared.processed_push (s : Shared n) (shard shard' : Fin n)
    (command : ShardCommand) :
    ((s.push shard command).shards shard').processed = (s.shards shard').processed := by
  by_cases h : shard' = shard
  · subst h
    simp [Shared.push]
  · simp [Shared.push, h]

variable (hlife : ¬ s.lifecycle.Admits)

include hlife

theorem QuietStep.push (shard : Fin n) : QuietStep id s (s.push shard (.sync id)) := by
  refine ⟨hlife, rfl, rfl, rfl, fun _ ↦ Shared.processed_push .., fun shard' ↦ ?_⟩
  rw [Shared.queue_push]
  split_ifs with h
  · subst h
    exact .inr rfl
  · exact .inl rfl

/-- **A step in a quiet runtime** keeps it quiet. -/
theorem Frame.quietStep {frame : Frame n} (hframe : ¬ frame.Pending) :
    QuietStep id s (frame.step id answer s).1 ∧ ¬ (frame.step id answer s).2.Pending := by
  have hstates : s.lifecycle ≠ .recovering ∧ s.lifecycle ≠ .catchingUp ∧ s.lifecycle ≠ .ready := by
    simpa only [LifecycleState.Admits, not_or] using hlife
  have hkept : QuietStep id s s := .store hlife _
  cases frame with
  | drain transfer pc =>
    refine ⟨?_, fun h ↦ h⟩
    cases pc with
    | exchange => simpa [Frame.step, DrainPc.step, hstates]
    | publish | fail | noteCorruption => exact .store (by first | exact hlife | decide) _
    | sync marks =>
      simp only [Frame.step, DrainPc.step]
      split_ifs
      · cases answer <;> first | exact hkept | exact .push hlife _
      · exact hkept
    | _ => exact hkept
  | append shard guarded pc =>
    cases pc with
    | allocate | enqueue => simp [Frame.Pending] at hframe
    | await index =>
      refine ⟨hkept, ?_⟩
      rcases answer with _ | _ | _ | _ <;> simp only [Frame.step, AppendPc.step] <;> split_ifs <;>
        simp [AppendPc.handled, Frame.Pending]
    | _ => exact ⟨.store (by first | exact hlife | decide) _,
        by simp [Frame.step, AppendPc.step, hstates, Frame.Pending]⟩
  | recover pc | ready pc | createTopic pc =>
    cases pc <;> simp [Frame.Pending] at hframe <;>
      exact ⟨.store (by first | exact hlife | decide) _, by
        simp [Frame.step, RecoverPc.step, ReadyPc.step, CreatePc.step, hstates, Frame.Pending]⟩

end QuietStep

/-! ### Events in a quiet runtime -/

/-- What an event does in a quiet runtime: workers go on, and barriers are queued. -/
structure Runtime.Calm (x y : Runtime n) : Prop where
  topics : y.topics = x.topics
  aborted : y.aborted = x.aborted
  processed : ∀ shard, (x.shards shard).processed ≤ (y.shards shard).processed
  queue : ∀ shard, ∃ barriers : List ShardCommand,
    (y.shards shard).queue = (x.shards shard).queue ++ barriers ∧ ∀ c ∈ barriers, ∃ id, c = .sync id

section Calm

variable {x y : Runtime n} {event : RuntimeEvent n}

theorem Runtime.Calm.of_shared_eq (h : y.toShared = x.toShared) : x.Calm y := by
  refine ⟨by rw [h], by rw [h], fun shard ↦ by rw [h], fun shard ↦ ⟨[], ?_, nofun⟩⟩
  rw [h, append_nil]

/-- What was queued stays where it is. -/
theorem Runtime.Calm.get (h : x.Calm y) {shard : Fin n} {i : Nat} {c : ShardCommand}
    (hget : (x.shards shard).queue[i]? = some c) : (y.shards shard).queue[i]? = some c := by
  obtain ⟨barriers, hqueue, -⟩ := h.queue shard
  rw [hqueue, List.getElem?_append_left (List.getElem?_eq_some_iff.1 hget).1, hget]

/-- No append is queued. -/
theorem Runtime.Calm.of_get (h : x.Calm y) {shard : Fin n} {i : Nat}
    (hget : (y.shards shard).queue[i]? = some (.append call guarded)) :
    (x.shards shard).queue[i]? = some (.append call guarded) := by
  obtain ⟨barriers, hqueue, hsync⟩ := h.queue shard
  rw [hqueue] at hget
  by_cases hi : i < (x.shards shard).queue.length
  · rwa [getElem?_append_left hi] at hget
  · rw [getElem?_append_right (Nat.le_of_not_lt hi)] at hget
    obtain ⟨id, hc⟩ := hsync _ (mem_of_getElem? hget)
    cases hc

/-- What a worker does: it goes on by one, and allocates only what it finds. -/
theorem Shared.work_spec (s : Shared n) (shard : Fin n) (answer : Answer) :
    (s.work shard answer).lifecycle = s.lifecycle ∧ (s.work shard answer).topics = s.topics ∧
      (s.work shard answer).aborted = s.aborted ∧
      (∀ shard', ((s.work shard answer).shards shard').queue = (s.shards shard').queue ∧
        (s.shards shard').processed ≤ ((s.work shard answer).shards shard').processed) ∧
      ((s.work shard answer).allocated = s.allocated ∨ ∃ call,
        (s.shards shard).queue[(s.shards shard).processed]? = some (.append call true) ∧
          (s.work shard answer).allocated = s.allocated ++ [(call, shard)]) := by
  have hworked : ∀ shard', ((s.worked shard).shards shard').queue = (s.shards shard').queue ∧
      (s.shards shard').processed ≤ ((s.worked shard).shards shard').processed := fun shard' ↦ by
    by_cases h : shard' = shard
    · subst h
      simp [Shared.worked]
    · simp [Shared.worked, h]
  simp only [Shared.work]
  split
  · exact ⟨rfl, rfl, rfl, fun _ ↦ ⟨rfl, le_rfl⟩, .inl rfl⟩
  · next call hcall =>
    cases answer with
    | ok => exact ⟨rfl, rfl, rfl, hworked, .inr ⟨call, hcall, rfl⟩⟩
    | _ => exact ⟨rfl, rfl, rfl, hworked, .inl rfl⟩
  · exact ⟨rfl, rfl, rfl, hworked, .inl rfl⟩

theorem Frame.not_pending_enter (call : RuntimeCall n) : ¬ (Frame.enter call).Pending := by
  cases call <;> simp [Frame.enter, Frame.Pending]

/-- **A quiet runtime stays quiet.** -/
theorem Runtime.Quiet.after (h : x.Quiet) (event : RuntimeEvent n) :
    (x.after event).Quiet ∧ x.Calm (x.after event) := by
  have hinsert : ∀ {id frame}, ¬ frame.Pending → ∀ id' frame',
      (x.calls.insert id frame).get id' = some frame' → ¬ frame'.Pending := by
    intro id frame hframe id' frame' hget
    rcases get_insert_eq_some_iff.1 hget with ⟨-, rfl⟩ | ⟨-, hget⟩
    · exact hframe
    · exact h.calls id' frame' hget
  cases event with
  | call id call =>
    simp only [Runtime.after]
    split
    · exact ⟨h, .of_shared_eq rfl⟩
    · exact ⟨⟨h.lifecycle, hinsert (Frame.not_pending_enter call)⟩, .of_shared_eq rfl⟩
  | step id answer =>
    simp only [Runtime.after]
    split
    · next frame hframe =>
      obtain ⟨hstep, hpending⟩ : QuietStep id x.toShared (frame.step id answer x.toShared).1 ∧ _ :=
        Frame.quietStep h.lifecycle (h.calls id frame hframe)
      refine ⟨⟨hstep.lifecycle, hinsert hpending⟩, hstep.topics, hstep.aborted,
        fun shard ↦ (hstep.processed shard).ge, fun shard ↦ ?_⟩
      rcases hstep.queue shard with hqueue | hqueue
      · exact ⟨[], by rw [append_nil]; exact hqueue, forall_mem_nil _⟩
      · refine ⟨[.sync id], hqueue, fun c hc ↦ ⟨id, ?_⟩⟩
        exact mem_singleton.1 hc
    · exact ⟨h, .of_shared_eq rfl⟩
  | work shard answer =>
    obtain ⟨hlife, htopics, haborted, hshards, -⟩ := x.toShared.work_spec shard answer
    refine ⟨⟨?_, h.calls⟩, htopics, haborted, fun shard' ↦ (hshards shard').2, fun shard' ↦ ?_⟩
    · change ¬ (x.toShared.work shard answer).lifecycle.Admits
      rw [hlife]
      exact h.lifecycle
    · exact ⟨[], by rw [append_nil]; exact (hshards shard').1, forall_mem_nil _⟩

end Calm

/-! ### Barriers -/

namespace Runtime

/-- The barrier of the drain is there, and no append is behind it. -/
def Barred (x : Runtime n) (id : Nat) (shard : Fin n) (mark : Nat) : Prop :=
  (x.shards shard).queue[mark]? = some (.sync id) ∧
    ∀ i call guarded, (x.shards shard).queue[i]? = some (.append call guarded) → i < mark

/-- The workers have come to the barriers of the drain. -/
def Settled (x : Runtime n) (id : Nat) : Prop :=
  ∀ shard, ∃ mark, x.Barred id shard mark ∧ mark < (x.shards shard).processed

section Barriers

variable {x y : Runtime n} {event : RuntimeEvent n}

theorem Barred.calm {shard : Fin n} {mark : Nat} (h : x.Barred id shard mark) (hcalm : x.Calm y) :
    y.Barred id shard mark :=
  ⟨hcalm.get h.1, fun i call guarded hget ↦ h.2 i call guarded (hcalm.of_get hget)⟩

theorem Settled.calm (h : x.Settled id) (hcalm : x.Calm y) : y.Settled id := fun shard ↦ by
  obtain ⟨mark, hbarred, hlt⟩ := h shard
  exact ⟨mark, hbarred.calm hcalm, hlt.trans_le (hcalm.processed shard)⟩

/-- **Nothing is allocated** in a quiet runtime whose workers have come to the barriers. -/
theorem Settled.allocated (h : x.Settled id) (hquiet : x.Quiet) (event : RuntimeEvent n) :
    (x.after event).allocated = x.allocated := by
  cases event with
  | call id' call =>
    simp only [after]
    split <;> rfl
  | step id' answer =>
    simp only [after]
    split
    · next frame hframe =>
      obtain ⟨hstep, -⟩ : QuietStep id' x.toShared (frame.step id' answer x.toShared).1 ∧ _ :=
        Frame.quietStep hquiet.lifecycle (hquiet.calls id' frame hframe)
      exact hstep.allocated
    · rfl
  | work shard answer =>
    obtain ⟨-, -, -, -, hkept | ⟨call, hcall, -⟩⟩ := x.toShared.work_spec shard answer
    · exact hkept
    · -- the worker would have to be before the barrier
      obtain ⟨mark, hbarred, hlt⟩ := h shard
      have := hbarred.2 _ _ _ hcall
      omega

/-- **A completed drain is final**, once the runtime is quiet. -/
theorem Settled.run {allowed : Runtime n → RuntimeEvent n → Prop} (h : x.Settled id)
    (hquiet : x.Quiet) (hrun : Run allowed x y) :
    y.allocated = x.allocated ∧ y.topics = x.topics := by
  suffices hall : y.Settled id ∧ y.Quiet ∧ y.allocated = x.allocated ∧ y.topics = x.topics from
    hall.2.2
  induction hrun with
  | refl => exact ⟨h, hquiet, rfl, rfl⟩
  | tail _ hstep ih =>
    obtain ⟨event, -, rfl⟩ := hstep
    obtain ⟨hsettled, hquiet, hallocated, htopics⟩ := ih
    obtain ⟨hquiet', hcalm⟩ := hquiet.after event
    exact ⟨hsettled.calm hcalm, hquiet', (hsettled.allocated hquiet event).trans hallocated,
      hcalm.topics.trans htopics⟩

end Barriers

end Runtime

/-! ### Where a drain stands -/

/-- The drain is at its sync, or has come through it. -/
def DrainPc.Syncing (pc : DrainPc) : Prop :=
  (∃ marks, pc = .sync marks ∨ pc = .await marks) ∨ pc = .returned (.ok ())

/-- **What a step of a drain does for its sync.** -/
inductive DrainMove (id : Nat) (answer : Answer) (s : Shared n) :
    DrainPc → Shared n × DrainPc → Prop
  | aside {pc : DrainPc} {result : Shared n × DrainPc} (h : ¬ result.2.Syncing) :
      DrainMove id answer s pc result
  | still {pc : DrainPc} : DrainMove id answer s pc (s, pc)
  /-- The sync starts. -/
  | starts (h : ∀ corruption, answer ≠ .error corruption) :
      DrainMove id answer s .checkDeadline (s, .sync [])
  /-- One more barrier is queued. -/
  | queues {marks : List Nat} (hlt : marks.length < n) :
      DrainMove id answer s (.sync marks) (s.push ⟨marks.length, hlt⟩ (.sync id),
        .sync (marks ++ [(s.shards ⟨marks.length, hlt⟩).queue.length]))
  /-- A barrier is on every shard. -/
  | waits {marks : List Nat} (h : n ≤ marks.length) :
      DrainMove id answer s (.sync marks) (s, .await marks)
  /-- The workers have come to the barriers. -/
  | ends {marks : List Nat} (h : ∀ shard : Fin n, marks.getD shard 0 < (s.shards shard).processed) :
      DrainMove id answer s (.await marks) (s, .returned (.ok ()))

theorem DrainPc.not_syncing_handled (corruption : Bool) : ¬ (handled corruption).Syncing := by
  cases corruption <;> simp [handled, Syncing]

theorem DrainPc.move (id : Nat) (answer : Answer) (s : Shared n) (pc : DrainPc) :
    DrainMove id answer s pc (pc.step id answer s) := by
  cases pc with
  | load =>
    refine .aside ?_
    simp only [DrainPc.step]
    split <;> simp [Syncing]
  | exchange =>
    refine .aside ?_
    simp only [DrainPc.step]
    split_ifs <;> simp [Syncing]
  | waitForReplication => cases answer <;> exact .aside (by simp [DrainPc.step, Syncing])
  | checkDeadline =>
    cases answer with
    | error c => exact .aside (by simp [DrainPc.step, Syncing])
    | _ => exact .starts nofun
  | sync marks =>
    simp only [DrainPc.step]
    split_ifs with hlt
    · cases answer with
      | error c => exact .aside (not_syncing_handled c)
      | _ => exact .queues hlt
    · exact .waits (Nat.le_of_not_lt hlt)
  | await marks =>
    simp only [DrainPc.step]
    split_ifs with hall
    · cases answer with
      | error c => exact .aside (not_syncing_handled c)
      | _ => exact .ends hall
    · exact .still
  | returned r => exact .still
  | _ => exact .aside (by simp [DrainPc.step, Syncing])

namespace Runtime

/-- The drain has queued its barriers on the first shards. -/
def Marked (x : Runtime n) (id : Nat) (marks : List Nat) : Prop :=
  ∀ shard : Fin n, ∀ mark, marks[shard.val]? = some mark → x.Barred id shard mark

/-- **What holds where a drain stands**: from its sync on the runtime is quiet, and nothing is
behind its barriers. -/
def Tracked (x : Runtime n) (id : Nat) : DrainPc → Prop
  | .sync marks => x.Quiet ∧ x.Marked id marks
  | .await marks => x.Quiet ∧ x.Marked id marks ∧ n ≤ marks.length
  | .returned (.ok ()) => x.Quiet ∧ x.Settled id
  | _ => True

section Tracked

variable {x y : Runtime n} {pc : DrainPc}

theorem tracked_of_not_syncing (h : ¬ pc.Syncing) : x.Tracked id pc := by
  cases pc with
  | sync marks => exact (h (.inl ⟨marks, .inl rfl⟩)).elim
  | await marks => exact (h (.inl ⟨marks, .inr rfl⟩)).elim
  | returned r =>
    cases r with
    | ok u => exact (h (.inr rfl)).elim
    | error e => exact trivial
  | _ => exact trivial

/-- What others do leaves a drain where it stands. -/
theorem Tracked.after (h : x.Tracked id pc) (event : RuntimeEvent n) :
    (x.after event).Tracked id pc := by
  by_cases hsync : pc.Syncing
  · rcases hsync with ⟨marks, rfl | rfl⟩ | rfl
    · obtain ⟨hquiet, hmarked⟩ := h
      obtain ⟨hquiet', hcalm⟩ := hquiet.after event
      exact ⟨hquiet', fun shard mark hmark ↦ (hmarked shard mark hmark).calm hcalm⟩
    · obtain ⟨hquiet, hmarked, hlen⟩ := h
      obtain ⟨hquiet', hcalm⟩ := hquiet.after event
      exact ⟨hquiet', fun shard mark hmark ↦ (hmarked shard mark hmark).calm hcalm, hlen⟩
    · obtain ⟨hquiet, hsettled⟩ := h
      obtain ⟨hquiet', hcalm⟩ := hquiet.after event
      exact ⟨hquiet', hsettled.calm hcalm⟩
  · exact tracked_of_not_syncing hsync

/-- **A step of the drain itself.** -/
theorem Tracked.step (h : x.Tracked id pc) {transfer : Bool}
    (hcall : x.calls.get id = some (.drain transfer pc))
    (hallowed : x.SyncsQuietly (.step id answer)) :
    (x.after (.step id answer)).Tracked id (pc.step id answer x.toShared).2 := by
  have hafter : (x.after (.step id answer)).toShared = (pc.step id answer x.toShared).1 := by
    simp only [Runtime.after, hcall, Frame.step]
  have hmove := DrainPc.move id answer x.toShared pc
  generalize hresult : pc.step id answer x.toShared = result at hafter hmove ⊢
  cases hmove with
  | aside hnot => exact tracked_of_not_syncing hnot
  | still => exact h.after _
  | starts hanswer =>
    have hquiet := hallowed id answer transfer rfl hanswer hcall
    exact ⟨(hquiet.after _).1, fun shard mark hmark ↦ by cases hmark⟩
  | @queues marks hlt =>
    obtain ⟨hquiet, hmarked⟩ := h
    obtain ⟨hquiet', hcalm⟩ := hquiet.after (.step id answer)
    refine ⟨hquiet', fun shard mark hmark ↦ ?_⟩
    by_cases hshard : shard.val < marks.length
    · rw [List.getElem?_append_left hshard] at hmark
      exact (hmarked shard mark hmark).calm hcalm
    · -- the barrier that was just queued
      rw [List.getElem?_append_right (Nat.le_of_not_lt hshard), List.getElem?_singleton] at hmark
      split_ifs at hmark with hlast
      cases hmark
      obtain rfl : shard = ⟨marks.length, hlt⟩ := Fin.ext (by dsimp only; omega)
      have hqueue : ((x.after (.step id answer)).shards ⟨marks.length, hlt⟩).queue =
          (x.shards ⟨marks.length, hlt⟩).queue ++ [.sync id] := by
        rw [hafter, Shared.queue_push, if_pos rfl]
      refine ⟨by rw [hqueue]; simp, fun i call guarded hget ↦ ?_⟩
      exact (List.getElem?_eq_some_iff.1 (hcalm.of_get hget)).1
  | waits hlen =>
    obtain ⟨hquiet, hmarked⟩ := h.after (.step id answer)
    exact ⟨hquiet, hmarked, hlen⟩
  | @ends marks hdone =>
    obtain ⟨hquiet, hmarked, hlen⟩ := h.after (.step id answer)
    refine ⟨hquiet, fun shard ↦ ?_⟩
    have hlt : shard.val < marks.length := shard.isLt.trans_le hlen
    have hmark : marks[shard.val]? = some (marks.getD shard 0) := by
      rw [getD_eq_getElem?_getD, List.getElem?_eq_getElem hlt, Option.getD_some]
    refine ⟨_, hmarked shard _ hmark, ?_⟩
    rw [hafter]
    exact hdone shard

end Tracked

end Runtime

/-! ### Where an append stands -/

/-- **What a step does to the appends**: what it allocates is handed over next, and what is handed
over is queued or reported as not written. -/
structure AppendStep (id : Nat) (frame : Frame n) (s : Shared n) (result : Shared n × Frame n) :
    Prop where
  aborted : s.aborted ⊆ result.1.aborted
  queue : ∀ shard, (s.shards shard).queue <+: (result.1.shards shard).queue
  allocated : ∀ p ∈ result.1.allocated, p ∈ s.allocated ∨
    p.1 = id ∧ ∃ guarded, result.2 = .append p.2 guarded (.enqueue false)
  handed : ∀ shard guarded, frame = .append shard guarded (.enqueue false) →
    id ∈ result.1.aborted ∨
      ∃ (i : Nat) (guarded' : Bool), (result.1.shards shard).queue[i]? = some (.append id guarded')

section AppendStep

variable {s s' : Shared n}

theorem Shared.queue_prefix_push (s : Shared n) (shard shard' : Fin n) (command : ShardCommand) :
    (s.shards shard').queue <+: ((s.push shard command).shards shard').queue := by
  rw [Shared.queue_push]
  split_ifs with h
  · subst h
    exact prefix_append _ _
  · exact prefix_rfl

/-- A step that leaves the appends alone. -/
theorem AppendStep.kept {frame frame' : Frame n} (haborted : s'.aborted = s.aborted)
    (hallocated : s'.allocated = s.allocated) (hshards : s'.shards = s.shards)
    (hframe : ∀ shard guarded, frame ≠ .append shard guarded (.enqueue false)) :
    AppendStep id frame s (s', frame') where
  aborted := by rw [haborted]; exact Subset.refl _
  queue shard := by rw [hshards]
  allocated p hp := .inl (by rwa [hallocated] at hp)
  handed shard guarded h := absurd h (hframe shard guarded)

/-- An append is queued. -/
theorem AppendStep.queued {shard : Fin n} {pc' : AppendPc} {guarded' : Bool} :
    AppendStep id (.append shard guarded pc) s
      (s.push shard (.append id guarded'), .append shard guarded pc') where
  aborted := Subset.refl _
  queue shard' := s.queue_prefix_push ..
  allocated p hp := .inl hp
  handed := by
    rintro shard' guarded' ⟨⟩
    refine .inr ⟨(s.shards shard).queue.length, guarded', ?_⟩
    rw [Shared.queue_push]
    simp

theorem Frame.appendStep (frame : Frame n) :
    AppendStep id frame s (frame.step id answer s) := by
  cases frame with
  | append shard guarded pc =>
    cases pc with
    | allocate =>
      cases answer with
      | ok =>
        refine ⟨Subset.refl _, fun _ ↦ prefix_rfl, fun p hp ↦ ?_, nofun⟩
        rcases mem_append.1 hp with hp | hp
        · exact .inl hp
        · cases mem_singleton.1 hp
          exact .inr ⟨rfl, guarded, rfl⟩
      | _ => exact .kept rfl rfl rfl nofun
    | enqueue guarded' =>
      rcases guarded', answer with ⟨_ | _, _ | _ | _⟩
      case false.error =>
        refine ⟨subset_append_left _ _, fun _ ↦ prefix_rfl, fun _ ↦ .inl, ?_⟩
        rintro shard' guarded' ⟨⟩
        exact .inl (mem_append_right _ mem_cons_self)
      all_goals first | exact .queued | exact .kept rfl rfl rfl nofun
    | _ => exact .kept rfl rfl rfl nofun
  | drain transfer pc =>
    cases pc with
    | exchange =>
      simp only [Frame.step, DrainPc.step]
      split_ifs <;> exact .kept rfl rfl rfl nofun
    | sync marks =>
      simp only [Frame.step, DrainPc.step]
      split_ifs
      · -- a drain only queues its barriers
        cases answer <;> first
          | exact .kept rfl rfl rfl nofun
          | exact ⟨Subset.refl _, fun shard' ↦ s.queue_prefix_push .., fun _ ↦ .inl, nofun⟩
      · exact .kept rfl rfl rfl nofun
    | _ => exact .kept rfl rfl rfl nofun
  | recover pc | ready pc => cases pc <;> exact .kept rfl rfl rfl nofun
  | createTopic pc =>
    rcases pc, answer with ⟨_ | _ | _ | _ | _, _ | _ | _ | _⟩ <;> exact .kept rfl rfl rfl nofun

/-- Every allocated append is queued, reported as not written, or about to be handed over. -/
def Runtime.Placed (x : Runtime n) : Prop :=
  ∀ call shard, (call, shard) ∈ x.allocated → call ∈ x.aborted ∨
    (∃ (i : Nat) (guarded : Bool), (x.shards shard).queue[i]? = some (.append call guarded)) ∨
      ∃ guarded, x.calls.get call = some (.append shard guarded (.enqueue false))

/-- **Appends stay placed.** -/
theorem Runtime.Placed.after {x : Runtime n} (h : x.Placed) (event : RuntimeEvent n) :
    (x.after event).Placed := by
  cases event with
  | call id call =>
    simp only [Runtime.after]
    split
    · exact h
    · next hnone =>
      intro call' shard hmem
      refine (h call' shard hmem).imp_right (Or.imp_right (Exists.imp fun guarded hget ↦ ?_))
      have hne : call' ≠ id := by
        rintro rfl
        rw [hnone] at hget
        cases hget
      exact (get_insert_of_ne _ _ hne).trans hget
  | step id answer =>
    simp only [Runtime.after]
    split
    · next frame hframe =>
      have hstep : AppendStep id frame x.toShared (frame.step id answer x.toShared) :=
        frame.appendStep
      intro call shard hmem
      rcases hstep.allocated (call, shard) hmem with hmem | ⟨hid, guarded, hnext⟩
      · rcases h call shard hmem with haborted | ⟨i, guarded, hget⟩ | ⟨guarded, hget⟩
        · exact .inl (hstep.aborted haborted)
        · obtain ⟨later, hlater⟩ := hstep.queue shard
          refine .inr (.inl ⟨i, guarded, (congrArg (·[i]?) hlater.symm).trans ?_⟩)
          exact (List.getElem?_append_left (List.getElem?_eq_some_iff.1 hget).1).trans hget
        · by_cases hid : call = id
          · subst hid
            rw [hframe] at hget
            cases hget
            exact (hstep.handed shard guarded rfl).imp_right .inl
          · exact .inr (.inr ⟨guarded, (get_insert_of_ne _ _ hid).trans hget⟩)
      · refine .inr (.inr ⟨guarded, ?_⟩)
        obtain rfl : call = id := hid
        exact (get_insert_self ..).trans (congrArg some hnext)
    · exact h
  | work shard answer =>
    obtain ⟨-, -, haborted, hshards, hallocated⟩ := x.toShared.work_spec shard answer
    intro call shard' hmem
    have hplaced : call ∈ x.aborted ∨ (∃ (i : Nat) (guarded : Bool),
        (x.shards shard').queue[i]? = some (.append call guarded)) ∨
          ∃ guarded, x.calls.get call = some (.append shard' guarded (.enqueue false)) := by
      rcases hallocated with hkept | ⟨call', hcall', hnew⟩
      · exact h call shard' (hkept ▸ hmem)
      · rcases mem_append.1 (hnew ▸ hmem) with hmem | hmem
        · exact h call shard' hmem
        · -- the worker allocates what is in its queue
          cases mem_singleton.1 hmem
          exact .inr (.inl ⟨_, true, hcall'⟩)
    rcases hplaced with hmem | ⟨i, guarded, hget⟩ | hcall
    · exact .inl (haborted ▸ hmem)
    · exact .inr (.inl ⟨i, guarded, (congrArg (·[i]?) (hshards shard').1).trans hget⟩)
    · exact .inr (.inr hcall)

end AppendStep

/-! ### Runs -/

namespace Runtime

variable {x y : Runtime n}

/-- **What holds along a run**: drains are where they say, and appends are placed. -/
structure Tracks (x : Runtime n) : Prop where
  drains : ∀ id transfer pc, x.calls.get id = some (.drain transfer pc) → x.Tracked id pc
  placed : x.Placed

theorem tracks_opened (n : Nat) : (opened n).Tracks :=
  ⟨fun _ _ _ h ↦ (nomatch h), fun _ _ h ↦ (nomatch h)⟩

theorem Tracks.after (h : x.Tracks) {event : RuntimeEvent n} (hallowed : x.SyncsQuietly event) :
    (x.after event).Tracks := by
  refine ⟨fun id transfer pc hget ↦ ?_, h.placed.after event⟩
  cases event with
  | call id' call =>
    simp only [Runtime.after] at hget
    split at hget
    · next hsome =>
      have hafter : x.after (.call id' call) = x := by simp only [Runtime.after, hsome]
      rw [hafter]
      exact h.drains id transfer pc hget
    · rw [get_insert] at hget
      split_ifs at hget with hid
      · refine tracked_of_not_syncing ?_
        cases call <;> cases hget <;> simp [DrainPc.Syncing]
      · exact (h.drains id transfer pc hget).after _
  | step id' answer =>
    cases hframe : x.calls.get id' with
    | none =>
      simp only [Runtime.after, hframe] at hget
      exact (h.drains id transfer pc hget).after _
    | some frame =>
      simp only [Runtime.after, hframe, get_insert] at hget
      split_ifs at hget with hid
      · subst hid
        cases frame with
        | drain transfer' pc' =>
          cases hget
          exact (h.drains id transfer pc' hframe).step hframe hallowed
        | _ => cases hget
      · exact (h.drains id transfer pc hget).after _
  | work shard answer => exact (h.drains id transfer pc hget).after _

theorem Run.tracks (hrun : Run SyncsQuietly x y) (hx : x.Tracks) : y.Tracks := by
  induction hrun with
  | refl => exact hx
  | tail _ hstep ih =>
    obtain ⟨event, hallowed, rfl⟩ := hstep
    exact ih.after hallowed

/-- What was allocated before a drain ended is covered by its sync. -/
theorem Tracks.covers (h : x.Tracks) (hdrained : x.Drained id) {shard : Fin n}
    (hmem : (call, shard) ∈ x.allocated) : x.Covers id call shard := by
  obtain ⟨transfer, hget⟩ := hdrained
  obtain ⟨hquiet, hsettled⟩ := h.drains id transfer _ hget
  rcases h.placed call shard hmem with haborted | ⟨i, guarded, hqueued⟩ | ⟨guarded, hcall⟩
  · exact .inl haborted
  · obtain ⟨mark, hbarred, hlt⟩ := hsettled shard
    exact .inr ⟨i, mark, guarded, hbarred.2 i call guarded hqueued, hqueued, hbarred.1, hlt⟩
  · exact absurd (.inr ⟨false, rfl⟩) (hquiet.calls call _ hcall)

end Runtime

/-- **A completed drain is final**: if every drain starts its sync when the runtime is quiet, then
once one has returned without an error nothing is allocated any more, and its sync covers what
was. -/
theorem drain_final {x y : Runtime n} (hrun : Runtime.Run Runtime.SyncsQuietly (.opened n) x)
    {id : Nat} (hdrained : x.Drained id) (hlater : Runtime.Run (fun _ _ ↦ True) x y) :
    y.allocated = x.allocated ∧ y.topics = x.topics ∧
      ∀ call shard, (call, shard) ∈ x.allocated → x.Covers id call shard := by
  have hx := hrun.tracks (Runtime.tracks_opened n)
  obtain ⟨hquiet, hsettled⟩ : x.Quiet ∧ x.Settled id := by
    obtain ⟨transfer, hget⟩ := hdrained
    exact hx.drains id transfer _ hget
  obtain ⟨hallocated, htopics⟩ := hsettled.run hquiet hlater
  exact ⟨hallocated, htopics, fun call shard hmem ↦ hx.covers hdrained hmem⟩

/-! ### Runs on one shard -/

namespace Runtime

/-- The runtime after some events. -/
def play : List (RuntimeEvent n) → Runtime n → Runtime n
  | [], x => x
  | event :: events, x => play events (x.after event)

theorem run_play : ∀ (events : List (RuntimeEvent n)) (x : Runtime n),
    Run (fun _ _ ↦ True) x (play events x)
  | [], _ => .refl
  | event :: events, x => .head ⟨event, trivial, rfl⟩ (run_play events (x.after event))

/-- No event of these takes a drain to its sync. -/
def playsAside : List (RuntimeEvent n) → Runtime n → Bool
  | [], _ => true
  | event :: events, x =>
    (match event with
      | .step id _ => match x.calls.get id with
        | some (.drain _ .checkDeadline) => false
        | _ => true
      | _ => true) && playsAside events (x.after event)

theorem run_of_playsAside : ∀ {events : List (RuntimeEvent n)} {x : Runtime n},
    playsAside events x = true → Run SyncsQuietly x (play events x)
  | [], _, _ => .refl
  | event :: events, x, h => by
    simp only [playsAside, Bool.and_eq_true] at h
    refine .head ⟨event, ?_, rfl⟩ (run_of_playsAside h.2)
    rintro id answer transfer rfl - hget
    simp [hget] at h

end Runtime

/-- A call takes some steps, each with a good answer. -/
def stepsOf (id count : Nat) : List (RuntimeEvent 1) := replicate count (.step id .ok)

/-- The runtime recovers and becomes ready. -/
def becomeReady : List (RuntimeEvent 1) :=
  [.call 0 .recover] ++ stepsOf 0 4 ++ [.call 1 .ready] ++ stepsOf 1 7

/-- An append is made and written, and then a drain comes to its sync. -/
def appendThenDrain : List (RuntimeEvent 1) :=
  becomeReady ++ [.call 2 (.append 0 false)] ++ stepsOf 2 3 ++ [.work 0 .ok] ++ stepsOf 2 1 ++
    [.call 3 .drain] ++ stepsOf 3 3

/-- A drain that has started its sync queues its barrier, waits for it and returns. -/
def finishSync (id : Nat) : List (RuntimeEvent 1) := stepsOf id 2 ++ [.work 0 .ok] ++ stepsOf id 1

/-- A drain that is at its deadline syncs and returns. -/
def syncDrain (id : Nat) : List (RuntimeEvent 1) := .step id .ok :: finishSync id

/-- A drain may sync when the runtime is quiet. -/
theorem Runtime.Quiet.run_syncDrain {x : Runtime 1} (h : x.Quiet)
    (hrest : playsAside (finishSync id) (x.after (.step id .ok)) = true) :
    Run SyncsQuietly x (play (syncDrain id) x) :=
  .head ⟨.step id .ok, fun _ _ _ _ _ _ ↦ h, rfl⟩ (run_of_playsAside hrest)

/-- The runtime is quiet when the drain after the append starts its sync. -/
theorem quiet_appendThenDrain : (Runtime.play appendThenDrain (.opened 1)).Quiet := by
  refine ⟨by decide +kernel, fun id frame hget ↦ ?_⟩
  match id with
  | 0 =>
    cases (by decide +kernel : _ = some (.recover (.returned (.ok ())))).symm.trans hget
    simp [Frame.Pending]
  | 1 =>
    cases (by decide +kernel : _ = some (.ready (.returned (.ok ())))).symm.trans hget
    simp [Frame.Pending]
  | 2 =>
    cases (by decide +kernel : _ = some (.append 0 false (.returned (.ok ())))).symm.trans hget
    simp [Frame.Pending]
  | 3 =>
    cases (by decide +kernel : _ = some (.drain false .checkDeadline)).symm.trans hget
    simp [Frame.Pending]
  | id + 4 => cases (rfl : none = _).trans hget

/-- An append, a drain that covers it, and an append that is refused. -/
theorem drained_after_append :
    let x := Runtime.play (syncDrain 3) (Runtime.play appendThenDrain (.opened 1))
    let y := Runtime.play ([.call 4 (.append 0 false)] ++ stepsOf 4 1) x
    x.Drained 3 ∧ x.allocated = [(2, 0)] ∧ x.Covers 3 2 0 ∧ y.allocated = x.allocated := by
  intro x y
  have hdrained : x.Drained 3 := ⟨false, by decide +kernel⟩
  have hallocated : x.allocated = [(2, 0)] := by decide +kernel
  have hrun : Runtime.Run Runtime.SyncsQuietly (.opened 1) x := by
    have hbefore : Runtime.playsAside appendThenDrain (.opened 1) = true := by decide +kernel
    exact (Runtime.run_of_playsAside hbefore).trans
      (quiet_appendThenDrain.run_syncDrain (by decide +kernel))
  obtain ⟨hfinal, -, hcovers⟩ := drain_final hrun hdrained (Runtime.run_play _ x)
  exact ⟨hdrained, hallocated, hcovers 2 0 (by rw [hallocated]; exact mem_cons_self), hfinal⟩

/-- **Drains that are not final**: an append that has passed its check is allocated after the drain;
a `ready` that has passed its check lets appends in after the drain; and an allocated append is not
yet with its shard when the drain syncs. -/
theorem drain_overtaken :
    (∃ x y : Runtime 1, Runtime.Run (fun _ _ ↦ True) (.opened 1) x ∧ x.Drained 3 ∧
      Runtime.Run (fun _ _ ↦ True) x y ∧ y.allocated ≠ x.allocated) ∧
    (∃ x y : Runtime 1, Runtime.Run (fun _ _ ↦ True) (.opened 1) x ∧ x.Drained 2 ∧
      Runtime.Run (fun _ _ ↦ True) x y ∧ y.lifecycle = .ready ∧ y.allocated ≠ x.allocated) ∧
    ∃ x : Runtime 1, Runtime.Run (fun _ _ ↦ True) (.opened 1) x ∧ x.Drained 3 ∧
      (2, 0) ∈ x.allocated ∧ ¬ x.Covers 3 2 0 := by
  refine ⟨?_, ?_, ?_⟩
  · refine ⟨_, _, Runtime.run_play (becomeReady ++ [.call 2 (.append 0 false)] ++ stepsOf 2 1 ++
      [.call 3 .drain] ++ stepsOf 3 3 ++ syncDrain 3) _, ⟨false, by decide +kernel⟩,
      Runtime.run_play (stepsOf 2 1) _, by decide +kernel⟩
  · refine ⟨_, _, Runtime.run_play ([.call 0 .recover] ++ stepsOf 0 4 ++ [.call 1 .ready] ++
      stepsOf 1 6 ++ [.call 2 .drain] ++ stepsOf 2 3 ++ syncDrain 2) _, ⟨false, by decide +kernel⟩,
      Runtime.run_play (stepsOf 1 1 ++ [.call 3 (.append 0 false)] ++ stepsOf 3 2) _,
      by decide +kernel, by decide +kernel⟩
  · refine ⟨_, Runtime.run_play (becomeReady ++ [.call 2 (.append 0 false)] ++ stepsOf 2 2 ++
      [.call 3 .drain] ++ stepsOf 3 3 ++ syncDrain 3) _, ⟨false, by decide +kernel⟩,
      by decide +kernel, ?_⟩
    set x := Runtime.play (becomeReady ++ [.call 2 (.append 0 false)] ++ stepsOf 2 2 ++
      [.call 3 .drain] ++ stepsOf 3 3 ++ syncDrain 3) (.opened 1)
    have hqueue : (x.shards 0).queue = [.sync 3] := by decide +kernel
    have haborted : 2 ∉ x.aborted := by decide +kernel
    rintro (hmem | ⟨i, j, guarded, -, hget, -⟩)
    · exact haborted hmem
    · rw [hqueue] at hget
      cases i <;> simp at hget

end ShardStream
