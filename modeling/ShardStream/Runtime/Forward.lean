import ShardStream.Runtime.Drain

/-!
# The lifecycle moves forward

The calls that only look at the engine, `fetch`, `watermarks`, `sync` and `health_snapshot`, join
those of `Lifecycle`: they touch the lifecycle and the corruption flag when the engine reports
corruption.

A call loads the lifecycle once and stores it later, whatever it is by then. If what changes the
lifecycle or the flag runs alone, no corruption is reported to a runtime that is fenced, and no
recovery fails otherwise once corruption was noted (`Watched.Serial`), then the lifecycle moves
forward, the flag stays, and no append is accepted after `Failed`.
-/

namespace ShardStream

variable {n : Nat}

/-- The calls that look at the engine. -/
inductive Observer
  | fetch | watermarks | sync | healthSnapshot

/-- Where such a call stands. -/
inductive ObserverPc
  | check | ask | noteCorruption | fail
  | returned (result : CallResult)

/-- One step of such a call; what it asks the engine ends with `handle_engine_result`. -/
def Observer.step (answer : Answer) (s : Shared n) : Observer → ObserverPc → Shared n × ObserverPc
  | .fetch, .check => (s, if s.lifecycle = .ready ∨ s.lifecycle = .draining then .ask
      else .returned (.error (.invalidLifecycle "Ready or Draining" s.lifecycle)))
  | _, .check => (s, .ask)
  -- a snapshot asks about one partition after the other, and only notes what it finds
  | .healthSnapshot, .ask => (s, match answer with
      | .error true => .noteCorruption
      | .receipt => .returned (.ok ())
      | _ => .ask)
  | _, .ask => (s, match answer with
      | .error true => .noteCorruption
      | .error false => .returned (.error (.engine false))
      | _ => .returned (.ok ()))
  | .healthSnapshot, .noteCorruption => ({ s with corruptionDetected := true }, .ask)
  | _, .noteCorruption => ({ s with corruptionDetected := true }, .fail)
  | _, .fail => ({ s with lifecycle := .failed }, .returned (.error (.engine true)))
  | _, .returned result => (s, .returned result)

/-- A runtime and the calls that look at it. -/
structure Watched (n : Nat) extends Runtime n where
  observers : Nat → Observer × ObserverPc

/-- An event of the runtime, or a step of one of the calls that look at it. -/
abbrev WatchedEvent (n : Nat) := RuntimeEvent n ⊕ Nat × Answer

namespace Watched

/-- A runtime that was just opened. -/
def opened (n : Nat) (observer : Nat → Observer) : Watched n where
  toRuntime := .opened n
  observers id := (observer id, .check)

/-- The runtime after an event. -/
def after (x : Watched n) : WatchedEvent n → Watched n
  | .inl event => { x with toRuntime := x.toRuntime.after event }
  | .inr (id, answer) =>
    let result := (x.observers id).1.step answer x.toShared (x.observers id).2
    { x with
      toShared := result.1
      observers := Function.update x.observers id ((x.observers id).1, result.2) }

end Watched

/-- The lifecycles that a call under way was admitted with. A call that is at its first load or at
the compare-exchange of a drain, or that has returned, is not under way. -/
def Frame.admittedIn : Frame n → Option (List LifecycleState)
  | .recover .check | .recover (.returned _) | .ready .check | .ready (.returned _)
  | .createTopic .check | .createTopic (.returned _) | .append _ _ .check
  | .append _ _ (.returned _) | .drain _ .load | .drain _ .exchange | .drain _ (.returned _) => none
  | .recover _ => some [.recovering]
  | .ready _ => some [.catchingUp]
  | .createTopic _ | .append .. => some [.ready, .draining]
  | .drain _ .publish => some [.recovering, .catchingUp]
  | .drain .. => some [.draining]

/-- The call stores the lifecycle or the flag next. -/
def Frame.Stores : Frame n → Prop
  | .recover (.noteCorruption _) | .recover (.fail _) | .recover .publish | .ready .publishFenced
  | .ready .noteCorruption | .ready .fail | .ready .publish | .createTopic .noteCorruption
  | .createTopic .fail | .append _ _ .noteCorruption | .append _ _ .fail | .drain _ .publish
  | .drain _ .noteCorruption | .drain _ .fail => True
  | _ => False

/-- A call that looks at the engine stores nothing next. -/
def ObserverPc.Idle (pc : ObserverPc) : Prop := pc ≠ .noteCorruption ∧ pc ≠ .fail

namespace Watched

/-- The event is a store: the step of a call that is at one. -/
def Stores (x : Watched n) : WatchedEvent n → Prop
  | .inl (.step id _) => ∃ frame, x.calls.get id = some frame ∧ frame.Stores
  | .inr (id, _) => ¬ (x.observers id).2.Idle
  | _ => False

/-- No call but the one that takes the step is under way. -/
structure Alone (x : Watched n) (event : WatchedEvent n) : Prop where
  calls : ∀ id frame, x.calls.get id = some frame → (∀ answer, event ≠ .inl (.step id answer)) →
    frame.admittedIn = none
  observers : ∀ id, (∀ answer, event ≠ .inr (id, answer)) → (x.observers id).2.Idle

/-- **One call at a time stores**: it does so alone. No call is told of corruption when the runtime
is fenced or stopped, and once corruption is noted, what a recovery is told is corruption. -/
structure Serial (x : Watched n) (event : WatchedEvent n) : Prop where
  alone : x.Stores event → x.Alone event
  corruption : ∀ id, event = .inr (id, .error true) → x.lifecycle ≠ .fenced ∧ x.lifecycle ≠ .stopped
  recovery : ∀ id pc c, event = .inl (.step id (.error c)) → x.calls.get id = some (.recover pc) →
    x.corruptionDetected = true → c = true

/-- The events of a run, each serial where it happens. -/
def SerialRun : Watched n → List (WatchedEvent n) → Prop
  | _, [] => True
  | x, event :: events => x.Serial event ∧ (x.after event).SerialRun events

/-- The append was accepted: its call has returned without an error. -/
def Accepted (x : Watched n) (id : Nat) : Prop :=
  ∃ shard guarded, x.calls.get id = some (.append shard guarded (.returned (.ok ())))

end Watched

namespace LifecycleState

/-- How far the lifecycle is. -/
def rank : LifecycleState → Nat
  | recovering => 0
  | catchingUp => 1
  | ready => 2
  | draining => 3
  | fenced | failed => 4
  | stopped => 5

/-- The lifecycle stays or moves forward; from `Fenced` and `Failed` only `Stopped` is forward. -/
def Forward (a b : LifecycleState) : Prop := a = b ∨ a.rank < b.rank

theorem Forward.trans {a b c : LifecycleState} (h : a.Forward b) (h' : b.Forward c) :
    a.Forward c := by
  rcases h with rfl | h
  · exact h'
  · rcases h' with rfl | h'
    · exact .inr h
    · exact .inr (h.trans h')

theorem Forward.rank_le {a b : LifecycleState} (h : a.Forward b) : a.rank ≤ b.rank := by
  rcases h with rfl | h
  · exact le_rfl
  · exact h.le

end LifecycleState

/-- What a step does to the lifecycle and the flag. -/
structure Onward (s s' : Shared n) : Prop where
  lifecycle : s.lifecycle.Forward s'.lifecycle
  corruption : s.corruptionDetected = true → s'.corruptionDetected = true

/-- What a step that is no store does: nothing, or the compare-exchange of a drain. -/
structure Kept (s s' : Shared n) : Prop where
  lifecycle : s'.lifecycle = s.lifecycle ∨ s.lifecycle = .ready ∧ s'.lifecycle = .draining
  corruption : s'.corruptionDetected = s.corruptionDetected

/-- **The lifecycle is the one that the call was admitted with**, as long as it is under way. -/
structure Frame.Admitted (s : Shared n) (frame : Frame n) : Prop where
  lifecycle : ∀ states ∈ frame.admittedIn, s.lifecycle ∈ states
  corruption : ∀ c, frame = .recover (.noteCorruption c) → s.corruptionDetected = true → c = true

section Steps

variable {s s' : Shared n} {id : Nat} {answer : Answer} {frame : Frame n}

theorem Kept.refl : Kept s s := ⟨.inl rfl, rfl⟩

theorem Kept.onward (h : Kept s s') : Onward s s' := by
  refine ⟨?_, fun hflag ↦ h.corruption.trans hflag⟩
  rcases h.lifecycle with hlife | ⟨hready, hlife⟩
  · exact .inl hlife.symm
  · exact .inr (by rw [hready, hlife]; decide)

namespace Frame

theorem kept (h : ¬ frame.Stores) : Kept s (frame.step id answer s).1 := by
  rcases frame with pc | pc | pc | ⟨shard, guarded, pc⟩ | ⟨transfer, pc⟩ <;> cases pc <;>
    first | exact absurd trivial h | exact ⟨.inl rfl, rfl⟩ | skip
  case createTopic.create => rcases answer with _ | _ | _ | _ <;> exact ⟨.inl rfl, rfl⟩
  case append.allocate => cases answer <;> exact ⟨.inl rfl, rfl⟩
  case append.enqueue queued => cases queued <;> cases answer <;> exact ⟨.inl rfl, rfl⟩
  case drain.exchange =>
    simp only [step, DrainPc.step]
    split_ifs with hready
    · exact ⟨.inr ⟨hready, rfl⟩, rfl⟩
    · exact .refl
  case drain.sync marks =>
    simp only [step, DrainPc.step]
    split_ifs
    · cases answer <;> exact ⟨.inl rfl, rfl⟩
    · exact .refl

theorem admitted_iff : frame.Admitted s ↔ (∀ states ∈ frame.admittedIn, s.lifecycle ∈ states) ∧
    ∀ c, frame = .recover (.noteCorruption c) → s.corruptionDetected = true → c = true :=
  ⟨fun h ↦ ⟨h.1, h.2⟩, fun h ↦ ⟨h.1, h.2⟩⟩

theorem admitted_of_idle (h : frame.admittedIn = none) : frame.Admitted s := by
  refine ⟨by simp [h], ?_⟩
  rintro c rfl
  cases h

theorem Admitted.kept (h : frame.Admitted s) (hkept : Kept s s') : frame.Admitted s' := by
  refine ⟨fun states hstates ↦ ?_, hkept.corruption ▸ h.corruption⟩
  rcases hkept.lifecycle with hlife | ⟨hready, hlife⟩
  · exact hlife ▸ h.lifecycle states hstates
  · have hmem := h.lifecycle states hstates
    rw [hready] at hmem
    rw [hlife]
    unfold admittedIn at hstates
    split at hstates <;> cases hstates <;> simp_all

/-- **A store** of a call that was admitted with the lifecycle as it is. -/
theorem Admitted.onward (h : frame.Admitted s) : Onward s (frame.step id answer s).1 := by
  by_cases hstores : frame.Stores
  · obtain ⟨hlife, hflag⟩ := h
    unfold Frame.Stores at hstores
    split at hstores
    case h_15 => exact hstores.elim
    all_goals
      simp only [admittedIn, Option.mem_def, Option.some.injEq, forall_eq', List.mem_cons,
        List.not_mem_nil, or_false] at hlife
      constructor <;> simp_all [Frame.step, RecoverPc.step, ReadyPc.step, CreatePc.step,
        AppendPc.step, DrainPc.step, LifecycleState.Forward, LifecycleState.rank]
    all_goals rcases hlife with hlife | hlife <;> simp [hlife]
  · exact (Frame.kept hstores).onward

/-- **A step** leaves the call admitted. -/
theorem Admitted.step (h : frame.Admitted s) (hrecovery : ∀ pc c, frame = .recover pc →
      answer = .error c → s.corruptionDetected = true → c = true) :
    (frame.step id answer s).2.Admitted (frame.step id answer s).1 := by
  obtain ⟨hlife, hflag⟩ := h
  cases frame with
  | recover pc =>
    cases pc <;> simp only [Frame.step, RecoverPc.step] <;> repeat' split
    all_goals simp_all [admittedIn, admitted_iff]
  | ready pc | createTopic pc | append shard guarded pc | drain transfer pc =>
    rcases answer with _ | _ | _ | _ <;> cases pc <;>
      simp only [Frame.step, ReadyPc.step, CreatePc.step, AppendPc.step, AppendPc.handled,
        DrainPc.step, DrainPc.handled, Shared.push] <;> repeat' split
    all_goals first | exact admitted_of_idle rfl | exact ⟨hlife, by rintro _ ⟨⟩⟩ |
      simp_all [admittedIn, admitted_iff]

end Frame

theorem Observer.kept {observer : Observer} {pc : ObserverPc} (h : pc.Idle) :
    Kept s (observer.step answer s pc).1 := by
  cases pc with
  | noteCorruption | fail => simp [ObserverPc.Idle] at h
  | _ => cases observer <;> exact .refl

/-- **A step of a call that looks at the engine.** -/
theorem Observer.onward {observer : Observer} {pc : ObserverPc}
    (h : ¬ pc.Idle ∨ answer = .error true → s.lifecycle ≠ .fenced ∧ s.lifecycle ≠ .stopped) :
    Onward s (observer.step answer s pc).1 ∧ (¬ (observer.step answer s pc).2.Idle →
      (observer.step answer s pc).1.lifecycle ≠ .fenced ∧
        (observer.step answer s pc).1.lifecycle ≠ .stopped) := by
  have hfail : s.lifecycle ≠ .fenced ∧ s.lifecycle ≠ .stopped → s.lifecycle.Forward .failed := by
    cases s.lifecycle <;> simp [LifecycleState.Forward, LifecycleState.rank]
  cases pc with
  | fail =>
    have hlife := h (.inl (by simp [ObserverPc.Idle]))
    cases observer <;> exact ⟨⟨hfail hlife, fun h ↦ h⟩, fun _ ↦ by simp [Observer.step]⟩
  | noteCorruption =>
    have hlife := h (.inl (by simp [ObserverPc.Idle]))
    cases observer <;> exact ⟨⟨.inl rfl, fun _ ↦ rfl⟩, fun _ ↦ hlife⟩
  | _ =>
    refine ⟨(Observer.kept (by simp [ObserverPc.Idle])).onward, ?_⟩
    rcases answer with _ | _ | _ | _ <;> cases observer <;> simp only [Observer.step] <;>
      (try split_ifs) <;> simp_all [ObserverPc.Idle]

namespace Watched

/-- **Every call under way was admitted** with the lifecycle as it is. -/
structure Admitted (x : Watched n) : Prop where
  calls : ∀ id frame, x.calls.get id = some frame → frame.Admitted x.toShared
  observers : ∀ id, ¬ (x.observers id).2.Idle → x.lifecycle ≠ .fenced ∧ x.lifecycle ≠ .stopped

theorem admitted_opened (observer : Nat → Observer) : (opened n observer).Admitted :=
  ⟨fun _ _ hget ↦ (nomatch hget), fun _ hidle ↦ absurd ⟨nofun, nofun⟩ hidle⟩

theorem work_kept (shard : Fin n) : Kept s (s.work shard answer) := by
  simp only [Shared.work]
  split
  · exact .refl
  · cases answer <;> exact ⟨.inl rfl, rfl⟩
  · exact ⟨.inl rfl, rfl⟩

variable {x : Watched n} {event : WatchedEvent n}

theorem kept (h : ¬ x.Stores event) :
    Kept x.toShared (x.after event).toShared := by
  match event, h with
  | .inl (.call id call), _ =>
    simp only [after, Runtime.after]
    split <;> exact .refl
  | .inl (.step id answer), h =>
    simp only [after, Runtime.after]
    split
    · next frame hframe => exact Frame.kept fun hstores ↦ h ⟨frame, hframe, hstores⟩
    · exact .refl
  | .inl (.work shard answer), _ => exact work_kept shard
  | .inr (id, answer), h => exact Observer.kept (not_not.1 h)

/-- **Another call** is still admitted, whatever the event does. -/
theorem Admitted.other (h : x.Admitted)
    (hserial : x.Serial event) {id : Nat} {frame : Frame n} (hget : x.calls.get id = some frame)
    (hother : ∀ answer, event ≠ .inl (.step id answer)) :
    frame.Admitted (x.after event).toShared := by
  by_cases hstores : x.Stores event
  · exact Frame.admitted_of_idle ((hserial.alone hstores).calls id frame hget hother)
  · exact (h.calls id frame hget).kept (kept hstores)

theorem Admitted.otherObserver (h : x.Admitted)
    (hserial : x.Serial event) {id : Nat} (hother : ∀ answer, event ≠ .inr (id, answer))
    (hopen : ¬ (x.observers id).2.Idle) :
    (x.after event).lifecycle ≠ .fenced ∧ (x.after event).lifecycle ≠ .stopped := by
  by_cases hstores : x.Stores event
  · exact absurd ((hserial.alone hstores).observers id hother) hopen
  · rcases (kept hstores).lifecycle with hlife | ⟨-, hlife⟩
    · rw [hlife]
      exact h.observers id hopen
    · simp [hlife]

/-- **An event of a serial run.** -/
theorem Admitted.onward (h : x.Admitted) (hserial : x.Serial event) :
    Onward x.toShared (x.after event).toShared ∧ (x.after event).Admitted := by
  rcases event with (⟨id, call⟩ | ⟨id, answer⟩ | ⟨shard, answer⟩) | ⟨id, answer⟩
  · simp only [Watched.after, Runtime.after]
    split
    · exact ⟨Kept.refl.onward, h⟩
    · refine ⟨Kept.refl.onward, fun id' frame hget ↦ ?_, h.observers⟩
      rcases Table.get_insert_eq_some_iff.1 hget with ⟨-, rfl⟩ | ⟨-, hget⟩
      · cases call <;> exact Frame.admitted_of_idle rfl
      · exact h.calls id' frame hget
  · cases hframe : x.calls.get id with
    | none =>
      simp only [Watched.after, Runtime.after, hframe]
      exact ⟨Kept.refl.onward, h⟩
    | some frame =>
      have hafter : x.after (.inl (.step id answer)) = { x with
          toShared := (frame.step id answer x.toShared).1
          calls := x.calls.insert id (frame.step id answer x.toShared).2 } := by
        simp only [Watched.after, Runtime.after, hframe]
      have hadmitted := h.calls id frame hframe
      have hrecovery : ∀ pc c, frame = .recover pc → answer = .error c →
          x.corruptionDetected = true → c = true := by
        rintro pc c rfl rfl
        exact hserial.recovery id pc c rfl hframe
      refine ⟨hafter ▸ hadmitted.onward, fun id' frame' hget ↦ ?_, fun id' hopen ↦ ?_⟩
      · rw [hafter] at hget
        rcases Table.get_insert_eq_some_iff.1 hget with ⟨-, rfl⟩ | ⟨hne, hget⟩
        · exact hafter ▸ hadmitted.step hrecovery
        · exact h.other hserial hget fun _ heq ↦ hne (by cases heq; rfl)
      · have hopen' : ¬ (x.observers id').2.Idle := by rwa [hafter] at hopen
        exact h.otherObserver hserial (by simp) hopen'
  · exact ⟨(work_kept shard).onward, fun _ _ hget ↦ h.other hserial hget (by simp), fun _ ↦
      h.otherObserver hserial (by simp)⟩
  · have hlife : ¬ (x.observers id).2.Idle ∨ answer = .error true →
        x.lifecycle ≠ .fenced ∧ x.lifecycle ≠ .stopped := by
      rintro (hopen | rfl)
      · exact h.observers id hopen
      · exact hserial.corruption id rfl
    have hstep : Onward x.toShared
        ((x.observers id).1.step answer x.toShared (x.observers id).2).1 ∧ _ :=
          Observer.onward hlife
    refine ⟨hstep.1, fun _ _ hget ↦ h.other hserial hget (by simp), fun id' hopen ↦ ?_⟩
    by_cases hid : id' = id
    · subst hid
      simp only [Watched.after, Function.update_self] at hopen
      exact hstep.2 hopen
    · simp only [Watched.after, Function.update_of_ne hid] at hopen
      exact h.otherObserver hserial (fun _ heq ↦ hid (by cases heq; rfl)) hopen

/-- **A runtime that does not admit appends any more**: none is under way. -/
theorem Admitted.idle_append (h : x.Admitted) (hrank : 4 ≤ x.lifecycle.rank)
    {id : Nat} {shard : Fin n} {guarded : Bool} {pc : AppendPc}
    (hget : x.calls.get id = some (.append shard guarded pc)) :
    (Frame.append shard guarded pc).admittedIn = none := by
  have hclosed : x.lifecycle ∉ [LifecycleState.ready, .draining] := by
    intro hmem
    simp only [List.mem_cons, List.not_mem_nil, or_false] at hmem
    rcases hmem with hlife | hlife <;> simp [hlife, LifecycleState.rank] at hrank
  cases pc with
  | check | returned => rfl
  | _ => exact absurd ((h.calls id _ hget).lifecycle _ rfl) hclosed

theorem Admitted.accepted (h : x.Admitted)
    (hrank : 4 ≤ x.lifecycle.rank) {id : Nat} (haccepted : (x.after event).Accepted id) :
    x.Accepted id := by
  obtain ⟨shard, guarded, hget⟩ := haccepted
  match event, hget with
  | .inl (.call id' call), hget =>
    simp only [Watched.after, Runtime.after] at hget
    split at hget
    · exact ⟨shard, guarded, hget⟩
    · rcases Table.get_insert_eq_some_iff.1 hget with ⟨-, hframe⟩ | ⟨-, hget⟩
      · cases call <;> cases hframe
      · exact ⟨shard, guarded, hget⟩
  | .inl (.step id' answer), hget =>
    simp only [Watched.after, Runtime.after] at hget
    split at hget
    · next frame hframe =>
      rcases Table.get_insert_eq_some_iff.1 hget with ⟨rfl, hstep⟩ | ⟨-, hget⟩
      · cases frame with
        | append shard' guarded' pc =>
          have hready : x.lifecycle ≠ .ready := by
            intro hlife
            simp [hlife, LifecycleState.rank] at hrank
          have hidle := h.idle_append hrank hframe
          cases pc with
          | check => simp [Frame.step, AppendPc.step, hready, wrongState] at hstep
          | returned r => exact ⟨shard, guarded, hstep ▸ hframe⟩
          | _ => cases hidle
        | _ => cases hstep
      · exact ⟨shard, guarded, hget⟩
    · exact ⟨shard, guarded, hget⟩
  | .inl (.work _ _), hget => exact ⟨shard, guarded, hget⟩
  | .inr _, hget => exact ⟨shard, guarded, hget⟩

/-- **A serial run**: by induction over its events. -/
theorem Admitted.run {events : List (WatchedEvent n)} (h : x.Admitted)
    (hserial : x.SerialRun events) :
    Onward x.toShared (events.foldl Watched.after x).toShared ∧
      (events.foldl Watched.after x).Admitted ∧
      (4 ≤ x.lifecycle.rank → ∀ id, (events.foldl Watched.after x).Accepted id →
        x.Accepted id) := by
  induction events generalizing x with
  | nil => exact ⟨Kept.refl.onward, h, fun _ _ haccepted ↦ haccepted⟩
  | cons event events ih =>
    obtain ⟨hstep, hadmitted⟩ := h.onward hserial.1
    obtain ⟨hrest, hadmitted', hold⟩ := ih hadmitted hserial.2
    refine ⟨⟨hstep.lifecycle.trans hrest.lifecycle, fun h ↦ hrest.corruption (hstep.corruption h)⟩,
      hadmitted', fun hrank id haccepted ↦ h.accepted hrank (hold ?_ id haccepted)⟩
    exact hrank.trans hstep.lifecycle.rank_le

end Watched

end Steps

/-- **The lifecycle moves forward** in every run in which one call at a time stores: it never goes
back, it leaves `Fenced` and `Failed` for `Stopped` only, and the corruption flag stays. Once the
runtime is `Failed`, no append is under way and none is accepted. -/
theorem lifecycle_forward {observer : Nat → Observer} {events more : List (WatchedEvent n)}
    (h : (Watched.opened n observer).SerialRun events)
    (hmore : (events.foldl Watched.after (.opened n observer)).SerialRun more) :
    let x := events.foldl Watched.after (.opened n observer)
    let y := more.foldl Watched.after x
    x.lifecycle.Forward y.lifecycle ∧
      (x.corruptionDetected = true → y.corruptionDetected = true) ∧
      (x.lifecycle = .failed → (∀ id, y.Accepted id → x.Accepted id) ∧
        ∀ id shard guarded pc, y.calls.get id = some (.append shard guarded pc) →
          (Frame.append shard guarded pc).admittedIn = none) := by
  intro x y
  have hadmitted : x.Admitted := ((Watched.admitted_opened observer).run h).2.1
  obtain ⟨honward, hlast, hold⟩ := hadmitted.run hmore
  refine ⟨honward.lifecycle, honward.corruption, fun hfailed ↦ ?_⟩
  have hrank : 4 ≤ x.lifecycle.rank := hfailed ▸ le_rfl
  exact ⟨hold hrank, fun _ _ _ _ hget ↦
    hlast.idle_append (hrank.trans honward.lifecycle.rank_le) hget⟩

/-- `watermarks` finds corruption, notes it and fails the runtime; an append is refused. -/
theorem failed_refuses_append :
    let start := Watched.opened 1 fun _ ↦ .watermarks
    let events := List.replicate 4 (.inr (0, .error true))
    let more : List (WatchedEvent 1) := [.inl (.call 0 (.append 0 false)), .inl (.step 0 .ok)]
    let x := events.foldl Watched.after start
    start.SerialRun events ∧ x.SerialRun more ∧ start.lifecycle = .recovering ∧
      x.lifecycle = .failed ∧ (more.foldl Watched.after x).corruptionDetected = true ∧
      ¬ (more.foldl Watched.after x).Accepted 0 := by
  intro start events more x
  have hobserver (x : Watched 1) (hcalls : ∀ id, x.calls.get id = none)
      (hlife : x.lifecycle ≠ .fenced ∧ x.lifecycle ≠ .stopped)
      (hothers : ∀ id, id ≠ 0 → (x.observers id).2 = .check) :
      x.Serial (.inr (0, .error true)) := by
    refine ⟨fun _ ↦ ⟨fun id _ hget ↦ by simp [hcalls id] at hget, fun id hne ↦ ?_⟩,
      fun _ _ ↦ hlife, nofun⟩
    rw [hothers id fun hid ↦ hne (.error true) (by rw [hid])]
    exact ⟨nofun, nofun⟩
  have hevents : start.SerialRun events := by
    refine ⟨hobserver _ ?_ ?_ ?_, hobserver _ ?_ ?_ ?_, hobserver _ ?_ ?_ ?_, hobserver _ ?_ ?_ ?_,
      trivial⟩
    all_goals first
      | exact fun _ ↦ rfl
      | decide
      | exact fun id hid ↦ by simp [Watched.after, hid, start, Watched.opened]
  have hmore : x.SerialRun more :=
    ⟨⟨False.elim, nofun, nofun⟩, ⟨fun ⟨_, hget, hstores⟩ ↦ by cases hget; exact hstores.elim, nofun,
      nofun⟩, trivial⟩
  have hforward := lifecycle_forward hevents hmore
  refine ⟨hevents, hmore, rfl, rfl, hforward.2.1 rfl, fun haccepted ↦ ?_⟩
  obtain ⟨_, _, hget⟩ := (hforward.2.2 rfl).1 0 haccepted
  cases hget

/-- **Runs that go back**: a recovery that has passed its check publishes `CatchingUp` over
`Draining`; a call of `watermarks` fails a runtime that is fenced; a recovery that fails takes back
the corruption that a snapshot has noted; and a `ready` that has passed its check lets an append in
after `Failed`. -/
theorem lifecycle_goes_back :
    let run events : Watched 1 := events.foldl Watched.after
      (.opened 1 fun id ↦ if id = 0 then .healthSnapshot else .watermarks)
    let steps id count : List (WatchedEvent 1) := (stepsOf id count).map .inl
    let corruption id count : List (WatchedEvent 1) := .replicate count (.inr (id, .error true))
    let recover := .inl (.call 0 .recover) :: steps 0 3
    let ready := recover ++ steps 0 1 ++ .inl (.call 1 .ready) :: steps 1 1
    let drain := recover ++ .inl (.call 1 .drain) :: steps 1 2
    let fence := ready ++ .inl (.step 1 (.error false)) :: steps 1 1
    let note := corruption 0 3 ++ .inl (.call 0 .recover) :: steps 0 1
    let fail := ready ++ steps 1 5 ++ corruption 1 4
    let append := fail ++ steps 1 1 ++ .inl (.call 2 (.append 0 false)) :: steps 2 2
    ((run drain).lifecycle = .draining ∧ (run (drain ++ steps 0 1)).lifecycle = .catchingUp) ∧
    ((run fence).lifecycle = .fenced ∧ (run (fence ++ corruption 1 4)).lifecycle = .failed) ∧
    ((run note).corruptionDetected = true ∧
      (run (note ++ .inl (.step 0 (.error false)) :: steps 0 1)).corruptionDetected = false) ∧
    (run fail).lifecycle = .failed ∧ (run append).allocated = [(2, 0)] := by
  decide +kernel

end ShardStream
