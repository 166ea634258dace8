import ShardStream.Engine.WellFormed

/-!
# Visibility waiters

A client waits until an offset is visible, in the order of the log or on enough replicas. If it is
visible the reply is sent at once; otherwise the waiter is registered and answered from the end of
`advance_cached_watermarks`. Every command that moves a cursor ends there (`Outcome.notified`), also
when it sends the cursors back to the log start first, so between commands no waiter is registered
for an offset that is visible.
-/

namespace ShardStream

open PartitionCore List PartitionState

/-- A wait for an offset: the channel is where the reply goes. -/
structure Wait where
  mode : VisibilityMode
  through : Nat
  channel : Nat

/-- A registered waiter, as the wait it came from. -/
def Wait.of (mode : VisibilityMode) (w : Nat × Nat) : Wait := ⟨mode, w.1, w.2⟩

/-- The waits that the partition has registered. -/
def PartitionState.registered (st : PartitionState) : List Wait :=
  st.orderedWaiters.map (.of .ordered) ++ st.replicatedWaiters.map (.of .replicated)

/-- The wait that the command asks for. -/
def Command.waits : Command → List Wait
  | .waitUntilVisible through mode response => [⟨mode, through, response⟩]
  | _ => []

/-- No wait is registered for a visible offset. -/
def PartitionState.Unserved (st : PartitionState) : Prop :=
  ∀ w ∈ st.registered, st.visibleEnd w.mode < w.through

/-- **What a command may do with waits**: of those registered and a new one, some are served, and
the others are registered. -/
structure ServesWaits (st st' : PartitionState) (asked served : List Wait) : Prop where
  answered : st'.answered = st.answered ++ served.map Wait.channel
  divided : (st.registered ++ asked).Perm (served ++ st'.registered)
  visible : ∀ w ∈ served, w.through ≤ st'.visibleEnd w.mode
  unserved : st'.Unserved

section Step

variable {st st' : PartitionState}

/-! ### Notification -/

/-- The waiters left by a notification at the visible ends that are then reached. -/
structure Notified (st st' : PartitionState) : Prop where
  ordered : st'.orderedWaiters = st.orderedWaiters.filter fun w ↦ st'.lastStableOffset < w.1
  replicated : st'.replicatedWaiters = st.replicatedWaiters.filter fun w ↦ st'.replicatedEnd < w.1
  answered : st'.answered = st.answered ++
    (st.orderedWaiters.filter fun w ↦ w.1 ≤ st'.lastStableOffset).map (·.2) ++
    (st.replicatedWaiters.filter fun w ↦ w.1 ≤ st'.replicatedEnd).map (·.2)

/-- A notification divides the waiters. -/
theorem perm_filter_waiters (waiters : List (Nat × Nat)) (visible : Nat) (wait : Nat × Nat → Wait) :
    (waiters.map wait).Perm ((waiters.filter fun w ↦ w.1 ≤ visible).map wait ++
      (waiters.filter fun w ↦ visible < w.1).map wait) := by
  have hsplit := filter_append_perm (fun w : Nat × Nat ↦ decide (w.1 ≤ visible)) waiters
  simp only [← decide_not, not_le] at hsplit
  rw [← map_append]
  exact hsplit.symm.map wait

theorem Notified.serves (h : Notified st st') : ∃ served, ServesWaits st st' [] served := by
  refine ⟨(st.orderedWaiters.filter fun w ↦ w.1 ≤ st'.lastStableOffset).map (.of .ordered) ++
    (st.replicatedWaiters.filter fun w ↦ w.1 ≤ st'.replicatedEnd).map (.of .replicated), ?_, ?_,
    fun w hw ↦ ?_, fun w hw ↦ ?_⟩
  · rw [h.answered, append_assoc, map_append, map_map, map_map]
    rfl
  · rw [registered, registered, h.ordered, h.replicated, append_nil, append_assoc]
    refine ((perm_filter_waiters _ st'.lastStableOffset _).append
      (perm_filter_waiters _ st'.replicatedEnd _)).trans ?_
    rw [append_assoc]
    exact (perm_append_comm_assoc ..).append_left _
  · rcases mem_append.1 hw with hw | hw <;>
      · obtain ⟨v, hv, rfl⟩ := mem_map.1 hw
        have hv := (mem_filter.1 hv).2
        simp only [decide_eq_true_eq] at hv
        exact hv
  · rw [registered, h.ordered, h.replicated] at hw
    rcases mem_append.1 hw with hw | hw <;>
      · obtain ⟨v, hv, rfl⟩ := mem_map.1 hw
        have hv := (mem_filter.1 hv).2
        simp only [decide_eq_true_eq] at hv
        exact hv

/-- Waiters and visible ends that stay as they are. -/
structure SameWaits (st st' : PartitionState) : Prop where
  ordered : st'.orderedWaiters = st.orderedWaiters
  replicated : st'.replicatedWaiters = st.replicatedWaiters
  answered : st'.answered = st.answered
  visible : st'.visibleEnd = st.visibleEnd

/-- **A command without a wait** leaves waiters and visible ends alone, or notifies. -/
theorem Outcome.notified {answer : Except EngineError Unit} {c : Command} {eff : Effect}
    (h : Outcome st answer c eff) (hc : c.waits = []) :
    SameWaits st eff.state ∨ Notified st eff.state := by
  cases h with
  | quiet _ _ _ hwaiters =>
    rcases hwaiters with ⟨through, mode, response, rfl⟩ | ⟨rfl, rfl, rfl⟩
    · cases hc
    · exact .inl ⟨rfl, rfl, rfl, rfl⟩
  | allocated | reconfigured => exact .inl ⟨rfl, rfl, rfl, rfl⟩
  | refusedRetry =>
    rw [registerNamedChunk_snd]
    exact .inl ⟨rfl, rfl, rfl, rfl⟩
  | @frozen _ producer => cases producer <;> exact .inl ⟨rfl, rfl, rfl, rfl⟩
  | appended | retried =>
    rw [registerNamedChunk_snd]
    exact .inr ⟨rfl, rfl, rfl⟩
  | @failed _ producer =>
    rw [rollbackAtomicChunk_snd]
    cases producer <;> exact .inr ⟨rfl, rfl, rfl⟩
  | completed | acknowledged | decided | policyUpdated | truncated => exact .inr ⟨rfl, rfl, rfl⟩

/-! ### Waits -/

theorem perm_insertWaiter (waiters : List (Nat × Nat)) (through response : Nat)
    (mode : VisibilityMode) :
      (waiters.map (Wait.of mode) ++ [(⟨mode, through, response⟩ : Wait)]).Perm
      ((insertWaiter waiters through response).map (Wait.of mode)) := by
  have hinsert : (insertWaiter waiters through response).Perm ((through, response) :: waiters) := by
    refine perm_middle.trans ?_
    rw [takeWhile_append_dropWhile]
  exact (perm_append_singleton ..).trans (hinsert.map (Wait.of mode)).symm

theorem ServesWaits.register {w : Wait} (h : st.Unserved)
    (hnot : ¬ w.through ≤ st.visibleEnd w.mode)
    (hdivided : (st.registered ++ [w]).Perm st'.registered) (hanswered : st'.answered = st.answered)
    (hvisible : st'.visibleEnd = st.visibleEnd) : ServesWaits st st' [w] [] := by
  refine ⟨by rw [hanswered, map_nil, append_nil], hdivided,
    fun v hv ↦ (not_mem_nil hv).elim, fun v hv ↦ ?_⟩
  rw [hvisible]
  rcases mem_append.1 (hdivided.mem_iff.2 hv) with hv | hv
  · exact h v hv
  · rw [mem_singleton.1 hv]
    exact not_le.1 hnot

/-- **A wait** is served at once or registered. -/
theorem serves_waitUntilVisible (h : st.Unserved) (through : Nat) (mode : VisibilityMode)
    (response : Nat) : ∃ served, ServesWaits st (st.waitUntilVisible through mode response)
      [⟨mode, through, response⟩] served := by
  unfold waitUntilVisible
  split_ifs with hvisible
  · refine ⟨[⟨mode, through, response⟩], rfl, perm_append_comm, fun w hw ↦ ?_, h⟩
    rw [mem_singleton.1 hw]
    exact hvisible
  · refine ⟨[], ?_⟩
    rcases mode with _ | _
    · refine .register h hvisible ?_ rfl rfl
      rw [registered, append_assoc]
      refine (perm_append_comm.append_left _).trans ?_
      rw [← append_assoc]
      exact (perm_insertWaiter ..).append_right _
    · refine .register h hvisible ?_ rfl rfl
      rw [registered, append_assoc]
      exact (perm_insertWaiter ..).append_left _

/-- **One command.** -/
theorem Command.serves (hs : st.Sound) (h : st.Unserved)
    (answer : Except EngineError Unit) (c : Command) :
    ∃ served, ServesWaits st (c.run st answer).state c.waits served := by
  rcases hc : c.waits with _ | ⟨w, ws⟩
  · rcases (c.outcome hs answer).notified hc with hsame | hnotified
    · have hregistered : (c.run st answer).state.registered = st.registered := by
        rw [registered, hsame.ordered, hsame.replicated]
        rfl
      refine ⟨[], by rw [hsame.answered, map_nil, append_nil], ?_,
        fun w hw ↦ (not_mem_nil hw).elim, fun w hw ↦ ?_⟩
      · rw [hregistered, append_nil]
        rfl
      · rw [hsame.visible]
        exact h w (hregistered ▸ hw)
    · exact hnotified.serves
  · cases c with
    | waitUntilVisible through mode response =>
      cases hc
      exact serves_waitUntilVisible h through mode response
    | _ => cases hc

end Step

/-! ### Over all runs -/

/-- The partition, with the waits that were asked for so far. -/
structure WaitLog where
  state : PartitionState
  waits : List Wait

/-- One command. -/
def WaitLog.after (x : WaitLog) (answer : Except EngineError Unit) (c : Command) : WaitLog :=
  ⟨(c.run x.state answer).state, x.waits ++ c.waits⟩

/-- **Waiters are served exactly once and on time.** In every state that commands reach from a
partition without waiters, and after any further command: the waits asked for so far are those that
were served, each with one reply, and those that are registered; the command has served only waits
for offsets that are visible after it; and every wait that is then registered is for an offset that
is not. -/
theorem waiters_served_once {start : PartitionState} (hstart : PartitionOrigin start)
    (hnone : start.registered = []) {x : WaitLog}
    (hrun : Relation.ReflTransGen (fun x y : WaitLog ↦ ∃ answer c, y = x.after answer c)
      ⟨start, []⟩ x) (answer : Except EngineError Unit) (c : Command) :
    ∃ served now : List Wait, x.state.answered = start.answered ++ served.map Wait.channel ∧
      x.waits.Perm (served ++ x.state.registered) ∧
      (x.after answer c).state.answered = x.state.answered ++ now.map Wait.channel ∧
      (x.after answer c).waits.Perm (served ++ now ++ (x.after answer c).state.registered) ∧
      (∀ w ∈ now, w.through ≤ (x.after answer c).state.visibleEnd w.mode) ∧
      ∀ w ∈ (x.after answer c).state.registered,
        (x.after answer c).state.visibleEnd w.mode < w.through := by
  have hstep : ∀ {x : WaitLog} {served now} {answer}
      {c}, x.waits.Perm (served ++ x.state.registered) →
      ServesWaits x.state (x.after answer c).state c.waits now →
      (x.after answer c).waits.Perm (served ++ now ++ (x.after answer c).state.registered) := by
    intro x served now answer c hwaits hserves
    refine (hwaits.append_right _).trans ?_
    rw [append_assoc, append_assoc]
    exact hserves.divided.append_left _
  obtain ⟨served, hs, hunserved, hanswered, hwaits⟩ : ∃ served : List Wait,
      x.state.Sound ∧ x.state.Unserved ∧
      x.state.answered = start.answered ++ served.map Wait.channel ∧
      x.waits.Perm (served ++ x.state.registered) := by
    induction hrun with
    | refl =>
      refine ⟨[], hstart.sound_and_exact.1, fun w hw ↦ ?_, (append_nil _).symm, ?_⟩
      · rw [hnone] at hw
        cases hw
      · rw [hnone]
        rfl
    | tail _ hlast ih =>
      obtain ⟨served, hs, hunserved, hanswered, hwaits⟩ := ih
      obtain ⟨answer, c, rfl⟩ := hlast
      obtain ⟨now, hserves⟩ := c.serves hs hunserved answer
      refine ⟨served ++ now, (c.outcome hs answer).core_effect.sound hs, hserves.unserved, ?_,
        hstep hwaits hserves⟩
      rw [map_append, ← append_assoc, ← hanswered]
      exact hserves.answered
  obtain ⟨now, hserves⟩ := c.serves hs hunserved answer
  exact ⟨served, now, hanswered, hwaits, hserves.answered, hstep hwaits hserves, hserves.visible,
    hserves.unserved⟩

/-- A client waits for the first batch of a new partition, and the batch is reserved. -/
def firstAwaited : WaitLog :=
  (WaitLog.after ⟨oneLane, []⟩ (.ok ()) (.waitUntilVisible 1 .ordered 7)).after
    (.ok ()) reserveFirst

/-- The wait is registered until the batch is completed, and that completion answers it. -/
theorem waiters_served_once_firstAwaited :
    firstAwaited.state.registered.length = 1 ∧ firstAwaited.state.answered = [] ∧
    ∃ served now : List Wait, served = [] ∧ now.map Wait.channel = [7] ∧
      (firstAwaited.after (.ok ()) completeFirst).waits.Perm now := by
  have hbefore : firstAwaited.state.registered.length = 1 ∧ firstAwaited.state.answered = [] ∧
      (firstAwaited.after (.ok ()) completeFirst).state.answered = [7] ∧
      (firstAwaited.after (.ok ()) completeFirst).state.registered.length = 0 := by decide +kernel
  obtain ⟨hone, hanswered, hafter, hnone⟩ := hbefore
  obtain ⟨served, now, hserved, -, hnow, h, -⟩ := waiters_served_once oneLane_origin rfl
    (.tail (.single ⟨_, _, rfl⟩) ⟨_, _, rfl⟩ : Relation.ReflTransGen _ _ firstAwaited) (.ok ())
    completeFirst
  rw [hanswered, hafter, nil_append] at hnow
  obtain ⟨-, rfl⟩ : oneLane.answered = [] ∧ served = [] := by simpa [hanswered] using hserved.symm
  rw [eq_nil_of_length_eq_zero hnone, append_nil] at h
  exact ⟨hone, hanswered, [], now, rfl, hnow.symm, h⟩

end ShardStream
