import ShardStream.Engine.Visibility

/-!
# Cancellation against allocation

A prepared append is committed by the coordinator while its caller may give up: on a timeout, when
the reply is lost, when the coordinator stops, or because whoever waits for the append went away.
Both sides race on one atomic, the `CommitControl` of the append. The coordinator checks its state,
takes the control, allocates and replies; the caller cancels the control and reports what it knows
about the allocation.

`CommitRace` is this protocol with every step of both sides on its own, so that anything can happen
in between. While the coordinator is not at work on the append its partition may change in any way.
The pieces of the commit are those of `commit_source` (`commitSource_eq`, `commitReplica_eq`), and
no piece can fail once the control is taken (`commitInstall_of_check`).
-/

namespace ShardStream

variable {p : PreparedAppend} {input : PreparedInput}

/-! ### The pieces of a commit -/

/-- `CommitControl::cancel`: the control afterwards, and whether the append is cancelled. -/
def CommitControl.cancel : CommitControl → CommitControl × Bool
  | .pending => (.cancelled, true)
  | .cancelled => (.cancelled, true)
  | .committing => (.committing, false)

/-- `CommitOutcome`. -/
inductive CommitOutcome where
  | settled (outcome : ReserveOutcome)
  | unallocated (error : EngineError)
  | unknown (error : EngineError)
  deriving DecidableEq

/-- `returned_commit`. -/
def returnedCommit : Except EngineError ReserveOutcome → CommitOutcome
  | .ok outcome => .settled outcome
  | .error e => .unallocated e

theorem returnedCommit_ne_unknown (reply : Except EngineError ReserveOutcome) (e : EngineError) :
    returnedCommit reply ≠ .unknown e := by
  cases reply <;> nofun

/-- `missing_commit`. -/
def missingCommit (control : CommitControl) : CommitControl × CommitOutcome :=
  let error : EngineError := .corruptState "reservation commit stopped"
  if control.cancel.2 then (control.cancel.1, .unallocated error)
  else (control.cancel.1, .unknown error)

/-- `commit_source` up to the point where it takes the control: `some` for a receipt, `none` to go
on. -/
def commitCheck (st : PartitionState) (p : PreparedAppend) :
    Except EngineError (Option ReserveOutcome) :=
  match duplicate st p.intent with
  | .error e => .error e
  | .ok (some outcome) => .ok (some outcome)
  | .ok none =>
    match prepare st p.intent with
    | .error e => .error e
    | .ok (.duplicate _) => .error (.corruptState "duplicate changed within serialized commit")
    | .ok (.new current) =>
      if ¬ current.sameFacts p then .error (.sequencer .reservationProposalChanged)
      else .ok none

/-- `commit_source` from there on. -/
def commitInstall (st : PartitionState) (p : PreparedAppend) :
    Except EngineError ReserveOutcome × PartitionState :=
  match st.sequencer.commitReservation p.proposal with
  | .error e => (.error (.sequencer e), st)
  | .ok (reservation, sequencer) =>
    match st.batches.push reservation.batchId
        (pendingBatch reservation p.intent.producer p.intent.atomicGroup
          p.intent.payloadBytes p.intent.payloadDigest) with
    | none =>
      (.error (.corruptState "dense insertion was validated before reservation commit"),
        { st with sequencer })
    | some batches =>
      (.ok (.reserved reservation (p.intent.producer.map (·.toSequence p.intent.payloadDigest))
          p.replicationPolicy),
        installPrepared st p sequencer batches reservation.batchId)

/-- `commit_source` is its pieces in sequence. -/
theorem commitSource_eq (st : PartitionState) (p : PreparedAppend)
    (control : Option CommitControl) : commitSource st p control =
      match commitCheck st p with
      | .error e => (.error e, st, control)
      | .ok (some outcome) => (.ok outcome, st, control)
      | .ok none =>
        match beginCommit control with
        | .error e => (.error e, st, control)
        | .ok control => ((commitInstall st p).1, (commitInstall st p).2, control) := by
  simp only [commitSource, commitCheck]
  rcases duplicate st p.intent with e | _ | outcome
  · rfl
  · rcases prepare st p.intent with e | o | current
    · rfl
    · rfl
    · dsimp only
      split_ifs
      · rcases beginCommit control with e | control'
        · rfl
        simp only [commitInstall]
        rcases st.sequencer.commitReservation p.proposal with e | ⟨reservation, sequencer⟩
        · rfl
        dsimp only
        cases st.batches.push reservation.batchId _ <;> rfl
      · rfl
  · rfl

variable {st : PartitionState}

/-- What passes the checks is valid. -/
theorem valid_of_commitCheck (h : commitCheck st p = .ok none) : p.Valid st := by
  unfold commitCheck at h
  split at h
  · cases h
  · cases h
  split at h
  · cases h
  · cases h
  next hprep =>
    obtain ⟨hsame, -⟩ := ite_error_eq_ok_iff.1 h
    obtain ⟨hintent, hvalid⟩ := prepare_eq_new_iff.1 hprep
    rwa [← PreparedAppend.eq_of_sameFacts hintent (not_not.1 hsame)]

/-- **Nothing fails once the control is taken**: the state that passed the checks allocates exactly
the coordinates of the preparation. -/
theorem commitInstall_of_check (h : commitCheck st p = .ok none) :
    commitInstall st p = (.ok p.reply, st.allocated p) := by
  have hvalid := valid_of_commitCheck h
  have hpush := hvalid.push
  simp only [PreparedAppend.batch] at hpush
  simp only [commitInstall, hvalid.commitReservation, hpush, PreparedAppend.reply,
    PartitionState.allocated, PreparedAppend.batch]

/-- `PreparedInput`: what is committed, for a leader or for a replica. -/
inductive PreparedInput where
  | leader (prepared : PreparedAppend)
  | replica (prepared : PreparedReplica)

namespace PreparedInput

/-- The preparation that is committed. -/
def prepared : PreparedInput → PreparedAppend
  | .leader p => p
  | .replica p => p.prepared

/-- What the coordinator checks before it takes the control. -/
def check (st : PartitionState) : PreparedInput → Except EngineError (Option ReserveOutcome)
  | .leader p => commitCheck st p
  | .replica p =>
    match prepareReplica st p.intent with
    | .error e => .error e
    | .ok (.duplicate outcome) => .ok (some outcome)
    | .ok (.new _) => commitCheck st p.prepared

end PreparedInput

/-- `replica::commit` is its pieces in sequence. -/
theorem commitReplica_eq (st : PartitionState) (p : PreparedReplica) (control : CommitControl) :
    commitReplica st p control =
      match (PreparedInput.replica p).check st with
      | .error e => (.error e, st, some control)
      | .ok (some outcome) => (.ok outcome, st, some control)
      | .ok none =>
        match beginCommit (some control) with
        | .error e => (.error e, st, some control)
        | .ok control =>
        ((commitInstall st p.prepared).1, (commitInstall st p.prepared).2, control) := by
  simp only [commitReplica, PreparedInput.check]
  cases prepareReplica st p.intent with
  | error e => rfl
  | ok outcome =>
    cases outcome with
    | duplicate o => rfl
    | new q => exact commitSource_eq st p.prepared (some control)

theorem PreparedInput.check_eq_none (h : input.check st = .ok none) :
    commitCheck st input.prepared = .ok none := by
  cases input with
  | leader p => exact h
  | replica p =>
    simp only [check] at h
    split at h
    · cases h
    · cases h
    · exact h

/-- A receipt is never a new allocation. -/
theorem PreparedInput.check_eq_some {outcome : ReserveOutcome}
    (h : input.check st = .ok (some outcome)) :
    ∀ r producer policy, outcome ≠ .reserved r producer policy := by
  have hcheck : ∀ {p}, commitCheck st p = .ok (some outcome) →
      ∀ r producer policy, outcome ≠ .reserved r producer policy := by
    intro p hp
    unfold commitCheck at hp
    split at hp
    · cases hp
    next hdup =>
      cases hp
      obtain ⟨response, copies, object, policy, rfl⟩ := duplicate_eq_some hdup
      nofun
    split at hp
    · cases hp
    · cases hp
    · cases (ite_error_eq_ok_iff.1 hp).2
  cases input with
  | leader p => exact hcheck h
  | replica p =>
    simp only [check] at h
    split at h
    · cases h
    next hprep =>
      cases h
      -- the receipt of a batch that the replica holds
      obtain ⟨response, copies, object, policy, rfl⟩ := prepareReplica_eq_duplicate hprep
      nofun
    · exact hcheck h

/-! ### The protocol -/

/-- Where the coordinator is with the append. -/
inductive CommitStage where
  /-- The command was not sent. -/
  | unsent
  | queued
  /-- The checks have passed. -/
  | checked
  /-- The control is taken. -/
  | owning
  | answering (reply : Except EngineError ReserveOutcome)
  | answered
  /-- The command is gone, and its reply sender with it. -/
  | gone

/-- Where the caller is: `commit_prepared` and `await_commit`. -/
inductive CallerStage where
  | sending
  | waiting
  | timedOut
  /-- The cancellation came too late; the caller waits for the reply. -/
  | blocked
  | returned (outcome : CommitOutcome)

/-- Both sides, the atomic between them, the reply channel, and what was allocated for the
append. -/
structure CommitRace where
  partition : PartitionState
  control : CommitControl
  stage : CommitStage
  reply : Option (Except EngineError ReserveOutcome)
  caller : CallerStage
  allocations : List Reservation

/-- The coordinates a reply hands out. -/
def newlyReserved (reply : Except EngineError ReserveOutcome) : List Reservation :=
  (reservedIn reply).toList

/-- The steps of both sides. -/
inductive RaceStep (input : PreparedInput) : CommitRace → CommitRace → Prop
  /-- The coordinator works on something else. -/
  | elsewhere {s : CommitRace} (partition : PartitionState)
      (hstage : s.stage = .unsent ∨ s.stage = .queued ∨ s.stage = .answered ∨ s.stage = .gone) :
      RaceStep input s { s with partition }
  /-- Somebody cancels: the ticket is dropped, or the worker answers without a write. -/
  | cancel {s : CommitRace} : RaceStep input s { s with control := s.control.cancel.1 }
  | sent {s : CommitRace} (hcaller : s.caller = .sending) :
      RaceStep input s { s with stage := .queued, caller := .waiting }
  /-- The coordinator's queue is full, or the coordinator is gone. -/
  | notSent {s : CommitRace} (e : EngineError) (hcaller : s.caller = .sending) :
      RaceStep input s
        { s with control := s.control.cancel.1, caller := .returned (.unallocated e) }
  | refused {s : CommitRace} {e : EngineError} (hstage : s.stage = .queued)
      (hcheck : input.check s.partition = .error e) :
      RaceStep input s { s with stage := .answering (.error e) }
  | receipt {s : CommitRace} {outcome : ReserveOutcome} (hstage : s.stage = .queued)
      (hcheck : input.check s.partition = .ok (some outcome)) :
      RaceStep input s { s with stage := .answering (.ok outcome) }
  | checked {s : CommitRace} (hstage : s.stage = .queued)
      (hcheck : input.check s.partition = .ok none) :
      RaceStep input s { s with stage := .checked }
  | tooLate {s : CommitRace} {e : EngineError} (hstage : s.stage = .checked)
      (hbegin : s.control.beginCommit = .error e) :
      RaceStep input s { s with stage := .answering (.error e) }
  | taken {s : CommitRace} {control : CommitControl} (hstage : s.stage = .checked)
      (hbegin : s.control.beginCommit = .ok control) :
      RaceStep input s { s with control, stage := .owning }
  | installed {s : CommitRace} (hstage : s.stage = .owning) :
      RaceStep input s
        { s with
          partition := (commitInstall s.partition input.prepared).2
          stage := .answering (commitInstall s.partition input.prepared).1
          allocations := s.allocations ++
            newlyReserved (commitInstall s.partition input.prepared).1 }
  | answered {s : CommitRace} {reply : Except EngineError ReserveOutcome}
      (hstage : s.stage = .answering reply) :
      RaceStep input s { s with stage := .answered, reply := some reply }
  /-- The coordinator stops or panics: a command it has not answered is dropped. -/
  | stopped {s : CommitRace} (hstage : s.stage ≠ .unsent) (hanswered : s.stage ≠ .answered) :
      RaceStep input s { s with stage := .gone }
  | received {s : CommitRace} {reply : Except EngineError ReserveOutcome}
      (hcaller : s.caller = .waiting ∨ s.caller = .blocked) (hreply : s.reply = some reply) :
      RaceStep input s { s with caller := .returned (returnedCommit reply) }
  | disconnected {s : CommitRace} (hcaller : s.caller = .waiting ∨ s.caller = .blocked)
      (hreply : s.reply = none) (hstage : s.stage = .gone) :
      RaceStep input s
        { s with
          control := (missingCommit s.control).1
          caller := .returned (missingCommit s.control).2 }
  | timeout {s : CommitRace} (hcaller : s.caller = .waiting) :
      RaceStep input s { s with caller := .timedOut }
  | cancelled {s : CommitRace} (hcaller : s.caller = .timedOut)
      (hcancel : s.control.cancel.2 = true) : RaceStep input s
        { s with
          control := s.control.cancel.1
          caller := .returned (.unallocated (.fenced
            "queued reservation commit was cancelled before allocation")) }
  | blocked {s : CommitRace} (hcaller : s.caller = .timedOut)
      (hcancel : s.control.cancel.2 = false) :
      RaceStep input s { s with control := s.control.cancel.1, caller := .blocked }

/-- Any number of steps. -/
def RaceRun (input : PreparedInput) : CommitRace → CommitRace → Prop :=
  Relation.ReflTransGen (RaceStep input)

/-- The start: a fresh control, and the command not yet sent. -/
def CommitRace.initial (partition : PartitionState) : CommitRace where
  partition := partition
  control := .pending
  stage := .unsent
  reply := none
  caller := .sending
  allocations := []

/-! ### What holds in between -/

/-- The allocations are what the reply hands out, and if that is something the control is taken. -/
structure Accounts (control : CommitControl) (allocations : List Reservation)
    (reply : Except EngineError ReserveOutcome) : Prop where
  eq : allocations = newlyReserved reply
  taken : allocations ≠ [] → control = .committing

/-- The coordinator's side. -/
def StageOk (input : PreparedInput) (s : CommitRace) : CommitStage → Prop
  | .unsent | .queued => s.allocations = [] ∧ s.reply = none
  | .checked => s.allocations = [] ∧ s.reply = none ∧ input.check s.partition = .ok none
  | .owning => s.allocations = [] ∧ s.reply = none ∧ input.check s.partition = .ok none ∧
      s.control = .committing
  | .answering reply => s.reply = none ∧ Accounts s.control s.allocations reply
  | .answered => ∃ reply, s.reply = some reply ∧ Accounts s.control s.allocations reply
  | .gone => s.reply = none ∧ (s.allocations ≠ [] → s.control = .committing)

/-- **The invariant of the race.** -/
structure CommitRace.Ok (input : PreparedInput) (s : CommitRace) : Prop where
  stage : StageOk input s s.stage
  single : s.allocations = [] ∨ s.allocations = [input.prepared.proposal.reservation]
  sending : s.caller = .sending → s.stage = .unsent
  /-- A caller that reports no allocation is right, and nobody can allocate any more. -/
  unallocated : ∀ e, s.caller = .returned (.unallocated e) → s.allocations = [] ∧
    (s.control = .cancelled ∨ s.stage = .answered ∨ s.stage = .unsent)
  settled : ∀ outcome, s.caller = .returned (.settled outcome) → s.reply = some (.ok outcome)

section Invariant

variable {s s' : CommitRace} {stage : CommitStage} {control : CommitControl}

theorem CommitRace.ok_initial (input : PreparedInput) (partition : PartitionState) :
    (initial partition).Ok input :=
  ⟨⟨rfl, rfl⟩, .inl rfl, fun _ ↦ rfl, nofun, nofun⟩

/-- What is allocated was allocated under the control. -/
theorem StageOk.taken (h : StageOk input s stage) (hne : s.allocations ≠ []) :
    s.control = .committing := by
  cases stage with
  | unsent | queued | checked => exact absurd h.1 hne
  | owning => exact h.2.2.2
  | answering reply => exact h.2.taken hne
  | answered =>
    obtain ⟨reply, -, h⟩ := h
    exact h.taken hne
  | gone => exact h.2 hne

/-- There is a reply only once the coordinator has answered. -/
theorem StageOk.answered (h : StageOk input s stage) {reply : Except EngineError ReserveOutcome}
    (hreply : s.reply = some reply) :
    stage = .answered ∧ Accounts s.control s.allocations reply := by
  have hno : s.reply ≠ none := by simp [hreply]
  cases stage with
  | unsent | queued => exact absurd h.2 hno
  | checked | owning => exact absurd h.2.1 hno
  | answering reply => exact absurd h.1 hno
  | answered =>
    obtain ⟨reply', hreply', h⟩ := h
    rw [hreply] at hreply'
    cases hreply'
    exact ⟨rfl, h⟩
  | gone => exact absurd h.1 hno

/-- Cancelling takes the control from nobody. -/
theorem StageOk.cancel (h : StageOk input s stage) (caller : CallerStage) :
    StageOk input { s with control := s.control.cancel.1, caller } stage := by
  have hkept : s.control = .committing → s.control.cancel.1 = .committing := fun hc ↦ by
    rw [hc]; rfl
  cases stage with
  | unsent | queued | checked => exact h
  | owning => exact ⟨h.1, h.2.1, h.2.2.1, hkept h.2.2.2⟩
  | answering reply => exact ⟨h.1, h.2.eq, fun hne ↦ hkept (h.2.taken hne)⟩
  | answered =>
    obtain ⟨reply, hreply, h⟩ := h
    exact ⟨reply, hreply, h.eq, fun hne ↦ hkept (h.taken hne)⟩
  | gone => exact ⟨h.1, fun hne ↦ hkept (h.2 hne)⟩

theorem CommitControl.cancel_fst (h : control ≠ .committing) : control.cancel.1 = .cancelled := by
  cases control <;> simp_all [CommitControl.cancel]

theorem CommitControl.cancel_snd : control.cancel.2 = true ↔ control ≠ .committing := by
  cases control <;> simp [CommitControl.cancel]

/-- A caller whose cancellation succeeds knows that nothing is allocated. -/
theorem CommitRace.Ok.unallocated_of_cancel (h : s.Ok input) (hc : s.control.cancel.2 = true) :
    s.allocations = [] ∧
      (s.control.cancel.1 = .cancelled ∨ s.stage = .answered ∨ s.stage = .unsent) := by
  have hne := CommitControl.cancel_snd.1 hc
  refine ⟨?_, .inl (CommitControl.cancel_fst hne)⟩
  by_contra hsome
  exact hne (h.stage.taken hsome)

/-- The coordinator goes on with a command that it has not answered. -/
theorem CommitRace.Ok.advance (h : s.Ok input) (hunsent : s.stage ≠ .unsent)
    (hanswered : s.stage ≠ .answered) (hok : StageOk input { s with stage } stage) :
    ({ s with stage } : CommitRace).Ok input := by
  refine ⟨hok, h.single, fun hc ↦ absurd (h.sending hc) hunsent, fun e he ↦ ?_, h.settled⟩
  obtain ⟨hnil, hcontrol⟩ := h.unallocated e he
  exact ⟨hnil, .inl (hcontrol.resolve_right (by simp [hunsent, hanswered]))⟩

/-- **Every step of the race keeps the invariant.** -/
theorem CommitRace.Ok.step (h : s.Ok input) (hstep : RaceStep input s s') : s'.Ok input := by
  obtain ⟨hok, hsingle, hsending, hunallocated, hsettled⟩ := id h
  cases hstep with
  | elsewhere partition hstage =>
    refine ⟨?_, hsingle, hsending, hunallocated, hsettled⟩
    rcases hstage with hstage | hstage | hstage | hstage <;>
      · rw [hstage] at hok ⊢
        exact hok
  | cancel =>
    refine ⟨hok.cancel s.caller, hsingle, hsending, fun e he ↦ ?_, hsettled⟩
    obtain ⟨hnil, hcontrol | hstage⟩ := hunallocated e he
    · refine ⟨hnil, .inl ?_⟩
      rw [hcontrol]
      rfl
    · exact ⟨hnil, .inr hstage⟩
  | sent hcaller =>
    rw [hsending hcaller] at hok
    exact ⟨hok, hsingle, nofun, nofun, nofun⟩
  | notSent e hcaller =>
    have hstage := hsending hcaller
    refine ⟨hok.cancel _, hsingle, nofun, fun e' _ ↦ ?_, nofun⟩
    rw [hstage] at hok
    exact ⟨hok.1, .inr (.inr hstage)⟩
  | @refused e hstage =>
    rw [hstage] at hok
    exact h.advance (by simp [hstage]) (by simp [hstage]) ⟨hok.2, hok.1, fun hne ↦ absurd hok.1 hne⟩
  | @receipt outcome hstage hcheck =>
    rw [hstage] at hok
    have hnew : newlyReserved (.ok outcome) = [] := by
      rw [newlyReserved, reservedIn_eq_none fun r producer policy heq ↦
        PreparedInput.check_eq_some hcheck r producer policy (Except.ok.inj heq)]
      rfl
    exact h.advance (by simp [hstage]) (by simp [hstage])
      ⟨hok.2, hok.1.trans hnew.symm, fun hne ↦ absurd hok.1 hne⟩
  | checked hstage hcheck =>
    rw [hstage] at hok
    exact h.advance (by simp [hstage]) (by simp [hstage]) ⟨hok.1, hok.2, hcheck⟩
  | @tooLate e hstage =>
    rw [hstage] at hok
    exact h.advance (by simp [hstage]) (by simp [hstage])
      ⟨hok.2.1, hok.1, fun hne ↦ absurd hok.1 hne⟩
  | @taken control hstage hbegin =>
    rw [hstage] at hok
    have hcontrol : s.control = .pending ∧ control = .committing := by
      cases hc : s.control <;> rw [hc] at hbegin <;> cases hbegin
      exact ⟨rfl, rfl⟩
    refine ⟨⟨hok.1, hok.2.1, hok.2.2, hcontrol.2⟩, hsingle, fun hc ↦ ?_, fun e he ↦ ?_, hsettled⟩
    · exact absurd (hsending hc) (by simp [hstage])
    · exact absurd (hunallocated e he).2 (by simp [hstage, hcontrol.1])
  | installed hstage =>
    rw [hstage] at hok
    obtain ⟨hnil, hreply, hcheck, hcontrol⟩ := hok
    have hinstall := commitInstall_of_check (PreparedInput.check_eq_none hcheck)
    have hnew : s.allocations ++ newlyReserved (commitInstall s.partition input.prepared).1 =
        [input.prepared.proposal.reservation] := by
      rw [hinstall, hnil]
      rfl
    refine ⟨⟨hreply, by rw [hnil]; rfl, fun _ ↦ hcontrol⟩, .inr hnew, fun hc ↦ ?_, fun e he ↦ ?_,
      hsettled⟩
    · exact absurd (hsending hc) (by simp [hstage])
    · exact absurd (hunallocated e he).2 (by simp [hstage, hcontrol])
  | @answered reply hstage =>
    rw [hstage] at hok
    refine ⟨⟨reply, rfl, hok.2⟩, hsingle, fun hc ↦ ?_,
      fun e he ↦ ⟨(hunallocated e he).1, .inr (.inl rfl)⟩, fun outcome ho ↦ ?_⟩
    · exact absurd (hsending hc) (by simp [hstage])
    · exact absurd (hsettled outcome ho) (by simp [hok.1])
  | stopped hunsent hanswered =>
    have hgone : s.reply = none := by
      cases hreply : s.reply with
      | none => rfl
      | some reply => exact absurd (hok.answered hreply).1 hanswered
    exact h.advance hunsent hanswered ⟨hgone, fun hne ↦ hok.taken hne⟩
  | @received reply hcaller hreply =>
    obtain ⟨hstage, haccounts⟩ := hok.answered hreply
    refine ⟨?_, hsingle, nofun, fun e he ↦ ?_, fun outcome ho ↦ ?_⟩
    · rw [hstage]
      exact ⟨reply, hreply, haccounts⟩
    · cases reply with
      | ok outcome => cases he
      | error e' => exact ⟨haccounts.eq, .inr (.inl hstage)⟩
    · cases reply with
      | error e => cases ho
      | ok =>
        cases ho
        exact hreply
  | disconnected =>
    refine ⟨?_, hsingle, nofun, fun e he ↦ ?_, fun outcome ho ↦ ?_⟩
    · have hcontrol : (missingCommit s.control).1 = s.control.cancel.1 := by
        simp only [missingCommit]
        split_ifs <;> rfl
      rw [hcontrol]
      exact hok.cancel _
    · simp only [missingCommit] at he ⊢
      split_ifs at he ⊢ with hc
      · exact h.unallocated_of_cancel hc
      · cases he
    · simp only [missingCommit] at ho
      split_ifs at ho <;> cases ho
  | timeout =>
    refine ⟨?_, hsingle, nofun, nofun, nofun⟩
    cases hstage : s.stage <;> rw [hstage] at hok <;> exact hok
  | cancelled hcaller hcancel =>
    exact ⟨hok.cancel _, hsingle, nofun, fun _ _ ↦ h.unallocated_of_cancel hcancel, nofun⟩
  | blocked => exact ⟨hok.cancel _, hsingle, nofun, nofun, nofun⟩

theorem RaceRun.ok (h : s.Ok input) (hrun : RaceRun input s s') : s'.Ok input := by
  induction hrun with
  | refl => exact h
  | tail _ hstep ih => exact ih.step hstep

/-- A caller that has returned stays returned. -/
theorem RaceRun.returned (hrun : RaceRun input s s') {outcome : CommitOutcome}
    (hcaller : s.caller = .returned outcome) : s'.caller = .returned outcome := by
  induction hrun with
  | refl => exact hcaller
  | tail _ hstep ih =>
    cases hstep <;> simp_all

end Invariant

/-- **Cancellation and allocation exclude each other.** However the two sides interleave, at most
one allocation is made; a caller that reports no allocation is right for good; an allocation is
reported with its coordinates or as unknown; and a commit that is refused changes nothing. -/
theorem cancellation_excludes_allocation (input : PreparedInput) (partition : PartitionState)
    {s : CommitRace} (hrun : RaceRun input (.initial partition) s) :
    s.allocations.length ≤ 1 ∧
      (∀ e, s.caller = .returned (.unallocated e) →
        ∀ s', RaceRun input s s' → s'.allocations = []) ∧
      (∀ r ∈ s.allocations, r = input.prepared.proposal.reservation ∧
        ∀ outcome, s.caller = .returned outcome →
          (∃ producer policy, outcome = .settled (.reserved r producer policy)) ∨
            ∃ e, outcome = .unknown e) ∧
      ∀ st p control e, (commitSource st p control).1 = .error e →
        (commitSource st p control).2.1 = st := by
  have hok := hrun.ok (CommitRace.ok_initial input partition)
  refine ⟨?_, fun e he s' hrun' ↦ ?_, fun r hr ↦ ⟨?_, fun outcome ho ↦ ?_⟩, fun st p control e he ↦
    ?_⟩
  · rcases hok.single with h | h <;> rw [h] <;> simp
  · exact ((hrun'.ok hok).unallocated e (hrun'.returned he)).1
  · rcases hok.single with h | h <;> rw [h] at hr
    · cases hr
    · exact List.mem_singleton.1 hr
  · cases outcome with
    | unknown e => exact .inr ⟨e, rfl⟩
    | unallocated e =>
      rw [(hok.unallocated e ho).1] at hr
      cases hr
    | settled outcome =>
      have haccounts := (hok.stage.answered (hok.settled outcome ho)).2
      rw [haccounts.eq] at hr
      cases outcome with
      | duplicate => cases hr
      | reserved r' producer policy =>
        obtain rfl := List.mem_singleton.1 hr
        exact .inl ⟨producer, policy, rfl⟩
  · rcases commitSource_cases st p control with ⟨h, -⟩ | ⟨-, h, -⟩
    · exact h
    · rw [he] at h
      cases h

/-- The preparation of one record for the fresh partition. -/
def firstPrepared : PreparedAppend where
  intent :=
    { tp := ⟨0, 0⟩, requestId := 0, producer := none, atomicGroup := none
      recordCount := .one, payloadBytes := 1, payloadDigest := 0
      admittedLeaderEpoch := none }
  proposal := ⟨firstBatch, 0⟩
  replicationPolicy := ⟨1, 1, 1⟩
  producerBefore := none
  producerAfter := none
  atomicBefore := none
  atomicAfter := none
  denseNextKey := 0
  denseLen := 0

/-- The caller times out while the coordinator takes the control: its cancellation comes too late,
and it is told the coordinates. -/
theorem late_cancellation_settles : ∃ s producer policy,
    RaceRun (.leader firstPrepared) (.initial oneLane) s ∧ s.allocations = [firstBatch] ∧
      s.caller = .returned (.settled (.reserved firstBatch producer policy)) := by
  have hcheck : (PreparedInput.leader firstPrepared).check oneLane = .ok none := by decide +kernel
  have hrun := (((((((Relation.ReflTransGen.refl (r := RaceStep (.leader firstPrepared))
    (a := CommitRace.initial oneLane)).tail (.sent rfl)).tail (.timeout rfl)).tail
    (.checked rfl hcheck)).tail (.taken rfl rfl)).tail (.blocked rfl rfl)).tail
    (.installed rfl)).tail (.answered rfl)
  have hrun := hrun.tail (.received (.inr rfl) rfl)
  obtain ⟨-, -, hreported, -⟩ := cancellation_excludes_allocation _ _ hrun
  have hallocations : newlyReserved (commitInstall oneLane firstPrepared).1 = [firstBatch] := by
    rfl
  obtain ⟨-, h⟩ := hreported firstBatch (by
    exact List.mem_singleton_self _)
  rcases h _ rfl with ⟨producer, policy, heq⟩ | ⟨e, heq⟩
  · exact ⟨_, producer, policy, hrun, hallocations, congrArg CallerStage.returned heq⟩
  · exact absurd heq (returnedCommit_ne_unknown _ e)

end ShardStream
