import ShardStream.Core.Sequencer

/-!
# Runs of a sequencer

A sequencer is used by one owner at a time, but a proposal may be kept while other operations run,
and committed later. A run is therefore a list of operations, and its **trace** is the list of what
happened: the state an operation met, its answer, and the state it left (`TopicSequencer.trace`).

Whatever the operations are, what a run hands out is one total order without gaps (`InTotalOrder`).
The proof rests on one fact about a single operation (`SequencerOp.outcome`): a batch id, a
placement sequence and a range of offsets are taken together or not at all, and the batch id, the
ring epoch and the leader epoch never go down (`Before`). A proposal records all three, so it can be
committed only where none of them has moved.
-/

namespace ShardStream

open TopicSequencer List

variable {post : List SequencerEvent} {e : SequencerEvent} {ops : List SequencerOp}
  {s : TopicSequencer}

/-- The operations on a sequencer. A commit may name any proposal, and `roundTrip` replaces the
sequencer by the one restored from its state. -/
inductive SequencerOp where
  | reserve (recordCount : NonZeroU32)
  | proposeReservation (recordCount : NonZeroU32) (admittedLeaderEpoch : Option Nat)
  | commitReservation (proposal : ReservationProposal)
  | reconfigure (ringEpoch : Nat) (lanes : List Nat)
  | observeLeaderEpoch (leaderEpoch : Nat)
  | roundTrip
  deriving DecidableEq

/-- The answer of an operation that succeeds. -/
inductive SequencerReply where
  | reserved (reservation : Reservation)
  | proposed (proposal : ReservationProposal)
  | done
  deriving DecidableEq

/-- An operation that replaces the sequencer when it succeeds. -/
def replaced {α : Type} (s : TopicSequencer) (reply : α → SequencerReply)
    (after : α → TopicSequencer) :
    Except SequencerError α → Except SequencerError SequencerReply × TopicSequencer
  | .error e => (.error e, s)
  | .ok a => (.ok (reply a), after a)

/-- Execute one operation: its answer and the sequencer afterwards. -/
def SequencerOp.run (s : TopicSequencer) :
    SequencerOp → Except SequencerError SequencerReply × TopicSequencer
  | .reserve recordCount => replaced s (fun x ↦ .reserved x.1) (·.2) (s.reserve recordCount)
  | .proposeReservation recordCount epoch =>
    replaced s .proposed (fun _ ↦ s) (s.proposeReservation recordCount epoch)
  | .commitReservation proposal =>
    replaced s (fun x ↦ .reserved x.1) (·.2) (s.commitReservation proposal)
  | .reconfigure ringEpoch lanes =>
    replaced s (fun _ ↦ .done) id (s.reconfigure ringEpoch lanes)
  | .observeLeaderEpoch leaderEpoch =>
    replaced s (fun _ ↦ .done) id (s.observeLeaderEpoch leaderEpoch)
  | .roundTrip => replaced s (fun _ ↦ .done) id (restore s.state)

/-- What happened in one operation of a run. -/
structure SequencerEvent where
  before : TopicSequencer
  op : SequencerOp
  reply : Except SequencerError SequencerReply
  after : TopicSequencer

/-- The reservation an event handed out. -/
def SequencerEvent.granted (e : SequencerEvent) : Option Reservation :=
  match e.reply with
  | .ok (.reserved reservation) => some reservation
  | _ => none

/-- A reservation, a reconfiguration or an epoch change happened. -/
def SequencerEvent.Changes (e : SequencerEvent) : Prop :=
  e.granted.isSome = true ∨
    (∃ ringEpoch lanes, e.op = .reconfigure ringEpoch lanes ∧ e.reply = .ok .done) ∨
    e.after.leaderEpoch ≠ e.before.leaderEpoch

namespace TopicSequencer

/-- The sequencer after a run. -/
def afterRun (s : TopicSequencer) (ops : List SequencerOp) : TopicSequencer :=
  ops.foldl (fun s op ↦ (op.run s).2) s

/-- What happens in a run, oldest first. -/
def trace (s : TopicSequencer) : List SequencerOp → List SequencerEvent
  | [] => []
  | op :: ops => ⟨s, op, (op.run s).1, (op.run s).2⟩ :: trace (op.run s).2 ops

/-- The reservations a run hands out, oldest first. -/
def handedOut (s : TopicSequencer) (ops : List SequencerOp) : List Reservation :=
  (s.trace ops).filterMap (·.granted)

end TopicSequencer

/-- The ranges of the reservations lie end to end from `start` to `stop`, each with as many offsets
as its batch has records. -/
def Tiles (start : Nat) : List Reservation → Nat → Prop
  | [], stop => start = stop
  | r :: rs, stop => r.firstOffset = start ∧ nextOffset r = start + r.recordCount.get ∧
      Tiles (nextOffset r) rs stop

/-! ### One operation -/

/-- What an operation can do. -/
inductive SequencerOutcome (s : TopicSequencer) (op : SequencerOp) :
    Except SequencerError SequencerReply × TopicSequencer → Prop
  | refused {e : SequencerError} : SequencerOutcome s op (.error e, s)
  /-- The next coordinates are handed out; a commit was for exactly these. -/
  | granted {count : NonZeroU32} {epoch : Nat} (hepoch : s.leaderEpoch ≤ epoch)
      (hcommit : ∀ p, op = .commitReservation p →
        p = ⟨s.nextReservation count epoch, s.leaderEpoch⟩)
      (hop : ∀ ringEpoch lanes, op ≠ .reconfigure ringEpoch lanes) :
      SequencerOutcome s op
        (.ok (.reserved (s.nextReservation count epoch)), s.advanced count epoch)
  | proposed {count : NonZeroU32} {epoch : Nat} :
      SequencerOutcome s op (.ok (.proposed ⟨s.nextReservation count epoch, s.leaderEpoch⟩), s)
  | reconfigured {ringEpoch : Nat} {ring : PlacementRing} (hepoch : s.ringEpoch < ringEpoch) :
      SequencerOutcome s op (.ok .done, { s with ringEpoch, virtualLanes := ring })
  | observed {epoch : Nat} (hepoch : s.leaderEpoch ≤ epoch)
      (hop : ∀ ringEpoch lanes, op ≠ .reconfigure ringEpoch lanes) :
      SequencerOutcome s op (.ok .done, { s with leaderEpoch := epoch })

/-- **Every operation has one of the outcomes.** -/
theorem SequencerOp.outcome (s : TopicSequencer) (op : SequencerOp) :
    SequencerOutcome s op (op.run s) := by
  cases op with
  | reserve count =>
    simp only [SequencerOp.run]
    cases h : s.reserve count with
    | error e => exact .refused
    | ok x =>
      obtain ⟨-, -, -, hr, hs⟩ := reserve_eq_ok_iff.1 h
      simp only [replaced, hr, hs]
      exact .granted le_rfl (fun p hp ↦ by cases hp) fun _ _ hp ↦ by cases hp
  | proposeReservation count epoch =>
    simp only [SequencerOp.run]
    cases h : s.proposeReservation count epoch with
    | error e => exact .refused
    | ok p =>
      obtain ⟨-, -, -, -, rfl⟩ := proposeReservation_eq_ok_iff.1 h
      exact .proposed
  | commitReservation p =>
    simp only [SequencerOp.run]
    cases h : s.commitReservation p with
    | error e => exact .refused
    | ok x =>
      obtain ⟨hp, hr, hs⟩ := commitReservation_eq_ok_iff.1 h
      obtain ⟨hepoch, -, -, -, heq⟩ := proposeReservation_eq_ok_iff.1 hp
      simp only [replaced, hr, hs]
      rw [show p.reservation = s.nextReservation p.reservation.recordCount
        p.reservation.placement.leaderEpoch from congrArg (·.reservation) heq]
      refine .granted hepoch (fun q hq ↦ ?_) fun _ _ hq ↦ by cases hq
      cases hq
      exact heq
  | reconfigure ringEpoch lanes =>
    simp only [SequencerOp.run]
    cases h : s.reconfigure ringEpoch lanes with
    | error e => exact .refused
    | ok s' =>
      obtain ⟨hepoch, ring, -, rfl⟩ := reconfigure_eq_ok_iff.1 h
      exact .reconfigured hepoch
  | observeLeaderEpoch epoch =>
    simp only [SequencerOp.run]
    cases h : s.observeLeaderEpoch epoch with
    | error e => exact .refused
    | ok s' =>
      obtain ⟨hepoch, rfl⟩ := observeLeaderEpoch_eq_ok_iff.1 h
      exact .observed hepoch fun _ _ hq ↦ by cases hq
  | roundTrip =>
    simp only [SequencerOp.run, restore_state]
    exact .observed le_rfl fun _ _ hq ↦ by cases hq

namespace TopicSequencer

/-- The first sequencer is not ahead of the second in any of the numbers a proposal records. -/
structure Before (s s' : TopicSequencer) : Prop where
  nextBatchId : s.nextBatchId ≤ s'.nextBatchId
  ringEpoch : s.ringEpoch ≤ s'.ringEpoch
  leaderEpoch : s.leaderEpoch ≤ s'.leaderEpoch

theorem Before.refl (s : TopicSequencer) : s.Before s := ⟨le_rfl, le_rfl, le_rfl⟩

theorem Before.trans {s' s'' : TopicSequencer} (h : s.Before s') (h' : s'.Before s'') :
    s.Before s'' :=
  ⟨h.nextBatchId.trans h'.nextBatchId, h.ringEpoch.trans h'.ringEpoch,
    h.leaderEpoch.trans h'.leaderEpoch⟩

theorem before_run (s : TopicSequencer) (op : SequencerOp) : s.Before (op.run s).2 := by
  have h := op.outcome s
  generalize op.run s = result at h
  cases h with
  | refused => exact .refl s
  | granted hepoch => exact ⟨Nat.le_succ _, le_rfl, hepoch⟩
  | proposed => exact .refl s
  | reconfigured hepoch => exact ⟨le_rfl, hepoch.le, le_rfl⟩
  | observed hepoch => exact ⟨le_rfl, le_rfl, hepoch⟩

theorem before_afterRun : ∀ (ops : List SequencerOp) (s : TopicSequencer), s.Before (s.afterRun ops)
  | [], s => .refl s
  | op :: ops, s => (before_run s op).trans (before_afterRun ops (op.run s).2)

/-! ### Splitting a trace -/

theorem trace_append (ops₂ : List SequencerOp) : ∀ (ops₁ : List SequencerOp) (s : TopicSequencer),
    s.trace (ops₁ ++ ops₂) = s.trace ops₁ ++ (s.afterRun ops₁).trace ops₂
  | [], _ => rfl
  | op :: ops₁, s => congrArg (_ :: ·) (trace_append ops₂ ops₁ (op.run s).2)

@[simp] theorem length_trace : ∀ (ops : List SequencerOp) (s : TopicSequencer),
    (s.trace ops).length = ops.length
  | [], _ => rfl
  | op :: ops, s => congrArg (· + 1) (length_trace ops (op.run s).2)

/-- A part of a trace is a trace. -/
theorem trace_eq_append {pre : List SequencerEvent} (h : s.trace ops = pre ++ post) :
    pre = s.trace (ops.take pre.length) ∧
      post = (s.afterRun (ops.take pre.length)).trace (ops.drop pre.length) := by
  have hsplit := trace_append (ops.drop pre.length) (ops.take pre.length) s
  rw [take_append_drop, h] at hsplit
  have hlen : pre.length ≤ ops.length := by
    have := congrArg length h
    rw [length_trace, length_append] at this
    omega
  refine append_inj hsplit ?_
  rw [length_trace, length_take, Nat.min_eq_left hlen]

/-- The state before the first event of a trace is the state the trace starts in. -/
theorem trace_eq_cons {rest : List SequencerEvent} (h : s.trace ops = e :: rest) :
    ∃ ops', e.before = s ∧ e.reply = (e.op.run s).1 ∧ e.after = (e.op.run s).2 ∧
      rest = e.after.trace ops' := by
  cases ops with
  | nil => cases h
  | cons op ops =>
    cases h
    exact ⟨ops, rfl, rfl, rfl, rfl⟩

/-- Every event is an operation on the state before it, and its states lie between the ends of the
run. -/
theorem mem_trace : ∀ {ops : List SequencerOp} {s : TopicSequencer} {e : SequencerEvent},
    e ∈ s.trace ops → e.op.run e.before = (e.reply, e.after) ∧ s.Before e.before ∧
      e.after.Before (s.afterRun ops)
  | op :: ops, s, e, h => by
    rcases mem_cons.1 h with rfl | h
    · exact ⟨rfl, .refl s, before_afterRun ops (op.run s).2⟩
    · obtain ⟨hrun, hbefore, hafter⟩ := mem_trace h
      exact ⟨hrun, (before_run s op).trans hbefore, hafter⟩

/-! ### The total order -/

/-- **A gap-free total order.** What holds of the events of a run that starts in `s` and ends in
`s'`. -/
structure InTotalOrder (s : TopicSequencer) (events : List SequencerEvent) (s' : TopicSequencer) :
    Prop where
  /-- Batch ids increase by one. -/
  batchIds : (events.filterMap (·.granted)).map (·.batchId) =
    range' s.nextBatchId (events.filterMap (·.granted)).length
  /-- Placement sequences increase by one. -/
  sequences : (events.filterMap (·.granted)).map (·.placement.sequence) =
    range' s.nextPlacementSequence (events.filterMap (·.granted)).length
  /-- The offset ranges tile an interval. -/
  offsets : Tiles s.nextOffset (events.filterMap (·.granted)) s'.nextOffset
  /-- Each lane is the one of the ring in force. -/
  lane : ∀ e ∈ events, ∀ r, e.granted = some r →
    r.placement.ringEpoch = e.before.ringEpoch ∧
      e.before.virtualLanes.lanes[r.placement.sequence % e.before.virtualLanes.lanes.length]? =
        some r.placement.virtualLaneId
  /-- Epochs never decrease. -/
  epochs : (events.map (·.before) ++ [s']).Pairwise fun a b ↦
    a.ringEpoch ≤ b.ringEpoch ∧ a.leaderEpoch ≤ b.leaderEpoch
  /-- A proposal is committed only if nothing changed since it was made. -/
  commits : ∀ pre made between committed post p r,
    events = pre ++ made :: (between ++ committed :: post) → made.reply = .ok (.proposed p) →
      committed.op = .commitReservation p → committed.reply = .ok (.reserved r) →
      ∀ e ∈ between, ¬ e.Changes
  /-- A refusal changes nothing. -/
  refusals : ∀ e ∈ events, ∀ error, e.reply = .error error → e.after = e.before

section Trace

variable {r : Reservation} {p : ReservationProposal}

/-- What is handed out continues where the sequencer stands. -/
theorem handedOut_spec : ∀ (ops : List SequencerOp) (s : TopicSequencer),
    (s.handedOut ops).map (·.batchId) = range' s.nextBatchId (s.handedOut ops).length ∧
      (s.handedOut ops).map (·.placement.sequence) =
        range' s.nextPlacementSequence (s.handedOut ops).length ∧
      Tiles s.nextOffset (s.handedOut ops) (s.afterRun ops).nextOffset
  | [], s => ⟨rfl, rfl, rfl⟩
  | op :: ops, s => by
    obtain ⟨hids, hsequences, htiles⟩ := handedOut_spec ops (op.run s).2
    have hcons : s.handedOut (op :: ops) =
        ((⟨s, op, (op.run s).1, (op.run s).2⟩ : SequencerEvent).granted.toList) ++
          (op.run s).2.handedOut ops := by
      simp only [handedOut, trace, filterMap_cons]
      split <;> simp [*]
    rw [hcons]
    change _ ∧ _ ∧ Tiles _ _ ((op.run s).2.afterRun ops).nextOffset
    have houtcome := op.outcome s
    generalize op.run s = result at houtcome hids hsequences htiles
    cases houtcome with
    | refused | proposed | reconfigured | observed => exact ⟨hids, hsequences, htiles⟩
    | @granted count epoch =>
      have hpos := count.pos
      have hnext : ShardStream.nextOffset (s.nextReservation count epoch) =
          s.nextOffset + count.get := by
        simp only [ShardStream.nextOffset, nextReservation]
        omega
      simp only [SequencerEvent.granted, Option.toList_some, singleton_append, map_cons,
        length_cons, range'_succ, hids, hsequences]
      exact ⟨rfl, rfl, rfl, hnext, hnext ▸ htiles⟩

/-- What an event hands out is on the lane of the ring it met. -/
theorem lane_of_granted (hrun : e.op.run e.before = (e.reply, e.after)) (hr : e.granted = some r) :
    r.placement.ringEpoch = e.before.ringEpoch ∧
      e.before.virtualLanes.lanes[r.placement.sequence % e.before.virtualLanes.lanes.length]? =
        some r.placement.virtualLaneId := by
  obtain ⟨s, op, reply, after⟩ := e
  have houtcome := op.outcome s
  simp only at hrun
  rw [hrun] at houtcome
  cases houtcome with
  | refused | proposed | reconfigured | observed => cases hr
  | granted =>
    cases hr
    refine ⟨rfl, ?_⟩
    change s.virtualLanes.lanes[s.nextPlacementSequence % _]? =
      some (s.virtualLanes.lane s.nextPlacementSequence)
    rw [PlacementRing.lane, get_eq_getElem, getElem?_eq_getElem]

/-- The states of a run are in order. -/
theorem pairwise_before : ∀ (ops : List SequencerOp) (s : TopicSequencer),
    ((s.trace ops).map (·.before) ++ [s.afterRun ops]).Pairwise Before
  | [], s => pairwise_singleton ..
  | op :: ops, s => by
    refine pairwise_cons.2 ⟨fun s' hs' ↦ ?_, pairwise_before ops (op.run s).2⟩
    have hstep := before_run s op
    rcases mem_append.1 hs' with hs' | hs'
    · obtain ⟨e, he, rfl⟩ := mem_map.1 hs'
      exact hstep.trans (mem_trace he).2.1
    · rw [mem_singleton.1 hs']
      exact before_afterRun (op :: ops) s

/-- An event that changes something moves one of the numbers a proposal records. -/
theorem not_before_of_changes (hrun : e.op.run e.before = (e.reply, e.after)) (h : e.Changes) :
    ¬ e.after.Before e.before := by
  obtain ⟨s, op, reply, after⟩ := e
  have houtcome := op.outcome s
  simp only at hrun
  rw [hrun] at houtcome
  intro hback
  cases houtcome with
  | refused =>
    rcases h with h | ⟨_, _, -, h⟩ | h
    · cases h
    · cases h
    · exact h rfl
  | granted => exact absurd hback.nextBatchId (Nat.not_succ_le_self _)
  | proposed =>
    rcases h with h | ⟨_, _, -, h⟩ | h
    · cases h
    · cases h
    · exact h rfl
  | reconfigured hepoch => exact absurd hback.ringEpoch (Nat.not_le.2 hepoch)
  | observed hepoch hop =>
    rcases h with h | ⟨ringEpoch, lanes, h, -⟩ | h
    · cases h
    · exact hop ringEpoch lanes h
    · exact h (le_antisymm hback.leaderEpoch hepoch)

/-- The state a proposal was made in. -/
theorem proposal_of_reply {op : SequencerOp} (h : (op.run s).1 = .ok (.proposed p)) :
    p.reservation.batchId = s.nextBatchId ∧ p.reservation.placement.ringEpoch = s.ringEpoch ∧
      p.previousLeaderEpoch = s.leaderEpoch := by
  have houtcome := op.outcome s
  generalize op.run s = result at h houtcome
  cases houtcome with
  | proposed =>
    cases h
    exact ⟨rfl, rfl, rfl⟩
  | refused | granted | reconfigured | observed => cases h

/-- The state a proposal is committed in. -/
theorem proposal_of_commit (h : ((SequencerOp.commitReservation p).run s).1 = .ok (.reserved r)) :
    p.reservation.batchId = s.nextBatchId ∧ p.reservation.placement.ringEpoch = s.ringEpoch ∧
      p.previousLeaderEpoch = s.leaderEpoch := by
  have houtcome := (SequencerOp.commitReservation p).outcome s
  generalize (SequencerOp.commitReservation p).run s = result at h houtcome
  cases houtcome with
  | granted hepoch hcommit =>
    rw [hcommit p rfl]
    exact ⟨rfl, rfl, rfl⟩
  | refused | proposed | reconfigured | observed => cases h

/-- Nothing changes between a proposal and its commit. -/
theorem unchanged_between {made committed : SequencerEvent} {between : List SequencerEvent}
    (h : s.trace ops = made :: (between ++ committed :: post))
    (hmade : made.reply = .ok (.proposed p)) (hop : committed.op = .commitReservation p)
    (hcommitted : committed.reply = .ok (.reserved r)) : ∀ e ∈ between, ¬ e.Changes := by
  obtain ⟨ops', hbefore, hreply, hafter, hrest⟩ := trace_eq_cons h
  obtain ⟨hbetween, hlast⟩ := trace_eq_append hrest.symm
  obtain ⟨-, hbefore', hreply', hafter', -⟩ := trace_eq_cons hlast.symm
  -- the two states agree on all three numbers, and those of an event between them lie between them
  obtain ⟨hid, hring, hepoch⟩ := proposal_of_reply (hreply.symm.trans hmade)
  rw [hcommitted, hop] at hreply'
  obtain ⟨hid', hring', hepoch'⟩ := proposal_of_commit hreply'.symm
  intro e he hchanges
  rw [hbetween] at he
  obtain ⟨hrun, hfrom, hto⟩ := mem_trace he
  refine not_before_of_changes hrun hchanges ?_
  have hfrom := (hafter ▸ before_run s made.op).trans hfrom
  exact ⟨hto.nextBatchId.trans (by rw [← hid', hid]; exact hfrom.nextBatchId),
    hto.ringEpoch.trans (by rw [← hring', hring]; exact hfrom.ringEpoch),
    hto.leaderEpoch.trans (by rw [← hepoch', hepoch]; exact hfrom.leaderEpoch)⟩

end Trace

/-- **The sequencer hands out a gap-free total order**, whatever it is asked to do and in whatever
order. -/
theorem trace_inTotalOrder (s : TopicSequencer) (ops : List SequencerOp) :
    s.InTotalOrder (s.trace ops) (s.afterRun ops) where
  batchIds := (handedOut_spec ops s).1
  sequences := (handedOut_spec ops s).2.1
  offsets := (handedOut_spec ops s).2.2
  lane _ he _ hr := lane_of_granted (mem_trace he).1 hr
  epochs := (pairwise_before ops s).imp fun h ↦ ⟨h.ringEpoch, h.leaderEpoch⟩
  commits pre made between committed post p r h hmade hop hcommitted :=
    unchanged_between (trace_eq_append h).2.symm hmade hop hcommitted
  refusals e he error herror := by
    obtain ⟨hrun, -⟩ := mem_trace he
    obtain ⟨s, op, reply, after⟩ := e
    have houtcome := op.outcome s
    simp only at hrun
    rw [hrun] at houtcome
    cases houtcome with
    | refused => rfl
    | granted | proposed | reconfigured | observed => cases herror

end TopicSequencer

end ShardStream
