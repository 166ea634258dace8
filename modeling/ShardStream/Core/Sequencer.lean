import Mathlib.Data.List.Nodup
import Mathlib.Tactic

/-!
# The partition sequencer

Every append batch of a partition gets its coordinates from one `TopicSequencer`: a batch id, a
range of logical offsets, and a place in the ring of lanes given by the placement sequence. Machine
integers are natural numbers here; each `checked_add` of the source is the comparison with the bound
of its type, made at the same point and with the same error.

Proposing is pure. Committing recomputes the proposal and refuses it unless nothing changed, so a
committed proposal is exactly `nextReservation` of the current state
(`proposeReservation_eq_ok_iff`, `commitReservation_eq_ok_iff`).
-/

namespace ShardStream

variable {lanes : List Nat} {ringEpoch : Nat} {epoch : Option Nat} {r : Reservation}

/-- A `NonZeroU32`: zero and values beyond 32 bits cannot be built. -/
structure NonZeroU32 where
  /-- The number itself. -/
  get : Nat
  /-- It is not zero. -/
  pos : 0 < get
  /-- It fits in 32 bits. -/
  lt : get < 2 ^ 32
  deriving DecidableEq

/-- A single record. -/
def NonZeroU32.one : NonZeroU32 := ⟨1, by decide, by decide⟩

/-- A logical partition of a topic. -/
structure TopicPartition where
  topicId : Nat
  partitionId : Nat
  deriving DecidableEq

instance instLawfulBEqBatchKey : LawfulBEq (TopicPartition × Nat) := inferInstance

/-- Where a batch is placed: the lane of the ring, the two epochs and the placement sequence. -/
structure Placement where
  virtualLaneId : Nat
  ringEpoch : Nat
  leaderEpoch : Nat
  sequence : Nat
  deriving DecidableEq

/-- The coordinates of one batch. -/
structure Reservation where
  topicId : Nat
  partitionId : Nat
  batchId : Nat
  firstOffset : Nat
  lastOffset : Nat
  recordCount : NonZeroU32
  placement : Placement
  deriving DecidableEq

/-- The partition a reservation belongs to. -/
def Reservation.topicPartition (r : Reservation) : TopicPartition := ⟨r.topicId, r.partitionId⟩

/-- `next_offset`: the offset right after the batch. -/
def nextOffset (r : Reservation) : Nat := r.lastOffset + 1

/-- The offset range has as many offsets as the batch has records. -/
def Reservation.Counted (r : Reservation) : Prop := nextOffset r = r.firstOffset + r.recordCount.get

/-- `SequencerError`. -/
inductive SequencerError where
  | emptyRing
  | duplicateLane (lane : Nat)
  | staleRingEpoch (current proposed : Nat)
  | staleLeaderEpoch (current proposed : Nat)
  | offsetSpaceExhausted
  | batchIdSpaceExhausted
  | placementSequenceSpaceExhausted
  | reservationProposalChanged
  deriving DecidableEq

/-! ### Placement rings -/

/-- The first element of the list that was seen before, if any. -/
def firstRepeat (seen : List Nat) : List Nat → Option Nat
  | [] => none
  | lane :: lanes => if lane ∈ seen then some lane else firstRepeat (lane :: seen) lanes

theorem firstRepeat_eq_none_iff : ∀ {seen : List Nat}, firstRepeat seen lanes = none ↔
      lanes.Nodup ∧ ∀ lane ∈ lanes, lane ∉ seen := by
  induction lanes with
  | nil => simp [firstRepeat]
  | cons lane lanes ih =>
    intro seen
    simp only [firstRepeat]
    split
    · simp_all
    · rw [ih]
      simp only [List.nodup_cons, List.mem_cons, not_or, forall_eq_or_imp]
      constructor
      · rintro ⟨hnd, hseen⟩
        exact ⟨⟨fun h ↦ (hseen lane h).1 rfl, hnd⟩, ‹_›, fun x hx ↦ (hseen x hx).2⟩
      · rintro ⟨⟨hmem, hnd⟩, -, hseen⟩
        exact ⟨hnd, fun x hx ↦ ⟨fun h ↦ hmem (h ▸ hx), hseen x hx⟩⟩

/-- A placement ring that passed `validate_virtual_lanes`: some lane, and no lane twice. -/
@[ext] structure PlacementRing where
  /-- The lanes, in ring order. -/
  lanes : List Nat
  nonempty : lanes ≠ []
  nodup : lanes.Nodup
  deriving DecidableEq

/-- A ring of one lane. -/
def oneShardRing : PlacementRing := ⟨[0], by decide, by decide⟩

/-- `validate_virtual_lanes`. -/
def validateVirtualLanes (lanes : List Nat) : Except SequencerError PlacementRing :=
  if hne : lanes = [] then .error .emptyRing
  else
    match hrep : firstRepeat [] lanes with
    | some lane => .error (.duplicateLane lane)
    | none => .ok ⟨lanes, hne, (firstRepeat_eq_none_iff.1 hrep).1⟩

theorem validateVirtualLanes_eq_ok_iff {ring : PlacementRing} :
    validateVirtualLanes lanes = .ok ring ↔ ring.lanes = lanes := by
  unfold validateVirtualLanes
  constructor
  · intro h
    split_ifs at h with hne
    split at h
    · cases h
    · cases h
      rfl
  · rintro rfl
    rw [dif_neg ring.nonempty]
    have hnone : firstRepeat [] ring.lanes = none := firstRepeat_eq_none_iff.2 ⟨ring.nodup, by simp⟩
    split
    · simp_all
    · rfl

theorem PlacementRing.length_pos (ring : PlacementRing) : 0 < ring.lanes.length :=
  List.length_pos_iff.2 ring.nonempty

/-- The lane that a placement sequence falls on: round robin over the ring. -/
def PlacementRing.lane (ring : PlacementRing) (sequence : Nat) : Nat :=
  ring.lanes.get ⟨sequence % ring.lanes.length, Nat.mod_lt _ ring.length_pos⟩

/-! ### The sequencer -/

/-- `TopicSequencer`. Its ring is valid in every state, since every constructor of the source
validates the lanes. -/
structure TopicSequencer where
  topicId : Nat
  partitionId : Nat
  ringEpoch : Nat
  leaderEpoch : Nat
  virtualLanes : PlacementRing
  nextBatchId : Nat
  nextOffset : Nat
  nextPlacementSequence : Nat
  deriving DecidableEq

/-- `SequencerState`: the same fields with a ring that nobody has validated. -/
structure SequencerState where
  topicId : Nat
  partitionId : Nat
  ringEpoch : Nat
  leaderEpoch : Nat
  virtualLanes : List Nat
  nextBatchId : Nat
  nextOffset : Nat
  nextPlacementSequence : Nat
  deriving DecidableEq

/-- `ReservationProposal`: prospective coordinates and the leader epoch they would replace. -/
structure ReservationProposal where
  reservation : Reservation
  previousLeaderEpoch : Nat
  deriving DecidableEq

namespace TopicSequencer

/-- `TopicSequencer::new`. -/
def new (tp : TopicPartition) (ringEpoch : Nat) (lanes : List Nat) :
    Except SequencerError TopicSequencer :=
  match validateVirtualLanes lanes with
  | .error e => .error e
  | .ok ring => .ok
      { topicId := tp.topicId, partitionId := tp.partitionId, ringEpoch, leaderEpoch := 0,
        virtualLanes := ring, nextBatchId := 0, nextOffset := 0, nextPlacementSequence := 0 }

/-- `TopicSequencer::restore`. -/
def restore (state : SequencerState) : Except SequencerError TopicSequencer :=
  match validateVirtualLanes state.virtualLanes with
  | .error e => .error e
  | .ok ring => .ok { state with virtualLanes := ring }

variable (s : TopicSequencer)

/-- `TopicSequencer::state`. -/
def state : SequencerState := { s with virtualLanes := s.virtualLanes.lanes }

theorem restore_state : restore s.state = .ok s := by
  have h : validateVirtualLanes s.state.virtualLanes = .ok s.virtualLanes :=
    validateVirtualLanes_eq_ok_iff.2 rfl
  unfold restore
  rw [h]
  rfl

/-- The partition the sequencer serves. -/
def topicPartition : TopicPartition := ⟨s.topicId, s.partitionId⟩

section

variable (recordCount : NonZeroU32)

/-- The coordinates the sequencer gives out next. -/
def nextReservation (leaderEpoch : Nat) : Reservation :=
  { topicId := s.topicId
    partitionId := s.partitionId
    batchId := s.nextBatchId
    firstOffset := s.nextOffset
    lastOffset := s.nextOffset + (recordCount.get - 1)
    recordCount
    placement :=
      { virtualLaneId := s.virtualLanes.lane s.nextPlacementSequence
        ringEpoch := s.ringEpoch
        leaderEpoch
        sequence := s.nextPlacementSequence } }

/-- `propose_reservation`. -/
def proposeReservation
    (admittedLeaderEpoch : Option Nat) : Except SequencerError ReservationProposal :=
  let leaderEpoch := admittedLeaderEpoch.getD s.leaderEpoch
  if leaderEpoch < s.leaderEpoch then .error (.staleLeaderEpoch s.leaderEpoch leaderEpoch)
  else if ¬ s.nextOffset + (recordCount.get - 1) < 2 ^ 64 then .error .offsetSpaceExhausted
  else if ¬ s.nextOffset + recordCount.get < 2 ^ 64 then .error .offsetSpaceExhausted
  else if ¬ s.nextBatchId + 1 < 2 ^ 128 then .error .batchIdSpaceExhausted
  else if ¬ s.nextPlacementSequence + 1 < 2 ^ 64 then .error .placementSequenceSpaceExhausted
  else .ok ⟨s.nextReservation recordCount leaderEpoch, s.leaderEpoch⟩

/-- The sequencer after giving out `recordCount` offsets under `leaderEpoch`. -/
def advanced (leaderEpoch : Nat) : TopicSequencer :=
  { s with
    leaderEpoch
    nextOffset := s.nextOffset + recordCount.get
    nextBatchId := s.nextBatchId + 1
    nextPlacementSequence := s.nextPlacementSequence + 1 }

/-- `commit_reservation`: allocates only if the proposal is still what would be proposed. -/
def commitReservation (proposal : ReservationProposal) :
    Except SequencerError (Reservation × TopicSequencer) :=
  let recordCount := proposal.reservation.recordCount
  let leaderEpoch := proposal.reservation.placement.leaderEpoch
  match s.proposeReservation recordCount (some leaderEpoch) with
  | .error _ => .error .reservationProposalChanged
  | .ok current =>
    if current ≠ proposal then .error .reservationProposalChanged
    else if ¬ s.nextOffset + recordCount.get < 2 ^ 64 then .error .offsetSpaceExhausted
    else if ¬ s.nextBatchId + 1 < 2 ^ 128 then .error .batchIdSpaceExhausted
    else if ¬ s.nextPlacementSequence + 1 < 2 ^ 64 then .error .placementSequenceSpaceExhausted
    else .ok (proposal.reservation, s.advanced recordCount leaderEpoch)

/-- `reserve`: propose under the current epoch and commit. -/
def reserve : Except SequencerError (Reservation × TopicSequencer) :=
  match s.proposeReservation recordCount none with
  | .error e => .error e
  | .ok proposal => s.commitReservation proposal

end

/-- `reconfigure`: install a new ring under a larger ring epoch. -/
def reconfigure (ringEpoch : Nat) (lanes : List Nat) : Except SequencerError TopicSequencer :=
  if ringEpoch ≤ s.ringEpoch then .error (.staleRingEpoch s.ringEpoch ringEpoch)
  else
    match validateVirtualLanes lanes with
    | .error e => .error e
    | .ok ring => .ok { s with ringEpoch, virtualLanes := ring }

/-- `observe_leader_epoch`. -/
def observeLeaderEpoch (leaderEpoch : Nat) : Except SequencerError TopicSequencer :=
  if leaderEpoch < s.leaderEpoch then .error (.staleLeaderEpoch s.leaderEpoch leaderEpoch)
  else .ok { s with leaderEpoch }

/-! ### What each operation can do -/

variable {s s' : TopicSequencer} {count : NonZeroU32} {p : ReservationProposal}

theorem new_eq_ok_iff {tp : TopicPartition} :
    new tp ringEpoch lanes = .ok s ↔ s.virtualLanes.lanes = lanes ∧
      s = { topicId := tp.topicId, partitionId := tp.partitionId, ringEpoch, leaderEpoch := 0,
            virtualLanes := s.virtualLanes, nextBatchId := 0, nextOffset := 0,
            nextPlacementSequence := 0 } := by
  unfold new
  constructor
  · intro h
    split at h
    · cases h
    · cases h
      exact ⟨validateVirtualLanes_eq_ok_iff.1 ‹_›, rfl⟩
  · rintro ⟨hl, hs⟩
    rw [validateVirtualLanes_eq_ok_iff.2 hl]
    exact congrArg Except.ok hs.symm

/-- **Proposals.** A proposal succeeds exactly when the epoch is not stale and all three counters
have room, and then it is the sequencer's next reservation. -/
theorem proposeReservation_eq_ok_iff : s.proposeReservation count epoch = .ok p ↔
      s.leaderEpoch ≤ epoch.getD s.leaderEpoch ∧ s.nextOffset + count.get < 2 ^ 64 ∧
        s.nextBatchId + 1 < 2 ^ 128 ∧ s.nextPlacementSequence + 1 < 2 ^ 64 ∧
        p = ⟨s.nextReservation count (epoch.getD s.leaderEpoch), s.leaderEpoch⟩ := by
  unfold proposeReservation
  constructor
  · intro h
    dsimp only at h
    split_ifs at h
    cases h
    exact ⟨by omega, by omega, by omega, by omega, rfl⟩
  · rintro ⟨h₁, h₂, h₃, h₄, rfl⟩
    rw [if_neg (by omega), if_neg (by omega), if_neg (by omega), if_neg (by omega),
      if_neg (by omega)]

/-- **Commits.** A commit succeeds exactly for the proposal the current state would make. -/
theorem commitReservation_eq_ok_iff : s.commitReservation p = .ok (r, s') ↔
      s.proposeReservation p.reservation.recordCount (some p.reservation.placement.leaderEpoch)
          = .ok p ∧
        r = p.reservation ∧
        s' = s.advanced p.reservation.recordCount p.reservation.placement.leaderEpoch := by
  unfold commitReservation
  constructor
  · intro h
    dsimp only at h
    split at h
    · cases h
    · next current hc =>
      split_ifs at h with h₁
      cases h
      rw [not_not] at h₁
      exact ⟨h₁ ▸ hc, rfl, rfl⟩
  · rintro ⟨hp, rfl, rfl⟩
    obtain ⟨-, h₂, h₃, h₄, -⟩ := proposeReservation_eq_ok_iff.1 hp
    simp only [hp]
    rw [if_neg (by simp), if_neg (not_not.2 h₂), if_neg (not_not.2 h₃), if_neg (not_not.2 h₄)]

/-- Committing a proposal in the state that made it succeeds. -/
theorem commitReservation_of_propose (h : s.proposeReservation count epoch = .ok p) :
    s.commitReservation p = .ok (s.nextReservation count (epoch.getD s.leaderEpoch),
        s.advanced count (epoch.getD s.leaderEpoch)) := by
  obtain ⟨h₁, h₂, h₃, h₄, rfl⟩ := proposeReservation_eq_ok_iff.1 h
  refine commitReservation_eq_ok_iff.2 ⟨?_, rfl, rfl⟩
  exact proposeReservation_eq_ok_iff.2 ⟨h₁, h₂, h₃, h₄, rfl⟩

theorem reserve_eq_ok_iff : s.reserve count = .ok (r, s') ↔
      s.nextOffset + count.get < 2 ^ 64 ∧ s.nextBatchId + 1 < 2 ^ 128 ∧
        s.nextPlacementSequence + 1 < 2 ^ 64 ∧ r = s.nextReservation count s.leaderEpoch ∧
        s' = s.advanced count s.leaderEpoch := by
  unfold reserve
  cases hp : s.proposeReservation count none with
  | error e =>
    simp only [reduceCtorEq, false_iff]
    rintro ⟨h₂, h₃, h₄, -⟩
    have hok : s.proposeReservation count none =
        .ok ⟨s.nextReservation count s.leaderEpoch, s.leaderEpoch⟩ :=
      proposeReservation_eq_ok_iff.2 ⟨le_rfl, h₂, h₃, h₄, rfl⟩
    rw [hp] at hok
    cases hok
  | ok p =>
    obtain ⟨-, h₂, h₃, h₄, -⟩ := proposeReservation_eq_ok_iff.1 hp
    simp only [commitReservation_of_propose hp, Except.ok.injEq, Prod.mk.injEq]
    exact ⟨fun ⟨h₅, h₆⟩ ↦ ⟨h₂, h₃, h₄, h₅.symm, h₆.symm⟩,
      fun ⟨_, _, _, h₅, h₆⟩ ↦ ⟨h₅.symm, h₆.symm⟩⟩

theorem reconfigure_eq_ok_iff : s.reconfigure ringEpoch lanes = .ok s' ↔
      s.ringEpoch < ringEpoch ∧
        ∃ ring : PlacementRing, ring.lanes = lanes ∧
          s' = { s with ringEpoch, virtualLanes := ring } := by
  unfold reconfigure
  split_ifs with h
  · simp only [false_iff]
    omega
  · rw [and_iff_right (by omega)]
    constructor
    · intro h
      split at h
      · cases h
      · cases h
        exact ⟨_, validateVirtualLanes_eq_ok_iff.1 ‹_›, rfl⟩
    · rintro ⟨ring, hl, rfl⟩
      rw [validateVirtualLanes_eq_ok_iff.2 hl]

theorem observeLeaderEpoch_eq_ok_iff {leaderEpoch : Nat} :
    s.observeLeaderEpoch leaderEpoch = .ok s' ↔
      s.leaderEpoch ≤ leaderEpoch ∧ s' = { s with leaderEpoch } := by
  unfold observeLeaderEpoch
  split_ifs with h
  · simp only [false_iff]
    omega
  · simp only [Except.ok.injEq]
    rw [and_iff_right (by omega)]
    exact eq_comm

end TopicSequencer

end ShardStream
