import ShardStream.Engine.Control
import ShardStream.Engine.Cursors

/-!
# Moves of the partition core

Everything a coordinator command does to the core of a partition is one of a few moves: the
sequencer's ring or epoch changes, a pending batch is appended, a pending batch is settled, a copy
count grows, an undecided group is decided, a prefix is dropped, the policy changes, the cursors
advance. `CoreMove` lists them with their guards. A replica retry, which turns an aborted batch back
to pending, is deliberately **not** a move: it is the one thing that takes readiness away
(`PartitionCore.reopened`).

Three facts are proved about every move: it keeps the layout, it keeps the cursors in place and
blocked, and on exact cursors it keeps exactness and never lowers a visible end. What a move does to
the cursors is one of three shapes (`CoreMove.Shape`).
-/

namespace ShardStream

open DenseOrderedMap BatchRuntime

variable {b : BatchRuntime} {batches : DenseOrderedMap BatchRuntime} {key : Nat}
  {f : BatchRuntime → BatchRuntime} {st : PartitionCore} {ready : BatchRuntime → Bool} {c : Cursor}

/-! ### Deciding a group's batches -/

section SetStatuses

variable (status : BatchStatus)

section

variable (m : DenseOrderedMap BatchRuntime)

@[simp] theorem firstKey_setStatuses (ids : List Nat) :
    (setStatuses m status ids).firstKey = m.firstKey := by
  induction ids generalizing m with
  | nil => rfl
  | cons id ids ih => rw [setStatuses, ih, firstKey_modify]

@[simp] theorem nextKey_setStatuses (ids : List Nat) :
    (setStatuses m status ids).nextKey = m.nextKey := by
  induction ids generalizing m with
  | nil => rfl
  | cons id ids ih => rw [setStatuses, ih, nextKey_modify]

theorem map_reservation_setStatuses (ids : List Nat) :
    (setStatuses m status ids).values.map (·.reservation) = m.values.map (·.reservation) := by
  induction ids generalizing m with
  | nil => rfl
  | cons id ids ih =>
    rw [setStatuses, ih]
    exact map_values_modify (g := fun b : BatchRuntime ↦ b.reservation)
      (f := fun b ↦ { b with status }) (fun _ ↦ rfl) m id

theorem get_setStatuses (ids : List Nat) (key : Nat) : (setStatuses m status ids).get key =
      if key ∈ ids then (m.get key).map (fun b ↦ { b with status }) else m.get key := by
  induction ids generalizing m with
  | nil => rfl
  | cons id ids ih =>
    rw [setStatuses, ih, get_modify]
    by_cases h₁ : key = id
    · subst h₁
      cases m.get key <;> simp
    · simp [h₁]

end

end SetStatuses

/-! ### Readiness -/

/-- What the three readiness tests have in common. -/
structure Gate (ready : BatchRuntime → Bool) : Prop where
  /-- A pending batch is never ready. -/
  pending : ∀ b, b.status = .pending → ready b = false
  /-- More copies do not take readiness away. -/
  copies : ∀ b b', b'.status = b.status → b.durableReplicas ≤ b'.durableReplicas →
    ready b = true → ready b' = true
  /-- Deciding an undecided batch does not take readiness away. -/
  decided : ∀ b s, b.status = .unresolved → s = .committed ∨ s = .aborted → ready b = true →
    ready { b with status := s } = true

theorem gate_settled : Gate settled where
  pending b h := by simp [settled, h]
  copies b b' h _ hb := by simpa [settled, h] using hb
  decided b s _ hs _ := by rcases hs with rfl | rfl <;> rfl

theorem gate_stable : Gate stable where
  pending b h := by simp [stable, h]
  copies b b' h _ hb := by simpa [stable, h] using hb
  decided b s hu _ hb := by simp [stable, hu] at hb

theorem gate_replicated (minIsr : Nat) : Gate (replicated minIsr) where
  pending b h := by simp [replicated, h]
  copies b b' h hle hb := by
    simp only [replicated, h, Bool.and_eq_true, Bool.or_eq_true, decide_eq_true_eq] at hb ⊢
    exact ⟨hb.1, hb.2.imp_right fun h ↦ h.trans hle⟩
  decided b s hu hs hb := by
    have hcopies : minIsr ≤ b.durableReplicas := by simpa [replicated, hu] using hb
    rcases hs with rfl | rfl <;> simp [replicated, hcopies]

/-- A batch the stable cursor passes, the contiguous cursor passes. -/
theorem BatchRuntime.settled_of_stable (h : b.stable = true) : b.settled = true := by
  simp only [stable, Bool.and_eq_true] at h
  exact h.1

namespace PartitionCore

section Batches

theorem Layout.modify (h : st.Layout) (hf : ∀ b, (f b).reservation = b.reservation) :
    ({ st with batches := st.batches.modify key f } : PartitionCore).Layout :=
  h.of_batches (firstKey_modify ..) (map_values_modify hf ..)

theorem InPlaces.of_batches (h : st.InPlaces) (hkey : batches.firstKey = st.batches.firstKey)
    (hres : batches.values.map (·.reservation) = st.reservations) :
    ({ st with batches } : PartitionCore).InPlaces :=
  ⟨h.contiguous.congr rfl hkey hres, h.stable.congr rfl hkey hres, h.replicated.congr rfl hkey hres⟩

theorem InPlaces.modify (h : st.InPlaces) (hf : ∀ b, (f b).reservation = b.reservation) :
    ({ st with batches := st.batches.modify key f } : PartitionCore).InPlaces :=
  h.of_batches (firstKey_modify ..) (map_values_modify hf ..)

end Batches

end PartitionCore

/-! ### The moves -/

open PartitionCore

/-- What a command can do to the core of a partition, replica retries aside. -/
inductive CoreMove : PartitionCore → PartitionCore → Prop
  /-- The ring, the ring epoch or the leader epoch of the sequencer changes. -/
  | sequencer {st : PartitionCore} {s : TopicSequencer}
      (htp : s.topicPartition = st.sequencer.topicPartition)
      (hid : s.nextBatchId = st.sequencer.nextBatchId)
      (hoff : s.nextOffset = st.sequencer.nextOffset)
      (hseq : s.nextPlacementSequence = st.sequencer.nextPlacementSequence) :
      CoreMove st { st with sequencer := s }
  /-- A pending batch with the sequencer's next coordinates is appended. -/
  | allocate {st : PartitionCore} {count : NonZeroU32} {epoch : Nat} {b : BatchRuntime}
      (hres : b.reservation = st.sequencer.nextReservation count epoch)
      (hstatus : b.status = .pending)
      (hoff : st.sequencer.nextOffset + count.get < 2 ^ 64)
      (hseq : st.sequencer.nextPlacementSequence + 1 < 2 ^ 64) :
      CoreMove st
        { st with sequencer := st.sequencer.advanced count epoch, batches := st.batches.snoc b }
  /-- The cursors advance. -/
  | advance {st : PartitionCore} : CoreMove st st.advance
  /-- A pending batch gets another status. -/
  | settle {st : PartitionCore} {key : Nat} {f : BatchRuntime → BatchRuntime}
      (hpending : ∀ b, st.batches.get key = some b → b.status = .pending)
      (hres : ∀ b, (f b).reservation = b.reservation) :
      CoreMove st ({ st with batches := st.batches.modify key f } : PartitionCore).advance
  /-- The copy count of a batch grows. -/
  | acknowledge {st : PartitionCore} {key : Nat} {f : BatchRuntime → BatchRuntime}
      (hres : ∀ b, (f b).reservation = b.reservation) (hstatus : ∀ b, (f b).status = b.status)
      (hcopies : ∀ b, b.durableReplicas ≤ (f b).durableReplicas) :
      CoreMove st ({ st with batches := st.batches.modify key f } : PartitionCore).advance
  /-- Fields of a batch change that no cursor reads. -/
  | relabel {st : PartitionCore} {key : Nat} {f : BatchRuntime → BatchRuntime}
      (hres : ∀ b, (f b).reservation = b.reservation) (hstatus : ∀ b, (f b).status = b.status)
      (hcopies : ∀ b, (f b).durableReplicas = b.durableReplicas) :
      CoreMove st { st with batches := st.batches.modify key f }
  /-- The undecided batches of a group are decided. -/
  | decide {st : PartitionCore} {ids : List Nat} {status : BatchStatus}
      (hunresolved : ∀ id ∈ ids, ∀ b, st.batches.get id = some b → b.status = .unresolved)
      (hstatus : status = .committed ∨ status = .aborted) :
      CoreMove st ({ st with batches := setStatuses st.batches status ids } : PartitionCore).advance
  /-- A prefix below the stable cursor is dropped. -/
  | drop {st : PartitionCore} {key : Nat} (hfirst : st.batches.firstKey ≤ key)
      (hstable : key ≤ st.stable.nextBatch) :
      CoreMove st ({ st with
          logStart := st.offsetAt key
          batches := st.batches.truncateBefore key } : PartitionCore).rewind.advance
  /-- A policy is installed under which everything stable is replicated. -/
  | policy {st : PartitionCore} {p : PartitionReplicationPolicy}
      (hready : ∀ key b, key < st.stable.nextBatch → st.batches.get key = some b →
        replicated p.minInSyncReplicas b = true) :
      CoreMove st ({ st with replicationPolicy := p } : PartitionCore).rewind.advance

/-- The invariant every command keeps: the batches are laid out and the cursors are blocked. -/
structure PartitionCore.Sound (st : PartitionCore) : Prop where
  layout : st.Layout
  cursors : st.Cursors

section Sound

variable {st' : PartitionCore}

theorem PartitionCore.Layout.sound_advance (h : st.Layout) (hc : st.InPlaces) :
    st.advance.Sound :=
  ⟨h.advance, cursors_advance h hc⟩

theorem PartitionCore.Layout.sound_rewind_advance (h : st.Layout) : st.rewind.advance.Sound :=
  ⟨h.rewind.advance, cursors_rewind_advance h⟩

/-- A pending batch pushed at the end does not move a blocked cursor. -/
theorem PartitionCore.CursorOk.allocate (hg : Gate ready) (h : st.CursorOk ready c)
    {s : TopicSequencer} (hb : b.status = .pending) :
    PartitionCore.CursorOk { st with sequencer := s, batches := st.batches.snoc b } ready c := by
  have hle := h.inPlace.le_nextKey
  refine ⟨⟨h.inPlace.firstKey_le, by simp; omega, ?_⟩, fun b' hb' ↦ ?_⟩
  · rw [h.inPlace.offset_eq]
    have hlen : c.nextBatch - st.batches.firstKey ≤
        (st.batches.values.map (·.reservation)).length := by
      rw [List.length_map]; unfold nextKey at hle; omega
    simp only [offsetAt, reservations, firstKey_snoc, values_snoc, List.map_append]
    rw [List.take_append_of_le_length hlen]
  · simp only [get_snoc] at hb'
    split at hb'
    · cases hb'
      exact hg.pending b hb
    · exact h.blocked b' hb'

theorem PartitionCore.Layout.policy (hl : st.Layout) (p : PartitionReplicationPolicy) :
    ({ st with replicationPolicy := p } : PartitionCore).Layout :=
  hl.congr rfl rfl rfl rfl rfl rfl rfl

/-- The batches that were there before are ready if they were. -/
def DenseOrderedMap.Readier (batches batches' : DenseOrderedMap BatchRuntime) : Prop :=
  ∀ key b', key < batches.nextKey → batches'.get key = some b' → ∃ b, batches.get key = some b ∧
    ∀ ready, Gate ready → ready b = true → ready b' = true

/-- **The shapes of a move**: the cursors stay, they advance, or they are rebuilt. -/
inductive CoreMove.Shape (st : PartitionCore) : PartitionCore → Prop
  | kept {sequencer : TopicSequencer} {batches : DenseOrderedMap BatchRuntime}
      (h : st.batches.Readier batches) : Shape st { st with sequencer, batches }
  | advanced {batches : DenseOrderedMap BatchRuntime} (h : st.batches.Readier batches)
      (hl : ({ st with batches } : PartitionCore).Layout)
      (hc : ({ st with batches } : PartitionCore).InPlaces) :
      Shape st ({ st with batches } : PartitionCore).advance
  | rebuilt {core : PartitionCore} (hl : core.Layout) : Shape st core.rewind.advance

theorem CoreMove.shape (hm : CoreMove st st') (h : st.Sound) : CoreMove.Shape st st' := by
  obtain ⟨hl, hc⟩ := h
  have hsame : st.batches.Readier st.batches := fun _ b _ hb ↦ ⟨b, hb, fun _ _ h ↦ h⟩
  have hmodify : ∀ {key f}, (∀ b, st.batches.get key = some b → ∀ ready, Gate ready →
      ready b = true → ready (f b) = true) → st.batches.Readier (st.batches.modify key f) := by
    intro key f hf j b' _ hb'
    rw [get_modify] at hb'
    split_ifs at hb' with hj
    · subst hj
      obtain ⟨b, hb, rfl⟩ := Option.map_eq_some_iff.1 hb'
      exact ⟨b, hb, hf b hb⟩
    · exact ⟨b', hb', fun _ _ h ↦ h⟩
  cases hm with
  | sequencer => exact .kept hsame
  | allocate =>
    refine .kept fun key b' hlt hb' ↦ ⟨b', ?_, fun _ _ h ↦ h⟩
    rwa [get_snoc, if_neg hlt.ne] at hb'
  | advance => exact .advanced hsame hl hc.inPlaces
  | settle hpending hres =>
    refine .advanced (hmodify fun b hb ready hg htrue ↦ ?_) (hl.modify hres)
      (hc.inPlaces.modify hres)
    rw [hg.pending b (hpending b hb)] at htrue
    cases htrue
  | acknowledge hres hstatus hcopies =>
    exact .advanced (hmodify fun b _ ready hg ↦ hg.copies b _ (hstatus b) (hcopies b))
      (hl.modify hres) (hc.inPlaces.modify hres)
  | relabel hres hstatus hcopies =>
    exact .kept (hmodify fun b _ ready hg ↦ hg.copies b _ (hstatus b) (hcopies b).ge)
  | @decide ids status hunresolved hstatus =>
    have hres := map_reservation_setStatuses
    refine .advanced (fun key b' _ hb' ↦ ?_) (hl.of_batches (firstKey_setStatuses ..) (hres ..))
      (hc.inPlaces.of_batches (firstKey_setStatuses ..) (hres ..))
    rw [get_setStatuses] at hb'
    split_ifs at hb' with hmem
    · obtain ⟨b, hb, rfl⟩ := Option.map_eq_some_iff.1 hb'
      exact ⟨b, hb, fun ready hg ↦ hg.decided b status (hunresolved key hmem b hb) hstatus⟩
    · exact ⟨b', hb', fun _ _ h ↦ h⟩
  | drop hfirst hstable =>
    exact .rebuilt (hl.dropBefore hfirst (hstable.trans hc.stable.inPlace.le_nextKey))
  | policy => exact .rebuilt (hl.policy _)

/-- **Every move is sound**: it keeps the layout and leaves all cursors in place and blocked. -/
theorem CoreMove.sound (hm : CoreMove st st') (h : st.Sound) : st'.Sound := by
  obtain ⟨hl, hc⟩ := h
  cases hm with
  | sequencer htp hid hoff hseq =>
    refine ⟨hl.congr htp hid hoff hseq rfl rfl rfl, ?_⟩
    exact ⟨⟨hc.contiguous.inPlace.congr rfl rfl rfl, hc.contiguous.blocked⟩,
      ⟨hc.stable.inPlace.congr rfl rfl rfl, hc.stable.blocked⟩,
      ⟨hc.replicated.inPlace.congr rfl rfl rfl, hc.replicated.blocked⟩⟩
  | allocate hres hstatus hoff hseq =>
    exact ⟨hl.allocate hres hoff hseq,
      ⟨hc.contiguous.allocate gate_settled hstatus, hc.stable.allocate gate_stable hstatus,
        hc.replicated.allocate (gate_replicated _) hstatus⟩⟩
  | advance => exact hl.sound_advance hc.inPlaces
  | settle _ hres | acknowledge hres =>
    exact (hl.modify hres).sound_advance (hc.inPlaces.modify hres)
  | @relabel key f hres hstatus hcopies =>
    refine ⟨hl.modify hres, ?_⟩
    -- readiness reads only the status and the copy count, both unchanged
    have hok : ∀ {ready c}, Gate ready → st.CursorOk ready c →
        ({ st with batches := st.batches.modify key f } : PartitionCore).CursorOk ready c := by
      intro ready c hg hc
      refine ⟨hc.inPlace.congr rfl (firstKey_modify ..)
        (map_values_modify hres ..), fun b' hb' ↦ ?_⟩
      simp only [get_modify] at hb'
      split at hb'
      · obtain ⟨b, hb, rfl⟩ : ∃ b, st.batches.get c.nextBatch = some b ∧ f b = b' := by
          simpa using hb'
        have hfalse := hc.blocked b hb
        by_contra hready
        rw [hg.copies (f b) b (hstatus b).symm (hcopies b).le (by simpa using hready)] at hfalse
        cases hfalse
      · exact hc.blocked b' hb'
    exact ⟨hok gate_settled hc.contiguous, hok gate_stable hc.stable,
      hok (gate_replicated _) hc.replicated⟩
  | decide =>
    have hres := map_reservation_setStatuses
    exact (hl.of_batches (firstKey_setStatuses ..) (hres ..)).sound_advance
      (hc.inPlaces.of_batches (firstKey_setStatuses ..) (hres ..))
  | drop hfirst hstable =>
    exact (hl.dropBefore hfirst (hstable.trans hc.stable.inPlace.le_nextKey)).sound_rewind_advance
  | policy => exact (hl.policy _).sound_rewind_advance

/-- The three ends that readers see did not go down. -/
structure PartitionCore.EndsLe (st st' : PartitionCore) : Prop where
  contiguous : st.contiguousLogEnd ≤ st'.contiguousLogEnd
  stable : st.lastStableOffset ≤ st'.lastStableOffset
  replicated : st.replicatedEnd ≤ st'.replicatedEnd

theorem PartitionCore.EndsLe.refl (st : PartitionCore) : st.EndsLe st := ⟨le_rfl, le_rfl, le_rfl⟩

theorem PartitionCore.EndsLe.trans {st'' : PartitionCore} (h : st.EndsLe st')
    (h' : st'.EndsLe st'') : st.EndsLe st'' :=
  ⟨h.contiguous.trans h'.contiguous, h.stable.trans h'.stable, h.replicated.trans h'.replicated⟩

theorem PartitionCore.endsLe_advance (h : st.Layout) (hc : st.InPlaces) :
    st.EndsLe st.advance := by
  have hle : ∀ {ready c}, st.InPlace c →
      c.offset ≤ (st.advanceCursor ready c).offset := fun hc ↦
    have hspec := advanceCursor_spec h hc
    hc.offset_le h hspec.1 hspec.2.1
  exact ⟨hle hc.contiguous, hle hc.stable, min_le_min (hle hc.replicated) (hle hc.stable)⟩

/-- A cursor that is blocked is at least as far as any prefix of ready batches reaches. -/
theorem PartitionCore.CursorOk.offsetAt_le (hl : st.Layout) (h : st.CursorOk ready c) {k : Nat}
    (hk : k ≤ st.batches.nextKey)
    (hready : ∀ key b, key < k → st.batches.get key = some b → ready b = true) :
    st.offsetAt k ≤ c.offset := by
  rw [h.inPlace.offset_eq]
  exact hl.offsetAt_le (h.le_of_ready hk hready) h.inPlace.le_nextKey

/-- **Exact cursors stay exact** under every move. -/
theorem CoreMove.exact (hm : CoreMove st st') (h : st.Sound) (he : st.Exact) : st'.Exact := by
  have hc := h.cursors.inPlaces
  have hkept : ∀ {sequencer batches}, st.batches.Readier batches →
      ({ st with sequencer, batches } : PartitionCore).Exact := by
    intro sequencer batches hr
    have hpassed : ∀ {ready c}, Gate ready → st.InPlace c → st.Passed ready c →
        ({ st with sequencer, batches } : PartitionCore).Passed ready c := by
      intro ready c hg hin hp key b' hlt hb'
      obtain ⟨b, hb, himp⟩ := hr key b' (hlt.trans_le hin.le_nextKey) hb'
      exact himp ready hg (hp key b hlt hb)
    exact ⟨hpassed gate_settled hc.contiguous he.contiguous,
      hpassed gate_stable hc.stable he.stable,
      hpassed (gate_replicated _) hc.replicated he.replicated⟩
  cases hm.shape h with
  | kept hr => exact hkept hr
  | advanced hr hl' hc' => exact exact_advance hl' hc' (hkept hr)
  | rebuilt hl' => exact exact_rewind_advance hl'

/-- Advancing passes stable batches only. -/
theorem PartitionCore.Layout.stable_of_advance (hl : st.Layout) (hc : st.InPlaces)
    (hlt : key < st.advance.stable.nextBatch) (hb : st.batches.get key = some b) :
    b.stable = true ∨ key < st.stable.nextBatch := by
  rcases Nat.lt_or_ge key st.stable.nextBatch with h | h
  · exact .inr h
  · exact .inl ((advanceCursor_spec hl hc.stable).2.2.2 key b h hlt hb)

/-- **From any key on the stable cursor passes stable batches only**, if it has done so. -/
theorem CoreMove.stable_of_passed (hm : CoreMove st st') (hs : st.Sound) {n : Nat}
    (h : ∀ key b, n ≤ key → key < st.stable.nextBatch → st.batches.get key = some b →
      b.stable = true) (hn : n ≤ key) (hlt : key < st'.stable.nextBatch)
    (hb : st'.batches.get key = some b) : b.stable = true := by
  have hold : ∀ {batches}, st.batches.Readier batches → key < st.stable.nextBatch →
      batches.get key = some b → b.stable = true := by
    intro batches hr hlt hb
    obtain ⟨b₀, hb₀, himp⟩ := hr key b (hlt.trans_le hs.cursors.stable.inPlace.le_nextKey) hb
    exact himp _ gate_stable (h key b₀ hn hlt hb₀)
  cases hm.shape hs with
  | kept hr => exact hold hr hlt hb
  | advanced hr hl hc =>
    rcases hl.stable_of_advance hc hlt hb with hstable | hlt
    · exact hstable
    · exact hold hr hlt hb
  | rebuilt hl => exact (exact_rewind_advance hl).stable key b hlt hb

/-- **No move lowers a visible end** of a partition with exact cursors. -/
theorem CoreMove.endsLe (hm : CoreMove st st') (h : st.Sound) (he : st.Exact) :
    st.EndsLe st' := by
  have hsound' := hm.sound h
  obtain ⟨hl, hc⟩ := h
  -- an update of the batches leaves the cursors alone, then they advance
  have hupdate : ∀ {batches}, ({ st with batches } : PartitionCore).Layout →
      ({ st with batches } : PartitionCore).InPlaces →
      st.EndsLe ({ st with batches } : PartitionCore).advance := by
    intro batches hl' hc'
    have hends := endsLe_advance hl' hc'
    exact ⟨hends.contiguous, hends.stable, hends.replicated⟩
  cases hm with
  | sequencer | allocate | relabel => exact ⟨le_rfl, le_rfl, le_rfl⟩
  | advance => exact endsLe_advance hl hc.inPlaces
  | settle _ hres | acknowledge hres => exact hupdate (hl.modify hres) (hc.inPlaces.modify hres)
  | decide =>
    have hres := map_reservation_setStatuses
    exact hupdate (hl.of_batches (firstKey_setStatuses ..) (hres ..))
      (hc.inPlaces.of_batches (firstKey_setStatuses ..) (hres ..))
  | @drop key hfirst hstable =>
    have hnext := hstable.trans hc.stable.inPlace.le_nextKey
    -- a rebuilt cursor reaches the old one, and at least the new log start
    have hreach : ∀ {ready c c'}, st.InPlace c →
        st.Passed ready c →
        (({ st with
          logStart := st.offsetAt key
          batches := st.batches.truncateBefore key } : PartitionCore).rewind.advance).CursorOk
            ready c' →
        c.offset ≤ c'.offset := by
      intro ready c c' hin hp hok
      have hk : max key c.nextBatch ≤ st.batches.nextKey := max_le hnext hin.le_nextKey
      have hle : ({ st with
          logStart := st.offsetAt key
          batches := st.batches.truncateBefore key } : PartitionCore).offsetAt
            (max key c.nextBatch) ≤ c'.offset := by
        refine hok.offsetAt_le hsound'.layout
          ((nextKey_truncateBefore hfirst hnext).symm ▸ hk) fun j b hj hb ↦ ?_
        change (st.batches.truncateBefore key).get j = some b at hb
        rw [get_truncateBefore hfirst hnext] at hb
        split at hb
        · cases hb
        · exact hp j b (by omega) hb
      rw [offsetAt_dropBefore hfirst hnext (le_max_left ..)] at hle
      rw [hin.offset_eq]
      exact (hl.offsetAt_le (le_max_right ..) hk).trans hle
    have hs := hreach hc.stable.inPlace he.stable hsound'.cursors.stable
    exact ⟨hreach hc.contiguous.inPlace he.contiguous hsound'.cursors.contiguous, hs,
      min_le_min (hreach hc.replicated.inPlace he.replicated hsound'.cursors.replicated) hs⟩
  | @policy p hready =>
    have hreach : ∀ {ready c c'}, st.InPlace c →
        st.Passed ready c →
        (({ st with replicationPolicy := p } : PartitionCore).rewind.advance).CursorOk ready c' →
        c.offset ≤ c'.offset := by
      intro ready c c' hin hp hok
      rw [hin.offset_eq]
      exact hok.offsetAt_le hsound'.layout hin.le_nextKey hp
    have hs := hreach hc.stable.inPlace he.stable hsound'.cursors.stable
    refine ⟨hreach hc.contiguous.inPlace he.contiguous hsound'.cursors.contiguous, hs, ?_⟩
    -- everything stable is replicated under the new policy, so the minimum is the stable end
    have hr := hreach hc.stable.inPlace hready hsound'.cursors.replicated
    exact (min_le_right ..).trans (le_min hr hs)

end Sound

end ShardStream
