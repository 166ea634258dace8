import ShardStream.Engine.ProducerCursors

/-!
# The progress of producers

A producer numbers its records, and the partition keeps for every producer its epoch and the next
sequence it expects. The cursor is in memory only: a restart rebuilds it from the extents that are
not truncated. While a partition lives, the cursor of a producer is where its last batch ends, as
long as it holds one (`ProducersInOrder`); a restart therefore finds the cursor again exactly if
retention has left a batch of the producer.

Appends are checked against the cursor before they are given coordinates. A replica reservation is
not, and the runs considered here are those whose replica reservations continue where the cursor is
(`RunRule.inProducerOrder`).
-/

namespace ShardStream

open PartitionCore DenseOrderedMap List Option ExtentCatalogEntry PartitionState

variable {producerId epoch first next key : Nat} {st st' : PartitionState} {p : ProducerIdentity}
  {count : NonZeroU32} {b : BatchRuntime} {c : ProducerCursor} {eff : Effect}
  {answer : Except EngineError Unit} {x : ExtentCatalogEntry} {s : ReplayState}
  {E : List ExtentCatalogEntry} {config : EngineConfig} {e : Engine} {tp : TopicPartition}

/-- The records of `producer` in `r` have the sequences from `first` to before `next` of `epoch`. -/
def Carries (producer : Option ProducerIdentity) (r : Reservation)
    (producerId epoch first next : Nat) : Prop :=
  ∃ p, producer = some p ∧ p.producerId = producerId ∧ p.epoch = epoch ∧ p.firstSequence = first ∧
    next = first + r.recordCount.get

/-- The sequences a batch carries. -/
abbrev BatchRuntime.Carries (b : BatchRuntime) (producerId epoch first next : Nat) : Prop :=
  ShardStream.Carries b.producer b.reservation producerId epoch first next

theorem Carries.lt {producer : Option ProducerIdentity} {r : Reservation}
    (h : Carries producer r producerId epoch first next) : first < next := by
  obtain ⟨p, -, -, -, -, rfl⟩ := h
  have := r.recordCount.pos
  omega

/-- Where the cursor of a producer stands. -/
def PartitionState.position (st : PartitionState) (producerId : Nat) : Option (Nat × Nat) :=
  (st.producers.get producerId).map fun c ↦ (c.epoch, c.nextSequence)

/-- The append continues where the cursor of its producer is, or beyond. -/
def PartitionState.Continued (st : PartitionState) (p : ProducerIdentity) : Prop :=
  ∀ epoch next, st.position p.producerId = some (epoch, next) →
    epoch ≤ p.epoch ∧ next ≤ p.firstSequence

/-- Replica reservations of new batches continue where the cursors are. -/
def RunRule.inProducerOrder : RunRule where
  command _ _ st c := ∀ r p group bytes digest, c = .reserveReplica r (some p) group bytes digest →
    st.batches.get r.batchId = none → st.Continued p
  restart _ := True

/-! ### One command -/

section Check

variable {requestId : Nat} {digest : Digest}

/-- An append that is found new starts exactly where the cursor is. -/
theorem position_of_checkProducer (h : checkProducer st requestId (some p) count digest = .ok none)
    (hposition : st.position p.producerId = some (epoch, next)) :
    epoch ≤ p.epoch ∧ p.firstSequence = next := by
  obtain ⟨cursor, hcursor, heq⟩ := map_eq_some_iff.1 hposition
  cases heq
  exact (cursor_of_checkProducer h hcursor).imp_right And.left

/-- Without a cursor only the first sequence is new. -/
theorem checkProducer_of_none (hnone : st.producers.get p.producerId = none)
    (hfirst : p.firstSequence ≠ 0) :
    checkProducer st requestId (some p) count digest ≠ .ok none := by
  simp [checkProducer, hnone, hfirst]

/-- At a cursor that did not fail, the next sequence is new and nothing else of its epoch is. -/
theorem checkProducer_eq_iff (hcursor : st.producers.get p.producerId = some ⟨p.epoch, next, false⟩)
    (hdedup : st.dedup.get (p.producerId, p.epoch, next) = none) :
    checkProducer st requestId (some p) count digest = .ok none ↔ p.firstSequence = next := by
  rw [checkProducer_eq_none_iff, hcursor]
  constructor
  · rintro (⟨hnone, -⟩ | ⟨c, hc, -, hnext, -⟩)
    · cases hnone
    · cases hc
      exact hnext
  · rintro rfl
    exact .inr ⟨_, rfl, le_rfl, rfl, fun _ ↦ ⟨hdedup, rfl⟩⟩

end Check

section Outcome

variable {c : Command}

/-- What a command does to the cursors: nothing but a failure mark, or it adds a batch and moves the
cursor of its producer to the end of it. -/
inductive ProducerStep (st st' : PartitionState) : Prop
  | kept (hnext : st'.sequencer.nextBatchId = st.sequencer.nextBatchId)
      (hposition : ∀ producerId, st'.position producerId = st.position producerId)
  | plain {b : BatchRuntime} (hget : st'.batches.get st.batches.nextKey = some b)
      (hproducer : b.producer = none)
      (hposition : ∀ producerId, st'.position producerId = st.position producerId)
  | produced {b : BatchRuntime} {p : ProducerIdentity}
      (hget : st'.batches.get st.batches.nextKey = some b) (hproducer : b.producer = some p)
      (hcontinued : st.Continued p)
      (hposition : ∀ producerId, st'.position producerId =
        if producerId = p.producerId then
          some (p.epoch, p.firstSequence + b.reservation.recordCount.get)
        else st.position producerId)

theorem position_modify {f : ProducerCursor → ProducerCursor}
    (hst : st'.producers = st.producers.modify producerId f)
    (hf : ∀ c, (f c).epoch = c.epoch ∧ (f c).nextSequence = c.nextSequence) (producerId' : Nat) :
    st'.position producerId' = st.position producerId' := by
  rw [position, hst, Table.get_modify]
  split_ifs with h
  · rw [Option.map_map]
    congr 1
    funext c
    exact Prod.ext (hf c).1 (hf c).2
  · rfl

theorem position_congr (hst : st'.producers = st.producers) (producerId : Nat) :
    st'.position producerId = st.position producerId := by
  rw [position, hst, position]

/-- **The cursors after a command**, if new replica batches continue where they are. -/
theorem CursorsStep.producerStep (h : CursorsStep st st' c)
    (hrule : ∀ r p group bytes digest, c = .reserveReplica r (some p) group bytes digest →
      st.batches.get r.batchId = none → st.Continued p) : ProducerStep st st' := by
  cases h with
  | kept hnext h => exact .kept hnext (position_congr h)
  | plain hget hproducer h => exact .plain hget hproducer (position_congr h)
  | @advanced b p cursor hget hproducer hnext hepoch hbefore hfailed h hlatest hsource =>
    have hcontinued : st.Continued p := by
      rcases hsource with hsource | ⟨group, bytes, digest, rfl, hnone⟩
      · intro epoch next hposition
        obtain ⟨c, hc, heq⟩ := map_eq_some_iff.1 hposition
        cases heq
        exact (hsource c hc).imp_right Eq.ge
      · exact hrule _ p group bytes digest rfl hnone
    have hcursor : cursor.epoch = p.epoch := by
      refine hlatest fun c hc ↦ ?_
      exact (hcontinued c.epoch c.nextSequence (by simp [position, hc])).1
    refine .produced hget hproducer hcontinued fun producerId ↦ ?_
    rw [position, h, Table.get_insert, ← hcursor, ← hnext]
    split_ifs <;> rfl
  | reopened hnext hreopens hproducer h =>
    refine .kept hnext (position_modify h fun c ↦ ?_)
    split_ifs <;> exact ⟨rfl, rfl⟩
  | frozen hnext hcommand h => exact .kept hnext (position_modify h fun _ ↦ ⟨rfl, rfl⟩)

end Outcome

/-! ### Cursors and batches -/

/-- **The cursor of a producer is where its last batch ends**, and its batches follow one
another. -/
structure ProducersInOrder (st : PartitionState) : Prop where
  ordered : ∀ {i j b b' producerId e f n e' f' n'}, i < j → st.batches.get i = some b →
    st.batches.get j = some b' → b.Carries producerId e f n → b'.Carries producerId e' f' n' →
    e ≤ e' ∧ n ≤ f'
  last : ∀ {key b producerId e f n}, st.batches.get key = some b → b.Carries producerId e f n →
    (∀ key' b' e' f' n', key < key' → st.batches.get key' = some b' →
      ¬ b'.Carries producerId e' f' n') → st.position producerId = some (e, n)
  positive : ∀ {producerId e n}, st.position producerId = some (e, n) → 0 < n

section InOrder

/-- A producer with a batch has a last one. -/
theorem exists_last_batch : ∀ {key e f n : Nat} {b : BatchRuntime},
    st.batches.get key = some b → b.Carries producerId e f n →
    ∃ key' b' e' f' n', key ≤ key' ∧ st.batches.get key' = some b' ∧
      b'.Carries producerId e' f' n' ∧ ∀ key'' b'' e'' f'' n'', key' < key'' →
        st.batches.get key'' = some b'' → ¬ b''.Carries producerId e'' f'' n'' := by
  intro key
  -- the batches above `key` get fewer
  induction hk : st.batches.nextKey - key using Nat.strong_induction_on generalizing key with
  | _ k ih =>
    intro e f n b hb hc
    by_cases hlater : ∃ key' b' e' f' n', key < key' ∧ st.batches.get key' = some b' ∧
        b'.Carries producerId e' f' n'
    · obtain ⟨key', b', e', f', n', hlt, hb', hc'⟩ := hlater
      have hlt' := (lt_nextKey_of_get hb').2
      obtain ⟨key'', rest⟩ := ih (st.batches.nextKey - key') (by omega) rfl hb' hc'
      exact ⟨key'', rest.imp fun b'' h ↦ h.imp fun e'' h ↦ h.imp fun f'' h ↦ h.imp fun n'' h ↦
        ⟨hlt.le.trans h.1, h.2⟩⟩
    · refine ⟨key, b, e, f, n, le_rfl, hb, hc, fun key' b' e' f' n' hlt hb' hc' ↦ hlater ?_⟩
      exact ⟨key', b', e', f', n', hlt, hb', hc'⟩

/-- No batch of a producer is beyond its cursor. -/
theorem ProducersInOrder.le_position (h : ProducersInOrder st) {e f n : Nat}
    (hb : st.batches.get key = some b) (hc : b.Carries producerId e f n) :
    ∃ e' n', st.position producerId = some (e', n') ∧ e ≤ e' ∧ n ≤ n' := by
  obtain ⟨key', b', e', f', n', hle, hb', hc', hlast⟩ := exists_last_batch hb hc
  refine ⟨e', n', h.last hb' hc' hlast, ?_⟩
  rcases hle.eq_or_lt with rfl | hlt
  · rw [hb] at hb'
    cases hb'
    obtain ⟨p, hp, -, rfl, rfl, rfl⟩ := hc
    obtain ⟨p', hp', -, rfl, rfl, rfl⟩ := hc'
    rw [hp] at hp'
    cases hp'
    exact ⟨le_rfl, le_rfl⟩
  · obtain ⟨hepoch, hnext⟩ := h.ordered hlt hb hb' hc hc'
    exact ⟨hepoch, hnext.trans hc'.lt.le⟩

theorem producersInOrder_empty (sequencer : TopicSequencer) (policy : PartitionReplicationPolicy) :
    ProducersInOrder (.empty sequencer policy) := by
  have hnone : ∀ key, (empty sequencer policy).batches.get key = none := fun key ↦ by
    simp [empty]
  exact ⟨fun _ hb ↦ by simp [hnone] at hb, fun hb ↦ by simp [hnone] at hb, fun h ↦ by cases h⟩

/-- **A command keeps the producers in order.** -/
theorem ProducersInOrder.step (h : ProducersInOrder st) (hs : st.Sound) {c : Command}
    (hout : Outcome st answer c eff)
    (hrule : ∀ r p group bytes digest, c = .reserveReplica r (some p) group bytes digest →
      st.batches.get r.batchId = none → st.Continued p) : ProducersInOrder eff.state := by
  have hs' := (hout.core_effect.sound hs).layout
  -- a batch held afterwards was held before, or it is the new one
  have hold : ∀ {key b'}, eff.state.batches.get key = some b' → key ≠ st.batches.nextKey →
      ∃ b, st.batches.get key = some b ∧ ∀ {pid e f n}, b'.Carries pid e f n ↔
      b.Carries pid e f n := by
    intro key b' hb' hkey
    obtain ⟨b, hb, hsame⟩ := hout.heldBefore hs hb' hkey
    refine ⟨b, hb, fun {_ _ _ _} ↦ ?_⟩
    simp only [BatchRuntime.Carries, hsame.producer, hsame.reservation]
  have hlt : ∀ {key b'}, eff.state.batches.get key = some b' → key ≠ st.batches.nextKey →
      key < st.batches.nextKey := fun hb' hkey ↦ by
    obtain ⟨b, hb, -⟩ := hold hb' hkey
    exact (lt_nextKey_of_get hb).2
  -- only the front is dropped
  have hkept : ∀ {key key' b b'}, eff.state.batches.get key = some b → key < key' →
      st.batches.get key' = some b' → ∃ b'', eff.state.batches.get key' = some b'' := by
    intro key key' b b' hb hkk hb'
    obtain ⟨b'', hb'', -⟩ := hout.heldAfter hs hb' ((lt_nextKey_of_get hb).1.trans hkk.le)
    exact ⟨b'', hb''⟩
  -- where the last batch of a producer is an old one, so is its position
  have hlast : ∀ {key b pid e f n}, eff.state.batches.get key = some b → key ≠ st.batches.nextKey →
      b.Carries pid e f n → (∀ key' b' e' f' n', key < key' →
        eff.state.batches.get key' = some b' → ¬ b'.Carries pid e' f' n') →
      st.position pid = some (e, n) := by
    intro key b pid e f n hb hkey hc hnone
    obtain ⟨b₀, hb₀, hsame⟩ := hold hb hkey
    refine h.last hb₀ (hsame.1 hc) fun key' b' e' f' n' hkk hb' hc' ↦ ?_
    obtain ⟨b'', hb''⟩ := hkept hb hkk hb'
    have hkey' : key' ≠ st.batches.nextKey := (lt_nextKey_of_get hb').2.ne
    obtain ⟨b₁, hb₁, hsame'⟩ := hold hb'' hkey'
    rw [hb'] at hb₁
    cases hb₁
    exact hnone key' b'' e' f' n' hkk hb'' (hsame'.2 hc')
  have hordered : ∀ {i j b b' pid e f n e' f' n'}, i < j → j ≠ st.batches.nextKey →
      eff.state.batches.get i = some b → eff.state.batches.get j = some b' →
      b.Carries pid e f n → b'.Carries pid e' f' n' → e ≤ e' ∧ n ≤ f' := by
    intro i j b b' pid e f n e' f' n' hij hj hb hb' hc hc'
    obtain ⟨b₁, hb₁, hsame⟩ := hold hb' hj
    obtain ⟨b₀, hb₀, hsame₀⟩ := hold hb (by have := hlt hb' hj; omega)
    exact h.ordered hij hb₀ hb₁ (hsame₀.1 hc) (hsame.1 hc')
  cases hout.cursorsStep.producerStep hrule with
  | kept hnext hposition =>
    have hne : ∀ {key b}, eff.state.batches.get key = some b → key ≠ st.batches.nextKey := by
      intro key b hb
      have := (lt_nextKey_of_get hb).2
      rw [← hs'.nextBatchId, hnext, hs.layout.nextBatchId] at this
      exact this.ne
    refine ⟨fun hij hb hb' ↦ hordered hij (hne hb') hb hb', fun hb hc hnone ↦ ?_, fun hpos ↦ ?_⟩
    · rw [hposition]
      exact hlast hb (hne hb) hc hnone
    · rw [hposition] at hpos
      exact h.positive hpos
  | @plain b₀ hget hproducer hposition =>
    have hne : ∀ {key b pid e f n}, eff.state.batches.get key = some b → b.Carries pid e f n →
        key ≠ st.batches.nextKey := by
      rintro key b pid e f n hb ⟨p, hp, -⟩ rfl
      rw [hget] at hb
      cases hb
      rw [hproducer] at hp
      cases hp
    refine ⟨fun hij hb hb' hc hc' ↦ hordered hij (hne hb' hc') hb hb' hc hc',
      fun hb hc hnone ↦ ?_, fun hpos ↦ ?_⟩
    · rw [hposition]
      exact hlast hb (hne hb hc) hc hnone
    · rw [hposition] at hpos
      exact h.positive hpos
  | @produced b₀ p hget hproducer hcontinued hposition =>
    have hnew : ∀ {b pid e f n}, eff.state.batches.get st.batches.nextKey = some b →
        b.Carries pid e f n → pid = p.producerId ∧ e = p.epoch ∧ f = p.firstSequence ∧
          n = p.firstSequence + b₀.reservation.recordCount.get := by
      rintro b pid e f n hb ⟨q, hq, rfl, rfl, rfl, rfl⟩
      rw [hget] at hb
      cases hb
      rw [hproducer] at hq
      cases hq
      exact ⟨rfl, rfl, rfl, rfl⟩
    refine ⟨fun {i j b b' pid e f n e' f' n'} hij hb hb' hc hc' ↦ ?_,
      fun {key b pid e f n} hb hc hnone ↦ ?_, fun {pid e n} hpos ↦ ?_⟩
    · by_cases hj : j = st.batches.nextKey
      · subst hj
        obtain ⟨rfl, rfl, rfl, -⟩ := hnew hb' hc'
        obtain ⟨b₁, hb₁, hsame⟩ := hold hb (by omega)
        obtain ⟨e₁, n₁, hpos, hle, hle'⟩ := h.le_position hb₁ (hsame.1 hc)
        obtain ⟨hepoch, hfirst⟩ := hcontinued e₁ n₁ hpos
        exact ⟨hle.trans hepoch, hle'.trans hfirst⟩
      · exact hordered hij hj hb hb' hc hc'
    · rw [hposition]
      by_cases hkey : key = st.batches.nextKey
      · subst hkey
        obtain ⟨rfl, rfl, -, rfl⟩ := hnew hb hc
        rw [if_pos rfl]
      · have hne : pid ≠ p.producerId := by
          rintro rfl
          exact hnone _ b₀ _ _ _ (hlt hb hkey) hget ⟨p, hproducer, rfl, rfl, rfl, rfl⟩
        rw [if_neg hne]
        exact hlast hb hkey hc hnone
    · rw [hposition] at hpos
      split_ifs at hpos with hpid
      · cases hpos
        have := b₀.reservation.recordCount.pos
        omega
      · exact h.positive hpos

end InOrder

/-! ### Recovered cursors -/

/-- The cursor that an extent leaves its producer with. -/
def ExtentCatalogEntry.cursorOf (x : ExtentCatalogEntry) (producerId : Nat) :
    Option ProducerCursor :=
  (x.producer.filter fun p ↦ p.producerId = producerId).map fun p ↦
    ⟨p.epoch, p.firstSequence + x.reservation.recordCount.get, false⟩

/-- The sequences an extent carries. -/
abbrev ExtentCatalogEntry.Carries (x : ExtentCatalogEntry) (producerId epoch first next : Nat) :
    Prop :=
  ShardStream.Carries (x.producer.map (·.identity)) x.reservation producerId epoch first next

theorem ExtentCatalogEntry.cursorOf_eq_some_iff :
    x.cursorOf producerId = some c ↔ c.failed = false ∧
      ∃ first, x.Carries producerId c.epoch first c.nextSequence := by
  obtain ⟨epoch, next, failed⟩ := c
  cases hp : x.producer with
  | none => simp [cursorOf, ShardStream.Carries, hp]
  | some p =>
    simp only [cursorOf, ShardStream.Carries, hp, map_some, some.injEq, map_eq_some_iff,
      filter_eq_some_iff, ProducerCursor.mk.injEq, decide_eq_true_eq]
    constructor
    · rintro ⟨q, ⟨rfl, rfl⟩, rfl, rfl, rfl⟩
      exact ⟨rfl, p.firstSequence, p.identity, rfl, rfl, rfl, rfl, rfl⟩
    · rintro ⟨rfl, first, q, rfl, rfl, rfl, rfl, rfl⟩
      exact ⟨p, ⟨rfl, rfl⟩, rfl, rfl, rfl⟩

/-- The extents of each producer follow one another. -/
def ExtentsInOrder (E : List ExtentCatalogEntry) : Prop :=
  E.Pairwise fun x y ↦ ∀ {producerId e f n e' f' n'}, x.Carries producerId e f n →
    y.Carries producerId e' f' n' → e ≤ e' ∧ n ≤ f'

/-- **The rebuilt cursor of a producer** is the one its last extent leaves. -/
theorem get_foldl_restoreCursor (h : ExtentsInOrder E) (producerId : Nat) :
    (E.foldl restoreCursor .empty).get producerId =
      (E.filterMap (·.cursorOf producerId)).getLast? := by
  induction E using reverseRecOn with
  | nil => rfl
  | append_singleton E x ih =>
    obtain ⟨hE, -, hx⟩ := pairwise_append.1 h
    rw [foldl_append, filterMap_append, foldl_cons, foldl_nil]
    cases hp : x.producer with
    | none =>
      have hnone : x.cursorOf producerId = none := by simp [cursorOf, hp]
      simp [restoreCursor, hp, hnone, ih hE]
    | some p =>
      simp only [restoreCursor, hp, Table.get_insert]
      split_ifs with hid
      · subst hid
        have hcursor : x.cursorOf p.producerId =
            some ⟨p.epoch, p.firstSequence + x.reservation.recordCount.get, false⟩ := by
          simp [cursorOf, hp]
        obtain ⟨-, first, hcarries⟩ := cursorOf_eq_some_iff.1 hcursor
        simp only [filterMap_cons, hcursor, filterMap_nil, getLast?_append, getLast?_singleton,
          some_or]
        rw [ih hE]
        cases hlast : (E.filterMap (·.cursorOf p.producerId)).getLast? with
        | none => rfl
        | some c =>
          -- the extents before it are of no later epoch and end at most where it starts
          obtain ⟨y, hy, hc⟩ := mem_filterMap.1 (mem_of_getLast? hlast)
          obtain ⟨hfailed, first', hcarries'⟩ := cursorOf_eq_some_iff.1 hc
          obtain ⟨hepoch, hnext⟩ := hx y hy x (mem_singleton_self x) hcarries' hcarries
          have hlt := hcarries.lt
          dsimp only at hepoch hlt
          simp only [restoredCursor]
          split_ifs with hnew hsame
          · rfl
          · rw [max_eq_right (by omega), hsame, ← hfailed]
          · omega
      · have hnone : x.cursorOf producerId = none := by
          simp [cursorOf, hp, Ne.symm hid]
        simp [hnone, ih hE]

/-- A sequence without an extent is not deduplicated after a recovery. -/
theorem get_foldl_restoreDedup {replicas : Nat} {k : Nat × Nat × Nat}
    (h : ∀ x ∈ E, ∀ p ∈ x.producer, p.identity.key ≠ k) :
    (E.foldl (restoreDedup replicas) .empty).get k = none := by
  refine eq_none_iff_forall_ne_some.2 fun record hrecord ↦ ?_
  rcases exists_of_foldl_restoreDedup hrecord with hnone | ⟨x, hx, p, hp, hkey⟩
  · cases hnone
  · exact h x hx p hp hkey

section Restart

/-- The extents a recovery visits come in the order of their batches. -/
theorem BackedBy.entries_pairwise (hb : BackedBy config e s) (hst : e.states.get tp = some st) :
    (e.entries tp).Pairwise fun x y ↦ x.reservation.batchId < y.reservation.batchId := by
  have hbacked := hb.backed tp st hst
  have hl := hbacked.sound.layout
  have hsorted : (e.entries tp).Pairwise
      fun x y ↦ x.reservation.firstOffset ≤ y.reservation.firstOffset :=
    pairwise_insertionSort _ _
  have hnodup : (e.entries tp).Nodup :=
    (perm_insertionSort _ _).nodup_iff.2 (((Nodup.of_map _ hb.nodup).filter _).filter _)
  refine (hsorted.and hnodup).imp_of_mem fun {x y} hx hy hxy ↦ ?_
  obtain ⟨b, hget, hdesc⟩ := hbacked.describes hb.replay hx
  obtain ⟨b', hget', hdesc'⟩ := hbacked.describes hb.replay hy
  obtain ⟨hmem, htp, -⟩ := (hbacked.mem_entries_iff hb.replay).1 hx
  obtain ⟨hmem', htp', -⟩ := (hbacked.mem_entries_iff hb.replay).1 hy
  obtain ⟨hle, hne⟩ := hxy
  by_contra hnot
  rcases (Nat.le_of_not_lt hnot).eq_or_lt with heq | hlt
  · exact hne (inj_on_of_nodup_map hb.nodup hmem hmem' ((key_eq_iff.2 ⟨htp, heq.symm⟩).trans
        (key_eq_iff.2 ⟨htp', rfl⟩).symm))
  · -- a batch below another ends before the other starts
    have hrange := lt_nextKey_of_get hget
    have hbelow := (hl.lastOffset_lt_iff hget' hrange.1 hrange.2.le).2 hlt
    have hfirst := hl.firstOffset_le_lastOffset hget'
    rw [← (hl.get hget).2.2.2.1, ← hdesc.reservation] at hbelow
    rw [hdesc'.reservation] at hle
    omega

theorem ExtentCatalogEntry.Describes.carries_iff (h : x.Describes b) :
    x.Carries producerId epoch first next ↔ b.Carries producerId epoch first next := by
  simp only [ExtentCatalogEntry.Carries, h.producer, h.reservation]

/-- What a recovered batch carries, it carries from an extent. -/
theorem Recovered.exists_entry {ctx : RecoveryContext} (hr : Recovered ctx E st')
    (hget : st'.batches.get key = some b) (hc : b.Carries producerId epoch first next) :
    ∃ x ∈ E, x.reservation.batchId = key ∧ x.Carries producerId epoch first next := by
  rcases hr.get_cases hget with ⟨x, hx, hkey, rfl⟩ | ⟨hplace, -⟩
  · exact ⟨x, hx, hkey, hc⟩
  · rw [hplace] at hc
    obtain ⟨p, hp, -⟩ := hc
    cases hp

theorem ProducersInOrder.extentsInOrder (h : ProducersInOrder st) (hb : BackedBy config e s)
    (hst : e.states.get tp = some st) :
    ExtentsInOrder (e.entries tp) := by
  have hbacked := hb.backed tp st hst
  refine (hb.entries_pairwise hst).imp_of_mem fun {x y} hx hy hlt _ _ _ _ _ _ _ hc hc' ↦ ?_
  obtain ⟨b, hget, hdesc⟩ := hbacked.describes hb.replay hx
  obtain ⟨b', hget', hdesc'⟩ := hbacked.describes hb.replay hy
  exact h.ordered hlt hget hget' (hdesc.carries_iff.1 hc) (hdesc'.carries_iff.1 hc')

/-- The last extent of a producer in a list in batch order. -/
theorem getLast?_cursorOf (hE : E.Pairwise fun x y ↦ x.reservation.batchId < y.reservation.batchId)
    (hx : x ∈ E) (hc : x.cursorOf producerId = some c)
    (hlast : ∀ y ∈ E, x.reservation.batchId < y.reservation.batchId →
      y.cursorOf producerId = none) : (E.filterMap (·.cursorOf producerId)).getLast? = some c := by
  obtain ⟨E₁, E₂, rfl⟩ := append_of_mem hx
  obtain ⟨-, hE₂, -⟩ := pairwise_append.1 hE
  have hnone : E₂.filterMap (·.cursorOf producerId) = [] := by
    refine filterMap_eq_nil_iff.2 fun y hy ↦ hlast y (by simp [hy]) ?_
    exact (pairwise_cons.1 hE₂).1 y hy
  simp [hc, hnone]

/-- **A restart keeps the producers in order.** -/
theorem ProducersInOrder.restart (h : ProducersInOrder st) (hb : BackedBy config e s)
    (hst : e.states.get tp = some st)
    (hr : Recovered (st.recoveryContext config s 1 tp)
      (e.entries tp) st') : ProducersInOrder st' := by
  have hbacked := hb.backed tp st hst
  have hin := h.extentsInOrder hb hst
  have hposition : ∀ producerId, st'.position producerId = ((e.entries tp).filterMap
        (·.cursorOf producerId)).getLast?.map fun c ↦ (c.epoch, c.nextSequence) :=
          fun producerId ↦ by
    rw [position, hr.producers, get_foldl_restoreCursor hin]
  refine ⟨fun {i j b b' pid e₁ f n e' f' n'} hij hget hget' hc hc' ↦ ?_,
    fun {key b pid e₁ f n} hget hc hlast ↦ ?_, fun {pid e₁ n} hpos ↦ ?_⟩
  · obtain ⟨x, hx, rfl, hcx⟩ := hr.exists_entry hget hc
    obtain ⟨y, hy, rfl, hcy⟩ := hr.exists_entry hget' hc'
    obtain ⟨b₀, hget₀, hdesc⟩ := hbacked.describes hb.replay hx
    obtain ⟨b₁, hget₁, hdesc'⟩ := hbacked.describes hb.replay hy
    exact h.ordered hij hget₀ hget₁ (hdesc.carries_iff.1 hcx) (hdesc'.carries_iff.1 hcy)
  · obtain ⟨x, hx, rfl, hcx⟩ := hr.exists_entry hget hc
    have hcursor : x.cursorOf pid = some ⟨e₁, n, false⟩ := cursorOf_eq_some_iff.2 ⟨rfl, f, hcx⟩
    rw [hposition, getLast?_cursorOf (hb.entries_pairwise hst) hx hcursor fun y hy hlt ↦ ?_]
    · rfl
    · by_contra hsome
      obtain ⟨c, hc'⟩ := ne_none_iff_exists'.1 hsome
      obtain ⟨-, f', hcy⟩ := cursorOf_eq_some_iff.1 hc'
      exact hlast _ _ _ _ _ hlt (hr.entry y hy) hcy
  · rw [hposition, map_eq_some_iff] at hpos
    obtain ⟨c, hc, heq⟩ := hpos
    cases heq
    obtain ⟨x, -, hcursor⟩ := mem_filterMap.1 (mem_of_getLast? hc)
    obtain ⟨-, first, hcx⟩ := cursorOf_eq_some_iff.1 hcursor
    exact Nat.zero_lt_of_lt hcx.lt

end Restart

/-! ### Over runs -/

/-- The producer goes on at `next` in `epoch`: the append that starts there is new to the partition,
and none that starts below is. -/
structure PartitionState.GoesOn (st : PartitionState) (producerId epoch next : Nat) : Prop where
  next_new : ∀ (p : ProducerIdentity) requestId count digest, p.producerId = producerId →
    p.epoch = epoch → p.firstSequence = next →
    checkProducer st requestId (some p) count digest = .ok none
  below_old : ∀ (p : ProducerIdentity) requestId count digest, p.producerId = producerId →
    p.epoch = epoch → p.firstSequence < next →
    checkProducer st requestId (some p) count digest ≠ .ok none

/-- The partition holds a batch of the producer. -/
def PartitionState.HoldsBatchOf (st : PartitionState) (producerId : Nat) : Prop :=
  ∃ key b, st.batches.get key = some b ∧ ∃ p ∈ b.producer, p.producerId = producerId

section Runs

/-- **Producers are in order in every run** in which replica reservations are. -/
theorem EngineReachable.producersInOrder (h : EngineReachable config .inProducerOrder e)
    (hst : e.states.get tp = some st) : ProducersInOrder st := by
  refine h.partition_invariant (P := fun _ st ↦ ProducersInOrder st) ?_ ?_ ?_ hst
  · intro tp shards sequencer policy _
    exact producersInOrder_empty sequencer policy
  · intro e tp st answer c hreach hst hin _ hrule
    have hs := (hreach.sound_and_tagged hst).1
    exact hin.step hs (c.outcome hs answer) hrule
  · intro e s tp st st' hb hst hin _ hr
    exact hin.restart hb hst hr

/-- The cursor comes back if a batch of the producer is held and all of them are durable. -/
theorem ProducersInOrder.recovered_cursor (h : ProducersInOrder st) (hb : BackedBy config e s)
    (hst : e.states.get tp = some st) (hr : Recovered (st.recoveryContext config s 1 tp)
      (e.entries tp) st') {cursor : ProducerCursor}
    (hcursor : st.producers.get producerId = some cursor)
    (hdurable : ∀ key b p, st.batches.get key = some b → b.producer = some p →
      p.producerId = producerId → e.Durable tp key) (hheld : st.HoldsBatchOf producerId) :
    st'.producers.get producerId = some ⟨cursor.epoch, cursor.nextSequence, false⟩ := by
  have hbacked := hb.backed tp st hst
  obtain ⟨key₀, b₀, hget₀, p₀, hp₀, hid₀⟩ := hheld
  obtain ⟨key, b, epoch, first, next, -, hget, hc, hlast⟩ :=
    exists_last_batch hget₀ ⟨p₀, hp₀, hid₀, rfl, rfl, rfl⟩
  have hposition := h.last hget hc hlast
  simp only [position, hcursor] at hposition
  obtain ⟨rfl, rfl⟩ := hposition
  -- the last batch of the producer has an extent, and none of its extents comes later
  obtain ⟨p, hp, hid, -⟩ := id hc
  obtain ⟨x, hx, hkey⟩ := hdurable key b p hget hp hid
  obtain ⟨htp, rfl⟩ := key_eq_iff.1 hkey
  have hmem := (hbacked.mem_entries_iff hb.replay).2 ⟨hx, htp, b, hget⟩
  have hdesc := (hbacked.keys _ b hget).describes x hx hkey
  rw [hr.producers, get_foldl_restoreCursor (h.extentsInOrder hb hst)]
  refine getLast?_cursorOf (hb.entries_pairwise hst) hmem
    (cursorOf_eq_some_iff.2 ⟨rfl, first, hdesc.carries_iff.2 hc⟩)
    fun y hy hlt ↦ ?_
  by_contra hsome
  obtain ⟨c, hcy⟩ := ne_none_iff_exists'.1 hsome
  obtain ⟨-, first', hcarries⟩ := cursorOf_eq_some_iff.1 hcy
  obtain ⟨b', hget', hdesc'⟩ := hbacked.describes hb.replay hy
  exact hlast _ b' _ _ _ hlt hget' (hdesc'.carries_iff.1 hcarries)

/-- **Producer progress across a restart.** A producer whose batches are all durable goes on after a
restart where its cursor was, exactly if the partition still holds a batch of it. -/
theorem producer_progress_survives_iff (h : EngineReachable config .inProducerOrder e)
    {states : Table TopicPartition PartitionState} (hrec : e.recover config 1 = .ok states)
    (hst : e.states.get tp = some st) {st' : PartitionState} (hst' : states.get tp = some st')
    {producerId : Nat} {cursor : ProducerCursor}
    (hcursor : st.producers.get producerId = some cursor)
    (hdurable : ∀ key b p, st.batches.get key = some b → b.producer = some p →
      p.producerId = producerId → e.Durable tp key) :
    st'.GoesOn producerId cursor.epoch cursor.nextSequence ↔ st.HoldsBatchOf producerId := by
  obtain ⟨s, st₀, hb, hst₀, -, hr⟩ := h.recovered hrec hst'
  rw [hst] at hst₀
  cases hst₀
  have hin := h.producersInOrder hst
  have hbacked := hb.backed tp st hst
  constructor
  · intro hgoes
    by_contra hnone
    -- no extent of the producer is left, so it has no cursor
    have hlost : st'.producers.get producerId = none := by
      rw [hr.producers, get_foldl_restoreCursor (hin.extentsInOrder hb hst),
        getLast?_eq_none_iff, filterMap_eq_nil_iff]
      intro x hx
      by_contra hsome
      obtain ⟨c, hcx⟩ := ne_none_iff_exists'.1 hsome
      obtain ⟨-, first, hcarries⟩ := cursorOf_eq_some_iff.1 hcx
      obtain ⟨b, hget, hdesc⟩ := hbacked.describes hb.replay hx
      obtain ⟨p, hp, hid, -⟩ := hdesc.carries_iff.1 hcarries
      exact hnone ⟨_, b, hget, p, hp, hid⟩
    have hpos : 0 < cursor.nextSequence := hin.positive (by rw [position, hcursor]; rfl)
    have hnew := hgoes.next_new ⟨producerId, cursor.epoch, cursor.nextSequence, none⟩ 0
      .one 0 rfl rfl rfl
    exact checkProducer_of_none hlost hpos.ne' hnew
  · intro hheld
    have hcursor' := hin.recovered_cursor hb hst hr hcursor hdurable hheld
    have hin' := hin.restart hb hst hr
    have hdedup : st'.dedup.get (producerId, cursor.epoch, cursor.nextSequence) = none := by
      rw [hr.dedup]
      refine get_foldl_restoreDedup fun x hx p hp hkey ↦ ?_
      -- an extent that starts at the cursor would end beyond it
      obtain ⟨hid, hepoch, hfirst⟩ : p.producerId = producerId ∧ p.epoch = cursor.epoch ∧
          p.firstSequence = cursor.nextSequence := by
        simpa [ProducerIdentity.key, ProducerSequence.identity] using hkey
      have hcarries : x.Carries producerId cursor.epoch cursor.nextSequence _ :=
        ⟨p.identity, by rw [hp]; rfl, hid, hepoch, hfirst, rfl⟩
      obtain ⟨e', n', hpos, -, hle⟩ := hin'.le_position (hr.entry x hx) hcarries
      rw [position, hcursor'] at hpos
      cases hpos
      have := x.reservation.recordCount.pos
      dsimp only at hle
      omega
    constructor
    · rintro p requestId count digest rfl hepoch hfirst
      rw [← hepoch] at hcursor' hdedup
      exact (checkProducer_eq_iff hcursor' hdedup).2 hfirst
    · rintro p requestId count digest rfl hepoch hfirst hnew
      rw [← hepoch] at hcursor' hdedup
      have := (checkProducer_eq_iff hcursor' hdedup).1 hnew
      omega

end Runs

/-! ### Scripted runs -/

/-- Runs without replica reservations. -/
def leaderOnly : Guard where
  command _ _ _
    | .reserveReplica .. => false
    | _ => true
  restart _ := true

theorem leaderOnly_implies : leaderOnly.Implies .inProducerOrder := by
  refine ⟨fun e tp st c h r p group bytes digest hc ↦ ?_, fun _ _ ↦ trivial⟩
  rw [hc] at h
  cases h

/-- The first record of producer 9. -/
def firstOfNine : AppendIntent where
  tp := ⟨0, 0⟩
  requestId := 0
  producer := some ⟨9, 0, 0, none⟩
  atomicGroup := none
  recordCount := .one
  payloadBytes := 1
  payloadDigest := 0
  admittedLeaderEpoch := none

/-- Producer 9 appends its first record, and the batch is completed. -/
def oneProduced : List Action :=
  [.create ⟨0, 0⟩ [0] ⟨1, 1, 1⟩, .command ⟨0, 0⟩ fun _ ↦ some (.reserve firstOfNine),
    .write ⟨0, 0⟩ 0, .complete ⟨0, 0⟩ 0]

/-- While its batch is retained, the producer goes on after a restart. -/
theorem producer_nine_goes_on : ∃ e states st', EngineReachable ⟨1, 1, 1⟩ .inProducerOrder e ∧
    e.recover ⟨1, 1, 1⟩ 1 = .ok states ∧ states.get ⟨0, 0⟩ = some st' ∧ st'.GoesOn 9 0 1 := by
  obtain ⟨e, st, he, hst, h⟩ := Engine.exists_of_play ⟨1, 1, 1⟩ oneProduced ⟨0, 0⟩
    (fun e st ↦ st.batches.nextKey = 1 ∧ e.Durable ⟨0, 0⟩ 0 ∧
      st.producers.get 9 = some ⟨0, 1, false⟩ ∧
      (∃ b, st.batches.get 0 = some b ∧ b.producer = some ⟨9, 0, 0, none⟩) ∧
      ∃ states, e.recover ⟨1, 1, 1⟩ 1 = .ok states ∧ ∃ st', states.get ⟨0, 0⟩ = some st' ∧ True)
    leaderOnly_implies (by decide +kernel)
  obtain ⟨hnext, hdurable, hcursor, ⟨b, hb, hproducer⟩, states, hrec, st', hst', -⟩ := h
  refine ⟨e, states, st', he, hrec, hst', ?_⟩
  refine (producer_progress_survives_iff he hrec hst hst' hcursor fun key b p hget _ _ ↦ ?_).2
    ⟨0, b, hb, _, hproducer, rfl⟩
  have hlt := (lt_nextKey_of_get hget).2
  have : key = 0 := by omega
  rwa [this]

/-- **A restart forgets a producer whose batches are truncated.** The only batch of producer 9 is
completed and truncated. After a restart its next append is refused, and the one that was completed
is taken once more. -/
theorem truncated_producer_forgotten : ∃ e st states st' r,
    EngineReachable ⟨1, 1, 1⟩ .inProducerOrder e ∧ e.states.get ⟨0, 0⟩ = some st ∧
      st.producers.get 9 = some ⟨0, 1, false⟩ ∧ e.Durable ⟨0, 0⟩ 0 ∧ st.batches.nextKey = 1 ∧
      e.recover ⟨1, 1, 1⟩ 1 = .ok states ∧ states.get ⟨0, 0⟩ = some st' ∧
      checkProducer st' 0 (some ⟨9, 0, 1, none⟩) ⟨1, by decide, by decide⟩ 0 =
        .error (.producerSequenceOutOfOrder 9 0 1) ∧
      reservedIn (reserve st' firstOfNine).1 = some r := by
  obtain ⟨e, st, he, hst, h⟩ := Engine.exists_of_play ⟨1, 1, 1⟩
    (oneProduced ++ [.command ⟨0, 0⟩ fun _ ↦ some (.truncate 1)]) ⟨0, 0⟩
    (fun e st ↦ st.producers.get 9 = some ⟨0, 1, false⟩ ∧ e.Durable ⟨0, 0⟩ 0 ∧
      st.batches.nextKey = 1 ∧
      ∃ states, e.recover ⟨1, 1, 1⟩ 1 = .ok states ∧ ∃ st', states.get ⟨0, 0⟩ = some st' ∧
        ∃ r, reservedIn (reserve st' firstOfNine).1 = some r ∧ st'.producers.get 9 = none)
    leaderOnly_implies (by decide +kernel)
  obtain ⟨hcursor, hdurable, hnext, states, hrec, st', hst', r, hr, hnone⟩ := h
  refine ⟨e, st, states, st', r, he, hst, hcursor, hdurable, hnext, hrec, hst', ?_, hr⟩
  simp [checkProducer, hnone]

end ShardStream
