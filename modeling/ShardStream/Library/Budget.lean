import Mathlib.Algebra.Order.BigOperators.Group.List
import Mathlib.Algebra.Order.Ring.Nat
import Mathlib.Data.List.Basic
import Mathlib.Data.Nat.SuccPred

/-!
# A prefix within a budget

Reading a batch of elements of different sizes under a limit on their total: elements are taken from
the front until the next one would exceed the limit. The first element is taken whatever its size,
so that a reader makes progress past an element larger than the limit. The total is kept in a
machine word, and an addition that overflows is an error of the caller's choice.
-/

namespace Budget

open List

variable {α β ε : Type}

/-- The elements taken from the front of the list, when `room` more may be taken, their sizes so far
add up to `used`, and `taken` tells whether there are any. -/
def takeWithin (size : α → Nat) (limit : Nat) (overflow : ε) :
    Nat → Nat → Bool → List α → Except ε (List α)
  | 0, _, _, _ => .ok []
  | _, _, _, [] => .ok []
  | room + 1, used, taken, x :: xs =>
    if 2 ^ 64 ≤ used + size x then .error overflow
    else if taken ∧ limit < used + size x then .ok []
    else (takeWithin size limit overflow room (used + size x) true xs).map (x :: ·)

variable {size key : α → Nat} {limit count : Nat} {overflow : ε} {room used : Nat} {taken : Bool}
  {xs ys before : List α} {x : α} {Q : List α → α → Prop}

/-- The sizes are all that matters. -/
theorem takeWithin_map (f : β → α) (xs : List β) :
    takeWithin size limit overflow room used taken (xs.map f) =
      (takeWithin (size ∘ f) limit overflow room used taken xs).map (map f) := by
  induction xs generalizing room used taken with
  | nil => cases room <;> rfl
  | cons x xs ih =>
    cases room with
    | zero => rfl
    | succ room =>
      simp only [map_cons, takeWithin, Function.comp_apply]
      split_ifs
      · rfl
      · rfl
      · rw [ih]
        cases takeWithin (size ∘ f) limit overflow room (used + size (f x)) true xs <;> rfl

theorem takeWithin_congr {size' : α → Nat} (h : ∀ x ∈ xs, size x = size' x) :
    takeWithin size limit overflow room used taken xs =
      takeWithin size' limit overflow room used taken xs := by
  induction xs generalizing room used taken with
  | nil => cases room <;> rfl
  | cons x xs ih =>
    cases room with
    | zero => rfl
    | succ room =>
      obtain ⟨hx, hxs⟩ := forall_mem_cons.1 h
      rw [takeWithin, takeWithin, hx, ih hxs]

theorem takeWithin_prefix (h : takeWithin size limit overflow room used taken xs = .ok ys) :
    ys <+: xs := by
  induction xs generalizing room used taken ys with
  | nil => cases room <;> cases h <;> exact nil_prefix
  | cons x xs ih =>
    cases room with
    | zero =>
      cases h
      exact nil_prefix
    | succ room =>
      rw [takeWithin] at h
      split_ifs at h
      · cases h
        exact nil_prefix
      · cases hrest : takeWithin size limit overflow room (used + size x) true xs with
        | error e => rw [hrest] at h; cases h
        | ok zs =>
          rw [hrest] at h
          cases h
          exact (prefix_cons_inj x).2 (ih hrest)

/-- The element is the first one, or the sizes stay within the limit. -/
def Within (size : α → Nat) (limit : Nat) (before : List α) (x : α) : Prop :=
  before = [] ∨ (before.map size).sum + size x ≤ limit

instance (size : α → Nat) (limit : Nat) (before : List α) (x : α) :
    Decidable (Within size limit before x) :=
  inferInstanceAs (Decidable (_ ∨ _))

/-- The order of the elements before does not matter. -/
theorem within_congr {before' : List α} (h : before.Perm before') (x : α) :
    Within size limit before x ↔ Within size limit before' x := by
  have hnil : before = [] ↔ before' = [] := by
    rw [← length_eq_zero_iff, h.length_eq, length_eq_zero_iff]
  rw [Within, Within, hnil, (h.map size).sum_nat]

/-- There is room for one more element after `before`, within the limit. -/
def Fits (size : α → Nat) (limit room : Nat) (before : List α) (x : α) : Prop :=
  before.length < room ∧ Within size limit before x

instance (size : α → Nat) (limit room : Nat) (before : List α) (x : α) :
    Decidable (Fits size limit room before x) :=
  inferInstanceAs (Decidable (_ ∧ _))

/-- At most `room` elements and within the limit, or a first element by itself. -/
def Limited (size : α → Nat) (limit room used : Nat) (taken : Bool) (ys : List α) : Prop :=
  ys.length ≤ room ∧ (ys = [] ∨ taken = false ∧ ys.length ≤ 1 ∨ used + (ys.map size).sum ≤ limit)

theorem limited_nil : Limited size limit room used taken [] := ⟨Nat.zero_le _, .inl rfl⟩

theorem limited_cons_iff (hx : ¬ (taken ∧ limit < used + size x)) :
    Limited size limit (room + 1) used taken (x :: ys) ↔
      Limited size limit room (used + size x) true ys := by
  simp only [Limited, Nat.add_assoc]
  cases taken <;> cases ys <;> simp at hx ⊢
  omega

theorem Limited.of_append {more : List α} (h : Limited size limit room used taken (ys ++ more)) :
    Limited size limit room used taken ys := by
  obtain ⟨hlength, hsum⟩ := h
  simp only [length_append, map_append, sum_append, append_eq_nil_iff]
    at hlength hsum
  refine ⟨by omega, ?_⟩
  rcases hsum with hnil | ⟨hfirst, hone⟩ | hsum
  · exact .inl hnil.1
  · exact .inr (.inl ⟨hfirst, by omega⟩)
  · exact .inr (.inr (by omega))

/-- **The longest limited prefix** is taken, unless the next sum passes a machine word. -/
theorem takeWithin_longest (size : α → Nat) (limit : Nat) (overflow : ε) (room used : Nat)
    (taken : Bool) (xs : List α) :
    (∃ ys, takeWithin size limit overflow room used taken xs = .ok ys ∧ ys <+: xs ∧
      Limited size limit room used taken ys ∧
      ∀ zs, zs <+: xs → Limited size limit room used taken zs → zs <+: ys) ∨
    takeWithin size limit overflow room used taken xs = .error overflow ∧
      ∃ ys x, ys ++ [x] <+: xs ∧ Limited size limit room used taken ys ∧
        2 ^ 64 ≤ used + (ys.map size).sum + size x := by
  induction xs generalizing room used taken with
  | nil =>
    refine .inl ⟨[], ?_, nil_prefix, limited_nil, fun zs hzs _ ↦ hzs⟩
    cases room <;> rfl
  | cons x xs ih =>
    cases room with
    | zero =>
      refine .inl ⟨[], rfl, nil_prefix, limited_nil, fun zs _ hlimited ↦ ?_⟩
      obtain rfl := length_eq_zero_iff.1 (Nat.le_zero.1 hlimited.1)
      exact nil_prefix
    | succ room =>
      rw [takeWithin]
      split_ifs with hover hfull
      · exact .inr ⟨rfl, [], x, ⟨xs, rfl⟩, limited_nil, hover⟩
      · refine .inl ⟨[], rfl, nil_prefix, limited_nil, fun zs hzs hlimited ↦ ?_⟩
        rcases prefix_cons_iff.1 hzs with rfl | ⟨zs, rfl, -⟩
        · exact nil_prefix
        · -- already its first element is too much
          have hle := hlimited.2
          simp [hfull.1] at hle
          omega
      · rcases ih room (used + size x) true with ⟨ys, hys, hpre, hlimited, hlongest⟩ |
          ⟨herror, ys, y, hpre, hlimited, hover'⟩
        · refine .inl ⟨x :: ys, by rw [hys]; rfl, (prefix_cons_inj x).2 hpre,
            (limited_cons_iff hfull).2 hlimited, fun zs hzs hzlimited ↦ ?_⟩
          rcases prefix_cons_iff.1 hzs with rfl | ⟨zs, rfl, hrest⟩
          · exact nil_prefix
          · exact (prefix_cons_inj x).2 (hlongest zs hrest ((limited_cons_iff hfull).1 hzlimited))
        · refine .inr ⟨by rw [herror]; rfl, x :: ys, y, (prefix_cons_inj x).2 hpre,
            (limited_cons_iff hfull).2 hlimited, ?_⟩
          rwa [map_cons, sum_cons, ← Nat.add_assoc]

/-- **What is taken**, where no sum overflows: the elements that fit after those before them. -/
theorem takeWithin_eq_take (overflow : ε) (room : Nat) (hsize : ∀ x ∈ xs, size x < 2 ^ 63)
    (hlimit : limit ≤ 2 ^ 63) :
    ∃ count, takeWithin size limit overflow room 0 false xs = .ok (xs.take count) ∧
      ∀ before x after, xs = before ++ x :: after →
        (before.length < count ↔ Fits size limit room before x) := by
  have hfits : ∀ before x, Limited size limit room 0 false (before ++ [x]) ↔
      Fits size limit room before x := by
    simp [Limited, Fits, Within]
  rcases takeWithin_longest size limit overflow room 0 false xs with
    ⟨ys, hys, hpre, hlimited, hlongest⟩ | ⟨-, ys, x, ⟨rest, rfl⟩, hlimited, hover⟩
  · refine ⟨ys.length, by rw [hys, ← prefix_iff_eq_take.1 hpre], fun before x after heq ↦ ?_⟩
    have hnext : before ++ [x] <+: xs := ⟨after, by simp [heq]⟩
    rw [← hfits]
    constructor
    · intro hlt
      obtain ⟨more, rfl⟩ := prefix_of_prefix_length_le hnext hpre (by simp; omega)
      exact hlimited.of_append
    · intro hlimited'
      have := (hlongest _ hnext hlimited').length_le
      simp at this
      omega
  · -- what was taken is one element or within the limit, and one more is too small to overflow
    have hsmall : (ys.map size).sum ≤ 2 ^ 63 := by
      rcases hlimited.2 with rfl | ⟨-, hone⟩ | hsum
      · exact Nat.zero_le _
      · rcases ys with _ | ⟨y, _ | ⟨z, zs⟩⟩
        · exact Nat.zero_le _
        · simpa using (hsize y (by simp)).le
        · simp at hone
      · omega
    have := hsize x (by simp)
    omega

/-- Where the elements to skip come first, what remains are the others. -/
theorem dropWhile_eq_filter_of_pairwise {p : α → Bool}
    (h : xs.Pairwise fun a b ↦ p b = true → p a = true) :
    xs.dropWhile p = xs.filter fun x ↦ !p x := by
  induction xs with
  | nil => rfl
  | cons x xs ih =>
    obtain ⟨hx, hxs⟩ := pairwise_cons.1 h
    rcases hpx : p x with _ | _
    · rw [dropWhile_cons_of_neg (by simp [hpx]), filter_cons_of_pos (by simp [hpx])]
      refine congrArg _ (filter_eq_self.2 fun y hy ↦ ?_).symm
      rcases hpy : p y with _ | _
      · rfl
      · exact absurd (hx y hy hpy) (by simp [hpx])
    · rw [dropWhile_cons_of_pos hpx, filter_cons_of_neg (by simp [hpx]), ih hxs]

/-- In a sorted list the elements before `x` are those below it. -/
theorem filter_eq_of_pairwise {after : List α}
    (h : (before ++ x :: after).Pairwise fun a b ↦ key a < key b) :
    (before ++ x :: after).filter (fun a ↦ decide (key a < key x)) = before := by
  obtain ⟨-, hafter, hbefore⟩ := pairwise_append.1 h
  have hbefore' : before.filter (fun a ↦ decide (key a < key x)) = before :=
    filter_eq_self.2 fun a ha ↦ decide_eq_true (hbefore a ha x (mem_cons_self ..))
  have hafter' : (x :: after).filter (fun a ↦ decide (key a < key x)) = [] := by
    refine filter_eq_nil_iff.2 fun a ha ↦ ?_
    rcases mem_cons.1 ha with rfl | ha
    · simp
    · have := rel_of_pairwise_cons hafter ha
      simp only [decide_eq_true_eq]
      omega
  rw [filter_append, hbefore', hafter', append_nil]

/-- A front part of a sorted list, when membership is decided by what comes before. -/
theorem mem_take_iff (hsorted : xs.Pairwise fun a b ↦ key a < key b)
    (hcount : ∀ before x after, xs = before ++ x :: after → (before.length < count ↔ Q before x)) :
    x ∈ xs.take count ↔ x ∈ xs ∧ Q (xs.filter fun a ↦ decide (key a < key x)) x := by
  constructor
  · intro hx
    obtain ⟨i, hi, rfl⟩ := getElem_of_mem hx
    rw [length_take] at hi
    have hlt : i < xs.length := by omega
    have hsplit : xs = xs.take i ++ xs[i] :: xs.drop (i + 1) := by
      rw [getElem_cons_drop, take_append_drop]
    have hlength : (xs.take i).length = i := by rw [length_take]; omega
    have hfilter := filter_eq_of_pairwise (hsplit ▸ hsorted)
    rw [← hsplit] at hfilter
    rw [getElem_take, hfilter]
    exact ⟨getElem_mem hlt, (hcount _ _ _ hsplit).1 (by omega)⟩
  · rintro ⟨hx, hQ⟩
    obtain ⟨before, after, rfl⟩ := append_of_mem hx
    rw [filter_eq_of_pairwise hsorted] at hQ
    have hlt := (hcount before x after rfl).2 hQ
    rw [take_append]
    refine mem_append_right _ ?_
    obtain ⟨k, hk⟩ : ∃ k, count - before.length = k + 1 := ⟨count - before.length - 1, by omega⟩
    rw [hk]
    exact mem_cons_self ..

/-- The same front part, as a filter. -/
theorem take_eq_filter [∀ before x, Decidable (Q before x)]
    (hsorted : xs.Pairwise fun a b ↦ key a < key b)
    (hcount : ∀ before x after, xs = before ++ x :: after → (before.length < count ↔ Q before x)) :
    xs.take count = xs.filter fun x ↦ decide (Q (xs.filter fun a ↦ decide (key a < key x)) x) := by
  have hmem : ∀ x, x ∈ xs.take count ↔
      x ∈ xs ∧ Q (xs.filter fun a ↦ decide (key a < key x)) x :=
    fun x ↦ mem_take_iff hsorted hcount
  have hnodup : xs.Nodup := hsorted.imp fun hlt heq ↦ by rw [heq] at hlt; omega
  have hfront : (xs.take count).filter
      (fun x ↦ decide (Q (xs.filter fun a ↦ decide (key a < key x)) x)) = xs.take count :=
    filter_eq_self.2 fun x hx ↦ decide_eq_true ((hmem x).1 hx).2
  have hback : (xs.drop count).filter
      (fun x ↦ decide (Q (xs.filter fun a ↦ decide (key a < key x)) x)) = [] := by
    refine filter_eq_nil_iff.2 fun x hx hQ ↦ ?_
    have htake := (hmem x).2 ⟨mem_of_mem_drop hx, of_decide_eq_true hQ⟩
    exact disjoint_take_drop hnodup (Nat.le_refl _) htake hx
  conv_rhs => rw [← take_append_drop count xs]
  rw [filter_append, take_append_drop, hfront, hback, append_nil]

/-- Distinct elements that all occur in `ys`, those of size zero apart, have no more in total. -/
theorem sum_map_le_of_nodup (hxs : xs.Nodup) (h : ∀ x ∈ xs, size x ≠ 0 → x ∈ ys) :
    (xs.map size).sum ≤ (ys.map size).sum := by
  have hsum : (xs.map size).sum = ((xs.filter fun x ↦ decide (size x ≠ 0)).map size).sum := by
    clear hxs h
    induction xs with
    | nil => rfl
    | cons x xs ih => by_cases hx : size x = 0 <;> simp [hx, ih]
  obtain ⟨zs, hperm, hsub⟩ := subperm_of_subset (hxs.filter fun x ↦ decide (size x ≠ 0))
    fun x hx ↦ h x (mem_filter.1 hx).1 (of_decide_eq_true (mem_filter.1 hx).2)
  rw [hsum, ← (hperm.map size).sum_eq]
  exact (hsub.map size).sum_le_sum fun _ _ ↦ Nat.zero_le _

end Budget
