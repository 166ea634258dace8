import Mathlib.Data.List.Basic
import Mathlib.Order.Basic
import Mathlib.Tactic

/-!
# The dense ordered map

`ordered-segment-map` keeps values under consecutive keys: an insertion names exactly the next key,
a prefix can be dropped, and a lookup is arithmetic on the key. The segments of the implementation
are a storage matter; what its users see is the pair of the first retained key and the list of
retained values, and that pair is the map here.
-/

namespace ShardStream

/-- Values stored under the consecutive keys `firstKey, firstKey + 1, …`. -/
structure DenseOrderedMap (α : Type) where
  /-- First retained key, or the next insertion key when nothing is retained. -/
  firstKey : Nat
  /-- The retained values, in key order. -/
  values : List α
  deriving DecidableEq

namespace DenseOrderedMap

variable {α β : Type} {m : DenseOrderedMap α} {key k : Nat} {v : α}

/-- The empty map whose first insertion must use `firstKey`. -/
def new (firstKey : Nat) : DenseOrderedMap α := ⟨firstKey, []⟩

section

variable (m : DenseOrderedMap α)

/-- Number of retained entries. -/
def len : Nat := m.values.length

/-- Key required by the next insertion. -/
def nextKey : Nat := m.firstKey + m.values.length

/-- The value under an exact key. -/
def get (key : Nat) : Option α :=
  if key < m.firstKey then none else m.values[key - m.firstKey]?

/-- Append `value`; `none` unless `key` is the next key and the key after it fits in `u128`. -/
def push (key : Nat) (value : α) : Option (DenseOrderedMap α) :=
  if key ≠ m.nextKey then none
  else if key + 1 < 2 ^ 128 then some { m with values := m.values ++ [value] }
  else none

/-- Update the value under `key` in place (`get_mut` followed by assignments). -/
def modify (m : DenseOrderedMap α) (key : Nat) (f : α → α) : DenseOrderedMap α :=
  if key < m.firstKey then m
  else { m with values := m.values.modify (key - m.firstKey) f }

/-- Drop every entry with a key below `firstRetained`. -/
def truncateBefore (firstRetained : Nat) : DenseOrderedMap α :=
  let target := max m.firstKey (min firstRetained m.nextKey)
  ⟨target, m.values.drop (target - m.firstKey)⟩

/-- The values from a key on, `key` clamped into the retained range. -/
def valuesFrom (key : Nat) : List α :=
  m.values.drop (max m.firstKey (min key m.nextKey) - m.firstKey)

/-- The values that `get key`, `get (key + 1)`, … return until one of them is missing. A key below
the retained range finds nothing. -/
def scanFrom (key : Nat) : List α :=
  if key < m.firstKey then [] else m.values.drop (key - m.firstKey)

/-- The halving loop of `binary_search_by`. Each turn shrinks `right - left`, so a fuel of the
number of entries is never exhausted while `left < right`. -/
def searchLoop (m : DenseOrderedMap α) (compare : Nat → α → Ordering) :
    (fuel left right : Nat) → Except Nat Nat
  | 0, left, _ => .error (m.firstKey + left)
  | fuel + 1, left, right =>
    if left < right then
      let middle := left + (right - left) / 2
      match m.values[middle]? with
      | none => .error (m.firstKey + left)
      | some value =>
        match compare (m.firstKey + middle) value with
        | .lt => searchLoop m compare fuel (middle + 1) right
        | .eq => .ok (m.firstKey + middle)
        | .gt => searchLoop m compare fuel left middle
    else .error (m.firstKey + left)

/-- Binary search: the key of a match, or the key where one would be inserted. -/
def binarySearchBy (compare : Nat → α → Ordering) : Except Nat Nat :=
  searchLoop m compare m.len 0 m.len

end

/-! ### Lookups after an update -/

theorem get_eq_some_iff :
    m.get key = some v ↔ m.firstKey ≤ key ∧ m.values[key - m.firstKey]? = some v := by
  unfold get
  split
  · simp only [reduceCtorEq, false_iff]
    omega
  · simp only [iff_and_self]
    omega

@[simp] theorem get_new (firstKey key : Nat) :
    (new firstKey : DenseOrderedMap α).get key = none := by
  simp [get, new]

theorem get_add (m : DenseOrderedMap α) (i : Nat) : m.get (m.firstKey + i) = m.values[i]? := by
  simp [get]

theorem get_of_lt (h : key < m.firstKey) : m.get key = none := by
  simp [get, h]

theorem get_isSome_iff : (m.get key).isSome ↔ m.firstKey ≤ key ∧ key < m.nextKey := by
  unfold get nextKey
  split
  · simp only [Option.isSome_none, Bool.false_eq_true, false_iff]
    omega
  · rw [isSome_getElem?]
    omega

theorem lt_nextKey_of_get (h : m.get key = some v) : m.firstKey ≤ key ∧ key < m.nextKey :=
  get_isSome_iff.1 (by simp [h])

theorem exists_get (h₁ : m.firstKey ≤ key) (h₂ : key < m.nextKey) : ∃ v, m.get key = some v :=
  Option.isSome_iff_exists.1 (get_isSome_iff.2 ⟨h₁, h₂⟩)

theorem get_eq_none_iff : m.get key = none ↔ key < m.firstKey ∨ m.nextKey ≤ key := by
  rw [← Option.not_isSome_iff_eq_none, get_isSome_iff]
  omega

theorem mem_values_of_get (h : m.get key = some v) : v ∈ m.values :=
  List.mem_of_getElem? (get_eq_some_iff.1 h).2

theorem exists_get_of_mem (h : v ∈ m.values) : ∃ key, m.get key = some v := by
  obtain ⟨i, hi⟩ := List.getElem?_of_mem h
  exact ⟨m.firstKey + i, by rw [get_add, hi]⟩

theorem push_eq_some_iff {m' : DenseOrderedMap α} :
    m.push key v = some m' ↔
      key = m.nextKey ∧ key + 1 < 2 ^ 128 ∧ m' = { m with values := m.values ++ [v] } := by
  unfold push
  split_ifs with hk hb
  · simp [hk]
  · have hk' : key = m.nextKey := not_not.1 hk
    simp only [Option.some.injEq, hk', true_and]
    rw [← hk', and_iff_right hb]
    exact eq_comm
  · simp only [false_iff]
    exact fun h ↦ hb h.2.1

section

variable (m : DenseOrderedMap α)

/-- The map with `v` appended under its next key. -/
def snoc (v : α) : DenseOrderedMap α := { m with values := m.values ++ [v] }

@[simp] theorem firstKey_snoc (v : α) : (m.snoc v).firstKey = m.firstKey := rfl

@[simp] theorem values_snoc (v : α) : (m.snoc v).values = m.values ++ [v] := rfl

@[simp] theorem nextKey_snoc (v : α) : (m.snoc v).nextKey = m.nextKey + 1 := by
  simp [nextKey, Nat.add_assoc]

theorem get_snoc (v : α) (key : Nat) :
    (m.snoc v).get key = if key = m.nextKey then some v else m.get key := by
  rcases Nat.lt_or_ge key m.firstKey with h | h
  · have : key ≠ m.nextKey := by unfold nextKey; omega
    rw [get_of_lt h, get_of_lt (by simpa using h), if_neg this]
  · obtain ⟨i, rfl⟩ := Nat.exists_eq_add_of_le h
    rw [get_add, ← firstKey_snoc m v, get_add, values_snoc, firstKey_snoc]
    simp only [nextKey, Nat.add_right_inj]
    rcases Nat.lt_trichotomy i m.values.length with h | rfl | h
    · rw [List.getElem?_append_left h, if_neg (by omega)]
    · simp
    · rw [List.getElem?_eq_none (by simp; omega), if_neg (by omega),
        List.getElem?_eq_none (by omega)]

theorem get_snoc_of_get {m : DenseOrderedMap α} {w : α} (h : m.get key = some w) :
    (m.snoc v).get key = some w := by
  have := lt_nextKey_of_get h
  rw [get_snoc, if_neg (by omega), h]

/-- Lookups in a map with a list appended. -/
theorem get_mk_append (k : Nat) (l l' : List α) (key : Nat) :
    (⟨k, l ++ l'⟩ : DenseOrderedMap α).get key =
      if key < k + l.length then (⟨k, l⟩ : DenseOrderedMap α).get key
      else l'[key - (k + l.length)]? := by
  unfold get
  dsimp only
  split_ifs with h₁ h₂ h₂
  · rfl
  · omega
  · exact List.getElem?_append_left (by omega)
  · rw [List.getElem?_append_right (by omega)]
    congr 1
    omega

@[simp] theorem firstKey_modify (key : Nat) (f : α → α) :
    (m.modify key f).firstKey = m.firstKey := by
  unfold modify
  split <;> rfl

@[simp] theorem length_values_modify (key : Nat) (f : α → α) :
    (m.modify key f).values.length = m.values.length := by
  unfold modify
  split <;> simp

@[simp] theorem nextKey_modify (key : Nat) (f : α → α) : (m.modify key f).nextKey = m.nextKey := by
  simp [nextKey]

theorem get_modify (key j : Nat) (f : α → α) :
    (m.modify key f).get j = if j = key then (m.get j).map f else m.get j := by
  rcases Nat.lt_or_ge j m.firstKey with h | h
  · rw [get_of_lt h, get_of_lt (by simpa using h)]
    simp
  · obtain ⟨i, rfl⟩ := Nat.exists_eq_add_of_le h
    rw [get_add, ← firstKey_modify m key f, get_add, firstKey_modify]
    unfold modify
    split_ifs with h₁ h₂ h₂
    · omega
    · rfl
    · simp [← h₂]
    · have : key - m.firstKey ≠ i := by omega
      simp [this]

end

/-- An in-place update that leaves `g` alone leaves the list of all `g`-values alone. -/
theorem map_values_modify {g : α → β} {f : α → α} (hf : ∀ a, g (f a) = g a)
    (m : DenseOrderedMap α) (key : Nat) : (m.modify key f).values.map g = m.values.map g := by
  unfold modify
  split
  · rfl
  · apply List.ext_getElem?
    intro i
    simp only [List.getElem?_map, List.getElem?_modify]
    split <;> cases m.values[i]? <;> simp [hf]

section

variable (h₁ : m.firstKey ≤ k)

include h₁

theorem firstKey_truncateBefore (h₂ : k ≤ m.nextKey) : (m.truncateBefore k).firstKey = k := by
  simp only [truncateBefore]
  omega

theorem values_truncateBefore (h₂ : k ≤ m.nextKey) :
    (m.truncateBefore k).values = m.values.drop (k - m.firstKey) := by
  have : max m.firstKey (min k m.nextKey) = k := by omega
  simp only [truncateBefore, this]

theorem nextKey_truncateBefore (h₂ : k ≤ m.nextKey) : (m.truncateBefore k).nextKey = m.nextKey := by
  unfold nextKey at *
  rw [firstKey_truncateBefore h₁ h₂, values_truncateBefore h₁ h₂, List.length_drop]
  omega

theorem get_truncateBefore (h₂ : k ≤ m.nextKey) (j : Nat) :
    (m.truncateBefore k).get j = if j < k then none else m.get j := by
  unfold get
  rw [firstKey_truncateBefore h₁ h₂, values_truncateBefore h₁ h₂]
  split_ifs with h₃ h₄
  · rfl
  · omega
  · rw [List.getElem?_drop]
    congr 1
    omega

end

theorem scanFrom_add (m : DenseOrderedMap α) (i : Nat) :
    m.scanFrom (m.firstKey + i) = m.values.drop i := by
  simp [scanFrom]

/-! ### Binary search -/

/-- What the halving loop keeps: everything left of `left` compares below the target, everything
from `right` on above it. -/
theorem searchLoop_spec {compare : Nat → α → Ordering}
    (hsorted : ∀ i j u v, m.get i = some u → m.get j = some v → i < j →
      (compare i u = .lt ∨ compare j v = .gt)) :
    ∀ (fuel left right : Nat), right ≤ m.len → right - left ≤ fuel → left ≤ right →
      (∀ i v, i < left → m.get (m.firstKey + i) = some v → compare (m.firstKey + i) v = .lt) →
      (∀ i v, right ≤ i → m.get (m.firstKey + i) = some v → compare (m.firstKey + i) v = .gt) →
      match m.searchLoop compare fuel left right with
      | .ok key => ∃ v, m.get key = some v ∧ compare key v = .eq
      | .error key => m.firstKey ≤ key ∧ key ≤ m.nextKey ∧
          (∀ j v, j < key → m.get j = some v → compare j v = .lt) ∧
          (∀ j v, key ≤ j → m.get j = some v → compare j v = .gt) := by
  -- the four facts of the `error` case once the window is empty
  have hdone : ∀ left, left ≤ m.len →
      (∀ i v, i < left → m.get (m.firstKey + i) = some v → compare (m.firstKey + i) v = .lt) →
      (∀ i v, left ≤ i → m.get (m.firstKey + i) = some v → compare (m.firstKey + i) v = .gt) →
      m.firstKey ≤ m.firstKey + left ∧ m.firstKey + left ≤ m.nextKey ∧
        (∀ j v, j < m.firstKey + left → m.get j = some v → compare j v = .lt) ∧
        (∀ j v, m.firstKey + left ≤ j → m.get j = some v → compare j v = .gt) := by
    intro left hlen hlo hhi
    refine ⟨by omega, by unfold nextKey len at *; omega, fun j v hj hv ↦ ?_, fun j v hj hv ↦ ?_⟩
    all_goals
      obtain ⟨i, rfl⟩ := Nat.exists_eq_add_of_le (lt_nextKey_of_get hv).1
    · exact hlo i v (by omega) hv
    · exact hhi i v (by omega) hv
  intro fuel
  induction fuel with
  | zero =>
    intro left right hlen hfuel hle hlo hhi
    obtain rfl : left = right := by omega
    exact hdone left hlen hlo hhi
  | succ fuel ih =>
    intro left right hlen hfuel hle hlo hhi
    unfold searchLoop
    by_cases hlt : left < right
    · simp only [hlt]
      obtain ⟨v, hv⟩ : ∃ v, m.values[left + (right - left) / 2]? = some v := by
        rw [← Option.isSome_iff_exists, isSome_getElem?]
        unfold len at hlen
        omega
      have hget : m.get (m.firstKey + (left + (right - left) / 2)) = some v := by
        rw [get_add, hv]
      simp only [hv]
      -- a comparison at the middle decides every position on one side of it
      cases hc : compare (m.firstKey + (left + (right - left) / 2)) v with
      | lt =>
        refine ih _ _ hlen (by omega) (by omega) (fun i w hi hw ↦ ?_) hhi
        rcases Nat.lt_or_ge i (left + (right - left) / 2) with h | h
        · rcases hsorted _ _ _ _ hw hget (by omega) with h' | h'
          · exact h'
          · simp [hc] at h'
        · obtain rfl : i = left + (right - left) / 2 := by omega
          simp_all
      | eq => exact ⟨v, hget, hc⟩
      | gt =>
        refine ih _ _ (by omega) (by omega) (by omega) hlo (fun i w hi hw ↦ ?_)
        rcases Nat.lt_or_ge (left + (right - left) / 2) i with h | h
        · rcases hsorted _ _ _ _ hget hw (by omega) with h' | h'
          · simp [hc] at h'
          · exact h'
        · obtain rfl : i = left + (right - left) / 2 := by omega
          simp_all
    · obtain rfl : left = right := by omega
      simp only [Nat.lt_irrefl]
      exact hdone left hlen hlo hhi

/-- **Binary search**, on a map whose values are in the order of the comparison: the key found
holds a match, and otherwise the key returned separates the smaller values from the larger. -/
theorem binarySearchBy_spec (m : DenseOrderedMap α) (compare : Nat → α → Ordering)
    (hsorted : ∀ i j u v, m.get i = some u → m.get j = some v → i < j →
      (compare i u = .lt ∨ compare j v = .gt)) :
    match m.binarySearchBy compare with
    | .ok key => ∃ v, m.get key = some v ∧ compare key v = .eq
    | .error key => m.firstKey ≤ key ∧ key ≤ m.nextKey ∧
        (∀ j v, j < key → m.get j = some v → compare j v = .lt) ∧
        (∀ j v, key ≤ j → m.get j = some v → compare j v = .gt) := by
  refine searchLoop_spec hsorted m.len 0 m.len le_rfl (by omega) (by omega) (by omega) ?_
  intro i v hi hv
  have := (lt_nextKey_of_get hv).2
  unfold nextKey len at *
  omega

end DenseOrderedMap

end ShardStream
