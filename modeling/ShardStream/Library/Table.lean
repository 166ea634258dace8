import Mathlib.Logic.Function.Basic
import Mathlib.Data.Option.Basic

/-!
# Lookup tables

A finite map, seen through its lookups only: `Table κ ν` is the function that returns the value
stored under a key, if any. Hash maps and ordered maps of a program are both such tables as long as
the program never depends on the order in which their entries are visited; where it does, the model
of that program keeps the list of keys beside the table.

Every operation comes with the one equation that says what a later lookup returns. Proofs about a
program use these equations and never unfold the operations.
-/

/-- A map from keys to values, as the function computed by its lookup. -/
def Table (κ ν : Type) : Type := κ → Option ν

namespace Table

variable {κ ν μ : Type} {t : Table κ ν}

/-- The value stored under `k`. -/
def get (t : Table κ ν) (k : κ) : Option ν := t k

@[ext] theorem ext {u : Table κ ν} (h : ∀ k, t.get k = u.get k) : t = u := funext h

/-- The table without entries. -/
def empty : Table κ ν := fun _ ↦ none

@[simp] theorem get_empty (k : κ) : (empty : Table κ ν).get k = none := rfl

/-- `t` holds an entry for `k`. -/
def contains (t : Table κ ν) (k : κ) : Bool := (t.get k).isSome

theorem contains_eq_false_iff {k : κ} : t.contains k = false ↔ t.get k = none := by
  simp [contains]

theorem contains_iff {k : κ} : t.contains k = true ↔ ∃ v, t.get k = some v := by
  simp [contains, Option.isSome_iff_exists]

section Update

variable [DecidableEq κ] {k j : κ}

section

variable (t : Table κ ν)

/-- Store `v` under `k`, replacing what was there. -/
def insert (k : κ) (v : ν) : Table κ ν := Function.update t k (some v)

@[simp] theorem get_insert_self (k : κ) (v : ν) : (t.insert k v).get k = some v :=
  Function.update_self ..

theorem get_insert_of_ne (v : ν) (h : j ≠ k) : (t.insert k v).get j = t.get j :=
  Function.update_of_ne h ..

theorem get_insert (k j : κ) (v : ν) :
    (t.insert k v).get j = if j = k then some v else t.get j := by
  by_cases h : j = k
  · subst h; simp
  · simp [get_insert_of_ne t v h, h]

theorem get_insert_eq_some_iff {t : Table κ ν} {v w : ν} :
    (t.insert k v).get j = some w ↔ j = k ∧ v = w ∨ j ≠ k ∧ t.get j = some w := by
  by_cases h : j = k <;> simp [get_insert, h]

/-- Storing what is there changes nothing. -/
theorem insert_of_get {t : Table κ ν} {v : ν} (h : t.get k = some v) : t.insert k v = t :=
  ext fun j ↦ by
    by_cases hj : j = k
    · rw [hj, get_insert_self, h]
    · rw [get_insert_of_ne t v hj]

/-- Forget the entry of `k`. -/
def erase (k : κ) : Table κ ν := Function.update t k none

@[simp] theorem get_erase_self (k : κ) : (t.erase k).get k = none := Function.update_self ..

theorem get_erase_of_ne (h : j ≠ k) : (t.erase k).get j = t.get j :=
  Function.update_of_ne h ..

/-- Apply `f` to the value stored under `k`, if there is one. -/
def modify (k : κ) (f : ν → ν) : Table κ ν := Function.update t k ((t.get k).map f)

@[simp] theorem get_modify_self (k : κ) (f : ν → ν) : (t.modify k f).get k = (t.get k).map f :=
  Function.update_self ..

theorem get_modify_of_ne (f : ν → ν) (h : j ≠ k) : (t.modify k f).get j = t.get j :=
  Function.update_of_ne h ..

theorem get_modify (k j : κ) (f : ν → ν) :
    (t.modify k f).get j = if j = k then (t.get j).map f else t.get j := by
  by_cases h : j = k
  · subst h; simp
  · simp [get_modify_of_ne t f h, h]

end

end Update

section

variable (t : Table κ ν)

/-- Apply `f` to every stored value. -/
def map (f : κ → ν → μ) : Table κ μ := fun k ↦ (t.get k).map (f k)

@[simp] theorem get_map (f : κ → ν → μ) (k : κ) : (t.map f).get k = (t.get k).map (f k) := rfl

/-- The entries whose key starts with `k`, under the rest of their key. -/
def row {ι : Type} (t : Table (ι × κ) ν) (i : ι) : Table κ ν := fun k ↦ t.get (i, k)

@[simp] theorem get_row {ι : Type} (t : Table (ι × κ) ν) (i : ι) (k : κ) :
    (t.row i).get k = t.get (i, k) := rfl

/-- Keep the entries whose value satisfies `p`. -/
def retain (p : ν → Bool) : Table κ ν := fun k ↦ (t.get k).filter p

@[simp] theorem get_retain (p : ν → Bool) (k : κ) : (t.retain p).get k = (t.get k).filter p := rfl

end

end Table
