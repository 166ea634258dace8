import Mathlib.Data.List.Sort

/-!
# Merging lanes

Several lists, the lanes, are merged by taking the least head again and again, as with a heap that
holds one entry per lane. Every element comes out with the number of its lane, so that something
else that is kept per lane can later be taken in the same order (`takeTurns`).

From sorted lanes the merge is sorted, and it is a permutation of what the lanes hold.
-/

namespace Lanes

open List

variable {α β ε : Type} {key : α → Nat} {i n : Nat} {lanes rest : List (List α)} {xs : List α}
  {least : Nat × α}

/-! ### Merging -/

/-- The elements of the lanes, with the numbers of their lanes. The first lane has number `i`. -/
def tagged : Nat → List (List α) → List (Nat × α)
  | _, [] => []
  | i, lane :: lanes => lane.map (i, ·) ++ tagged (i + 1) lanes

/-- The least head, of equal ones that of the first lane, and the lanes without it. -/
def pop (key : α → Nat) : Nat → List (List α) → Option ((Nat × α) × List (List α))
  | _, [] => none
  | i, [] :: lanes => (pop key (i + 1) lanes).map fun (least, rest) ↦ (least, [] :: rest)
  | i, (x :: xs) :: lanes =>
    match pop key (i + 1) lanes with
    | none => some ((i, x), xs :: lanes)
    | some (least, rest) =>
      if key x ≤ key least.2 then some ((i, x), xs :: lanes) else some (least, (x :: xs) :: rest)

/-- Taking the least head `fuel` times. -/
def mergeLoop (key : α → Nat) : Nat → List (List α) → List (Nat × α)
  | 0, _ => []
  | fuel + 1, lanes =>
    match pop key 0 lanes with
    | none => []
    | some (least, rest) => least :: mergeLoop key fuel rest

/-- The lanes merged. -/
def merge (key : α → Nat) (lanes : List (List α)) : List (Nat × α) :=
  mergeLoop key lanes.flatten.length lanes

/-- The lanes are sorted. -/
def Sorted (key : α → Nat) (lanes : List (List α)) : Prop :=
  ∀ lane ∈ lanes, lane.Pairwise fun a b ↦ key a ≤ key b

theorem map_snd_tagged (i : Nat) (lanes : List (List α)) :
    (tagged i lanes).map Prod.snd = lanes.flatten := by
  induction lanes generalizing i with
  | nil => rfl
  | cons lane lanes ih => simp [tagged, ih]

theorem mem_tagged_iff {p : Nat × α} :
    p ∈ tagged i lanes ↔ ∃ j lane, lanes[j]? = some lane ∧ p.1 = i + j ∧ p.2 ∈ lane := by
  induction lanes generalizing i with
  | nil => simp [tagged]
  | cons lane lanes ih =>
    rw [tagged, mem_append, mem_map, ih]
    constructor
    · rintro (⟨x, hx, rfl⟩ | ⟨j, lane', hj, hp, hx⟩)
      · exact ⟨0, lane, rfl, rfl, hx⟩
      · exact ⟨j + 1, lane', hj, by omega, hx⟩
    · rintro ⟨j, lane', hj, hp, hx⟩
      cases j with
      | zero =>
        cases hj
        exact .inl ⟨p.2, hx, Prod.ext hp.symm rfl⟩
      | succ j => exact .inr ⟨j, lane', hj, by omega, hx⟩

/-- A relation between the elements of each lane, and between those of different lanes. -/
theorem pairwise_tagged {R : Nat × α → Nat × α → Prop}
    (hlane : ∀ (j : Nat) (lane : List α), lanes[j]? = some lane →
      lane.Pairwise fun a b ↦ R (i + j, a) (i + j, b))
    (hlanes : ∀ p ∈ tagged i lanes, ∀ q ∈ tagged i lanes, p.1 < q.1 → R p q) :
    (tagged i lanes).Pairwise R := by
  induction lanes generalizing i with
  | nil => exact .nil
  | cons lane lanes ih =>
    refine pairwise_append.2 ⟨?_, ?_, fun p hp q hq ↦ ?_⟩
    · exact pairwise_map.2 (hlane 0 lane rfl)
    · refine ih (fun j lane' hj ↦ ?_) fun p hp q hq ↦
        hlanes p (mem_append_right _ hp) q (mem_append_right _ hq)
      have := hlane (j + 1) lane' hj
      rwa [Nat.add_assoc, Nat.add_comm 1 j]
    · refine hlanes p (mem_append_left _ hp) q (mem_append_right _ hq) ?_
      obtain ⟨x, -, rfl⟩ := mem_map.1 hp
      obtain ⟨j, -, -, hj, -⟩ := mem_tagged_iff.1 hq
      omega

theorem pop_eq_none (h : pop key i lanes = none) : tagged i lanes = [] := by
  induction lanes generalizing i with
  | nil => rfl
  | cons lane lanes ih =>
    cases lane with
    | nil =>
      rw [pop, Option.map_eq_none_iff] at h
      simp [tagged, ih h]
    | cons x xs =>
      rw [pop] at h
      split at h
      · cases h
      · split_ifs at h

/-- What a pop does: the lanes lose the element, and from sorted lanes it is a least one. -/
structure Popped (key : α → Nat) (i : Nat) (lanes : List (List α)) (least : Nat × α)
    (rest : List (List α)) : Prop where
  perm : (tagged i lanes).Perm (least :: tagged i rest)
  sorted : Sorted key lanes → Sorted key rest
  least_le : Sorted key lanes → ∀ p ∈ tagged i rest, key least.2 ≤ key p.2

/-- Taking the head of the first lane, when it is a least one. -/
theorem Popped.head {x : α} (h : Sorted key lanes → ∀ p ∈ tagged (i + 1) lanes, key x ≤ key p.2) :
    Popped key i ((x :: xs) :: lanes) (i, x) (xs :: lanes) where
  perm := List.Perm.refl _
  sorted hs := by
    obtain ⟨hlane, hlanes⟩ := forall_mem_cons.1 hs
    exact forall_mem_cons.2 ⟨hlane.of_cons, hlanes⟩
  least_le hs p hp := by
    obtain ⟨hlane, hlanes⟩ := forall_mem_cons.1 hs
    rcases mem_append.1 hp with hp | hp
    · obtain ⟨y, hy, rfl⟩ := mem_map.1 hp
      exact rel_of_pairwise_cons hlane hy
    · exact h hlanes p hp

/-- Passing over a lane whose elements are above the one taken. -/
theorem Popped.skip {lane : List α} (h : Popped key (i + 1) lanes least rest)
    (hle : Sorted key (lane :: lanes) → ∀ x ∈ lane, key least.2 ≤ key x) :
    Popped key i (lane :: lanes) least (lane :: rest) where
  perm := (h.perm.append_left _).trans perm_middle
  sorted hs := by
    obtain ⟨hlane, hlanes⟩ := forall_mem_cons.1 hs
    exact forall_mem_cons.2 ⟨hlane, h.sorted hlanes⟩
  least_le hs p hp := by
    rcases mem_append.1 hp with hp | hp
    · obtain ⟨y, hy, rfl⟩ := mem_map.1 hp
      exact hle hs y hy
    · exact h.least_le (forall_mem_cons.1 hs).2 p hp

theorem popped_of_pop (h : pop key i lanes = some (least, rest)) :
    Popped key i lanes least rest := by
  induction lanes generalizing i least rest with
  | nil => cases h
  | cons lane lanes ih =>
    cases lane with
    | nil =>
      rw [pop, Option.map_eq_some_iff] at h
      obtain ⟨⟨least', rest'⟩, h, heq⟩ := h
      cases heq
      exact (ih h).skip (by simp)
    | cons x xs =>
      rw [pop] at h
      split at h
      next hnone =>
        cases h
        refine .head fun _ p hp ↦ ?_
        rw [pop_eq_none hnone] at hp
        cases hp
      next least' rest' hsome =>
        have hpopped := ih hsome
        split_ifs at h with hle
        · cases h
          refine .head fun hs p hp ↦ ?_
          rcases mem_cons.1 (hpopped.perm.mem_iff.1 hp) with rfl | hp
          · exact hle
          · exact hle.trans (hpopped.least_le hs p hp)
        · cases h
          refine hpopped.skip fun hs y hy ↦ ?_
          rcases mem_cons.1 hy with rfl | hy
          · omega
          · have := rel_of_pairwise_cons (forall_mem_cons.1 hs).1 hy
            omega

theorem mergeLoop_perm {fuel : Nat} (h : (tagged 0 lanes).length ≤ fuel) :
    (mergeLoop key fuel lanes).Perm (tagged 0 lanes) := by
  induction fuel generalizing lanes with
  | zero => rw [length_eq_zero_iff.1 (Nat.le_zero.1 h), mergeLoop]
  | succ fuel ih =>
    rw [mergeLoop]
    split
    next hnone => rw [pop_eq_none hnone]
    next least rest hsome =>
      have hpopped := popped_of_pop hsome
      have hlength := hpopped.perm.length_eq
      rw [length_cons] at hlength
      exact ((ih (by omega)).cons _).trans hpopped.perm.symm

/-- **The merge has what the lanes have.** -/
theorem merge_perm (key : α → Nat) (lanes : List (List α)) :
    (merge key lanes).Perm (tagged 0 lanes) :=
  mergeLoop_perm (by rw [← map_snd_tagged 0 lanes, length_map])

/-- **The merge of sorted lanes is sorted.** -/
theorem merge_sorted (h : Sorted key lanes) :
    (merge key lanes).Pairwise fun p q ↦ key p.2 ≤ key q.2 := by
  unfold merge
  have hlength : (tagged 0 lanes).length ≤ lanes.flatten.length := by
    rw [← map_snd_tagged 0 lanes, length_map]
  generalize lanes.flatten.length = fuel at hlength ⊢
  induction fuel generalizing lanes with
  | zero => exact .nil
  | succ fuel ih =>
    rw [mergeLoop]
    split
    · exact .nil
    next least rest hsome =>
      have hpopped := popped_of_pop hsome
      have hlength' := hpopped.perm.length_eq
      rw [length_cons] at hlength'
      refine pairwise_cons.2 ⟨fun p hp ↦ ?_, ih (hpopped.sorted h) (by omega)⟩
      exact hpopped.least_le h p ((mergeLoop_perm (by omega)).mem_iff.1 hp)

/-! ### Front parts of sorted lists -/

theorem takeWhile_eq_filter {p : α → Bool} (h : xs.Pairwise fun a b ↦ p b = true → p a = true) :
    xs.takeWhile p = xs.filter p := by
  induction xs with
  | nil => rfl
  | cons x xs ih =>
    obtain ⟨hx, hxs⟩ := pairwise_cons.1 h
    cases hp : p x with
    | true => rw [takeWhile_cons_of_pos hp, filter_cons_of_pos hp, ih hxs]
    | false =>
      have hrest : xs.filter p = [] := filter_eq_nil_iff.2 fun y hy hpy ↦ by
        rw [hx y hy hpy] at hp
        cases hp
      rw [takeWhile_cons_of_neg (by simp [hp]), filter_cons_of_neg (by simp [hp]), hrest]

/-- A sorted part of a sorted list is a front part of it when it is closed downwards. -/
theorem isPrefix_iff_of_pairwise {ys : List α} (hxs : xs.Pairwise fun a b ↦ key a < key b)
    (hys : ys.Pairwise fun a b ↦ key a < key b) (hsub : ∀ x ∈ xs, x ∈ ys) :
    xs <+: ys ↔ ∀ x ∈ xs, ∀ y ∈ ys, key y < key x → y ∈ xs := by
  constructor
  · rintro ⟨zs, rfl⟩ x hx y hy hlt
    rcases mem_append.1 hy with hy | hy
    · exact hy
    · have := (pairwise_append.1 hys).2.2 x hx y hy
      omega
  · intro hclosed
    induction ys generalizing xs with
    | nil =>
      obtain rfl : xs = [] := eq_nil_iff_forall_not_mem.2 fun x hx ↦ not_mem_nil (hsub x hx)
      exact nil_prefix
    | cons y ys ih =>
      cases xs with
      | nil => exact nil_prefix
      | cons x xs =>
        obtain ⟨hx, hxs'⟩ := pairwise_cons.1 hxs
        obtain ⟨hy, hys'⟩ := pairwise_cons.1 hys
        have hxy : x = y := by
          rcases mem_cons.1 (hsub x (mem_cons_self ..)) with heq | hmem
          · exact heq
          · -- otherwise `y` is below `x`, and so among `xs`, all of which are above `x`
            have hlt := hy x hmem
            rcases mem_cons.1 (hclosed x (mem_cons_self ..) y (mem_cons_self ..) hlt)
              with heq | hmem'
            · exact heq.symm
            · have := hx y hmem'
              omega
        subst hxy
        refine (prefix_cons_inj x).2 (ih hxs' hys' (fun z hz ↦ ?_) fun z hz w hw hlt ↦ ?_)
        · have hlt := hx z hz
          rcases mem_cons.1 (hsub z (mem_cons_of_mem _ hz)) with rfl | hmem
          · omega
          · exact hmem
        · have hlt' := hy w hw
          rcases mem_cons.1 (hclosed z (mem_cons_of_mem _ hz) w
            (mem_cons_of_mem _ hw) hlt) with rfl | hmem
          · omega
          · exact hmem

/-! ### Taking turns -/

/-- Elements with lane numbers, sorted back into `n` lanes. -/
def deal (n : Nat) (elements : List (Nat × α)) : List (List α) :=
  (range n).map fun i ↦ (elements.filter (·.1 = i)).map Prod.snd

/-- The first elements of the lanes, in the order given by lane numbers. -/
def takeTurns (mismatch : ε) : List (List α) → List Nat → Except ε (List α)
  | _, [] => .ok []
  | lanes, i :: order =>
    match lanes[i]? with
    | some (x :: xs) => (takeTurns mismatch (lanes.set i xs) order).map (x :: ·)
    | _ => .error mismatch

theorem getElem?_deal_map (hi : i < n) (f : Nat × α → β) (elements : List (Nat × α)) :
    (deal n (elements.map fun p ↦ (p.1, f p)))[i]? = some ((elements.filter (·.1 = i)).map f) := by
  simp [deal, hi, filter_map, Function.comp_def]

theorem deal_cons (hi : i < n) (x : α) (elements : List (Nat × α)) :
    (deal n ((i, x) :: elements))[i]? = some (x :: ((elements.filter (·.1 = i)).map Prod.snd)) ∧
      (deal n ((i, x) :: elements)).set i ((elements.filter (·.1 = i)).map Prod.snd) =
        deal n elements := by
  constructor
  · simp [deal, hi]
  · refine ext_getElem? fun j ↦ ?_
    rw [getElem?_set]
    by_cases hj : i = j
    · subst hj
      simp [deal, hi]
    · rw [if_neg hj]
      by_cases hjn : j < n
      · simp [deal, hjn, hj]
      · simp [deal, hjn]

/-- **Taking turns undoes dealing.** -/
theorem takeTurns_deal {elements : List (Nat × α)} (mismatch : ε) (h : ∀ p ∈ elements, p.1 < n) :
    takeTurns mismatch (deal n elements) (elements.map Prod.fst) = .ok (elements.map Prod.snd) := by
  induction elements with
  | nil => rfl
  | cons p elements ih =>
    obtain ⟨i, x⟩ := p
    obtain ⟨hi, hrest⟩ := forall_mem_cons.1 h
    obtain ⟨hhead, hset⟩ := deal_cons hi x elements
    rw [map_cons, takeTurns, hhead]
    dsimp only
    rw [hset, ih hrest]
    rfl

theorem takeTurns_map (mismatch : ε) (f : α → β) (lanes : List (List α)) (order : List Nat) :
    takeTurns mismatch (lanes.map (map f)) order =
      (takeTurns mismatch lanes order).map (map f) := by
  induction order generalizing lanes with
  | nil => rfl
  | cons i order ih =>
    rw [takeTurns, takeTurns, getElem?_map]
    rcases lanes[i]? with - | (- | ⟨x, xs⟩)
    · rfl
    · rfl
    · change (takeTurns mismatch ((lanes.map (map f)).set i (xs.map f)) order).map _ =
        ((takeTurns mismatch (lanes.set i xs) order).map (x :: ·)).map (map f)
      rw [← map_set, ih]
      cases takeTurns mismatch (lanes.set i xs) order <;> rfl

end Lanes
