import Mathlib.Algebra.Order.Ring.Nat
import Mathlib.Tactic.Ring

/-!
# Byte strings and readers

A number of fixed width is written least significant byte first (`Bytes.le`). A **reader** takes
values off the front of a byte string and may fail. What a reader is for is the relation
`Reads r bytes a`: given `bytes` followed by anything, `r` returns `a` and leaves what follows. The
relation composes along `bind` as byte strings compose along `++`, so that a codec is verified field
by field, in the order in which the fields are written.
-/

/-- A string of bytes. -/
abbrev Bytes := List UInt8

namespace Bytes

/-- The `width` bytes of `n`, least significant first; what does not fit is dropped. -/
def le : Nat → Nat → Bytes
  | 0, _ => []
  | width + 1, n => UInt8.ofNat n :: le width (n / 256)

/-- The number with the given bytes, least significant first. -/
def ofLe : Bytes → Nat
  | [] => 0
  | b :: bs => b.toNat + 256 * ofLe bs

@[simp] theorem length_le (width n : Nat) : (le width n).length = width := by
  induction width generalizing n with
  | zero => rfl
  | succ width ih => rw [le, List.length_cons, ih]

theorem ofLe_le {width n : Nat} (h : n < 256 ^ width) : ofLe (le width n) = n := by
  induction width generalizing n with
  | zero =>
    have : n = 0 := by simpa using h
    rw [this]
    rfl
  | succ width ih =>
    have hquotient : n / 256 < 256 ^ width := by
      rw [Nat.div_lt_iff_lt_mul (by omega)]
      rwa [pow_succ] at h
    rw [le, ofLe, ih hquotient]
    exact Nat.mod_add_div n 256

/-- A text of numbers is determined by its length and its number. -/
theorem le_ofLe (bs : Bytes) : le bs.length (ofLe bs) = bs := by
  induction bs with
  | nil => rfl
  | cons b bs ih =>
    have hlow : UInt8.ofNat (b.toNat + 256 * ofLe bs) = b := by
      refine UInt8.toNat_inj.1 ?_
      rw [UInt8.toNat_ofNat', Nat.add_mul_mod_self_left, Nat.mod_eq_of_lt b.toNat_lt]
    have hhigh : (b.toNat + 256 * ofLe bs) / 256 = ofLe bs := by
      have := b.toNat_lt
      omega
    rw [List.length_cons, ofLe, le, hlow, hhigh, ih]

theorem ofLe_lt (bs : Bytes) : ofLe bs < 256 ^ bs.length := by
  induction bs with
  | nil => exact Nat.one_pos
  | cons b bs ih =>
    have := b.toNat_lt
    rw [ofLe, List.length_cons]
    omega

end Bytes

/-- A computation that takes a value off the front of a byte string, or fails. -/
abbrev Reader (ε α : Type) := StateT Bytes (Except ε) α

namespace Reader

variable {ε α β : Type} {r : Reader ε α} {bytes bytes' rest : Bytes} {a : α} {x : Except ε α}
  {f : α → Reader ε β} {b : β} {short : ε} {n width : Nat} {put : α → Bytes}

/-- Take `n` bytes; fail with `short` when there are fewer. -/
def take (short : ε) (n : Nat) : Reader ε Bytes := fun bytes ↦
  if bytes.length < n then .error short else .ok (bytes.take n, bytes.drop n)

/-- Take a number of `width` bytes. -/
def number (short : ε) (width : Nat) : Reader ε Nat := do
  let bytes ← take short width
  pure (Bytes.ofLe bytes)

/-- On `bytes` followed by anything the reader returns `a` and leaves what follows. -/
def Reads (r : Reader ε α) (bytes : Bytes) (a : α) : Prop :=
  ∀ rest, r (bytes ++ rest) = .ok (a, rest)

theorem Reads.pure (a : α) : Reads (Pure.pure a : Reader ε α) [] a := fun _ ↦ rfl

/-- What a sequence of readers does with bytes that the first one reads. -/
theorem Reads.bind_append (h : Reads r bytes a) (f : α → Reader ε β) (rest : Bytes) :
    (r >>= f) (bytes ++ rest) = f a rest := by
  change (r (bytes ++ rest)).bind _ = _
  rw [h]
  rfl

theorem bind_liftM_ok (h : x = .ok a) (f : α → Reader ε β) (rest : Bytes) :
    ((liftM x : Reader ε α) >>= f) rest = f a rest := by
  subst h
  rfl

/-- **Readers compose as byte strings do.** -/
theorem Reads.bind (h : Reads r bytes a) (h' : Reads (f a) bytes' b) :
    Reads (r >>= f) (bytes ++ bytes') b := by
  intro rest
  rw [List.append_assoc, h.bind_append]
  exact h' rest

/-- The last reader of a sequence. -/
theorem Reads.map {f : α → β} (h : Reads r bytes a) :
    Reads (r >>= fun a ↦ Pure.pure (f a)) bytes (f a) := by
  have := h.bind (f := fun a ↦ Pure.pure (f a)) (Reads.pure (f a))
  rwa [List.append_nil] at this

theorem reads_take (h : bytes.length = n) : Reads (take short n) bytes bytes := by
  intro rest
  have hlength : ¬ (bytes ++ rest).length < n := by
    rw [List.length_append]
    omega
  rw [take, if_neg hlength, List.take_left' h, List.drop_left' h]

theorem reads_number (h : n < 256 ^ width) : Reads (number short width) (Bytes.le width n) n := by
  have := (@reads_take ε _ short _ (Bytes.length_le width n)).map (f := Bytes.ofLe)
  rwa [Bytes.ofLe_le h] at this

/-! What a reader accepted begins with the text of the value it returned. -/

theorem bind_eq_ok (h : (r >>= f) bytes = .ok (b, rest)) :
    ∃ a mid, r bytes = .ok (a, mid) ∧ f a mid = .ok (b, rest) := by
  change (r bytes).bind _ = _ at h
  cases hr : r bytes with
  | error e => rw [hr] at h; cases h
  | ok res =>
    rw [hr] at h
    exact ⟨res.1, res.2, rfl, h⟩

theorem take_bind_eq_ok {f : Bytes → Reader ε β} (h : (take short n >>= f) bytes = .ok (b, rest)) :
    ∃ text mid, text.length = n ∧ bytes = text ++ mid ∧ f text mid = .ok (b, rest) := by
  obtain ⟨text, mid, htake, h⟩ := bind_eq_ok h
  unfold take at htake
  split_ifs at htake with hshort
  cases htake
  refine ⟨_, _, ?_, (List.take_append_drop n bytes).symm, h⟩
  rw [List.length_take]
  omega

theorem number_bind_eq_ok {f : Nat → Reader ε β}
    (h : (number short width >>= f) bytes = .ok (b, rest)) :
    ∃ n mid, n < 256 ^ width ∧ bytes = .le width n ++ mid ∧ f n mid = .ok (b, rest) := by
  rw [number, bind_assoc] at h
  obtain ⟨text, mid, rfl, rfl, hrest⟩ := take_bind_eq_ok h
  exact ⟨_, mid, Bytes.ofLe_lt text, by rw [Bytes.le_ofLe], hrest⟩

theorem liftM_bind_eq_ok (h : ((liftM x : Reader ε α) >>= f) bytes = .ok (b, rest)) :
    ∃ a, x = .ok a ∧ f a bytes = .ok (b, rest) := by
  cases x with
  | error e => cases h
  | ok a => exact ⟨a, rfl, h⟩

/-- Two texts that a reader reads, one the front of the other, have the same value. -/
theorem Reads.inj {a' : α} (h : Reads r bytes a) (h' : Reads r bytes' a')
    (hfront : bytes <+: bytes') : a = a' := by
  obtain ⟨rest, rfl⟩ := hfront
  have heq := (h rest).symm.trans ((List.append_nil _).symm ▸ h' [])
  exact congrArg Prod.fst (Except.ok.inj heq)

/-- A value that stands for another. -/
theorem Reads.map_eq {f : α → β} (h : Reads r bytes a) (hb : f a = b) :
    Reads (f <$> r) bytes b := by
  subst hb
  intro rest
  change (r (bytes ++ rest)).map _ = _
  rw [h]
  rfl

/-- A count, as that many ones before a zero. -/
def count (short : ε) : Reader ε Nat
  | [] => .error short
  | byte :: bytes =>
    if byte = 0 then .ok (0, bytes)
    else (count short bytes).map fun (n, rest) ↦ (n + 1, rest)

theorem reads_count (n : Nat) : Reads (count short) (List.replicate n 1 ++ [0]) n := by
  intro rest
  induction n with
  | zero => rfl
  | succ n ih =>
    rw [List.replicate_succ, List.cons_append, List.cons_append, count, ih]
    rfl

/-- So many values, one after the other. -/
def times (r : Reader ε α) : Nat → Reader ε (List α)
  | 0 => pure []
  | n + 1 => do
    let a ← r
    let rest ← times r n
    pure (a :: rest)

theorem reads_times (h : ∀ a, Reads r (put a) a) (as : List α) :
    Reads (times r as.length) (as.flatMap put) as := by
  induction as with
  | nil => exact Reads.pure []
  | cons a as ih => exact (h a).bind ih.map

/-- A list is read with its length before it. -/
def list (short : ε) (r : Reader ε α) : Reader ε (List α) := count short >>= times r

theorem reads_list (h : ∀ a, Reads r (put a) a) (as : List α) :
    Reads (list short r) (List.replicate as.length 1 ++ [0] ++ as.flatMap put) as :=
  (reads_count as.length).bind (reads_times h as)

end Reader
