import ShardStream.Library.Bytes

/-!
# Variable-length integers of Kafka records

A number is written in groups of seven bits, the lowest first, one group a byte, with the top bit
set on every byte but the last; a signed number is first folded onto the naturals (`zigzag`).
`read_varint` and `read_varlong` accept exactly the numerals of at most five (ten) groups whose
number fits 32 (64) bits, shortest or not, and leave the bytes after them.
-/

namespace ShardStream.Kafka

/-! ### Base-128 numerals -/

/-- The number of a run of groups. -/
def groupsValue : Bytes → Nat
  | [] => 0
  | byte :: groups => byte.toNat % 128 + 128 * groupsValue groups

/-- The first numeral of a byte string, up to the first byte without the top bit, and what
follows. -/
def splitGroups : Bytes → Option (Bytes × Bytes)
  | [] => none
  | byte :: input =>
    if byte.toNat < 128 then some ([byte], input)
    else (splitGroups input).map fun split ↦ (byte :: split.1, split.2)

/-- The shortest numeral of a number. -/
def encodeGroups (n : Nat) : Bytes :=
  if n < 128 then [UInt8.ofNat n] else UInt8.ofNat (n % 128 + 128) :: encodeGroups (n / 128)

/-- `0, -1, 1, -2, …` as `0, 1, 2, 3, …`. -/
def zigzag (value : Int) : Nat := if 0 ≤ value then (2 * value).toNat else (-2 * value - 1).toNat

variable {input groups rest : Bytes} {n : Nat}

theorem groupsValue_singleton {byte : UInt8} (h : byte.toNat < 128) :
    groupsValue [byte] = byte.toNat := by
  rw [groupsValue, Nat.mod_eq_of_lt h]
  rfl

theorem append_of_splitGroups (h : splitGroups input = some (groups, rest)) :
    groups ++ rest = input ∧ groups ≠ [] := by
  induction input generalizing groups with
  | nil => cases h
  | cons byte input ih =>
    rw [splitGroups] at h
    split at h
    · cases h
      exact ⟨rfl, nofun⟩
    · obtain ⟨split, hsplit, heq⟩ := Option.map_eq_some_iff.1 h
      cases heq
      exact ⟨congrArg (byte :: ·) (ih hsplit).1, nofun⟩

theorem toNat_ofNat_of_lt (h : n < 256) : (UInt8.ofNat n).toNat = n := by
  rw [UInt8.toNat_ofNat', Nat.mod_eq_of_lt h]

theorem splitGroups_encodeGroups (n : Nat) (rest : Bytes) :
    splitGroups (encodeGroups n ++ rest) = some (encodeGroups n, rest) := by
  fun_induction encodeGroups n with
  | case1 n h => rw [List.singleton_append, splitGroups, toNat_ofNat_of_lt (by omega), if_pos h]
  | case2 n h ih =>
    rw [List.cons_append, splitGroups, toNat_ofNat_of_lt (by omega), if_neg (by omega), ih]
    rfl

theorem groupsValue_encodeGroups (n : Nat) : groupsValue (encodeGroups n) = n := by
  fun_induction encodeGroups n with
  | case1 n h =>
    rw [groupsValue, groupsValue, toNat_ofNat_of_lt (by omega)]
    omega
  | case2 n h ih =>
    rw [groupsValue, ih, toNat_ofNat_of_lt (by omega)]
    omega

theorem length_encodeGroups {count : Nat} (h : n < 128 ^ (count + 1)) :
    (encodeGroups n).length ≤ count + 1 := by
  induction count generalizing n with
  | zero =>
    rw [encodeGroups, if_pos (by omega)]
    rfl
  | succ count ih =>
    rw [encodeGroups]
    split
    · exact Nat.succ_le_succ (Nat.zero_le _)
    · exact Nat.succ_le_succ (ih (Nat.div_lt_of_lt_mul (by rwa [pow_succ'] at h)))

/-! ### The reader -/

/-- What is returned for the collected bits. -/
def unzigzag {width : Nat} (value : BitVec width) : Int :=
  ((value >>> 1) ^^^ -(value &&& .ofNat width 1)).toInt

/-- The loop of `read_varint` and `read_varlong` over the shifts of the groups. The byte of the
group at `last` must have none of the bits `overflow`. The one error is `CorruptMessage`. -/
def readGroups (width last overflow : Nat) : List Nat → Nat → Bytes → Option (Int × Bytes)
  | [], _, _ => none
  | _ :: _, _, [] => none
  | shift :: shifts, value, byte :: input =>
    if shift = last ∧ byte.toNat &&& overflow ≠ 0 then none
    else
      let value := value ||| (byte.toNat &&& 0x7f) <<< shift % 2 ^ width
      if byte.toNat &&& 0x80 = 0 then some (unzigzag (.ofNat width value), input)
      else readGroups width last overflow shifts value input

/-- `read_varint`. -/
def readVarint : Bytes → Option (Int × Bytes) := readGroups 32 28 0xf0 [0, 7, 14, 21, 28] 0

/-- `read_varlong`. -/
def readVarlong : Bytes → Option (Int × Bytes) :=
  readGroups 64 63 0xfe [0, 7, 14, 21, 28, 35, 42, 49, 56, 63] 0

variable {width last overflow shift value : Nat}

theorem zigzag_unzigzag (value : BitVec width) : zigzag (unzigzag value) = value.toNat := by
  have hlt := value.isLt
  have hbit : value &&& .ofNat width 1 = .ofNat width (value.toNat % 2) := by
    rw [← Nat.and_one_is_mod, BitVec.ofNat_and, BitVec.ofNat_toNat, BitVec.setWidth_eq]
  have hhalf : (value >>> 1).toNat = value.toNat / 2 := by
    rw [BitVec.toNat_ushiftRight, Nat.shiftRight_one]
  rw [unzigzag, hbit, BitVec.toInt_eq_toNat_cond]
  obtain heven | hodd := Nat.mod_two_eq_zero_or_one value.toNat
  · rw [heven, BitVec.neg_zero, BitVec.xor_zero, hhalf, if_pos (by omega), zigzag,
      if_pos (by omega)]
    omega
  · rw [hodd, BitVec.neg_one_eq_allOnes, BitVec.xor_allOnes, BitVec.toNat_not, hhalf,
      if_neg (by omega), zigzag, if_neg (by omega)]
    omega

theorem zigzag_injective {a b : Int} (h : zigzag a = zigzag b) : a = b := by
  unfold zigzag at h
  split at h <;> split at h <;> omega

theorem or_shiftLeft {group : Nat} (hvalue : value < 2 ^ shift)
    (hgroup : 2 ^ shift * group < 2 ^ width) :
    value ||| group <<< shift % 2 ^ width = value + 2 ^ shift * group := by
  rw [Nat.shiftLeft_eq, Nat.mul_comm group, Nat.mod_eq_of_lt hgroup, Nat.or_comm,
    ← Nat.two_pow_add_eq_or_of_lt hvalue, Nat.add_comm]

theorem and_top_eq_zero (byte : UInt8) : byte.toNat &&& 0x80 = 0 ↔ byte.toNat < 128 := by
  have := (by decide +kernel : ∀ i : Fin 256, i.val &&& 0x80 = 0 ↔ i.val < 128)
  exact this ⟨byte.toNat, byte.toNat_lt⟩

theorem and_low (byte : UInt8) : byte.toNat &&& 0x7f = byte.toNat % 128 :=
  Nat.and_two_pow_sub_one_eq_mod _ 7

/-- The loop accepts the first numeral of its input if it has no more groups than the loop has left
and its number, put behind what is collected, fits. -/
theorem readGroups_eq (hlast : last < width) (hwidth : width ≤ last + 7)
    (hoverflow : ∀ byte : UInt8, byte.toNat &&& overflow = 0 ↔ byte.toNat < 2 ^ (width - last))
    (hshift : shift + 7 * n = last) (hvalue : value < 2 ^ shift) (input : Bytes) :
    readGroups width last overflow (List.range' shift (n + 1) 7) value input =
      (splitGroups input).bind fun split ↦
        if split.1.length ≤ n + 1 ∧ value + 2 ^ shift * groupsValue split.1 < 2 ^ width then
          some (unzigzag (.ofNat width (value + 2 ^ shift * groupsValue split.1)), split.2)
        else none := by
  induction n generalizing shift value input with
  | zero =>
    obtain rfl : shift = last := hshift
    have hpow : 2 ^ shift * 2 ^ (width - shift) = 2 ^ width := pow_mul_pow_sub 2 hlast.le
    have h128 : 2 ^ (width - shift) ≤ 2 ^ 7 := Nat.pow_le_pow_right (by decide) (by omega)
    cases input with
    | nil => rfl
    | cons byte input =>
      rw [List.range'_succ, readGroups, splitGroups, and_low]
      simp only [and_top_eq_zero, hoverflow, true_and, ne_eq]
      by_cases hfits : byte.toNat < 2 ^ (width - shift)
      · have hgroup := Nat.mul_le_mul_left (2 ^ shift) hfits
        rw [Nat.mul_succ, hpow] at hgroup
        rw [if_neg (not_not_intro hfits), if_pos (by omega), if_pos (by omega),
          Nat.mod_eq_of_lt (show byte.toNat < 128 by omega), or_shiftLeft hvalue (by omega),
          Option.bind_some, groupsValue_singleton (by omega), if_pos ⟨le_rfl, by omega⟩]
      · have hgroup := Nat.mul_le_mul_left (2 ^ shift) (not_lt.1 hfits)
        rw [hpow] at hgroup
        rw [if_pos hfits]
        symm
        rw [Option.bind_eq_none_iff]
        rintro ⟨groups, rest⟩ hsplit
        refine if_neg fun ⟨hlength, hnumber⟩ ↦ ?_
        split at hsplit
        · cases hsplit
          rw [groupsValue_singleton ‹_›] at hnumber
          omega
        · obtain ⟨split, htail, heq⟩ := Option.map_eq_some_iff.1 hsplit
          cases heq
          have := List.length_pos_iff.2 (append_of_splitGroups htail).2
          rw [List.length_cons] at hlength
          omega
  | succ n ih =>
    have hpow : 2 ^ (shift + 7) = 2 ^ shift * 128 := pow_add 2 shift 7
    have hle : 2 ^ (shift + 7) ≤ 2 ^ width := Nat.pow_le_pow_right (by decide) (by omega)
    cases input with
    | nil => rfl
    | cons byte input =>
      have hgroup : 2 ^ shift * (byte.toNat % 128) + 2 ^ shift ≤ 2 ^ (shift + 7) := by
        rw [hpow, ← Nat.mul_succ]
        exact Nat.mul_le_mul_left _ (Nat.mod_lt _ (by decide))
      have hnext (groups : Bytes) : value + 2 ^ shift * groupsValue (byte :: groups) =
          value + 2 ^ shift * (byte.toNat % 128) + 2 ^ (shift + 7) * groupsValue groups := by
        rw [groupsValue, hpow]
        ring
      rw [List.range'_succ, readGroups, splitGroups, if_neg (by omega), and_low,
        or_shiftLeft hvalue (by omega)]
      simp only [and_top_eq_zero]
      split
      · rw [Option.bind_some, hnext, if_pos ⟨Nat.le_add_left .., by rw [groupsValue]; omega⟩]
        rfl
      · rw [ih (by omega) (by omega), Option.bind_map]
        simp only [hnext, Function.comp_def, List.length_cons, Nat.add_le_add_iff_right]

/-- What it is for a reader to decode the numerals of at most `count` groups whose number fits. -/
structure DecodesExactly (read : Bytes → Option (Int × Bytes)) (width count : Nat) : Prop where
  decodes : ∀ value : Int, -(2 ^ (width - 1) : Nat) ≤ value → value < (2 ^ (width - 1) : Nat) →
    ∀ suffix, read (encodeGroups (zigzag value) ++ suffix) = some (value, suffix)
  accepted : ∀ input value rest, read input = some (value, rest) →
    ∃ groups, groups ++ rest = input ∧ splitGroups input = some (groups, rest) ∧
      groups.length ≤ count ∧ groupsValue groups = zigzag value
  /-- Input that ends within its first numeral, or whose first numeral does not fit. -/
  refused : ∀ input, (∀ groups rest, splitGroups input = some (groups, rest) →
    2 ^ width ≤ groupsValue groups) → read input = none

theorem decodesExactly_readGroups (hlast : 7 * n < width) (hwidth : width ≤ 7 * n + 7)
    (hoverflow : ∀ byte : UInt8, byte.toNat &&& overflow = 0 ↔ byte.toNat < 2 ^ (width - 7 * n)) :
    DecodesExactly (readGroups width (7 * n) overflow (List.range' 0 (n + 1) 7) 0) width
    (n + 1) := by
  have hread := readGroups_eq hlast hwidth hoverflow (Nat.zero_add _) Nat.one_pos
  simp only [Nat.zero_add, pow_zero, Nat.one_mul] at hread
  refine ⟨fun value hlower hupper suffix ↦ ?_, fun input value rest h ↦ ?_, fun input h ↦ ?_⟩
  · have hpow : 2 * 2 ^ (width - 1) = 2 ^ width := mul_pow_sub_one (by omega) 2
    have hfits : zigzag value < 2 ^ width := by
      unfold zigzag
      split <;> omega
    have hlength : (encodeGroups (zigzag value)).length ≤ n + 1 :=
      length_encodeGroups (hfits.trans_le (by
        rw [show 128 = 2 ^ 7 from rfl, ← pow_mul]
        exact Nat.pow_le_pow_right (by decide) (by omega)))
    have hvalue : unzigzag (.ofNat width (zigzag value)) = value := zigzag_injective (by
      rw [zigzag_unzigzag, BitVec.toNat_ofNat, Nat.mod_eq_of_lt hfits])
    rw [hread, splitGroups_encodeGroups, Option.bind_some, groupsValue_encodeGroups,
      if_pos ⟨hlength, hfits⟩, hvalue]
  · rw [hread, Option.bind_eq_some_iff] at h
    obtain ⟨⟨groups, rest'⟩, hsplit, h⟩ := h
    split at h
    case isTrue hfits =>
      cases h
      refine ⟨groups, (append_of_splitGroups hsplit).1, hsplit, hfits.1, ?_⟩
      rw [zigzag_unzigzag, BitVec.toNat_ofNat, Nat.mod_eq_of_lt hfits.2]
    case isFalse => cases h
  · rw [hread, Option.bind_eq_none_iff]
    intro split hsplit
    exact if_neg fun hfits ↦ absurd hfits.2 (h _ _ hsplit).not_gt

/-- **Variable-length integers decode exactly.** -/
theorem readVarint_readVarlong_exact :
    DecodesExactly readVarint 32 5 ∧ DecodesExactly readVarlong 64 10 := by
  have h32 := (by decide +kernel : ∀ i : Fin 256, i.val &&& 0xf0 = 0 ↔ i.val < 2 ^ (32 - 7 * 4))
  have h64 := (by decide +kernel : ∀ i : Fin 256, i.val &&& 0xfe = 0 ↔ i.val < 2 ^ (64 - 7 * 9))
  exact ⟨decodesExactly_readGroups (by decide) (by decide) fun byte ↦ h32 ⟨_, byte.toNat_lt⟩,
    decodesExactly_readGroups (by decide) (by decide) fun byte ↦ h64 ⟨_, byte.toNat_lt⟩⟩

end ShardStream.Kafka
