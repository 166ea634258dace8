import ShardStream.Storage.Extent

/-!
# Writing frames under short writes

A frame is handed to the writer in one vectored write, and what that call left is written part by
part (`writeExtentFrame`); a group of frames is written by vectored writes alone
(`writeAllVectored`). To each call the writer answers how many bytes it took off the front of what
it was offered, or an error. The answers it is going to give are a list: a function that returns
`none` still waits for the next one.

A frame whose writing returned is on the file as one run of bytes, and it returns once the writer
has given as many answers that are not interruptions as the frame has bytes. A successful write of
nothing is an error of the source, and an interruption ends the vectored write, but `write_all`
calls again.
-/

namespace ShardStream.FrameWrite

open List

/-- `std::io::ErrorKind`, as far as the writing tells the kinds apart. -/
inductive IoError where
  | interrupted
  | writeZero
  | other
  deriving DecidableEq

/-- What the writer answers to one call; it never takes more than it was offered. -/
inductive Answer where
  | wrote (count : Nat)
  | failed (error : IoError)
  deriving DecidableEq

/-- A writer: the answers to come, and what it has put on the file. -/
structure Writer where
  answers : List Answer
  emitted : Bytes
  deriving DecidableEq

variable {w w' : Writer} {answers : List Answer} {buffer emitted : Bytes}
  {parts slices : List Bytes} {skip : Nat}

/-- `Write::write` and `Write::write_vectored`, the latter offered its slices end to end. -/
def Writer.write (w : Writer) (buffer : Bytes) : Option (Except IoError Nat × Writer) :=
  match w.answers with
  | [] => none
  | .wrote count :: answers =>
    some (.ok (min count buffer.length), ⟨answers, w.emitted ++ buffer.take count⟩)
  | .failed error :: answers => some (.error error, ⟨answers, w.emitted⟩)

/-- `Write::write_all`. -/
def writeAll : List Answer → Bytes → Bytes → Option (Except IoError Unit × Writer)
  | answers, [], emitted => some (.ok (), ⟨answers, emitted⟩)
  | [], _ :: _, _ => none
  | .wrote count :: answers, buffer, emitted =>
    if min count buffer.length = 0 then some (.error .writeZero, ⟨answers, emitted⟩)
    else writeAll answers (buffer.drop count) (emitted ++ buffer.take count)
  | .failed error :: answers, buffer, emitted =>
    if error = .interrupted then writeAll answers buffer emitted
    else some (.error error, ⟨answers, emitted⟩)

/-- The loop of `write_extent_frame` over the parts, `skip` bytes of which are written. -/
def writeParts : List Bytes → Nat → Writer → Option (Except IoError Unit × Writer)
  | [], _, w => some (.ok (), w)
  | part :: parts, skip, w =>
    if part.length ≤ skip then writeParts parts (skip - part.length) w
    else match writeAll w.answers (part.drop skip) w.emitted with
      | some (.ok (), w) => writeParts parts 0 w
      | stopped => stopped

/-- `write_extent_frame`. -/
def writeExtentFrame (w : Writer) (header payload checksum : Bytes) :
    Option (Except IoError Unit × Writer) :=
  match w.write [header, payload, checksum].flatten with
  | none => none
  | some (.error error, w) => some (.error error, w)
  | some (.ok written, w) =>
    if written = 0 then some (.error .writeZero, w)
    else writeParts [header, payload, checksum] written w

/-- `IoSlice::advance_slices`. -/
def advanceSlices : List Bytes → Nat → List Bytes
  | [], _ => []
  | slice :: slices, count =>
    if slice.length ≤ count then advanceSlices slices (count - slice.length)
    else slice.drop count :: slices

/-- `write_all_vectored`. -/
def writeAllVectored : List Answer → List Bytes → Bytes → Option (Except IoError Unit × Writer)
  | answers, [], emitted => some (.ok (), ⟨answers, emitted⟩)
  | [], _ :: _, _ => none
  | .wrote count :: answers, slices, emitted =>
    if min count slices.flatten.length = 0 then some (.error .writeZero, ⟨answers, emitted⟩)
    else writeAllVectored answers (advanceSlices slices (min count slices.flatten.length))
      (emitted ++ slices.flatten.take count)
  | .failed error :: answers, _, emitted => some (.error error, ⟨answers, emitted⟩)

/-! ### Nothing repeated, skipped or reordered -/

theorem writeAll_emitted (h : writeAll answers buffer emitted = some (.ok (), w)) :
    w.emitted = emitted ++ buffer := by
  fun_induction writeAll answers buffer emitted with
  | case1 answers emitted =>
    cases h
    exact (append_nil emitted).symm
  | case2 | case3 | case6 => cases h
  | case4 count answers buffer emitted _ _ ih =>
    rw [ih h, append_assoc, take_append_drop]
  | case5 answers buffer emitted _ ih => exact ih h

/-- What the loop over the parts still has to write is the frame without what is written of it. -/
theorem writeParts_emitted (h : writeParts parts skip w = some (.ok (), w')) :
    w'.emitted = w.emitted ++ parts.flatten.drop skip := by
  fun_induction writeParts parts skip w with
  | case1 skip w =>
    cases h
    simp
  | case2 part parts skip w hskip ih =>
    rw [ih h, flatten_cons, drop_append, drop_eq_nil_of_le hskip, nil_append]
  | case3 part parts skip w hskip w₁ hpart ih =>
    have hle : skip - part.length = 0 := by omega
    rw [ih h, writeAll_emitted hpart, flatten_cons, drop_append, hle, append_assoc]
  | case4 part parts skip w hskip hstopped => exact absurd h (hstopped w')

theorem flatten_advanceSlices (slices : List Bytes) (count : Nat) :
    (advanceSlices slices count).flatten = slices.flatten.drop count := by
  fun_induction advanceSlices slices count with
  | case1 count => simp
  | case2 slice slices count hle ih =>
    rw [ih, flatten_cons, drop_append, drop_eq_nil_of_le hle, nil_append]
  | case3 slice slices count hle =>
    have hzero : count - slice.length = 0 := by omega
    rw [flatten_cons, flatten_cons, drop_append, hzero, drop_zero]

/-- **A group of frames is written as one run of bytes.** Whatever the writer answers, the file has
gained a front part of the group when the writing returns, and all of it if there was no error; and
it waits for no more answers than the group has bytes, and one. -/
theorem writeAllVectored_exact (answers : List Answer) (slices : List Bytes) (emitted : Bytes) :
    match writeAllVectored answers slices emitted with
    | none => answers.length ≤ slices.flatten.length
    | some (result, w) => ∃ n, w.emitted = emitted ++ slices.flatten.take n ∧
        (result = .ok () → slices.flatten.length ≤ n) := by
  fun_induction writeAllVectored answers slices emitted with
  | case1 | case3 | case5 => exact ⟨0, by simp⟩
  | case2 => exact Nat.zero_le _
  | case4 count answers slices emitted _ hcount ih =>
    -- the rest of the group is what follows the bytes taken
    rw [flatten_advanceSlices, length_drop] at ih
    generalize writeAllVectored answers _ _ = stopped at ih ⊢
    cases stopped with
    | none =>
      rw [length_cons]
      dsimp only at ih
      omega
    | some stopped =>
      obtain ⟨n, hemitted, hall⟩ := ih
      rw [append_assoc, take_eq_take_min, ← take_add] at hemitted
      exact ⟨_, hemitted, fun hok ↦ by have := hall hok; omega⟩

/-! ### The writing returns -/

/-- How many of the answers are not interruptions. -/
def uninterrupted (answers : List Answer) : Nat := answers.countP (· ≠ .failed .interrupted)

@[simp] theorem uninterrupted_wrote (count : Nat) :
    uninterrupted (.wrote count :: answers) = uninterrupted answers + 1 :=
  countP_cons_of_pos rfl

/-- Every answer but an interruption pays for a byte of the buffer or ends the call. -/
theorem writeAll_returns (emitted : Bytes) (h : buffer.length ≤ uninterrupted answers) :
    ∃ result, writeAll answers buffer emitted = some result ∧
      (result.1 = .ok () →
        uninterrupted answers ≤ uninterrupted result.2.answers + buffer.length) := by
  fun_induction writeAll answers buffer emitted with
  | case1 answers emitted => exact ⟨_, rfl, fun _ ↦ le_rfl⟩
  | case2 => cases h
  | case3 => exact ⟨_, rfl, nofun⟩
  | case4 count answers buffer emitted _ hcount ih =>
    rw [uninterrupted_wrote] at h ⊢
    rw [length_drop] at ih
    obtain ⟨result, hresult, hleft⟩ := ih (by omega)
    exact ⟨result, hresult, fun hok ↦ by have := hleft hok; omega⟩
  | case5 answers buffer emitted _ ih => exact ih h
  | case6 => exact ⟨_, rfl, nofun⟩

theorem writeParts_returns (h : (parts.flatten.drop skip).length ≤ uninterrupted w.answers) :
    (writeParts parts skip w).isSome := by
  induction parts generalizing skip w with
  | nil => rfl
  | cons part parts ih =>
    rw [writeParts]
    split
    case isTrue hskip =>
      rw [flatten_cons, drop_append, drop_eq_nil_of_le hskip] at h
      exact ih h
    case isFalse hskip =>
      rw [length_drop, flatten_cons, length_append] at h
      have hpart : (part.drop skip).length ≤ uninterrupted w.answers := by
        rw [length_drop]
        omega
      obtain ⟨⟨result, w₁⟩, hresult, hleft⟩ := writeAll_returns w.emitted hpart
      rw [hresult]
      cases result with
      | error => rfl
      | ok =>
        have hw₁ : uninterrupted w.answers ≤ uninterrupted w₁.answers + (part.drop skip).length :=
          hleft rfl
        rw [length_drop] at hw₁
        exact ih (by rw [drop_zero]; omega)

/-- **A frame is written as one run of bytes.** Whatever the writer answers, a writing that returned
without an error has added the header, the payload and the checksum to the file; and it returns once
the writer has given as many answers that are not interruptions as the frame has bytes. -/
theorem writeExtentFrame_exact (w : Writer) (header payload checksum : Bytes)
    (hchecksum : checksum.length = checksumLen) :
    (∀ w', writeExtentFrame w header payload checksum = some (.ok (), w') →
      w'.emitted = w.emitted ++ (header ++ payload ++ checksum)) ∧
    ((header ++ payload ++ checksum).length ≤ uninterrupted w.answers →
      (writeExtentFrame w header payload checksum).isSome) := by
  have hframe : header ++ payload ++ checksum = [header, payload, checksum].flatten := by simp
  have hlength : 0 < [header, payload, checksum].flatten.length := by
    rw [← hframe, length_append, hchecksum]
    exact Nat.lt_add_left _ (by decide)
  obtain ⟨answers, emitted⟩ := w
  rw [hframe, writeExtentFrame, Writer.write]
  cases answers with
  | nil => exact ⟨nofun, fun h ↦ absurd h hlength.not_ge⟩
  | cons answer answers =>
    cases answer with
    | failed error => exact ⟨nofun, fun _ ↦ rfl⟩
    | wrote count =>
      dsimp only
      split
      case isTrue => exact ⟨nofun, fun _ ↦ rfl⟩
      case isFalse hcount =>
        refine ⟨fun w' h ↦ ?_, fun h ↦ writeParts_returns ?_⟩
        · rw [writeParts_emitted h, append_assoc, take_eq_take_min, take_append_drop]
        · rw [uninterrupted_wrote] at h
          show _ ≤ uninterrupted answers
          rw [length_drop]
          omega

theorem writeExtentFrame_exact_short :
    (writeExtentFrame ⟨[.wrote 2, .failed .interrupted, .wrote 1, .wrote 9], []⟩ [1] [2, 3]
      [4, 5, 6, 7, 8, 9, 10, 11]).map (·.2.emitted) = some [1, 2, 3, 4, 5, 6, 7, 8, 9, 10, 11] ∧
    (writeExtentFrame ⟨replicate 11 (.wrote 1), []⟩ [1] [2, 3] [4, 5, 6, 7, 8, 9, 10, 11]).isSome :=
  ⟨by decide, (writeExtentFrame_exact _ [1] [2, 3] _ rfl).2 (by decide)⟩

/-- A writer whose every answer after the first is an interruption is called again for ever,
although its one successful write took a byte. -/
theorem writeExtentFrame_interrupted_for_ever :
    ¬ ∀ (header payload checksum : Bytes) (answers : Nat → Answer), checksum.length = checksumLen →
      (∀ n count, answers n = .wrote count → 0 < count) →
      ∃ n, (writeExtentFrame ⟨(range n).map answers, []⟩ header payload checksum).isSome := by
  intro h
  obtain ⟨n, hn⟩ := h [0, 0] [] (.le 8 0) (fun n ↦ if n = 0 then .wrote 1 else .failed .interrupted)
    rfl (by intro n count hn; split at hn <;> cases hn; decide)
  cases n with
  | zero => cases hn
  | succ n =>
    have hwaits : writeAll (replicate n (.failed .interrupted)) [0] [0] = none := by
      clear hn
      induction n with
      | zero => rfl
      | succ n ih => exact ih
    simp [range_succ_eq_map, Function.comp_def, writeExtentFrame, Writer.write, writeParts,
      hwaits] at hn

end ShardStream.FrameWrite
