import ShardStream.Library.Bytes
import ShardStream.Library.Table

/-!
# File operations and crashes

A program that works on files, seen as a function of the files it finds: it returns a result, or
fails, and lists the effects it had on the way. Each effect changes one file at a time. `Crash` is
the relation between the files before, the effects of a program, and the files that a crash may
leave: the effects up to some point are done, the next one is not or, if it is a write, partly, and
no later one is.

`Op.bind_eq_ok_iff` takes a program that succeeded apart, step by step.
-/

namespace Files

variable {π ε α β : Type} [DecidableEq π]

/-- The contents of the files that exist. -/
abbrev Directory (π : Type) := Table π Bytes

/-- A change of the files. -/
inductive Effect (π : Type) where
  /-- An empty file is created. -/
  | create (path : π)
  /-- Bytes are written at the end of a file. -/
  | write (path : π) (bytes : Bytes)
  /-- A file gets another name, in place of a file that has it. -/
  | rename (source target : π)
  | remove (path : π)

/-- The files after an effect. -/
def Effect.apply (fs : Directory π) : Effect π → Directory π
  | .create path => fs.insert path []
  | .write path bytes => fs.insert path ((fs.get path).getD [] ++ bytes)
  | .rename source target =>
    match fs.get source with
    | some bytes => (fs.erase source).insert target bytes
    | none => fs
  | .remove path => fs.erase path

/-- The files after some effects. -/
def after (fs : Directory π) (effects : List (Effect π)) : Directory π :=
  effects.foldl Effect.apply fs

/-- The files that a crash may leave. -/
inductive Crash : Directory π → List (Effect π) → Directory π → Prop
  | stopped (fs : Directory π) (effects : List (Effect π)) : Crash fs effects fs
  | torn (fs : Directory π) (path : π) (bytes : Bytes) (written : Nat) (effects : List (Effect π)) :
      Crash fs (.write path bytes :: effects) (Effect.apply fs (.write path (bytes.take written)))
  | next {fs fs' : Directory π} {effect : Effect π} {effects : List (Effect π)}
      (h : Crash (effect.apply fs) effects fs') : Crash fs (effect :: effects) fs'

omit [DecidableEq π] in
/-- A program that works on files. -/
def Op (π ε α : Type) : Type := Directory π → Except ε α × List (Effect π)

namespace Op

instance : Monad (Op π ε) where
  pure a := fun _ ↦ (.ok a, [])
  bind x f := fun fs ↦
    match x fs with
    | (.error e, effects) => (.error e, effects)
    | (.ok a, effects) => ((f a (after fs effects)).1, effects ++ (f a (after fs effects)).2)

/-- A look at the files that changes nothing. -/
def inspect (x : Directory π → Except ε α) : Op π ε α := fun fs ↦ (x fs, [])

/-- Make changes. -/
def perform (effects : List (Effect π)) : Op π ε Unit := fun _ ↦ (.ok (), effects)

/-- Create a file that must not exist. -/
def createNew (exists? : ε) (path : π) : Op π ε Unit := fun fs ↦
  if (fs.get path).isSome then (.error exists?, []) else (.ok (), [.create path])

/-- If the program fails, make a change. -/
def orElse (x : Op π ε α) (effect : Effect π) : Op π ε α := fun fs ↦
  match x fs with
  | (.error e, effects) => (.error e, effects ++ [effect])
  | (.ok a, effects) => (.ok a, effects)

section Ok

variable {fs : Directory π} {effects : List (Effect π)} {a : α} {x : Op π ε α}

omit [DecidableEq π] in
theorem inspect_eq_ok_iff {x : Directory π → Except ε α} :
    (inspect x) fs = (.ok a, effects) ↔ x fs = .ok a ∧ effects = [] := by
  simp [inspect]

omit [DecidableEq π] in
theorem perform_eq_ok_iff {done : List (Effect π)} {u : Unit} :
    (perform done : Op π ε Unit) fs = (.ok u, effects) ↔ effects = done := by
  simp [perform, eq_comm]

omit [DecidableEq π] in
theorem createNew_eq_ok_iff {e : ε} {path : π} {u : Unit} :
    (createNew e path : Op π ε Unit) fs = (.ok u, effects) ↔
      fs.get path = none ∧ effects = [.create path] := by
  cases h : fs.get path <;> simp [createNew, h, eq_comm]

omit [DecidableEq π] in
theorem orElse_eq_ok_iff {effect : Effect π} :
    x.orElse effect fs = (.ok a, effects) ↔ x fs = (.ok a, effects) := by
  unfold orElse
  split
  next e es h => simp [h]
  next a' es h => rw [h]

theorem pure_eq_ok_iff {b : α} :
    (pure a : Op π ε α) fs = (.ok b, effects) ↔ a = b ∧ effects = [] := by
  simp [pure]

/-- **A program that succeeded, step by step.** -/
theorem bind_eq_ok_iff {f : α → Op π ε β} {b : β} :
    (x >>= f) fs = (.ok b, effects) ↔ ∃ a done rest, x fs = (.ok a, done) ∧
      f a (after fs done) = (.ok b, rest) ∧ effects = done ++ rest := by
  simp only [bind]
  split
  next e es h => simp [h]
  next a' es h =>
    rw [h]
    constructor
    · intro heq
      obtain ⟨hb, hes⟩ := Prod.mk.inj heq
      exact ⟨a', es, _, rfl, Prod.ext hb rfl, hes.symm⟩
    · rintro ⟨a, done, rest, heq, hf, rfl⟩
      cases heq
      rw [hf]

end Ok

end Op

section After

variable {fs fs' : Directory π} {effects effects' : List (Effect π)} {effect : Effect π}
  {path temporary : π} {bytes : Bytes}

@[simp] theorem after_nil : after fs [] = fs := rfl

@[simp] theorem after_cons : after fs (effect :: effects) = after (effect.apply fs) effects := rfl

theorem after_append : after fs (effects ++ effects') = after (after fs effects) effects' :=
  List.foldl_append ..

/-- **A crash, split between two parts of a program.** It comes after the first part, or the second
part never starts. -/
theorem Crash.exists_of_append (h : Crash fs (effects ++ effects') fs') :
    ∃ mid, Crash fs effects mid ∧ Crash mid effects' fs' ∧
      (mid = after fs effects ∨ fs' = mid) := by
  induction effects generalizing fs with
  | nil => exact ⟨_, .stopped .., h, .inl rfl⟩
  | cons effect effects ih =>
    cases h with
    | stopped => exact ⟨_, .stopped .., .stopped .., .inr rfl⟩
    | torn => exact ⟨_, .torn .., .stopped .., .inr rfl⟩
    | next h =>
      obtain ⟨mid, hmid, hrest, hend⟩ := ih h
      exact ⟨mid, .next hmid, hrest, hend⟩

/-- A program that is not interrupted. -/
theorem Crash.complete (fs : Directory π) (effects : List (Effect π)) :
    Crash fs effects (after fs effects) := by
  induction effects generalizing fs with
  | nil => exact .stopped ..
  | cons effect effects ih => exact .next (ih _)

/-- A program that is interrupted between two effects. -/
theorem Crash.take (fs : Directory π) (effects : List (Effect π)) (n : Nat) :
    Crash fs effects (after fs (effects.take n)) := by
  induction effects generalizing fs n with
  | nil => exact (List.take_nil).symm ▸ .stopped ..
  | cons effect effects ih =>
    cases n with
    | zero => exact .stopped ..
    | succ n => exact .next (ih _ n)

/-- The files that an effect changes. -/
def Effect.paths : Effect π → List π
  | .create path | .write path _ | .remove path => [path]
  | .rename source target => [source, target]

theorem Effect.get_apply_of_notMem (h : path ∉ effect.paths) :
    (effect.apply fs).get path = fs.get path := by
  cases effect with
  | create | write => exact fs.get_insert_of_ne _ (by simpa [paths] using h)
  | remove p => exact fs.get_erase_of_ne (by simpa [paths] using h)
  | rename p q =>
    simp only [paths, List.mem_cons, List.not_mem_nil, or_false, not_or] at h
    simp only [Effect.apply]
    split
    · rw [Table.get_insert_of_ne _ _ h.2, Table.get_erase_of_ne _ h.1]
    · rfl

theorem get_after_of_notMem (h : ∀ effect ∈ effects, path ∉ effect.paths) :
    (after fs effects).get path = fs.get path := by
  induction effects generalizing fs with
  | nil => rfl
  | cons effect effects ih =>
    obtain ⟨heffect, heffects⟩ := List.forall_mem_cons.1 h
    rw [after_cons, ih heffects, Effect.get_apply_of_notMem heffect]

/-- A crash leaves alone what no effect changes. -/
theorem Crash.get_of_notMem (h : Crash fs effects fs')
    (hpath : ∀ effect ∈ effects, path ∉ effect.paths) : fs'.get path = fs.get path := by
  induction h with
  | stopped => rfl
  | torn fs p bytes written effects =>
    exact Table.get_insert_of_ne _ _
      (by simpa [Effect.paths] using (List.forall_mem_cons.1 hpath).1)
  | next h ih =>
    obtain ⟨heffect, heffects⟩ := List.forall_mem_cons.1 hpath
    rw [ih heffects, Effect.get_apply_of_notMem heffect]

/-- Write a new file. -/
def writeNew (path : π) (bytes : Bytes) : List (Effect π) := [.create path, .write path bytes]

/-- Write a file under a temporary name and put it in place. -/
def replace (temporary path : π) (bytes : Bytes) : List (Effect π) :=
  [.create temporary, .write temporary bytes, .rename temporary path]

omit [DecidableEq π] in
theorem notMem_paths_writeNew {p : π} (h : p ≠ path) :
    ∀ effect ∈ writeNew path bytes, p ∉ effect.paths := by
  simp [writeNew, Effect.paths, h]

omit [DecidableEq π] in
theorem notMem_paths_replace {p : π} (ht : p ≠ temporary) (h : p ≠ path) :
    ∀ effect ∈ replace temporary path bytes, p ∉ effect.paths := by
  simp [replace, Effect.paths, h, ht]

theorem get_after_writeNew : (after fs (writeNew path bytes)).get path = some bytes := by
  simp [writeNew, Effect.apply]

theorem get_after_replace : (after fs (replace temporary path bytes)).get path = some bytes := by
  simp [replace, Effect.apply]

/-- A crash while a new file is written leaves none, or the front of it. -/
theorem Crash.writeNew (h : Crash fs (writeNew path bytes) fs') :
    fs'.get path = fs.get path ∨ ∃ written, fs'.get path = some (bytes.take written) := by
  cases h with
  | stopped => exact .inl rfl
  | next h =>
    refine .inr ?_
    cases h with
    | stopped => exact ⟨0, by simp [Effect.apply]⟩
    | torn _ _ _ written => exact ⟨written, by simp [Effect.apply]⟩
    | next h =>
      cases h
      exact ⟨bytes.length, by simp [Effect.apply]⟩

/-- **Putting a file in place is atomic.** -/
theorem Crash.replace (hne : path ≠ temporary) (h : Crash fs (replace temporary path bytes) fs') :
    fs'.get path = fs.get path ∨ fs'.get path = some bytes := by
  cases h with
  | stopped => exact .inl rfl
  | next h =>
    cases h with
    | stopped => exact .inl (Table.get_insert_of_ne _ _ hne)
    | torn => exact .inl (by simp [Effect.apply, Table.get_insert, hne])
    | next h =>
      cases h with
      | stopped => exact .inl (by simp [Effect.apply, Table.get_insert, hne])
      | next h =>
        cases h
        exact .inr (by simp [Effect.apply])

end After

end Files
