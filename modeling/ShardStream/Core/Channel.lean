import Mathlib.Algebra.Order.Ring.Nat
import Mathlib.Logic.Relation
import Mathlib.Tactic.SplitIfs

/-!
# The byte-bounded channel

A value is sent with a charge in bytes, and a counter that all threads share bounds the charges. A
value outside of the queue belongs to one thread; taking it apart is that thread's own work, and
what is left of it is dropped later. A step is one access to the counter or to the queue, or one
value taken apart, by any thread. What a refused send gives back to its caller is left out.

The counter is the sum of the charges of all values and of the reservations of sends under way: the
charge is moved, never copied, when a value is taken apart, and released when what carries it is
dropped.
-/

namespace ShardStream.ByteChannel

/-- `Budgeted`, with the budget of the channel. -/
structure Budgeted (τ : Type) where
  item : Option τ
  chargedBytes : Nat

/-- `ReserveError`. -/
inductive ReserveError where
  | tooLarge
  | unavailable

/-- `ByteBudget::try_reserve`: the counter after it. -/
def tryReserve (max used bytes : Nat) : Except ReserveError Nat :=
  if max < bytes then .error .tooLarge
  else if used + bytes < 2 ^ 64 ∧ used + bytes ≤ max then .ok (used + bytes)
  else .error .unavailable

/-- `ByteBudget::release`: the counter after it, which wraps around. -/
def release (used bytes : Nat) : Nat := (used + 2 ^ 64 - bytes) % 2 ^ 64

namespace Budgeted

variable {τ υ ε : Type}

/-- `Budgeted::new`. -/
def new (item : τ) (chargedBytes : Nat) : Budgeted τ := ⟨some item, chargedBytes⟩

/-- `Budgeted::into_inner`: the item, and what is left to be dropped. -/
def intoInner (b : Budgeted τ) : Option (τ × Budgeted τ) :=
  b.item.map fun item ↦ (item, { b with item := none })

/-- `Budgeted::into_parts`. -/
def intoParts (b : Budgeted τ) : Option (τ × Budgeted Unit × Budgeted τ) :=
  b.item.map fun item ↦ (item, .new () b.chargedBytes, ⟨none, 0⟩)

/-- `Budgeted::try_map`. -/
def tryMap (f : τ → Except ε υ) (b : Budgeted τ) :
    Option (Except ε (Budgeted υ) × Budgeted τ) :=
  b.item.map fun item ↦ match f item with
    | .error e => (.error e, { b with item := none })
    | .ok mapped => (.ok (.new mapped b.chargedBytes), ⟨none, 0⟩)

end Budgeted

/-- `ShardCommand`, as far as `retain_physical_charge` tells the commands apart. -/
inductive ShardCommand where
  | ownedGc
  | append (admission : Bool)
  | proposedAppend
  | boundedFetch
  | other

/-- The commands that keep their charge until they are settled. -/
def ShardCommand.retains : ShardCommand → Bool
  | .append admission => admission
  | .other => false
  | _ => true

/-- `retain_physical_charge`: the command with the charge it keeps, and what is left to be
dropped. -/
def retainPhysicalCharge (b : Budgeted ShardCommand) :
    Option ((ShardCommand × Option (Budgeted Unit)) × Budgeted ShardCommand) :=
  b.item.bind fun command ↦
    if command.retains then b.intoParts.map fun parts ↦ ((command, some parts.2.1), parts.2.2)
    else b.intoInner.map fun inner ↦ ((command, none), inner.2)

/-- A value taken apart, and the values that are there instead. -/
inductive TakenApart : Sigma Budgeted → List (Sigma Budgeted) → Prop
  | intoInner {τ : Type} {b left : Budgeted τ} {item : τ} (h : b.intoInner = some (item, left)) :
      TakenApart ⟨τ, b⟩ [⟨τ, left⟩]
  | intoParts {τ : Type} {b left : Budgeted τ} {item : τ} {charge : Budgeted Unit}
      (h : b.intoParts = some (item, charge, left)) : TakenApart ⟨τ, b⟩ [⟨Unit, charge⟩, ⟨τ, left⟩]
  | tryMap {τ υ ε : Type} {b left : Budgeted τ} {f : τ → Except ε υ}
      {mapped : Except ε (Budgeted υ)} (h : b.tryMap f = some (mapped, left)) :
      TakenApart ⟨τ, b⟩ (mapped.toOption.toList.map (⟨υ, ·⟩) ++ [⟨τ, left⟩])
  | retain {b left : Budgeted ShardCommand} {command : ShardCommand}
      {charge : Option (Budgeted Unit)}
      (h : retainPhysicalCharge b = some ((command, charge), left)) :
      TakenApart ⟨_, b⟩ (charge.toList.map (⟨Unit, ·⟩) ++ [⟨_, left⟩])

/-- The charges of values, together. -/
def charges (values : List (Sigma Budgeted)) : Nat := (values.map (·.2.chargedBytes)).sum

theorem TakenApart.charges_eq {v : Sigma Budgeted} {values : List (Sigma Budgeted)}
    (h : TakenApart v values) : charges values = v.2.chargedBytes := by
  cases h with
  | intoInner h =>
    obtain ⟨item, -, heq⟩ := Option.map_eq_some_iff.1 h
    cases heq
    rfl
  | intoParts h =>
    obtain ⟨item, -, heq⟩ := Option.map_eq_some_iff.1 h
    cases heq
    rfl
  | @tryMap τ υ ε b left f mapped h =>
    obtain ⟨item, -, heq⟩ := Option.map_eq_some_iff.1 h
    split at heq <;> cases heq <;> rfl
  | @retain b left command charge h =>
    obtain ⟨command, hitem, h⟩ := Option.bind_eq_some_iff.1 h
    simp only [Budgeted.intoParts, Budgeted.intoInner, hitem] at h
    split at h <;> cases h <;> rfl

/-- The channel: the counter, the reservations of sends under way, the queue, and the values that
the threads hold, those under way to their drop included. -/
structure Channel (α : Type) where
  used : Nat
  reserved : List Nat
  queue : List (Budgeted α)
  held : List (Sigma Budgeted)
  connected : Bool

/-- `ChannelConfigError`. -/
inductive ChannelConfigError where
  | zeroSlots
  | zeroBytes

/-- `byte_bounded_channel`. -/
def byteBoundedChannel (α : Type) (maxSlots maxBytes : Nat) :
    Except ChannelConfigError (Channel α) :=
  if maxSlots = 0 then .error .zeroSlots
  else if maxBytes = 0 then .error .zeroBytes
  else .ok ⟨0, [], [], [], true⟩

/-- One step of some thread. A send reserves, or is refused; then it puts the value into the queue,
or gets it back. The receiver takes the front of the queue, or is dropped and the queue with it. -/
inductive Step {α : Type} (slots max : Nat) : Channel α → Channel α → Prop
  | reserve {c used bytes} (h : tryReserve max c.used bytes = .ok used) :
      Step slots max c { c with used, reserved := bytes :: c.reserved }
  | refuse {c bytes e} (h : tryReserve max c.used bytes = .error e) : Step slots max c c
  | send {c bytes reserved item} (h : c.reserved.Perm (bytes :: reserved))
      (hroom : c.queue.length < slots) (hopen : c.connected = true) :
      Step slots max c { c with reserved, queue := c.queue ++ [.new item bytes] }
  | unsent {c bytes reserved item} (h : c.reserved.Perm (bytes :: reserved))
      (hclosed : slots ≤ c.queue.length ∨ c.connected = false) :
      Step slots max c { c with reserved, held := ⟨α, .new item bytes⟩ :: c.held }
  | receive {c b queue} (h : c.queue = b :: queue) :
      Step slots max c { c with queue, held := ⟨α, b⟩ :: c.held }
  | takeApart {c v values held} (h : c.held.Perm (v :: held)) (hv : TakenApart v values) :
      Step slots max c { c with held := values ++ held }
  | drop {c v held} (h : c.held.Perm (v :: held)) :
      Step slots max c { c with used := release c.used v.2.chargedBytes, held }
  | disconnect {c} : Step slots max c { c with connected := false }
  | dropQueued {c b queue} (h : c.queue = b :: queue) (hclosed : c.connected = false) :
      Step slots max c { c with used := release c.used b.chargedBytes, queue }

variable {α : Type} {slots max used used' bytes : Nat} {c c' : Channel α} {v : Sigma Budgeted}
  {held rest : List (Sigma Budgeted)}

@[simp] theorem charges_cons : charges (v :: rest) = v.2.chargedBytes + charges rest := rfl

@[simp] theorem charges_append : charges (held ++ rest) = charges held + charges rest := by
  simp [charges]

theorem charges_perm (h : held.Perm rest) : charges held = charges rest := (h.map _).sum_nat

theorem tryReserve_eq_ok (h : tryReserve max used bytes = .ok used') :
    used' = used + bytes ∧ used' ≤ max := by
  unfold tryReserve at h
  split_ifs at h with _ hroom
  cases h
  exact ⟨rfl, hroom.2⟩

theorem release_eq (hle : bytes ≤ used) (hused : used < 2 ^ 64) :
    release used bytes = used - bytes := by
  unfold release
  omega

/-- The values in and out of the queue. -/
def Channel.values (c : Channel α) : List (Sigma Budgeted) := c.queue.map (⟨α, ·⟩) ++ c.held

/-- What is charged: the reservations and the values. -/
def Channel.charged (c : Channel α) : Nat := c.reserved.sum + charges c.values

/-- **A step keeps the account.** -/
theorem Step.accounted (h : Step slots max c c') (hmax : max < 2 ^ 64) (hle : c.used ≤ max)
    (hused : c.used = c.charged) : c'.used ≤ max ∧ c'.used = c'.charged := by
  simp only [Channel.charged, Channel.values, charges_append] at hused ⊢
  cases h with
  | reserve h =>
    obtain ⟨rfl, hfits⟩ := tryReserve_eq_ok h
    simp
    omega
  | refuse | disconnect => exact ⟨hle, hused⟩
  | send h =>
    have := h.sum_nat
    simp [Budgeted.new, charges] at this hused ⊢
    omega
  | unsent h =>
    have := h.sum_nat
    simp [Budgeted.new] at this ⊢
    omega
  | receive h =>
    simp [h] at hused ⊢
    omega
  | takeApart h hv =>
    have := charges_perm h
    simp [hv.charges_eq] at this ⊢
    omega
  | drop h =>
    have := charges_perm h
    simp at this ⊢
    rw [release_eq (by omega) (by omega)]
    omega
  | dropQueued h =>
    simp [h] at hused ⊢
    rw [release_eq (by omega) (by omega)]
    omega

/-- **The channel accounts every byte once.** However the steps of the threads interleave, the
counter is within the bound and equals what is charged, no release underflows, and with nothing
charged it is zero. -/
theorem byteBoundedChannel_accounts {c₀ : Channel α} (hmax : max < 2 ^ 64)
    (hnew : byteBoundedChannel α slots max = .ok c₀)
    (h : Relation.ReflTransGen (Step slots max) c₀ c) :
    c.used ≤ max ∧ c.used = c.charged ∧ (∀ v ∈ c.values, v.2.chargedBytes ≤ c.used) ∧
      (c.reserved = [] → c.values = [] → c.used = 0) := by
  have haccount : c.used ≤ max ∧ c.used = c.charged := by
    induction h with
    | refl =>
      unfold byteBoundedChannel at hnew
      split_ifs at hnew
      cases hnew
      exact ⟨Nat.zero_le _, rfl⟩
    | tail _ hstep ih => exact hstep.accounted hmax ih.1 ih.2
  obtain ⟨hle, hused⟩ := haccount
  refine ⟨hle, hused, fun v hv ↦ ?_, fun hreserved hvalues ↦ ?_⟩
  · obtain ⟨front, back, hsplit⟩ := List.append_of_mem hv
    rw [hused, Channel.charged, hsplit, charges_append, charges_cons]
    omega
  · rw [hused, Channel.charged, hreserved, hvalues]
    rfl

/-- A value is received and taken apart, and its charge is still held. -/
theorem byteBoundedChannel_accounts_charge : ∃ c : Channel Nat,
    Relation.ReflTransGen (Step 2 10) ⟨0, [], [], [], true⟩ c ∧ c.used = 8 ∧
      c.used = c.charged := by
  have h :=
    (((Relation.ReflTransGen.single (@Step.reserve Nat 2 10 ⟨0, [], [], [], true⟩ 8 8 rfl)).tail
    (@Step.send _ _ _ _ 8 [] 7 (.refl _) (by decide) rfl)).tail (.receive rfl)).tail
      (.takeApart (.refl _) (.intoParts rfl))
  exact ⟨_, h, rfl, (byteBoundedChannel_accounts (by decide) rfl h).2.1⟩

end ShardStream.ByteChannel
