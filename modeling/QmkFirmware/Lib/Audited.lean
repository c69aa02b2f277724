import Mathlib

/-!
# Computations that note their accesses

A value and the accesses made for it, in order. A program is written in the
monad; whether its accesses meet a condition is then read off its text.
-/

namespace QmkFirmware.Lib

/-- A value and the accesses that were made for it. -/
structure Audited (A α : Type) where
  value : α
  accesses : List A

namespace Audited

variable {A α β : Type}

instance : Monad (Audited A) where
  pure a := ⟨a, []⟩
  bind x f := ⟨(f x.value).value, x.accesses ++ (f x.value).accesses⟩

/-- One access, and the value it gives. -/
def note (access : A) (value : α) : Audited A α := ⟨value, [access]⟩

/-- A loop that counts from 0 up. -/
def loop (body : Nat → β → Audited A β) : Nat → β → Audited A β
  | 0, s => pure s
  | n + 1, s => do
    let s ← loop body n s
    body n s

@[simp] theorem value_pure (a : α) : (pure a : Audited A α).value = a := rfl

@[simp] theorem value_bind (x : Audited A α) (f : α → Audited A β) : (x >>= f).value = (f x.value).value := rfl

@[simp] theorem value_note (access : A) (value : α) : (note access value).value = value := rfl

@[simp] theorem value_loop_zero (body : Nat → β → Audited A β) (s : β) : (loop body 0 s).value = s := rfl

@[simp] theorem value_loop_succ (body : Nat → β → Audited A β) (n : Nat) (s : β) :
    (loop body (n + 1) s).value = (body n (loop body n s).value).value := rfl

/-- Every access meets the condition. -/
def Safe (p : A → Prop) (x : Audited A α) : Prop := ∀ a ∈ x.accesses, p a

section Safe

variable {p : A → Prop}

instance [DecidablePred p] (x : Audited A α) : Decidable (x.Safe p) :=
  inferInstanceAs (Decidable (∀ a ∈ x.accesses, p a))

@[simp] theorem safe_pure (a : α) : (pure a : Audited A α).Safe p := by
  intro a h
  cases h

@[simp] theorem safe_bind (x : Audited A α) (f : α → Audited A β) :
    (x >>= f).Safe p ↔ x.Safe p ∧ (f x.value).Safe p := by
  show (∀ a ∈ x.accesses ++ (f x.value).accesses, p a) ↔ _
  simp only [List.mem_append, or_imp, forall_and]
  rfl

@[simp] theorem safe_note (access : A) (value : α) : (note access value).Safe p ↔ p access := by
  simp [Safe, note]

/-- A loop is safe if every turn is. -/
theorem safe_loop (body : Nat → β → Audited A β) (n : Nat) (s : β) :
    (loop body n s).Safe p ↔ ∀ i < n, (body i (loop body i s).value).Safe p := by
  induction n with
  | zero => simp [loop]
  | succ n ih =>
    rw [loop, safe_bind, ih]
    constructor
    · rintro ⟨before, last⟩ i hi
      rcases Nat.lt_succ_iff_lt_or_eq.1 hi with h | rfl
      · exact before i h
      · exact last
    · intro h
      exact ⟨fun i hi => h i (by omega), h n (by omega)⟩

end Safe

end Audited

end QmkFirmware.Lib
