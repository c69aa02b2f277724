import Mathlib

/-!
# What settles when time passes

A system that is called now and then, with more than no and not too much time between two
calls, and goes through stages of a given length. A stage is over with the first call that
comes when its length has passed, and the next one starts with that call.
-/

namespace QmkFirmware.Lib

/-- How many windows of length `d` are over at the last of these times -/
def windows (d : Nat) : (start : Nat) → (times : List Nat) → Nat
  | _, [] => 0
  | start, t :: times => if start + d ≤ t then windows d t times + 1 else windows d start times

/-- The times go on, and the gaps between them are good. -/
def Advances (good : Nat → Prop) : (now : Nat) → (times : List Nat) → Prop
  | _, [] => True
  | now, t :: times => now < t ∧ good (t - now) ∧ Advances good t times

/-- With every window that is over a stage is: `Due k b` says that `k` stages are left, the
first of them over in `b`. -/
theorem due_windows {S : Type} {step : S → Nat → S} {good : Nat → Prop} {d : Nat} (Due : Nat → Nat → S → Nat → Prop)
    (tick : ∀ k b s now t, Due k b s now → now < t → good (t - now) → Due k (b - (t - now)) (step s t) t)
    (next : ∀ k s now, Due k 0 s now → Due (k - 1) d s now) {times : List Nat} {k start now : Nat} {s : S}
    (le : start ≤ now) (h : Due k (start + d - now) s now) (advances : Advances good now times) :
    ∃ b last, Due (k - windows d start times) b (times.foldl step s) last := by
  induction times generalizing k start now s with
  | nil => exact ⟨_, now, h⟩
  | cons t times ih =>
    obtain ⟨lt, gap, advances⟩ := advances
    have ticked := tick k _ s now t h lt gap
    rw [List.foldl_cons]
    unfold windows
    split
    next ended =>
      have zero : start + d - now - (t - now) = 0 := by omega
      rw [zero] at ticked
      have stage := next k _ t ticked
      rw [Nat.add_comm _ 1, Nat.sub_add_eq]
      refine ih (le_refl t) ?_ advances
      rwa [Nat.add_sub_cancel_left]
    next waits =>
      refine ih (le.trans lt.le) ?_ advances
      have same : start + d - now - (t - now) = start + d - t := by omega
      rwa [same] at ticked

end QmkFirmware.Lib
