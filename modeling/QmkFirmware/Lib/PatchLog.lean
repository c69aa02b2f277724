import QmkFirmware.Lib.Memory

/-!
# A snapshot and a log of patches

A log-structured store keeps a snapshot of a memory and the patches made since
it was taken. `replay` rebuilds the current memory from the two. The rules
below are what a store of this kind relies on: appending an entry is patching
the view, a snapshot of the view needs no log, and a cell no entry covers may
be patched in the snapshot itself.
-/

namespace QmkFirmware.Lib

variable {α : Type}

/-- One entry of a log: the cells `data` at `addr`. -/
structure Patch (α : Type) where
  addr : Nat
  data : List α
  deriving DecidableEq, Repr

namespace Patch

/-- The effect of one entry on a memory. -/
def apply (p : Patch α) (m : Nat → α) : Nat → α := patch m p.addr p.data

/-- The entry overwrites cell `i`. -/
def Covers (p : Patch α) (i : Nat) : Prop := p.addr ≤ i ∧ i < p.addr + p.data.length

instance (p : Patch α) (i : Nat) : Decidable (p.Covers i) := inferInstanceAs (Decidable (_ ∧ _))

/-- The entry overwrites cells below `n` only. -/
def Below (p : Patch α) (n : Nat) : Prop := p.addr + p.data.length ≤ n

instance (p : Patch α) (n : Nat) : Decidable (p.Below n) := inferInstanceAs (Decidable (_ ≤ _))

theorem apply_of_not_covers {p : Patch α} {m : Nat → α} {i : Nat} (h : ¬ p.Covers i) :
    p.apply m i = m i :=
  patch_outside (by simp only [Covers] at h; omega)

theorem apply_congr {p : Patch α} {m m' : Nat → α} {i : Nat} (h : m i = m' i) :
    p.apply m i = p.apply m' i :=
  patch_congr h p.addr p.data

/-- What an entry leaves in a cell it covers does not depend on the memory before. -/
theorem apply_covered {p : Patch α} {m m' : Nat → α} {i : Nat} (h : p.Covers i) :
    p.apply m i = p.apply m' i := by
  simp only [Covers] at h
  simp only [apply]
  rw [patch_inside h.1 (by omega), patch_inside h.1 (by omega)]

end Patch

/-- The memory that a snapshot and a log, oldest entry first, stand for. -/
def replay (m : Nat → α) (log : List (Patch α)) : Nat → α :=
  log.foldl (fun m p => p.apply m) m

@[simp] theorem replay_nil (m : Nat → α) : replay m [] = m := rfl

@[simp] theorem replay_cons (m : Nat → α) (p : Patch α) (log : List (Patch α)) :
    replay m (p :: log) = replay (p.apply m) log := rfl

theorem replay_append (m : Nat → α) (log log' : List (Patch α)) :
    replay m (log ++ log') = replay (replay m log) log' := by
  simp [replay]

/-- Appending an entry patches the view. -/
@[simp] theorem replay_snoc (m : Nat → α) (log : List (Patch α)) (p : Patch α) :
    replay m (log ++ [p]) = p.apply (replay m log) := by
  simp [replay]

/-- A cell that two snapshots agree on is replayed alike. -/
theorem replay_congr {log : List (Patch α)} {m m' : Nat → α} {i : Nat} (h : m i = m' i) :
    replay m log i = replay m' log i := by
  induction log generalizing m m' with
  | nil => exact h
  | cons p log ih => exact ih (p.apply_congr h)

/-- A cell that no entry covers keeps its snapshot value. -/
theorem replay_of_not_covered {log : List (Patch α)} {m : Nat → α} {i : Nat}
    (h : ∀ p ∈ log, ¬ p.Covers i) : replay m log i = m i := by
  induction log generalizing m with
  | nil => rfl
  | cons p log ih =>
    rw [replay_cons, ih fun q hq => h q (List.mem_cons_of_mem _ hq)]
    exact p.apply_of_not_covers (h p List.mem_cons_self)

/-- A cell that some entry covers does not depend on the snapshot. -/
theorem replay_of_covered {log : List (Patch α)} {m m' : Nat → α} {i : Nat}
    (h : ∃ p ∈ log, p.Covers i) : replay m log i = replay m' log i := by
  induction log generalizing m m' with
  | nil => simp at h
  | cons p log ih =>
    rw [replay_cons, replay_cons]
    by_cases hp : p.Covers i
    · exact replay_congr (Patch.apply_covered hp)
    · refine ih ?_
      obtain ⟨q, hq, hc⟩ := h
      rcases List.mem_cons.1 hq with rfl | hq
      · exact absurd hc hp
      · exact ⟨q, hq, hc⟩

/-- Patching the snapshot in cells that the log leaves alone patches the view. -/
theorem replay_patch {log : List (Patch α)} {m : Nat → α} {a : Nat} {l : List α}
    (h : ∀ p ∈ log, ∀ i, a ≤ i → i < a + l.length → ¬ p.Covers i) :
    replay (patch m a l) log = patch (replay m log) a l := by
  funext i
  by_cases hi : a ≤ i ∧ i < a + l.length
  · rw [replay_of_not_covered fun p hp => h p hp i hi.1 hi.2]
    rw [patch_inside hi.1 (by omega), patch_inside hi.1 (by omega)]
  · rw [patch_outside (m := replay m log) (by omega)]
    exact replay_congr (patch_outside (by omega))

end QmkFirmware.Lib
