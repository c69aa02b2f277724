import QmkFirmware.Lib.PatchLog

/-!
# Scanning a log

A scanner looks at a memory from a position on: it stops there, or takes an entry
and goes on behind it. `Scan` is a whole scan, with the patches it collects and
the position it stops at. What it depends on are the cells it passes and the
decision to stop, so writing an entry where a scan stops makes a longer one.
-/

namespace QmkFirmware.Lib

variable {α : Type}

/-- A reader of a log; `next` is `none` where it stops. -/
structure LogScanner (α : Type) where
  next : (Nat → α) → Nat → Option (List (Patch α) × Nat)
  lt_of_next : ∀ {m a ps b}, next m a = some (ps, b) → a < b
  next_congr : ∀ {m m' a ps b}, next m a = some (ps, b) →
    (∀ i, a ≤ i → i < b → m' i = m i) → next m' a = some (ps, b)

/-- The scan of `m` from `a` collects `log` and stops at `z`. -/
inductive Scan (S : LogScanner α) (m : Nat → α) : Nat → List (Patch α) → Nat → Prop where
  | stop {a : Nat} (here : S.next m a = none) : Scan S m a [] a
  | entry {a b z : Nat} {ps log : List (Patch α)} (here : S.next m a = some (ps, b))
      (rest : Scan S m b log z) : Scan S m a (ps ++ log) z

namespace Scan

variable {S : LogScanner α} {m m' : Nat → α} {a z : Nat} {log : List (Patch α)}

theorem le (h : Scan S m a log z) : a ≤ z := by
  induction h with
  | stop here => exact Nat.le_refl _
  | entry here rest ih => exact Nat.le_of_lt (Nat.lt_of_lt_of_le (S.lt_of_next here) ih)

/-- A scan stops where it stops. -/
theorem stops (h : Scan S m a log z) : S.next m z = none := by
  induction h with
  | stop here => exact here
  | entry here rest ih => exact ih

/-- A scan, continued in another memory that agrees with the cells it passed. -/
theorem extend (h : Scan S m a log z) (agree : ∀ i, a ≤ i → i < z → m' i = m i)
    {log' : List (Patch α)} {z' : Nat} (tail : Scan S m' z log' z') : Scan S m' a (log ++ log') z' := by
  induction h with
  | stop here => exact tail
  | entry here rest ih =>
    have lt := S.lt_of_next here
    have le := rest.le
    rw [List.append_assoc]
    exact entry (S.next_congr here fun i lo hi => agree i lo (by omega))
      (ih (fun i lo hi => agree i (by omega) hi) tail)

theorem congr (h : Scan S m a log z) (agree : ∀ i, a ≤ i → i < z → m' i = m i)
    (stops : S.next m' z = none) : Scan S m' a log z := by
  simpa using h.extend agree (stop stops)

/-- An entry written where a scan stops is the last one of the longer scan. -/
theorem snoc (h : Scan S m a log z) (agree : ∀ i, a ≤ i → i < z → m' i = m i) {ps : List (Patch α)}
    {z' : Nat} (here : S.next m' z = some (ps, z')) (stops : S.next m' z' = none) :
    Scan S m' a (log ++ ps) z' := by
  simpa using h.extend agree (entry here (stop stops))

end Scan

end QmkFirmware.Lib
