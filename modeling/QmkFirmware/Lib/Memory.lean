import Mathlib

/-!
# Memories, patches and slices

A memory is a function from cell numbers to cell contents. `patch` overwrites
consecutive cells with a list and `slice` reads consecutive cells back as a
list; everything a store, a cache or a flash page does is one of the two. The
lemmas say where a patch is seen and where it is not.
-/

namespace QmkFirmware.Lib

variable {α : Type}

/-- `m` with the cells from `a` on overwritten by the list `l`. -/
def patch (m : Nat → α) (a : Nat) (l : List α) : Nat → α :=
  fun i => if a ≤ i then (l[i - a]?).getD (m i) else m i

/-- The `n` cells of `m` from `a` on. -/
def slice (m : Nat → α) (a n : Nat) : List α :=
  (List.range n).map fun k => m (a + k)

/-! ## Reading a patched memory -/

theorem patch_below {m : Nat → α} {a i : Nat} {l : List α} (h : i < a) : patch m a l i = m i := by
  simp [patch, Nat.not_le.2 h]

theorem patch_above {m : Nat → α} {a i : Nat} {l : List α} (h : a + l.length ≤ i) :
    patch m a l i = m i := by
  have : l[i - a]? = none := List.getElem?_eq_none (by omega)
  simp [patch, this]

theorem patch_inside {m : Nat → α} {a i : Nat} {l : List α} (lo : a ≤ i) (hi : i - a < l.length) :
    patch m a l i = l[i - a] := by
  simp [patch, lo, List.getElem?_eq_getElem hi]

theorem patch_outside {m : Nat → α} {a i : Nat} {l : List α} (h : i < a ∨ a + l.length ≤ i) :
    patch m a l i = m i :=
  h.elim patch_below patch_above

@[simp] theorem patch_at {m : Nat → α} {a k : Nat} {l : List α} (h : k < l.length) :
    patch m a l (a + k) = l[k] := by
  rw [patch_inside (by omega) (by omega)]
  simp

@[simp] theorem patch_nil (m : Nat → α) (a : Nat) : patch m a [] = m := by
  funext i
  simp [patch]

/-- Two memories that agree at `i` agree there after the same patch. -/
theorem patch_congr {m m' : Nat → α} {i : Nat} (h : m i = m' i) (a : Nat) (l : List α) :
    patch m a l i = patch m' a l i := by
  simp [patch, h]

/-- A patch made in two pieces. -/
theorem patch_append (m : Nat → α) (a : Nat) (l l' : List α) :
    patch m a (l ++ l') = patch (patch m a l) (a + l.length) l' := by
  funext i
  rcases Nat.lt_or_ge i (a + l.length) with h | h
  · rw [patch_below h]
    rcases Nat.lt_or_ge i a with h' | h'
    · rw [patch_below h', patch_below h']
    · rw [patch_inside h' (by simp; omega), patch_inside h' (by omega)]
      exact List.getElem_append_left _
  · rcases Nat.lt_or_ge i (a + l.length + l'.length) with h' | h'
    · rw [patch_inside (by omega) (by simp; omega), patch_inside h (by omega),
        List.getElem_append_right (by omega)]
      congr 1
      omega
    · rw [patch_above (by simp; omega), patch_above (by omega), patch_above (by omega)]

/-! ## Slices -/

@[simp] theorem length_slice (m : Nat → α) (a n : Nat) : (slice m a n).length = n := by
  simp [slice]

@[simp] theorem getElem_slice {m : Nat → α} {a n k : Nat} (h : k < (slice m a n).length) :
    (slice m a n)[k] = m (a + k) := by
  simp [slice]

@[simp] theorem slice_zero (m : Nat → α) (a : Nat) : slice m a 0 = [] := rfl

theorem slice_eq_iff {m : Nat → α} {a n : Nat} {l : List α} (hl : l.length = n) :
    slice m a n = l ↔ ∀ k (h : k < l.length), m (a + k) = l[k] := by
  constructor
  · rintro rfl k h
    simp
  · intro h
    refine List.ext_getElem (by simp [hl]) fun k h₁ h₂ => ?_
    simp [h k h₂]

theorem slice_congr {m m' : Nat → α} {a n : Nat} (h : ∀ i, a ≤ i → i < a + n → m i = m' i) :
    slice m a n = slice m' a n := by
  refine List.ext_getElem (by simp) fun k h₁ _ => ?_
  simp only [length_slice] at h₁
  simp [h (a + k) (by omega) (by omega)]

theorem slice_add (m : Nat → α) (a n k : Nat) :
    slice m a (n + k) = slice m a n ++ slice m (a + n) k := by
  simp [slice, List.range_add, Nat.add_assoc]

theorem slice_succ (m : Nat → α) (a n : Nat) : slice m a (n + 1) = m a :: slice m (a + 1) n := by
  rw [Nat.add_comm, slice_add]
  rfl

@[simp] theorem slice_patch_self (m : Nat → α) (a : Nat) (l : List α) :
    slice (patch m a l) a l.length = l :=
  (slice_eq_iff rfl).2 fun _ h => patch_at h

theorem slice_patch_of_disjoint {m : Nat → α} {a b n : Nat} {l : List α}
    (h : b + n ≤ a ∨ a + l.length ≤ b) : slice (patch m a l) b n = slice m b n :=
  slice_congr fun _ _ _ => patch_outside (by omega)

/-- Writing back what is there changes nothing. -/
@[simp] theorem patch_slice (m : Nat → α) (a n : Nat) : patch m a (slice m a n) = m := by
  funext i
  by_cases h : a ≤ i ∧ i - a < n
  · rw [patch_inside h.1 (by simpa using h.2), getElem_slice]
    congr 1
    omega
  · exact patch_outside (by simp; omega)

/-- A patch with what a memory holds makes the patched one agree with it there. -/
theorem patch_slice_of {m m' : Nat → α} {a n i : Nat} (lo : a ≤ i) (hi : i < a + n) :
    patch m a (slice m' a n) i = m' i := by
  rw [patch_inside lo (by simp; omega), getElem_slice]
  congr 1
  omega

end QmkFirmware.Lib
