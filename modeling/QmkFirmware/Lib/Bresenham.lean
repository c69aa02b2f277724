import Mathlib

/-!
# Bresenham's line

A walk from the origin to `(a, b)` by steps right, up or both, which stays close to the line
between them. What decides is the drift of the point reached, `a` times how far it lies above
the line. The longer side is the major axis; what holds for a line that is wider than high
holds for the others by swapping the axes.
-/

namespace QmkFirmware.Lib.Bresenham

/-- `a` times how far the point lies above the line from the origin to `(a, b)`. -/
def drift (a b : Int) (p : Int × Int) : Int := a * p.2 - b * p.1

def step (a b : Int) (p : Int × Int) : Int × Int :=
  (if b - 2 * a ≤ 2 * drift a b p then p.1 + 1 else p.1, if 2 * drift a b p ≤ 2 * b - a then p.2 + 1 else p.2)

/-- The point after `n` steps. -/
def point (a b : Int) (n : Nat) : Int × Int := (step a b)^[n] (0, 0)

variable {a b : Int} {n : Nat} {p : Int × Int}

theorem point_succ : point a b (n + 1) = step a b (point a b n) := Function.iterate_succ_apply' _ _ _

theorem drift_swap : drift b a p.swap = -drift a b p := by
  simp only [drift, Prod.fst_swap, Prod.snd_swap]
  ring

theorem step_swap : step b a p.swap = (step a b p).swap := by
  apply Prod.ext
  · simp only [step, drift_swap, Prod.fst_swap, Prod.snd_swap]
    exact if_congr (by omega) rfl rfl
  · simp only [step, drift_swap, Prod.fst_swap, Prod.snd_swap]
    exact if_congr (by omega) rfl rfl

theorem point_swap : point b a n = (point a b n).swap := by
  induction n with
  | zero => rfl
  | succ n ih => rw [point_succ, point_succ, ih, step_swap]

/-- A step right takes `b` off the drift, a step up adds `a`. -/
theorem drift_step : drift a b (step a b p) =
    drift a b p - (if b - 2 * a ≤ 2 * drift a b p then b else 0) + (if 2 * drift a b p ≤ 2 * b - a then a else 0) := by
  simp only [step]
  split
  · split
    · simp only [drift]
      ring
    · simp only [drift]
      ring
  · split
    · simp only [drift]
      ring
    · simp only [drift]
      ring

/-- After `n` steps along the major axis: at most half a step from the line. -/
structure Near (a b : Int) (n : Nat) (p : Int × Int) : Prop where
  major : p.1 = n
  minor : 0 ≤ p.2
  below : -a ≤ 2 * drift a b p
  above : 2 * drift a b p ≤ a

theorem Near.step (h : Near a b n p) (wide : b ≤ a) (pos : 0 ≤ b) : Near a b (n + 1) (step a b p) := by
  have right : b - 2 * a ≤ 2 * drift a b p := by have := h.below; omega
  have drifted := drift_step (a := a) (b := b) (p := p)
  rw [if_pos right] at drifted
  have minor := h.minor
  have below := h.below
  have above := h.above
  constructor
  · rw [Bresenham.step, if_pos right, h.major]
    push_cast
    rfl
  · simp only [Bresenham.step]
    split
    · omega
    · exact minor
  · rw [drifted]
    split <;> omega
  · rw [drifted]
    split <;> omega

theorem near_point (wide : b ≤ a) (pos : 0 ≤ b) : Near a b n (point a b n) := by
  induction n with
  | zero => constructor <;> simp [point, drift] <;> omega
  | succ n ih =>
    rw [point_succ]
    exact ih.step wide pos

/-- The walk does not leave the box before it has come to the end. -/
theorem Near.minor_le (h : Near a b n p) (pos : 0 < a) (b_pos : 0 ≤ b) (le : (n : Int) ≤ a) : p.2 ≤ b := by
  by_contra past
  have above := h.above
  have far : a * (b + 1) ≤ a * p.2 := Int.mul_le_mul_of_nonneg_left (by omega) pos.le
  have back : b * p.1 ≤ b * a := Int.mul_le_mul_of_nonneg_left (by rw [h.major]; exact le) b_pos
  have apart : a * (b + 1) - b * a = a := by ring
  simp only [drift] at above
  omega

/-- At the end of the major axis the walk is at the end of the line. -/
theorem Near.minor_eq (h : Near a b n p) (pos : 0 < a) (last : (n : Int) = a) : p.2 = b := by
  have product : drift a b p = a * (p.2 - b) := by
    rw [drift, h.major, last]
    ring
  have below := h.below
  have above := h.above
  rw [product] at below above
  rcases lt_trichotomy p.2 b with less | same | more
  · have := Int.mul_le_mul_of_nonneg_left (show p.2 - b ≤ -1 by omega) pos.le
    omega
  · exact same
  · have := Int.mul_le_mul_of_nonneg_left (show 1 ≤ p.2 - b by omega) pos.le
    omega

/-! ## Both ways round -/


theorem major_eq (ha : 0 ≤ a) (hb : 0 ≤ b) :
    (b ≤ a → (point a b n).1 = n) ∧ (a ≤ b → (point a b n).2 = n) := by
  constructor
  · intro wide
    exact (near_point wide hb).major
  · intro high
    have := (near_point (n := n) high ha).major
    rwa [point_swap] at this

theorem drift_le (ha : 0 ≤ a) (hb : 0 ≤ b) : |2 * drift a b (point a b n)| ≤ max a b := by
  rcases le_total b a with wide | high
  · have near := near_point (n := n) wide hb
    rw [max_eq_left wide, abs_le]
    exact ⟨near.below, near.above⟩
  · have near := near_point (n := n) high ha
    have below := near.below
    have above := near.above
    rw [point_swap, drift_swap] at below above
    rw [max_eq_right high, abs_le]
    constructor
    · omega
    · omega

theorem point_nonneg (ha : 0 ≤ a) (hb : 0 ≤ b) : 0 ≤ (point a b n).1 ∧ 0 ≤ (point a b n).2 := by
  rcases le_total b a with wide | high
  · have near := near_point (n := n) wide hb
    exact ⟨by rw [near.major]; omega, near.minor⟩
  · have near := near_point (n := n) high ha
    rw [point_swap] at near
    exact ⟨near.minor, by have := near.major; rw [Prod.fst_swap] at this; omega⟩

theorem point_le (ha : 0 < a) (hb : 0 < b) (le : (n : Int) ≤ max a b) : (point a b n).1 ≤ a ∧ (point a b n).2 ≤ b := by
  rcases le_total b a with wide | high
  · have near := near_point (n := n) wide hb.le
    rw [max_eq_left wide] at le
    exact ⟨by rw [near.major]; exact le, near.minor_le ha hb.le le⟩
  · have near := near_point (n := n) high ha.le
    rw [max_eq_right high] at le
    have minor := near.minor_le hb ha.le le
    rw [point_swap] at near minor
    exact ⟨minor, by have := near.major; rw [Prod.fst_swap] at this; omega⟩

/-- The end is reached after as many steps as the longer side has, and not before. -/
theorem point_eq_end_iff (ha : 0 < a) (hb : 0 < b) : point a b n = (a, b) ↔ (n : Int) = max a b := by
  rcases le_total b a with wide | high
  · have near := near_point (n := n) wide hb.le
    rw [max_eq_left wide]
    constructor
    · intro ended
      rw [← near.major, ended]
    · intro last
      exact Prod.ext (near.major.trans last) (near.minor_eq ha last)
  · have near := near_point (n := n) high ha.le
    rw [max_eq_right high]
    constructor
    · intro ended
      rw [← near.major, point_swap, ended]
      rfl
    · intro last
      have major := near.major.trans last
      have minor := near.minor_eq hb last
      rw [point_swap] at major minor
      exact Prod.ext minor major

/-- One step moves to one of the neighbouring points, never backwards. -/
theorem step_adjacent (ha : 0 ≤ a) (hb : 0 ≤ b) :
    let p := point a b n
    let q := point a b (n + 1)
    (q.1 = p.1 ∨ q.1 = p.1 + 1) ∧ (q.2 = p.2 ∨ q.2 = p.2 + 1) ∧ q ≠ p := by
  refine ⟨?_, ?_, ?_⟩
  · simp only [point_succ, step]
    split
    · exact Or.inr rfl
    · exact Or.inl rfl
  · simp only [point_succ, step]
    split
    · exact Or.inr rfl
    · exact Or.inl rfl
  · intro same
    have here := major_eq (n := n) ha hb
    have next := major_eq (n := n + 1) ha hb
    rw [same] at next
    rcases le_total b a with wide | high
    · have := (here.1 wide).symm.trans (next.1 wide)
      push_cast at this
      omega
    · have := (here.2 high).symm.trans (next.2 high)
      push_cast at this
      omega

end QmkFirmware.Lib.Bresenham
