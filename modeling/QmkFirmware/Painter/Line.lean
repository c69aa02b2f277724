import QmkFirmware.Lib.Bresenham
import QmkFirmware.Painter.Rect

/-!
# Lines

`qp_line` of `qp_draw_core.c`, which counts in `int16_t`. `stored` notes every value that is
stored in one of its variables, before it is cut to 16 bits.
-/

namespace QmkFirmware.Painter
open Lib
open Animation (Hsv)

variable {C : Type}

/-- A value that is stored in an `int16_t`. -/
def i16 (z : Int) : Int := z.bmod 65536

/-- An `int16_t` that is passed as a `uint16_t`. -/
def asU16 (z : Int) : Nat := (z % 65536).toNat

/-- The value is its own in 16 bits. -/
def FitsI16 (z : Int) : Prop := -32768 ≤ z ∧ z ≤ 32767

theorem i16_of_fits {z : Int} (h : FitsI16 z) : i16 z = z := by
  obtain ⟨low, high⟩ := h
  simp only [i16, Int.bmod]
  split <;> omega

theorem asU16_natCast {n : Nat} (h : n < 65536) : asU16 n = n := by
  rw [asU16]
  omega

/-- The locals of `qp_line` that its loop leaves alone. -/
structure Slopes where
  slopex : Int
  slopey : Int
  dx : Int
  dy : Int

/-- The others, the display and what has been stored. -/
structure LineState (C : Type) where
  x : Int
  y : Int
  e : Int
  e2 : Int
  device : Device C
  stored : List Int

namespace LineState

/-- The body of the loop. -/
def body (l : Slopes) (s : LineState C) : LineState C :=
  let s := { s with device := s.device.setpixelImpl (asU16 s.x) (asU16 s.y) }
  let s := { s with e2 := i16 (2 * s.e), stored := s.stored ++ [2 * s.e] }
  let s :=
    if l.dy ≤ s.e2 then
      { s with
        e := i16 (s.e + l.dy), x := i16 (s.x + l.slopex)
        stored := s.stored ++ [s.e + l.dy, s.x + l.slopex] }
    else s
  if s.e2 ≤ l.dx then
    { s with
      e := i16 (s.e + l.dx), y := i16 (s.y + l.slopey)
      stored := s.stored ++ [s.e + l.dx, s.y + l.slopey] }
  else s

/-- `while (x != x1 || y != y1)`, for at most `fuel` rounds. -/
def loop (l : Slopes) (x1 y1 : Nat) : Nat → LineState C → Option (LineState C)
  | 0, s => if s.x ≠ x1 ∨ s.y ≠ y1 then none else some s
  | fuel + 1, s => if s.x ≠ x1 ∨ s.y ≠ y1 then loop l x1 y1 fuel (s.body l) else some s

end LineState

/-- `qp_line`; its result, the display and what it has stored. -/
def Device.qpLine (driver : Driver C) (fuel x0 y0 x1 y1 : Nat) (color : Hsv) (d : Device C) :
    Option (Bool × Device C × List Int) :=
  if x0 = x1 ∨ y0 = y1 then
    (d.qpRect driver x0 y0 x1 y1 color true).map fun (ret, d) => (ret, d, [])
  else if d.validateOk then
    let d := d.fillPixdata driver 1 color
    let x := i16 x0
    let y := i16 y0
    let slopex := if i16 x0 < i16 x1 then 1 else -1
    let slopey := if i16 y0 < i16 y1 then 1 else -1
    let dx := |i16 x1 - i16 x0|
    let dy := -|i16 y1 - i16 y0|
    let e := i16 dx + i16 dy
    let e2 := 2 * i16 e
    let stored := [(x0 : Int), y0, x1, y1, slopex, slopey, dx, dy, e, e2]
    let l : Slopes := ⟨slopex, slopey, i16 dx, i16 dy⟩
    (LineState.loop l x1 y1 fuel ⟨x, y, i16 e, i16 e2, d, stored⟩).map fun s =>
      -- draw the last pixel
      (true, s.device.setpixelImpl (asU16 s.x) (asU16 s.y), s.stored)
  else some (false, d, [])

/-! ## What the locals are -/

/-- The slopes of a line on a panel of up to 8192 pixels either way. -/
structure Sloped (x0 y0 x1 y1 : Nat) (l : Slopes) : Prop where
  x0_lt : x0 < 8192
  y0_lt : y0 < 8192
  x1_lt : x1 < 8192
  y1_lt : y1 < 8192
  slopex : l.slopex = 1 ∨ l.slopex = -1
  slopey : l.slopey = 1 ∨ l.slopey = -1
  dx_pos : 0 < l.dx
  dy_neg : l.dy < 0
  x1_eq : (x1 : Int) = x0 + l.slopex * l.dx
  y1_eq : (y1 : Int) = y0 + l.slopey * -l.dy

/-- The pixel that is set after `k` rounds. -/
def linePixel (x0 y0 : Nat) (l : Slopes) (k : Nat) : Nat × Nat :=
  let p := Bresenham.point l.dx (-l.dy) k
  ((x0 + l.slopex * p.1).toNat, (y0 + l.slopey * p.2).toNat)

variable {x0 y0 x1 y1 k N : Nat} {l : Slopes} {s : LineState C}

namespace Sloped

theorem dx_lt (h : Sloped x0 y0 x1 y1 l) : l.dx < 8192 := by
  have x1_eq := h.x1_eq
  have x0_lt := h.x0_lt
  have x1_lt := h.x1_lt
  rcases h.slopex with e | e
  · rw [e] at x1_eq; omega
  · rw [e] at x1_eq; omega

theorem dy_gt (h : Sloped x0 y0 x1 y1 l) : -8192 < l.dy := by
  have y1_eq := h.y1_eq
  have y0_lt := h.y0_lt
  have y1_lt := h.y1_lt
  rcases h.slopey with e | e
  · rw [e] at y1_eq; omega
  · rw [e] at y1_eq; omega

/-- The pixels lie between the end points. -/
theorem linePixel_eq (h : Sloped x0 y0 x1 y1 l) (le : (k : Int) ≤ max l.dx (-l.dy)) :
    ((linePixel x0 y0 l k).1 : Int) = x0 + l.slopex * (Bresenham.point l.dx (-l.dy) k).1 ∧
      ((linePixel x0 y0 l k).2 : Int) = y0 + l.slopey * (Bresenham.point l.dx (-l.dy) k).2 ∧
      (linePixel x0 y0 l k).1 < 8192 ∧ (linePixel x0 y0 l k).2 < 8192 := by
  have dx := h.dx_pos
  have dy := h.dy_neg
  have nonneg := Bresenham.point_nonneg (n := k) dx.le (show 0 ≤ -l.dy by omega)
  have upper := Bresenham.point_le dx (show 0 < -l.dy by omega) le
  have x1_eq := h.x1_eq
  have y1_eq := h.y1_eq
  have x0_lt := h.x0_lt
  have y0_lt := h.y0_lt
  have x1_lt := h.x1_lt
  have y1_lt := h.y1_lt
  have column : 0 ≤ (x0 : Int) + l.slopex * (Bresenham.point l.dx (-l.dy) k).1 ∧
      (x0 : Int) + l.slopex * (Bresenham.point l.dx (-l.dy) k).1 < 8192 := by
    rcases h.slopex with e | e
    · rw [e] at x1_eq ⊢; omega
    · rw [e] at x1_eq ⊢; omega
  have row : 0 ≤ (y0 : Int) + l.slopey * (Bresenham.point l.dx (-l.dy) k).2 ∧
      (y0 : Int) + l.slopey * (Bresenham.point l.dx (-l.dy) k).2 < 8192 := by
    rcases h.slopey with e | e
    · rw [e] at y1_eq ⊢; omega
    · rw [e] at y1_eq ⊢; omega
  simp only [linePixel]
  omega

end Sloped

/-- One round, when nothing that it stores is too large. -/
theorem LineState.body_eq (e2 : FitsI16 (2 * s.e)) (ex : FitsI16 (s.e + l.dy)) (ey : FitsI16 (s.e + l.dx))
    (exy : FitsI16 (s.e + l.dy + l.dx)) (x : FitsI16 (s.x + l.slopex)) (y : FitsI16 (s.y + l.slopey)) :
    ∃ new, (∀ z ∈ new, FitsI16 z) ∧ s.body l =
      { x := if l.dy ≤ 2 * s.e then s.x + l.slopex else s.x
        y := if 2 * s.e ≤ l.dx then s.y + l.slopey else s.y
        e := s.e + (if l.dy ≤ 2 * s.e then l.dy else 0) + (if 2 * s.e ≤ l.dx then l.dx else 0)
        e2 := 2 * s.e
        device := s.device.setpixelImpl (asU16 s.x) (asU16 s.y)
        stored := s.stored ++ new } := by
  simp only [body, i16_of_fits e2, i16_of_fits ex, i16_of_fits x]
  by_cases right : l.dy ≤ 2 * s.e
  · by_cases up : 2 * s.e ≤ l.dx
    · refine ⟨[2 * s.e, s.e + l.dy, s.x + l.slopex, s.e + l.dy + l.dx, s.y + l.slopey], ?_, ?_⟩
      · simp [e2, ex, x, exy, y]
      · simp [if_pos right, if_pos up, i16_of_fits exy, i16_of_fits y]
    · refine ⟨[2 * s.e, s.e + l.dy, s.x + l.slopex], ?_, ?_⟩
      · simp [e2, ex, x]
      · simp [if_pos right, if_neg up]
  · by_cases up : 2 * s.e ≤ l.dx
    · refine ⟨[2 * s.e, s.e + l.dx, s.y + l.slopey], ?_, ?_⟩
      · simp [e2, ey, y]
      · simp [if_neg right, if_pos up, i16_of_fits ey, i16_of_fits y]
    · refine ⟨[2 * s.e], ?_, ?_⟩
      · simp [e2]
      · simp [if_neg right, if_neg up]

/-- After `k` rounds the locals are those of the walk. -/
structure Follows (x0 y0 : Nat) (l : Slopes) (k : Nat) (s : LineState C) : Prop where
  x : s.x = x0 + l.slopex * (Bresenham.point l.dx (-l.dy) k).1
  y : s.y = y0 + l.slopey * (Bresenham.point l.dx (-l.dy) k).2
  e : s.e = l.dx + l.dy + Bresenham.drift l.dx (-l.dy) (Bresenham.point l.dx (-l.dy) k)

namespace Follows

/-- `e` stays far from where 16 bits end. -/
theorem e_le (h : Follows x0 y0 l k s) (sloped : Sloped x0 y0 x1 y1 l) : -12288 ≤ s.e ∧ s.e ≤ 12288 := by
  have dx := sloped.dx_pos
  have dy := sloped.dy_neg
  have dx_lt := sloped.dx_lt
  have dy_gt := sloped.dy_gt
  have near := abs_le.mp (Bresenham.drift_le (n := k) dx.le (show 0 ≤ -l.dy by omega))
  have e := h.e
  omega

/-- The loop ends where the walk does. -/
theorem ended_iff (h : Follows x0 y0 l k s) (sloped : Sloped x0 y0 x1 y1 l) :
    ¬ (s.x ≠ x1 ∨ s.y ≠ y1) ↔ (k : Int) = max l.dx (-l.dy) := by
  rw [← Bresenham.point_eq_end_iff sloped.dx_pos (by have := sloped.dy_neg; omega), not_or, not_not, not_not, h.x, h.y,
    sloped.x1_eq, sloped.y1_eq, Prod.ext_iff]
  apply and_congr
  · rcases sloped.slopex with e | e <;> rw [e] <;> omega
  · rcases sloped.slopey with e | e <;> rw [e] <;> omega

/-- One round sets the next pixel of the walk, takes a step of it, and stores nothing too large. -/
theorem body (h : Follows x0 y0 l k s) (sloped : Sloped x0 y0 x1 y1 l) (more : (k : Int) < max l.dx (-l.dy)) :
    Follows x0 y0 l (k + 1) (s.body l) ∧
      (s.body l).device = s.device.setpixelImpl (linePixel x0 y0 l k).1 (linePixel x0 y0 l k).2 ∧
      ∃ new, (s.body l).stored = s.stored ++ new ∧ ∀ z ∈ new, FitsI16 z := by
  have dx := sloped.dx_pos
  have dy := sloped.dy_neg
  have dx_lt := sloped.dx_lt
  have dy_gt := sloped.dy_gt
  have e_le := h.e_le sloped
  obtain ⟨column, row, column_lt, row_lt⟩ := sloped.linePixel_eq more.le
  rw [← h.x] at column
  rw [← h.y] at row
  have x : FitsI16 (s.x + l.slopex) := by
    rcases sloped.slopex with slope | slope <;> rw [slope] <;> unfold FitsI16 <;> omega
  have y : FitsI16 (s.y + l.slopey) := by
    rcases sloped.slopey with slope | slope <;> rw [slope] <;> unfold FitsI16 <;> omega
  obtain ⟨new, fits, after⟩ := LineState.body_eq (l := l) (s := s) (by unfold FitsI16; omega) (by unfold FitsI16; omega)
    (by unfold FitsI16; omega) (by unfold FitsI16; omega) x y
  rw [after]
  -- the code decides as the walk does
  have right : l.dy ≤ 2 * s.e ↔
      -l.dy - 2 * l.dx ≤ 2 * Bresenham.drift l.dx (-l.dy) (Bresenham.point l.dx (-l.dy) k) := by
    rw [h.e]; omega
  have up : 2 * s.e ≤ l.dx ↔
      2 * Bresenham.drift l.dx (-l.dy) (Bresenham.point l.dx (-l.dy) k) ≤ 2 * -l.dy - l.dx := by
    rw [h.e]; omega
  refine ⟨⟨?_, ?_, ?_⟩, ?_, new, rfl, fits⟩
  · simp only [Bresenham.point_succ, Bresenham.step, ← right, h.x]
    split
    · ring
    · rfl
  · simp only [Bresenham.point_succ, Bresenham.step, ← up, h.y]
    split
    · ring
    · rfl
  · simp only [Bresenham.point_succ, Bresenham.drift_step, ← right, ← up]
    rw [h.e]
    split <;> split <;> ring
  · simp only [← column, ← row]
    rw [asU16_natCast (by omega), asU16_natCast (by omega)]

/-- The loop runs until the walk is over, and no longer. -/
theorem loop (sloped : Sloped x0 y0 x1 y1 l) (length : (N : Int) = max l.dx (-l.dy)) (fuel : Nat) (le : k ≤ N)
    (h : Follows x0 y0 l k s) :
    (fuel < N - k → LineState.loop l x1 y1 fuel s = none) ∧
      (N - k ≤ fuel → ∃ after, LineState.loop l x1 y1 fuel s = some after ∧ Follows x0 y0 l N after ∧
        (∃ new, after.stored = s.stored ++ new ∧ ∀ z ∈ new, FitsI16 z) ∧
        after.device.globalPixdata = s.device.globalPixdata ∧
        after.device.painted = s.device.painted ++
          (List.range' k (N - k)).map fun i => (linePixel x0 y0 l i, s.device.globalPixdata 0)) := by
  induction fuel generalizing k s with
  | zero =>
    have ended := h.ended_iff sloped
    rw [← length, Nat.cast_inj] at ended
    rw [LineState.loop]
    rcases le.eq_or_lt with rfl | more
    · rw [if_neg (ended.mpr rfl)]
      exact ⟨fun less => absurd less (by omega), fun _ => ⟨s, rfl, h, ⟨[], by simp, by simp⟩, rfl, by simp⟩⟩
    · rw [if_pos (by by_contra stopped; exact more.ne (ended.mp stopped))]
      exact ⟨fun _ => rfl, fun enough => absurd enough (by omega)⟩
  | succ fuel ih =>
    have ended := h.ended_iff sloped
    rw [← length, Nat.cast_inj] at ended
    rw [LineState.loop]
    rcases le.eq_or_lt with rfl | more
    · rw [if_neg (ended.mpr rfl)]
      exact ⟨fun less => absurd less (by omega), fun _ => ⟨s, rfl, h, ⟨[], by simp, by simp⟩, rfl, by simp⟩⟩
    · rw [if_pos (by by_contra stopped; exact more.ne (ended.mp stopped))]
      obtain ⟨next, device, new, stored, fits⟩ := h.body sloped (by omega)
      obtain ⟨short, long⟩ := ih more next
      constructor
      · intro less
        exact short (by omega)
      · intro enough
        obtain ⟨after, run, at_end, ⟨new', stored', fits'⟩, kept, painted⟩ := long (by omega)
        refine ⟨after, run, at_end, ⟨new ++ new', ?_, ?_⟩, ?_, ?_⟩
        · rw [stored', stored, List.append_assoc]
        · intro z mem
          rcases List.mem_append.mp mem with mem | mem
          · exact fits z mem
          · exact fits' z mem
        · rw [kept, device, Device.setpixelImpl_globalPixdata]
        · rw [painted, device, Device.setpixelImpl_globalPixdata, Device.setpixelImpl_painted,
            show N - k = N - (k + 1) + 1 by omega, List.range'_succ, List.map_cons, List.append_assoc]
          rfl

end Follows

/-! ## The line asked for -/

/-- Neighbouring pixels, also across a corner. -/
def Adjacent (p q : Nat × Nat) : Prop := p ≠ q ∧ |(q.1 : Int) - p.1| ≤ 1 ∧ |(q.2 : Int) - p.2| ≤ 1

/-- An 8-connected path between two pixels. -/
structure Path (pixels : List (Nat × Nat)) (start stop : Nat × Nat) : Prop where
  first : pixels.head? = some start
  last : pixels.getLast? = some stop
  connected : pixels.IsChain Adjacent

/-- At most half a pixel from the ideal line, along its minor axis. -/
def WithinHalf (x0 y0 x1 y1 : Nat) (p : Nat × Nat) : Prop :=
  if |(y1 : ℚ) - y0| ≤ |(x1 : ℚ) - x0| then
    |(p.2 : ℚ) - (y0 + (p.1 - x0) * (y1 - y0) / (x1 - x0))| ≤ 1 / 2
  else |(p.1 : ℚ) - (x0 + (p.2 - y0) * (x1 - x0) / (y1 - y0))| ≤ 1 / 2

theorem linePixel_zero : linePixel x0 y0 l 0 = (x0, y0) := by
  simp [linePixel, Bresenham.point]

/-- A drift of at most half the major side, as a distance along the minor axis. -/
theorem distance_le {a b i j s t : ℚ} (hs : s = 1 ∨ s = -1) (ht : t = 1 ∨ t = -1) (pos : 0 < a)
    (near : |2 * (a * j - b * i)| ≤ a) : |t * j - s * i * (t * b) / (s * a)| ≤ 1 / 2 := by
  have s_ne : s ≠ 0 := by rcases hs with rfl | rfl <;> norm_num
  have t_abs : |t| = 1 := by rcases ht with rfl | rfl <;> norm_num
  have distance : t * j - s * i * (t * b) / (s * a) = t * ((a * j - b * i) / a) := by
    field_simp
  rw [distance, abs_mul, t_abs, one_mul, abs_div, abs_of_pos pos, div_le_iff₀ pos]
  rw [abs_mul, abs_of_pos (by norm_num : (0 : ℚ) < 2)] at near
  linarith

namespace Sloped

theorem linePixel_last (h : Sloped x0 y0 x1 y1 l) (length : (N : Int) = max l.dx (-l.dy)) :
    linePixel x0 y0 l N = (x1, y1) := by
  have ended := (Bresenham.point_eq_end_iff h.dx_pos (show 0 < -l.dy by have := h.dy_neg; omega)).mpr length
  rw [linePixel, ended]
  apply Prod.ext
  · simp only [← h.x1_eq, Int.toNat_natCast]
  · simp only [← h.y1_eq, Int.toNat_natCast]

theorem linePixel_adjacent (h : Sloped x0 y0 x1 y1 l) (more : (k : Int) < max l.dx (-l.dy)) :
    Adjacent (linePixel x0 y0 l k) (linePixel x0 y0 l (k + 1)) := by
  obtain ⟨x, y, -, -⟩ := h.linePixel_eq more.le
  obtain ⟨x', y', -, -⟩ := h.linePixel_eq (k := k + 1) (by push_cast; omega)
  obtain ⟨right, up, moved⟩ := Bresenham.step_adjacent (n := k) h.dx_pos.le (show 0 ≤ -l.dy by have := h.dy_neg; omega)
  refine ⟨?_, ?_, ?_⟩
  · intro same
    apply moved
    rw [← same] at x' y'
    apply Prod.ext
    · rcases h.slopex with e | e <;> rw [e] at x x' <;> omega
    · rcases h.slopey with e | e <;> rw [e] at y y' <;> omega
  · rw [x, x', abs_le]
    rcases h.slopex with e | e <;> rw [e] <;> omega
  · rw [y, y', abs_le]
    rcases h.slopey with e | e <;> rw [e] <;> omega

/-- Half a step of drift is half a pixel. -/
theorem linePixel_withinHalf (h : Sloped x0 y0 x1 y1 l) (le : (k : Int) ≤ max l.dx (-l.dy)) :
    WithinHalf x0 y0 x1 y1 (linePixel x0 y0 l k) := by
  have dx := h.dx_pos
  have dy := h.dy_neg
  have near := Bresenham.drift_le (n := k) dx.le (show 0 ≤ -l.dy by omega)
  obtain ⟨x, y, -, -⟩ := h.linePixel_eq le
  generalize Bresenham.point l.dx (-l.dy) k = p at *
  obtain ⟨i, j⟩ := p
  have x : ((linePixel x0 y0 l k).1 : ℚ) = x0 + l.slopex * i := by exact_mod_cast x
  have y : ((linePixel x0 y0 l k).2 : ℚ) = y0 + l.slopey * j := by exact_mod_cast y
  have width : (x1 : ℚ) - x0 = l.slopex * l.dx := by
    rw [sub_eq_iff_eq_add']
    exact_mod_cast h.x1_eq
  have height : (y1 : ℚ) - y0 = l.slopey * -l.dy := by
    rw [sub_eq_iff_eq_add']
    exact_mod_cast h.y1_eq
  have slopex : (l.slopex : ℚ) = 1 ∨ (l.slopex : ℚ) = -1 := by exact_mod_cast h.slopex
  have slopey : (l.slopey : ℚ) = 1 ∨ (l.slopey : ℚ) = -1 := by exact_mod_cast h.slopey
  have wide : |(x1 : ℚ) - x0| = (l.dx : ℚ) := by
    rw [width, abs_mul, (abs_eq zero_le_one).mpr slopex, one_mul, abs_of_pos (by exact_mod_cast dx)]
  have high : |(y1 : ℚ) - y0| = -(l.dy : ℚ) := by
    rw [height, abs_mul, (abs_eq zero_le_one).mpr slopey, one_mul, abs_of_pos (by exact_mod_cast neg_pos.mpr dy)]
  rw [WithinHalf, wide, high, width, height]
  split
  · rename_i major
    have major : -l.dy ≤ l.dx := by exact_mod_cast major
    rw [max_eq_left major, Bresenham.drift] at near
    rw [y, x, add_sub_add_left_eq_sub, add_sub_cancel_left]
    exact distance_le slopex slopey (by exact_mod_cast dx) (by exact_mod_cast near)
  · rename_i minor
    have major : l.dx ≤ -l.dy := by
      have : ¬ -l.dy ≤ l.dx := by exact_mod_cast minor
      omega
    rw [max_eq_right major, Bresenham.drift, ← abs_neg] at near
    rw [y, x, add_sub_add_left_eq_sub, add_sub_cancel_left]
    refine distance_le slopey slopex (by exact_mod_cast neg_pos.mpr dy) ?_
    have swapped : -(2 * (l.dx * j - -l.dy * i)) = 2 * (-l.dy * i - l.dx * j) := by ring
    rw [swapped] at near
    exact_mod_cast near

/-- The pixels of the whole walk. -/
theorem path (h : Sloped x0 y0 x1 y1 l) (length : (N : Int) = max l.dx (-l.dy)) :
    Path ((List.range (N + 1)).map (linePixel x0 y0 l)) (x0, y0) (x1, y1) := by
  constructor
  · rw [List.range_succ_eq_map, List.map_cons, List.head?_cons, linePixel_zero]
  · rw [List.range_succ, List.map_append, List.map_singleton, List.getLast?_concat, h.linePixel_last length]
  · rw [List.isChain_map, List.isChain_range_succ]
    intro k less
    exact h.linePixel_adjacent (by omega)

end Sloped

/-- The locals that `qp_line` starts with. -/
theorem sloped_start (h₁ : x0 < 8192) (h₂ : y0 < 8192) (h₃ : x1 < 8192) (h₄ : y1 < 8192) (width : x0 ≠ x1)
    (height : y0 ≠ y1) :
    Sloped x0 y0 x1 y1 ⟨if (x0 : Int) < x1 then 1 else -1, if (y0 : Int) < y1 then 1 else -1, |(x1 : Int) - x0|,
      -|(y1 : Int) - y0|⟩ := by
  constructor
  · exact h₁
  · exact h₂
  · exact h₃
  · exact h₄
  · dsimp only
    split
    · exact Or.inl rfl
    · exact Or.inr rfl
  · dsimp only
    split
    · exact Or.inl rfl
    · exact Or.inr rfl
  · exact abs_pos.mpr (by omega)
  · exact neg_neg_of_pos (abs_pos.mpr (by omega))
  · dsimp only
    split
    · rw [abs_of_pos (by omega)]; omega
    · rw [abs_of_nonpos (by omega)]; omega
  · dsimp only
    rw [neg_neg]
    split
    · rw [abs_of_pos (by omega)]; omega
    · rw [abs_of_nonpos (by omega)]; omega

variable {driver : Driver C} {d : Device C}

/-- What `qp_line` comes to for such a line: its loop, started at the first end point. -/
theorem Device.qpLine_eq (driver : Driver C) (sloped : Sloped x0 y0 x1 y1 l)
    (start : l = ⟨if (x0 : Int) < x1 then 1 else -1, if (y0 : Int) < y1 then 1 else -1, |(x1 : Int) - x0|,
      -|(y1 : Int) - y0|⟩)
    (width : x0 ≠ x1) (height : y0 ≠ y1) (valid : d.validateOk = true) (color : Hsv) (fuel : Nat) :
    ∃ stored, (∀ z ∈ stored, FitsI16 z) ∧ d.qpLine driver fuel x0 y0 x1 y1 color =
      (LineState.loop l x1 y1 fuel
        ⟨x0, y0, l.dx + l.dy, 2 * (l.dx + l.dy), d.fillPixdata driver 1 color, stored⟩).map fun s =>
          (true, s.device.setpixelImpl (asU16 s.x) (asU16 s.y), s.stored) := by
  have dx_pos := sloped.dx_pos
  have dy_neg := sloped.dy_neg
  have dx_lt := sloped.dx_lt
  have dy_gt := sloped.dy_gt
  have fits : ∀ {n : Nat}, n < 8192 → FitsI16 (n : Int) := fun lt => by unfold FitsI16; omega
  have small : ∀ {z : Int}, z = 1 ∨ z = -1 → FitsI16 z := fun unit => by unfold FitsI16; omega
  have dx : FitsI16 l.dx := by unfold FitsI16; omega
  have dy : FitsI16 l.dy := by unfold FitsI16; omega
  have e : FitsI16 (l.dx + l.dy) := by unfold FitsI16; omega
  have e2 : FitsI16 (2 * (l.dx + l.dy)) := by unfold FitsI16; omega
  refine ⟨[(x0 : Int), y0, x1, y1, l.slopex, l.slopey, l.dx, l.dy, l.dx + l.dy, 2 * (l.dx + l.dy)], ?_, ?_⟩
  · simp [fits sloped.x0_lt, fits sloped.y0_lt, fits sloped.x1_lt, fits sloped.y1_lt, small sloped.slopex,
      small sloped.slopey, dx, dy, e, e2]
  · have dx_eq : |(x1 : Int) - x0| = l.dx := by rw [start]
    have dy_eq : -|(y1 : Int) - y0| = l.dy := by rw [start]
    have slopex_eq : (if (x0 : Int) < x1 then 1 else -1) = l.slopex := by rw [start]
    have slopey_eq : (if (y0 : Int) < y1 then 1 else -1) = l.slopey := by rw [start]
    rw [qpLine, if_neg (not_or.mpr ⟨width, height⟩), if_pos valid]
    simp only [i16_of_fits (fits sloped.x0_lt), i16_of_fits (fits sloped.y0_lt), i16_of_fits (fits sloped.x1_lt),
      i16_of_fits (fits sloped.y1_lt), dx_eq, dy_eq, slopex_eq, slopey_eq, i16_of_fits dx, i16_of_fits dy, i16_of_fits e,
      i16_of_fits e2]

/-- Nothing that `qp_line` stores is too large for an `int16_t`, and its loop has as many rounds as
the longer side of the line. The pixels are a path between the end points, none of them more than
half a pixel from the line. -/
theorem Device.qpLine_spec (h₁ : x0 < 8192) (h₂ : y0 < 8192) (h₃ : x1 < 8192) (h₄ : y1 < 8192) (width : x0 ≠ x1)
    (height : y0 ≠ y1) (valid : d.validateOk = true) (color : Hsv) (fuel : Nat) :
    let rounds := max ((x1 : Int) - x0).natAbs ((y1 : Int) - y0).natAbs
    (fuel < rounds → d.qpLine driver fuel x0 y0 x1 y1 color = none) ∧
      (rounds ≤ fuel → ∃ after stored pixels, d.qpLine driver fuel x0 y0 x1 y1 color = some (true, after, stored) ∧
        (∀ z ∈ stored, FitsI16 z) ∧ pixels.length = rounds + 1 ∧
        after.painted = d.painted ++ pixels.map (fun p => (p, (d.fillPixdata driver 1 color).globalPixdata 0)) ∧
        Path pixels (x0, y0) (x1, y1) ∧ ∀ p ∈ pixels, WithinHalf x0 y0 x1 y1 p) := by
  intro rounds
  obtain ⟨l, hl⟩ : ∃ l : Slopes, l = ⟨if (x0 : Int) < x1 then 1 else -1, if (y0 : Int) < y1 then 1 else -1,
    |(x1 : Int) - x0|, -|(y1 : Int) - y0|⟩ := ⟨_, rfl⟩
  have sloped : Sloped x0 y0 x1 y1 l := hl ▸ sloped_start h₁ h₂ h₃ h₄ width height
  have length : (rounds : Int) = max l.dx (-l.dy) := by
    rw [hl]
    simp only [rounds, neg_neg, Nat.cast_max, Int.natCast_natAbs]
  obtain ⟨stored, fits, run⟩ := Device.qpLine_eq driver sloped hl width height valid color fuel
  obtain ⟨short, long⟩ := Follows.loop (k := 0) (s := ⟨x0, y0, l.dx + l.dy, 2 * (l.dx + l.dy),
    d.fillPixdata driver 1 color, stored⟩) sloped length fuel (Nat.zero_le _)
    ⟨by simp [Bresenham.point], by simp [Bresenham.point], by simp [Bresenham.point, Bresenham.drift]⟩
  constructor
  · intro less
    rw [run, short (by omega), Option.map_none]
  · intro enough
    obtain ⟨after, looped, ended, ⟨new, stored', fits'⟩, kept, painted⟩ := long (by omega)
    obtain ⟨column, row, column_lt, row_lt⟩ := sloped.linePixel_eq length.le
    refine ⟨_, after.stored, (List.range (rounds + 1)).map (linePixel x0 y0 l), by rw [run, looped, Option.map_some], ?_,
      by rw [List.length_map, List.length_range], ?_, sloped.path length, ?_⟩
    · intro z mem
      rw [stored'] at mem
      rcases List.mem_append.mp mem with mem | mem
      · exact fits z mem
      · exact fits' z mem
    · rw [ended.x, ended.y, ← column, ← row, asU16_natCast (by omega), asU16_natCast (by omega), setpixelImpl_painted,
        painted, kept, List.range_succ, List.map_append, List.map_append, List.map_map, ← List.append_assoc,
        List.range_eq_range', Nat.sub_zero]
      rfl
    · intro p mem
      obtain ⟨k, less, rfl⟩ := List.mem_map.mp mem
      have less := List.mem_range.mp less
      exact sloped.linePixel_withinHalf (by omega)

theorem Device.qpLine_spec_steep :
    ∃ after stored pixels, (initialized (0 : Nat)).qpLine ⟨4, fun _ => 1⟩ 7 2 7 0 0 ⟨0, 0, 0⟩ = some (true, after, stored) ∧
      (∀ z ∈ stored, FitsI16 z) ∧ pixels.length = 7 + 1 ∧
      after.painted = [] ++ pixels.map (fun p => (p, 1)) ∧ Path pixels (2, 7) (0, 0) ∧
      ∀ p ∈ pixels, WithinHalf 2 7 0 0 p :=
  (qpLine_spec (by decide) (by decide) (by decide) (by decide) (by decide) (by decide) rfl ⟨0, 0, 0⟩ 7).2 (by decide)

end QmkFirmware.Painter
