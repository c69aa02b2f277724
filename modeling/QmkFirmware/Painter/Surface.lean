import QmkFirmware.Painter.Animation

/-!
# A display that pixels are streamed to

What `qp_draw_core.c` draws goes through two calls of the display's driver: `viewport` names a
window, and `pixdata` fills it row after row from where the last call stopped. The driver here
is that of a surface (`qp_rgb565_surface.c`), whose calls all succeed. `painted` lists the
pixels given to its `setpixel`, in their order.
-/

namespace QmkFirmware.Painter
open Animation (Hsv)

variable {C : Type}

/-- A value that is stored in a `uint16_t`. -/
def u16 (n : Nat) : Nat := n % 65536

theorem u16_of_lt {n : Nat} (h : n < 65536) : u16 n = n := Nat.mod_eq_of_lt h

/-- What the driver says of its display: `qp_internal_num_pixels_in_buffer`, and the native
pixel that `palette_convert` makes of a colour. -/
structure Driver (C : Type) where
  pixelsInPixdata : Nat
  paletteConvert : Hsv → C

/-- `rgb565_surface_painter_device_t` and `qp_internal_global_pixdata_buffer` -/
structure Device (C : Type) where
  validateOk : Bool
  viewportL : Nat
  viewportT : Nat
  viewportR : Nat
  viewportB : Nat
  pixdataX : Nat
  pixdataY : Nat
  globalPixdata : Nat → C
  painted : List ((Nat × Nat) × C)

namespace Device

/-- A surface that `qp_init` has found valid, before anything is drawn. -/
def initialized (c : C) : Device C := ⟨true, 0, 0, 0, 0, 0, 0, fun _ => c, []⟩

/-- `increment_pixdata_location` -/
def incrementPixdataLocation (d : Device C) : Device C :=
  let x := u16 (d.pixdataX + 1)
  let y := if d.viewportR < x then u16 (d.pixdataY + 1) else d.pixdataY
  { d with
    pixdataX := if d.viewportR < x then d.viewportL else x
    pixdataY := if d.viewportB < y then d.viewportT else y }

/-- `append_pixel` -/
def appendPixel (rgb565 : C) (d : Device C) : Device C :=
  incrementPixdataLocation { d with painted := d.painted ++ [((d.pixdataX, d.pixdataY), rgb565)] }

/-- `stream_pixdata`, which is all that `qp_rgb565_surface_pixdata` does -/
def streamPixdata (data : Nat → C) : Nat → Device C → Device C
  | 0, d => d
  | nativePixelCount + 1, d => appendPixel (data nativePixelCount) (streamPixdata data nativePixelCount d)

/-- `qp_rgb565_surface_viewport` -/
def viewport (left top right bottom : Nat) (d : Device C) : Device C :=
  { d with
    viewportL := left, viewportT := top, viewportR := right, viewportB := bottom
    pixdataX := left, pixdataY := top }

/-- `qp_internal_fill_pixdata`, whose pixels a surface appends one after the other -/
def fillPixdata (driver : Driver C) (numPixels : Nat) (color : Hsv) (d : Device C) : Device C :=
  { d with
    globalPixdata := fun i =>
      if i < min driver.pixelsInPixdata numPixels then driver.paletteConvert color else d.globalPixdata i }

/-- `qp_internal_setpixel_impl` -/
def setpixelImpl (x y : Nat) (d : Device C) : Device C :=
  let d := d.viewport x y x y
  d.streamPixdata d.globalPixdata 1

/-! ## What a call leaves alone -/

section
variable {d : Device C} {left top right bottom x y n : Nat} {data : Nat → C} {c : C}

@[simp] theorem viewport_globalPixdata : (d.viewport left top right bottom).globalPixdata = d.globalPixdata := rfl
@[simp] theorem viewport_painted : (d.viewport left top right bottom).painted = d.painted := rfl
@[simp] theorem fillPixdata_painted {driver : Driver C} {color : Hsv} :
    (d.fillPixdata driver n color).painted = d.painted := rfl

@[simp] theorem appendPixel_globalPixdata : (d.appendPixel c).globalPixdata = d.globalPixdata := rfl
@[simp] theorem appendPixel_painted :
    (d.appendPixel c).painted = d.painted ++ [((d.pixdataX, d.pixdataY), c)] := rfl

@[simp] theorem streamPixdata_globalPixdata : (d.streamPixdata data n).globalPixdata = d.globalPixdata := by
  induction n with
  | zero => rfl
  | succ n ih => rw [streamPixdata, appendPixel_globalPixdata, ih]

/-- A pixel set on its own is the first of the buffer. -/
theorem setpixelImpl_painted : (d.setpixelImpl x y).painted = d.painted ++ [((x, y), d.globalPixdata 0)] := rfl

@[simp] theorem setpixelImpl_globalPixdata : (d.setpixelImpl x y).globalPixdata = d.globalPixdata := rfl

end

/-! ## Where streamed pixels land -/

/-- `k` pixels into a window: the columns are gone through before the next row, and after the
last row comes the first. -/
structure At (left top right bottom k : Nat) (d : Device C) : Prop where
  l : d.viewportL = left
  t : d.viewportT = top
  r : d.viewportR = right
  b : d.viewportB = bottom
  x : d.pixdataX = left + k % (right - left + 1)
  y : d.pixdataY = top + k / (right - left + 1) % (bottom - top + 1)

variable {left top right bottom k : Nat} {d : Device C}

theorem at_viewport : At left top right bottom 0 (d.viewport left top right bottom) :=
  ⟨rfl, rfl, rfl, rfl, by simp [viewport], by simp [viewport]⟩

/-- The place of the `k`-th pixel of a window. -/
def place (left top right bottom k : Nat) : Nat × Nat :=
  (left + k % (right - left + 1), top + k / (right - left + 1) % (bottom - top + 1))

theorem At.place_eq (h : At left top right bottom k d) : (d.pixdataX, d.pixdataY) = place left top right bottom k :=
  Prod.ext h.x h.y

/-- Counting in a base: the last digit goes up, or it starts over and the others go up by one. -/
theorem succ_mod_div (k w : Nat) (pos : 0 < w) :
    (k % w + 1 < w ∧ (k + 1) % w = k % w + 1 ∧ (k + 1) / w = k / w) ∨
      (k % w + 1 = w ∧ (k + 1) % w = 0 ∧ (k + 1) / w = k / w + 1) := by
  have split := Nat.div_add_mod k w
  rcases Nat.lt_or_ge (k % w + 1) w with lt | ge
  · left
    have k1 : k + 1 = k % w + 1 + w * (k / w) := by omega
    refine ⟨lt, ?_, ?_⟩
    · rw [k1, Nat.add_mul_mod_self_left, Nat.mod_eq_of_lt lt]
    · rw [k1, Nat.add_mul_div_left _ _ pos, Nat.div_eq_of_lt lt, Nat.zero_add]
  · right
    have full : k % w + 1 = w := by have := Nat.mod_lt k pos; omega
    have k1 : k + 1 = w * (k / w + 1) := by rw [Nat.mul_succ]; omega
    refine ⟨full, ?_, ?_⟩
    · rw [k1, Nat.mul_mod_right]
    · rw [k1, Nat.mul_div_cancel_left _ pos]

theorem At.appendPixel (h : At left top right bottom k d) (lr : left ≤ right) (tb : top ≤ bottom)
    (right_lt : right < 65535) (bottom_lt : bottom < 65535) (c : C) :
    At left top right bottom (k + 1) (d.appendPixel c) := by
  have column : k % (right - left + 1) < right - left + 1 := Nat.mod_lt _ (by omega)
  have row : k / (right - left + 1) % (bottom - top + 1) < bottom - top + 1 := Nat.mod_lt _ (by omega)
  have x1 : u16 (d.pixdataX + 1) = left + k % (right - left + 1) + 1 := by
    rw [h.x]; exact u16_of_lt (by omega)
  have y1 : u16 (d.pixdataY + 1) = top + k / (right - left + 1) % (bottom - top + 1) + 1 := by
    rw [h.y]; exact u16_of_lt (by omega)
  constructor
  · exact h.l
  · exact h.t
  · exact h.r
  · exact h.b
  · change (if d.viewportR < u16 (d.pixdataX + 1) then d.viewportL else u16 (d.pixdataX + 1)) = _
    rw [x1, h.l, h.r]
    rcases succ_mod_div k (right - left + 1) (by omega) with ⟨lt, mod, -⟩ | ⟨eq, mod, -⟩
    · rw [if_neg (by omega), mod, ← Nat.add_assoc]
    · rw [if_pos (by omega), mod, Nat.add_zero]
  · change (if d.viewportB < (if d.viewportR < u16 (d.pixdataX + 1) then u16 (d.pixdataY + 1) else d.pixdataY) then
      d.viewportT else if d.viewportR < u16 (d.pixdataX + 1) then u16 (d.pixdataY + 1) else d.pixdataY) = _
    rw [x1, y1, h.r, h.b, h.t, h.y]
    rcases succ_mod_div k (right - left + 1) (by omega) with ⟨lt, -, div⟩ | ⟨eq, -, div⟩
    · rw [if_neg (show ¬ right < left + k % (right - left + 1) + 1 by omega), div, if_neg (by omega)]
    · rw [if_pos (show right < left + k % (right - left + 1) + 1 by omega), div]
      rcases succ_mod_div (k / (right - left + 1)) (bottom - top + 1) (by omega) with ⟨lt, mod, -⟩ | ⟨eq, mod, -⟩
      · rw [if_neg (by omega), mod, ← Nat.add_assoc]
      · rw [if_pos (by omega), mod, Nat.add_zero]

/-- What streaming `n` pixels leaves, `k` pixels into the window. -/
theorem At.streamPixdata (h : At left top right bottom k d) (lr : left ≤ right) (tb : top ≤ bottom)
    (right_lt : right < 65535) (bottom_lt : bottom < 65535) (data : Nat → C) (n : Nat) :
    At left top right bottom (k + n) (d.streamPixdata data n) ∧
      (d.streamPixdata data n).painted =
        d.painted ++ (List.range n).map fun i => (place left top right bottom (k + i), data i) := by
  induction n with
  | zero => exact ⟨h, by simp [Device.streamPixdata]⟩
  | succ n ih =>
    obtain ⟨here, painted⟩ := ih
    constructor
    · exact here.appendPixel lr tb right_lt bottom_lt _
    · rw [Device.streamPixdata, appendPixel_painted, painted, here.place_eq, List.range_succ, List.map_append,
        List.append_assoc]
      rfl

end Device

end QmkFirmware.Painter
