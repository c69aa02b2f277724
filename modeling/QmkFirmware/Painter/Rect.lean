import QmkFirmware.Painter.Surface

/-!
# Rectangles

`qp_rect` of `qp_draw_core.c`. A filled rectangle is one window, streamed a buffer at a time;
an outline is four of them, whose corners are put in order again one by one.
-/

namespace QmkFirmware.Painter
open Animation (Hsv)

variable {C : Type}

namespace Device

/-- The loop of `qp_internal_fillrect_helper_impl`. A round transmits at least one pixel, so
there are no more rounds than pixels, or the buffer has no room for one and the loop never ends. -/
def transmitRemaining (driver : Driver C) : Nat → Nat → Device C → Option (Device C)
  | _, 0, d => some d
  | 0, _ + 1, _ => none
  | rounds + 1, remaining + 1, d =>
    let transmit := min (remaining + 1) driver.pixelsInPixdata
    transmitRemaining driver rounds (remaining + 1 - transmit) (d.streamPixdata d.globalPixdata transmit)

/-- `qp_internal_fillrect_helper_impl` -/
def fillrectHelperImpl (driver : Driver C) (left top right bottom : Nat) (d : Device C) : Option (Device C) :=
  let l := min left right
  let r := max left right
  let t := min top bottom
  let b := max top bottom
  let w := u16 (r - l + 1)
  let h := u16 (b - t + 1)
  transmitRemaining driver (w * h) (w * h) (d.viewport l t r b)

/-- `qp_rect` -/
def qpRect (driver : Driver C) (left top right bottom : Nat) (color : Hsv) (filled : Bool) (d : Device C) :
    Option (Bool × Device C) :=
  if d.validateOk then
    -- Cater for cases where people have submitted the coordinates backwards
    let l := min left right
    let r := max left right
    let t := min top bottom
    let b := max top bottom
    let w := u16 (r - l + 1)
    let h := u16 (b - t + 1)
    if filled then do
      let d ← (d.fillPixdata driver (w * h) color).fillrectHelperImpl driver l t r b
      return (true, d)
    else do
      let d ← (d.fillPixdata driver (max w h) color).fillrectHelperImpl driver l t r t
      let d ← d.fillrectHelperImpl driver l b r b
      -- in `uint16_t`: below row 0 comes row 65535
      let d ← d.fillrectHelperImpl driver l (u16 (t + 1)) l (u16 (b + 65535))
      let d ← d.fillrectHelperImpl driver r (u16 (t + 1)) r (u16 (b + 65535))
      return (true, d)
  else some (false, d)

/-! ## One window -/

section
variable {driver : Driver C} {left top right bottom k : Nat} {d after : Device C}

theorem streamPixdata_append (data : Nat → C) (n : Nat) : d.painted <+: (d.streamPixdata data n).painted := by
  induction n with
  | zero => exact List.prefix_rfl
  | succ n ih =>
    apply ih.trans
    rw [Device.streamPixdata, appendPixel_painted]
    exact List.prefix_append _ _

/-- The first pixel of a stream lands where the window stands. -/
theorem streamPixdata_first (data : Nat → C) {n : Nat} (pos : 0 < n) :
    d.painted ++ [((d.pixdataX, d.pixdataY), data 0)] <+: (d.streamPixdata data n).painted := by
  induction n with
  | zero => exact absurd pos (Nat.lt_irrefl 0)
  | succ n ih =>
    rw [Device.streamPixdata, appendPixel_painted]
    cases n with
    | zero => exact List.prefix_rfl
    | succ n => exact (ih n.succ_pos).trans (List.prefix_append _ _)

theorem transmitRemaining_append {rounds remaining : Nat} (h : d.transmitRemaining driver rounds remaining = some after) :
    d.painted <+: after.painted := by
  induction rounds, remaining, d using transmitRemaining.induct driver with
  | case1 rounds d =>
    simp only [transmitRemaining, Option.some.injEq] at h
    exact h ▸ List.prefix_rfl
  | case2 remaining d => simp [transmitRemaining] at h
  | case3 rounds remaining d transmit ih =>
    rw [transmitRemaining] at h
    exact (streamPixdata_append d.globalPixdata transmit).trans (ih h)

theorem fillrectHelperImpl_append (h : d.fillrectHelperImpl driver left top right bottom = some after) :
    d.painted <+: after.painted := transmitRemaining_append (d := d.viewport _ _ _ _) h

/-- Whatever else it paints, a window that is not empty first paints its top left pixel. -/
theorem fillrectHelperImpl_first (h : d.fillrectHelperImpl driver left top right bottom = some after)
    (px : 0 < driver.pixelsInPixdata) (w : max left right - min left right + 1 < 65536)
    (h' : max top bottom - min top bottom + 1 < 65536) :
    ∃ c, d.painted ++ [((min left right, min top bottom), c)] <+: after.painted := by
  obtain ⟨remaining, many⟩ : ∃ n, (max left right - min left right + 1) * (max top bottom - min top bottom + 1) = n + 1 :=
    ⟨_, (Nat.succ_pred_eq_of_pos (by positivity)).symm⟩
  simp only [fillrectHelperImpl, u16_of_lt w, u16_of_lt h', many, transmitRemaining] at h
  have started := transmitRemaining_append h
  have first := streamPixdata_first (d := d.viewport (min left right) (min top bottom) (max left right) (max top bottom))
    d.globalPixdata (n := min (remaining + 1) driver.pixelsInPixdata) (by omega)
  exact ⟨_, first.trans started⟩

/-- A window inside what `uint16_t` can count is painted pixel after pixel. The data starts over
with each buffer. -/
theorem At.transmitRemaining (px : 0 < driver.pixelsInPixdata) (lr : left ≤ right) (tb : top ≤ bottom)
    (right_lt : right < 65535) (bottom_lt : bottom < 65535) (rounds remaining : Nat) (enough : remaining ≤ rounds)
    (h : At left top right bottom k d) :
    ∃ after, d.transmitRemaining driver rounds remaining = some after ∧ after.globalPixdata = d.globalPixdata ∧
      after.painted = d.painted ++
        (List.range remaining).map fun i =>
          (place left top right bottom (k + i), d.globalPixdata (i % driver.pixelsInPixdata)) := by
  induction rounds generalizing remaining k d with
  | zero =>
    obtain rfl := Nat.le_zero.mp enough
    exact ⟨d, by rw [Device.transmitRemaining], rfl, by simp⟩
  | succ rounds ih =>
    cases remaining with
    | zero => exact ⟨d, by rw [Device.transmitRemaining], rfl, by simp⟩
    | succ remaining =>
      obtain ⟨next, streamed⟩ := h.streamPixdata lr tb right_lt bottom_lt d.globalPixdata
        (min (remaining + 1) driver.pixelsInPixdata)
      obtain ⟨after, run, kept, painted⟩ := ih (remaining + 1 - min (remaining + 1) driver.pixelsInPixdata) (by omega) next
      refine ⟨after, by rw [Device.transmitRemaining]; exact run, kept.trans streamPixdata_globalPixdata, ?_⟩
      rw [painted, streamed, List.append_assoc, streamPixdata_globalPixdata]
      congr 1
      rcases Nat.lt_or_ge driver.pixelsInPixdata (remaining + 1) with more | last
      · -- a full buffer, and what is left of the window
        have split : remaining + 1 = driver.pixelsInPixdata + (remaining + 1 - driver.pixelsInPixdata) := by omega
        rw [Nat.min_eq_right more.le]
        conv_rhs => rw [split, List.range_add, List.map_append, List.map_map]
        congr 1
        · apply List.map_congr_left
          intro i mem
          rw [Nat.mod_eq_of_lt (List.mem_range.mp mem)]
        · apply List.map_congr_left
          intro i _
          simp only [Function.comp_apply, Nat.add_mod_left, Nat.add_assoc]
      · -- all of it fits into the buffer
        rw [Nat.min_eq_left last, Nat.sub_self, List.range_zero, List.map_nil, List.append_nil]
        apply List.map_congr_left
        intro i mem
        rw [Nat.mod_eq_of_lt (Nat.lt_of_lt_of_le (List.mem_range.mp mem) last)]

end

end Device

/-! ## What is painted -/

/-- The closed rectangle of two opposite corners. -/
def Closed (left top right bottom : Nat) : Set (Nat × Nat) :=
  Set.Icc (min left right, min top bottom) (max left right, max top bottom)

/-- Its outline, one pixel wide. -/
def Outline (left top right bottom : Nat) : Set (Nat × Nat) :=
  {p ∈ Closed left top right bottom | p.1 = left ∨ p.1 = right ∨ p.2 = top ∨ p.2 = bottom}

/-- Between the two states exactly the pixels of `shape` are painted, all in one colour. -/
def Paints (before after : Device C) (shape : Set (Nat × Nat)) (c : C) : Prop :=
  ∃ pixels, after.painted = before.painted ++ pixels ∧ (∀ p ∈ pixels, p.1 ∈ shape ∧ p.2 = c) ∧
    ∀ p ∈ shape, (p, c) ∈ pixels

namespace Paints

variable {d₁ d₂ d₃ : Device C} {A B : Set (Nat × Nat)} {c : C}

theorem union (first : Paints d₁ d₂ A c) (second : Paints d₂ d₃ B c) : Paints d₁ d₃ (A ∪ B) c := by
  obtain ⟨p, painted, within, all⟩ := first
  obtain ⟨q, painted', within', all'⟩ := second
  refine ⟨p ++ q, by rw [painted', painted, List.append_assoc], ?_, ?_⟩
  · intro x mem
    rcases List.mem_append.mp mem with mem | mem
    · exact ⟨Or.inl (within x mem).1, (within x mem).2⟩
    · exact ⟨Or.inr (within' x mem).1, (within' x mem).2⟩
  · rintro x (mem | mem)
    · exact List.mem_append_left _ (all x mem)
    · exact List.mem_append_right _ (all' x mem)

/-- A pixel that is painted on the way belongs to the shape. -/
theorem mem_shape (h : Paints d₁ d₂ A c) {l : List ((Nat × Nat) × C)} {p : Nat × Nat} {c' : C}
    (since : d₁.painted <+: l) (next : l ++ [(p, c')] <+: d₂.painted) : p ∈ A := by
  obtain ⟨pixels, painted, within, -⟩ := h
  obtain ⟨more, rfl⟩ := since
  obtain ⟨rest, all⟩ := next
  rw [painted, List.append_assoc, List.append_assoc, List.append_cancel_left_eq] at all
  exact (within (p, c') (by simp [← all])).1

end Paints

namespace Device

variable {driver : Driver C} {left top right bottom : Nat} {d : Device C}

/-- The places of a window are its pixels, each once. -/
theorem mem_place_iff {l t r b : Nat} (lr : l ≤ r) (tb : t ≤ b) (p : Nat × Nat) :
    (∃ i < (r - l + 1) * (b - t + 1), place l t r b i = p) ↔ p ∈ Set.Icc (l, t) (r, b) := by
  obtain ⟨x, y⟩ := p
  simp only [place, Prod.mk.injEq, Set.mem_Icc, Prod.mk_le_mk]
  constructor
  · rintro ⟨i, -, rfl, rfl⟩
    have column := Nat.mod_lt i (show 0 < r - l + 1 by omega)
    have row := Nat.mod_lt (i / (r - l + 1)) (show 0 < b - t + 1 by omega)
    omega
  · rintro ⟨⟨lx, ty⟩, xr, yb⟩
    have column : x - l < r - l + 1 := by omega
    have row : y - t < b - t + 1 := by omega
    refine ⟨x - l + (r - l + 1) * (y - t), ?_, ?_, ?_⟩
    · calc x - l + (r - l + 1) * (y - t)
          < (r - l + 1) * (y - t + 1) := by rw [Nat.mul_succ]; omega
        _ ≤ (r - l + 1) * (b - t + 1) := Nat.mul_le_mul_left _ (by omega)
    · rw [Nat.add_mul_mod_self_left, Nat.mod_eq_of_lt column]
      omega
    · rw [Nat.add_mul_div_left _ _ (by omega), Nat.div_eq_of_lt column, Nat.zero_add, Nat.mod_eq_of_lt row]
      omega

/-- `fill_pixdata` has filled the buffer for this many pixels, or all of it. -/
def Filled (driver : Driver C) (n : Nat) (c : C) (d : Device C) : Prop :=
  ∀ i < min driver.pixelsInPixdata n, d.globalPixdata i = c

theorem filled_fillPixdata (driver : Driver C) (d : Device C) (n : Nat) (color : Hsv) :
    (d.fillPixdata driver n color).Filled driver n (driver.paletteConvert color) := by
  intro i lt
  exact if_pos lt

/-- What the helper does on a panel: the closed rectangle between the corners. -/
theorem fillrectHelperImpl_spec (left top right bottom : Nat) (px : 0 < driver.pixelsInPixdata) (h₁ : left < 32767) (h₂ : right < 32767)
    (h₃ : top < 32767) (h₄ : bottom < 32767) {n : Nat} {c : C} (filled : d.Filled driver n c)
    (many : (max left right - min left right + 1) * (max top bottom - min top bottom + 1) ≤ n) :
    ∃ after, d.fillrectHelperImpl driver left top right bottom = some after ∧ after.globalPixdata = d.globalPixdata ∧
      Paints d after (Closed left top right bottom) c := by
  have lr : min left right ≤ max left right := min_le_max
  have tb : min top bottom ≤ max top bottom := min_le_max
  obtain ⟨after, run, kept, painted⟩ := At.transmitRemaining (d := d.viewport _ _ _ _) px lr tb (by omega) (by omega) _
    ((max left right - min left right + 1) * (max top bottom - min top bottom + 1)) le_rfl at_viewport
  refine ⟨after, ?_, kept, _, painted, ?_, ?_⟩
  · rw [fillrectHelperImpl, u16_of_lt (by omega), u16_of_lt (by omega)]
    exact run
  · intro p mem
    obtain ⟨i, lt, rfl⟩ := List.mem_map.mp mem
    have lt := List.mem_range.mp lt
    constructor
    · exact (mem_place_iff lr tb _).mp ⟨i, lt, by rw [Nat.zero_add]⟩
    · apply filled
      exact lt_min (Nat.mod_lt i px) (lt_of_le_of_lt (Nat.mod_le _ _) (lt.trans_le many))
  · intro p mem
    obtain ⟨i, lt, rfl⟩ := (mem_place_iff lr tb p).mpr mem
    apply List.mem_map.mpr
    refine ⟨i, List.mem_range.mpr lt, ?_⟩
    rw [Nat.zero_add, Prod.mk.injEq]
    refine ⟨rfl, filled _ (lt_min (Nat.mod_lt i px) ?_)⟩
    exact lt_of_le_of_lt (Nat.mod_le _ _) (lt.trans_le many)

end Device

/-! ## The rectangles -/

/-- Two rows and the columns between them, which for neighbouring rows are in the wrong order. -/
theorem outline_eq {l t r b : Nat} (lr : l ≤ r) (tb : t < b) :
    Outline l t r b = Closed l t r t ∪ (Closed l b r b ∪ (Closed l (t + 1) l (b - 1) ∪ Closed r (t + 1) r (b - 1))) := by
  ext ⟨x, y⟩
  simp only [Outline, Closed, Set.mem_ofPred_eq, Set.mem_union, Set.mem_Icc, Prod.mk_le_mk]
  constructor
  · rintro ⟨inside, left | right | top | bottom⟩
    · by_cases edge : y = t
      · left; omega
      · by_cases edge' : y = b
        · right; left; omega
        · right; right; left; omega
    · by_cases edge : y = t
      · left; omega
      · by_cases edge' : y = b
        · right; left; omega
        · right; right; right; omega
    · left; omega
    · right; left; omega
  · rintro (mem | mem | mem | mem) <;> omega

theorem closed_min_max (left top right bottom : Nat) :
    Closed (min left right) (min top bottom) (max left right) (max top bottom) = Closed left top right bottom := by
  simp only [Closed, min_eq_left (min_le_max (a := left) (b := right)), max_eq_right (min_le_max (a := left) (b := right)),
    min_eq_left (min_le_max (a := top) (b := bottom)), max_eq_right (min_le_max (a := top) (b := bottom))]

theorem outline_min_max (left top right bottom : Nat) :
    Outline (min left right) (min top bottom) (max left right) (max top bottom) = Outline left top right bottom := by
  ext ⟨x, y⟩
  simp only [Outline, closed_min_max, Set.mem_ofPred_eq]
  apply and_congr_right
  intro _
  omega

namespace Device

variable {driver : Driver C} {d : Device C} {width height : Nat}

/-- The first window, drawn from a buffer that was filled for it. -/
theorem fillPixdata_fillrect (px : 0 < driver.pixelsInPixdata) (left top right bottom : Nat) {n : Nat} (h₁ : left < 32767)
    (h₂ : right < 32767) (h₃ : top < 32767) (h₄ : bottom < 32767) (color : Hsv)
    (many : (max left right - min left right + 1) * (max top bottom - min top bottom + 1) ≤ n) :
    ∃ after, (d.fillPixdata driver n color).fillrectHelperImpl driver left top right bottom = some after ∧
      after.Filled driver n (driver.paletteConvert color) ∧
      Paints d after (Closed left top right bottom) (driver.paletteConvert color) := by
  have filled := filled_fillPixdata driver d n color
  obtain ⟨after, run, kept, painted⟩ := fillrectHelperImpl_spec left top right bottom px h₁ h₂ h₃ h₄ filled many
  refine ⟨after, run, ?_, painted⟩
  rw [Filled, kept]
  exact filled

theorem qpRect_filled (px : 0 < driver.pixelsInPixdata) {left top right bottom : Nat} (h₁ : left < 32767)
    (h₂ : right < 32767) (h₃ : top < 32767) (h₄ : bottom < 32767) (valid : d.validateOk = true) (color : Hsv) :
    ∃ after, d.qpRect driver left top right bottom color true = some (true, after) ∧
      Paints d after (Closed left top right bottom) (driver.paletteConvert color) := by
  obtain ⟨after, run, -, painted⟩ := fillPixdata_fillrect (d := d) px (min left right) (min top bottom) (max left right) (max top bottom)
    (n := u16 (max left right - min left right + 1) * u16 (max top bottom - min top bottom + 1))
    (by omega) (by omega) (by omega) (by omega) color (by
      rw [u16_of_lt (by omega), u16_of_lt (by omega), min_eq_left min_le_max, max_eq_right min_le_max,
        min_eq_left min_le_max, max_eq_right min_le_max])
  refine ⟨after, ?_, closed_min_max left top right bottom ▸ painted⟩
  simp only [qpRect, valid, if_true, run]
  rfl

theorem qpRect_outline (px : 0 < driver.pixelsInPixdata) {left top right bottom : Nat} (h₁ : left < 32767)
    (h₂ : right < 32767) (h₃ : top < 32767) (h₄ : bottom < 32767) (rows : top ≠ bottom) (valid : d.validateOk = true)
    (color : Hsv) :
    ∃ after, d.qpRect driver left top right bottom color false = some (true, after) ∧
      Paints d after (Outline left top right bottom) (driver.paletteConvert color) := by
  obtain ⟨l, hl⟩ : ∃ l, l = min left right := ⟨_, rfl⟩
  obtain ⟨r, hr⟩ : ∃ r, r = max left right := ⟨_, rfl⟩
  obtain ⟨t, ht⟩ : ∃ t, t = min top bottom := ⟨_, rfl⟩
  obtain ⟨b, hb⟩ : ∃ b, b = max top bottom := ⟨_, rfl⟩
  have w : u16 (r - l + 1) = r - l + 1 := u16_of_lt (by omega)
  have h : u16 (b - t + 1) = b - t + 1 := u16_of_lt (by omega)
  have below : u16 (t + 1) = t + 1 := u16_of_lt (by omega)
  have above : u16 (b + 65535) = b - 1 := by rw [u16]; omega
  obtain ⟨d₁, run₁, filled₁, paints₁⟩ := fillPixdata_fillrect (d := d) px l t r t
    (n := max (r - l + 1) (b - t + 1)) (by omega) (by omega) (by omega) (by omega) color (by
      rw [max_self, min_self, Nat.sub_self, Nat.zero_add, Nat.mul_one]; omega)
  obtain ⟨d₂, run₂, kept₂, paints₂⟩ := fillrectHelperImpl_spec l b r b px
    (by omega) (by omega) (by omega) (by omega) filled₁ (by
      rw [max_self, min_self, Nat.sub_self, Nat.zero_add, Nat.mul_one]; omega)
  have filled₂ : d₂.Filled driver (max (r - l + 1) (b - t + 1)) (driver.paletteConvert color) := by
    rw [Filled, kept₂]; exact filled₁
  obtain ⟨d₃, run₃, kept₃, paints₃⟩ := fillrectHelperImpl_spec l (t + 1) l (b - 1) px
    (by omega) (by omega) (by omega) (by omega) filled₂ (by
      rw [max_self, min_self, Nat.sub_self, Nat.zero_add, Nat.one_mul]; omega)
  have filled₃ : d₃.Filled driver (max (r - l + 1) (b - t + 1)) (driver.paletteConvert color) := by
    rw [Filled, kept₃]; exact filled₂
  obtain ⟨d₄, run₄, -, paints₄⟩ := fillrectHelperImpl_spec r (t + 1) r (b - 1) px
    (by omega) (by omega) (by omega) (by omega) filled₃ (by
      rw [max_self, min_self, Nat.sub_self, Nat.zero_add, Nat.one_mul]; omega)
  refine ⟨d₄, ?_, ?_⟩
  · simp only [qpRect, valid, if_true, Bool.false_eq_true, if_false, ← hl, ← hr, ← ht, ← hb, w, h, below, above, run₁,
      run₂, run₃, run₄, Option.bind_eq_bind, Option.bind_some]
    rfl
  · rw [← outline_min_max, ← hl, ← hr, ← ht, ← hb, outline_eq (by omega) (by omega)]
    exact paints₁.union (paints₂.union (paints₃.union paints₄))

/-- `qp_rect` paints exactly the rectangle or its outline unless it is asked for the outline of a
single row: the columns between the first and the last row are then those around it. -/
theorem qpRect_exact_iff (hw : width ≤ 32767) (hh : height ≤ 32767) (px : 0 < driver.pixelsInPixdata)
    (valid : d.validateOk = true) (left right : Fin width) (top bottom : Fin height) (color : Hsv) (filled : Bool) :
    (∃ after, d.qpRect driver left top right bottom color filled = some (true, after) ∧
      Paints d after (if filled then Closed left top right bottom else Outline left top right bottom)
        (driver.paletteConvert color)) ↔
      filled = true ∨ top ≠ bottom := by
  have h₁ := left.isLt
  have h₂ := right.isLt
  have h₃ := top.isLt
  have h₄ := bottom.isLt
  constructor
  · rintro ⟨after, run, paints⟩
    by_contra bad
    obtain ⟨rfl, rfl⟩ : filled = false ∧ top = bottom := by simpa using bad
    simp only [qpRect, valid, if_true, Bool.false_eq_true, if_false, min_self, max_self, Nat.sub_self, Nat.zero_add,
      Option.bind_eq_bind, Option.bind_eq_some_iff] at run
    obtain ⟨d₁, run₁, d₂, run₂, d₃, run₃, d₄, run₄, same⟩ := run
    obtain rfl : d₄ = after := by simpa using same
    obtain ⟨c, first⟩ := fillrectHelperImpl_first run₃ px (by omega) (by simp only [u16]; omega)
    have since : d.painted <+: d₂.painted :=
      (fillrectHelperImpl_append (d := d.fillPixdata driver _ color) run₁).trans (fillrectHelperImpl_append run₂)
    have inside := paints.mem_shape since (first.trans (fillrectHelperImpl_append run₄))
    simp only [Bool.false_eq_true, if_false, Outline, Closed, Set.mem_ofPred_eq, Set.mem_Icc, Prod.mk_le_mk, u16,
      min_self, max_self] at inside
    omega
  · rintro good
    cases filled with
    | true => exact qpRect_filled px (by omega) (by omega) (by omega) (by omega) valid color
    | false =>
      have rows : top ≠ bottom := by simpa using good
      exact qpRect_outline px (by omega) (by omega) (by omega) (by omega) (fun same => rows (Fin.ext same)) valid color

theorem qpRect_exact_two_rows :
    ∃ after, (initialized (⟨0, 0, 0⟩ : Hsv)).qpRect ⟨4, id⟩ 2 1 0 2 ⟨0, 255, 255⟩ false = some (true, after) ∧
      Paints (initialized ⟨0, 0, 0⟩) after (Outline 2 1 0 2) (⟨0, 255, 255⟩ : Hsv) :=
  (@qpRect_exact_iff _ ⟨4, id⟩ _ 3 3 (by decide) (by decide) (by decide) rfl 2 0 1 2
    ⟨0, 255, 255⟩ false).mpr (Or.inr (by decide))

/-- The outline of the single pixel in row 1 paints the rows above and below it. -/
theorem qpRect_row_escapes :
    ¬ ∃ after, (initialized (⟨0, 0, 0⟩ : Hsv)).qpRect ⟨4, id⟩ 0 1 0 1 ⟨0, 255, 255⟩ false = some (true, after) ∧
      Paints (initialized ⟨0, 0, 0⟩) after (Outline 0 1 0 1) (⟨0, 255, 255⟩ : Hsv) := by
  rintro ⟨after, run, pixels, painted, within, -⟩
  have drawn : (((initialized (⟨0, 0, 0⟩ : Hsv)).qpRect ⟨4, id⟩ 0 1 0 1 ⟨0, 255, 255⟩ false).map
      fun result => result.2.painted.contains ((0, 0), ⟨0, 255, 255⟩)) = some true := by decide
  rw [run] at drawn
  have drawn : ((0, 0), (⟨0, 255, 255⟩ : Hsv)) ∈ after.painted := by simpa using drawn
  rw [painted] at drawn
  have inside := (within _ drawn).1
  simp [Outline, Closed] at inside

end Device

end QmkFirmware.Painter
