import Mathlib
import QmkFirmware.Oled.Code

/-!
# Drawing marks what it changes

Whatever is drawn into the buffer of the OLED driver stays inside the buffer and marks
the blocks of the bytes that it changes, as long as the cursor stands where a character fits;
drawing keeps it there.
-/

namespace QmkFirmware.Oled
open Lib

/-! ## The geometry -/

namespace Display

variable (d : Display)

/-- The width and the height of what is drawn -/
def wide (rotation : Rotation) : Nat := if rotation.has90 then d.height else d.width

def tall (rotation : Rotation) : Nat := if rotation.has90 then d.width else d.height

theorem width_pos : 0 < d.width := by
  have := d.blockCount_pos
  have := d.columns
  omega

theorem height_le : d.height ≤ d.width := Nat.le_of_dvd d.width_pos d.rows

theorem matrixSize_eq : d.matrixSize = d.height * d.blockCount := by
  obtain ⟨n, hn⟩ := d.pages
  unfold matrixSize
  rw [d.columns, hn, Nat.mul_div_cancel_left _ (by decide)]
  ring

theorem blockSize_eq : d.blockSize = d.height := by
  unfold blockSize
  rw [d.matrixSize_eq, Nat.mul_div_cancel _ d.blockCount_pos]

theorem block_lt {index : Nat} (h : index < d.matrixSize) : index / d.blockSize < d.blockCount := by
  rw [d.matrixSize_eq] at h
  rw [d.blockSize_eq]
  exact Nat.div_lt_of_lt_mul h

variable (rotation : Rotation)

theorem wide_eq : d.wide rotation = d.height ∨ d.wide rotation = d.width := by
  unfold wide
  split
  · exact Or.inl rfl
  · exact Or.inr rfl

theorem wide_dvd : d.wide rotation ∣ d.matrixSize := by
  rcases d.wide_eq rotation with h | h
  · rw [h, d.matrixSize_eq]
    exact Dvd.intro _ rfl
  · rw [h]
    exact Dvd.intro_left _ rfl

theorem wide_pos : 0 < d.wide rotation := by
  rcases d.wide_eq rotation with h | h
  · exact h ▸ d.height_pos
  · exact h ▸ d.width_pos

theorem fontWidth_le_wide : d.fontWidth ≤ d.wide rotation := by
  have := d.fontWidth_le
  have := d.height_le
  rcases d.wide_eq rotation with h | h <;> omega

end Display

/-! ## What a drawing call does -/

section Drawing

variable {d : Display} {σ : Type} {s s' s'' : State d σ}

/-- From one state to another drawing has happened, and nothing else. -/
structure Drawn (s s' : State d σ) : Prop where
  panel : s'.panel = s.panel
  initialized : s'.initialized = s.initialized
  scrolling : s'.scrolling = s.scrolling
  rotation : s'.rotation = s.rotation
  rotationWidth : s'.rotationWidth = s.rotationWidth
  outside : ∀ k, d.matrixSize ≤ k → s'.buffer k = s.buffer k
  kept : ∀ b, s.dirty.getLsbD b = true → s'.dirty.getLsbD b = true
  marked : ∀ k, k < d.matrixSize → s'.buffer k ≠ s.buffer k → s'.dirty.getLsbD (k / d.blockSize) = true

/-- The cursor stands where a character fits. -/
structure Ready (s : State d σ) : Prop where
  rotationWidth : s.rotationWidth = d.wide s.rotation
  cursor_lt : s.cursor < d.matrixSize
  fits : s.cursor % s.rotationWidth + d.fontWidth ≤ s.rotationWidth

theorem Drawn.refl : Drawn s s := ⟨rfl, rfl, rfl, rfl, rfl, fun _ _ => rfl, fun _ h => h, fun _ _ h => absurd rfl h⟩

theorem Drawn.trans (h : Drawn s s') (h' : Drawn s' s'') : Drawn s s'' where
  panel := h'.panel.trans h.panel
  initialized := h'.initialized.trans h.initialized
  scrolling := h'.scrolling.trans h.scrolling
  rotation := h'.rotation.trans h.rotation
  rotationWidth := h'.rotationWidth.trans h.rotationWidth
  outside k le := (h'.outside k le).trans (h.outside k le)
  kept b marked := h'.kept b (h.kept b marked)
  marked k lt differs := by
    by_cases same : s''.buffer k = s'.buffer k
    · exact h'.kept _ (h.marked k lt (same ▸ differs))
    · exact h'.marked k lt same

/-- Moving the cursor draws nothing. -/
theorem Drawn.cursor (c : Nat) : Drawn s { s with cursor := c } :=
  ⟨rfl, rfl, rfl, rfl, rfl, fun _ _ => rfl, fun _ h => h, fun _ _ h => absurd rfl h⟩

/-- All is marked. -/
theorem Drawn.all {buffer : Nat → Byte} {c : Nat} (outside : ∀ k, d.matrixSize ≤ k → buffer k = s.buffer k) :
    Drawn s { s with buffer := buffer, cursor := c, dirty := BitVec.allOnes _ } where
  panel := rfl
  initialized := rfl
  scrolling := rfl
  rotation := rfl
  rotationWidth := rfl
  outside := outside
  kept b marked := by
    rw [BitVec.getLsbD_allOnes, decide_eq_true_iff]
    exact BitVec.lt_of_getLsbD marked
  marked k lt _ := by
    rw [BitVec.getLsbD_allOnes, decide_eq_true_iff]
    exact d.block_lt lt

theorem mark_kept {index b : Nat} (h : s.dirty.getLsbD b = true) : (s.mark index).dirty.getLsbD b = true := by
  unfold State.mark
  rw [BitVec.getLsbD_or, h, Bool.true_or]

theorem mark_here {index : Nat} (lt : index < d.matrixSize) : (s.mark index).dirty.getLsbD (index / d.blockSize) = true := by
  unfold State.mark
  rw [BitVec.getLsbD_or, BitVec.getLsbD_twoPow, decide_eq_true (d.block_lt lt), decide_eq_true rfl, Bool.and_true, Bool.or_true]

/-! ## The cursor -/

section Cursor

variable {c width size : Nat}

/-- A character that fits into a line that is in the buffer is in the buffer. -/
theorem end_le (dvd : width ∣ size) (lt : c < size) (fits : c % width + d.fontWidth ≤ width) : c + d.fontWidth ≤ size := by
  obtain ⟨n, rfl⟩ := dvd
  have line : c / width < n := Nat.div_lt_of_lt_mul lt
  have split := Nat.div_add_mod c width
  have whole : width * (c / width + 1) ≤ width * n := Nat.mul_le_mul_left _ line
  rw [Nat.mul_add, Nat.mul_one] at whole
  omega

theorem Ready.zero (h : Ready s) : Ready { s with cursor := 0 } where
  rotationWidth := h.rotationWidth
  cursor_lt := Nat.zero_lt_of_lt h.cursor_lt
  fits := by
    have le := d.fontWidth_le_wide s.rotation
    rw [← h.rotationWidth] at le
    rw [Nat.zero_mod, Nat.zero_add]
    exact le

/-- The start of a line -/
theorem Ready.line (h : Ready s) {n : Nat} (lt : n * s.rotationWidth < d.matrixSize) : Ready { s with cursor := n * s.rotationWidth } where
  rotationWidth := h.rotationWidth
  cursor_lt := lt
  fits := by
    have le := d.fontWidth_le_wide s.rotation
    rw [← h.rotationWidth] at le
    rw [Nat.mul_mod_left, Nat.zero_add]
    exact le

/-- The rest of a line leads to the next. -/
theorem next_line (c width : Nat) (pos : 0 < width) : c + (width - c % width) = (c / width + 1) * width := by
  have split := Nat.div_add_mod c width
  have lt := Nat.mod_lt c pos
  rw [Nat.add_mul, Nat.one_mul, Nat.mul_comm (c / width)]
  omega

theorem Ready.oledAdvanceChar (h : Ready s) : Ready (oledAdvanceChar s) := by
  have pos := d.wide_pos s.rotation
  rw [← h.rotationWidth] at pos
  unfold Oled.oledAdvanceChar
  dsimp only
  by_cases short : s.rotationWidth - (s.cursor + d.fontWidth) % s.rotationWidth < d.fontWidth
  · rw [if_pos short, next_line _ _ pos]
    split
    next => exact h.zero
    next lt => exact h.line (Nat.lt_of_not_le lt)
  · rw [if_neg short]
    split
    next => exact h.zero
    next lt =>
      refine ⟨h.rotationWidth, Nat.lt_of_not_le lt, ?_⟩
      have := Nat.mod_lt (s.cursor + d.fontWidth) pos
      dsimp only
      omega

end Cursor

/-! ## The calls -/

@[simp] theorem length_glyph (data : Byte) (invert : Bool) : (d.glyph data invert).length = d.fontWidth := by
  unfold Display.glyph
  dsimp only
  split <;> split <;> simp [slice]

theorem writeGlyph_drawn (h : Ready s) (data : Byte) (invert : Bool) :
    Drawn s (writeGlyph s data invert) ∧ Ready (writeGlyph s data invert) := by
  have fits := end_le (h.rotationWidth ▸ d.wide_dvd s.rotation) h.cursor_lt h.fits
  unfold writeGlyph
  dsimp only
  split
  next changed =>
    refine ⟨Drawn.trans ?_ (Drawn.cursor _), Ready.oledAdvanceChar ⟨h.rotationWidth, h.cursor_lt, h.fits⟩⟩
    refine ⟨rfl, rfl, rfl, rfl, rfl, fun k le => ?_, fun b marked => mark_kept (mark_kept marked), fun k lt differs => ?_⟩
    · exact patch_outside (Or.inr (by rw [length_glyph]; omega))
    · -- the character is in the block of its first byte or in that of its last
      have inside : s.cursor + d.fontWidth - 1 < d.matrixSize := by
        have := d.fontWidth_pos
        omega
      have first := mark_here (s := { s with buffer := patch s.buffer s.cursor (d.glyph data invert) }) h.cursor_lt
      have last := mark_here (s := State.mark { s with buffer := patch s.buffer s.cursor (d.glyph data invert) } s.cursor) inside
      have lower : s.cursor ≤ k := by
        by_contra below
        exact differs (patch_below (Nat.lt_of_not_le below))
      have upper : k < s.cursor + d.fontWidth := by
        by_contra above
        exact differs (patch_above (by rw [length_glyph]; omega))
      have le := Nat.div_le_div_right (c := d.blockSize) lower
      have ge := Nat.div_le_div_right (c := d.blockSize) (show k ≤ s.cursor + d.fontWidth - 1 by omega)
      have near : (s.cursor + d.fontWidth - 1) / d.blockSize ≤ s.cursor / d.blockSize + 1 := by
        have pos : 0 < d.blockSize := by rw [d.blockSize_eq]; exact d.height_pos
        have small := d.fontWidth_le
        rw [← d.blockSize_eq] at small
        rw [← Nat.add_div_right _ pos]
        exact Nat.div_le_div_right (by omega)
      rcases Nat.lt_or_ge (s.cursor / d.blockSize) (k / d.blockSize) with more | same
      · rw [show k / d.blockSize = (s.cursor + d.fontWidth - 1) / d.blockSize by omega]
        exact last
      · rw [show k / d.blockSize = s.cursor / d.blockSize by omega]
        exact mark_kept first
  next same =>
    refine ⟨Drawn.trans ?_ (Drawn.cursor _), Ready.oledAdvanceChar ⟨h.rotationWidth, h.cursor_lt, h.fits⟩⟩
    have all : patch s.buffer s.cursor (d.glyph data invert) = s.buffer := by
      rw [not_not.1 same]
      exact patch_slice _ _ _
    rw [all]
    exact Drawn.refl

theorem writeSpaces_drawn (h : Ready s) (n : Nat) : Drawn s (writeSpaces n s) ∧ Ready (writeSpaces n s) := by
  induction n generalizing s with
  | zero => exact ⟨Drawn.refl, h⟩
  | succ n ih =>
    obtain ⟨drawn, ready⟩ := writeGlyph_drawn h 0x20 false
    obtain ⟨drawn', ready'⟩ := ih ready
    exact ⟨drawn.trans drawn', ready'⟩

theorem oledAdvancePage_drawn (h : Ready s) (clearPageRemainder : Bool) :
    Drawn s (oledAdvancePage s clearPageRemainder) ∧ Ready (oledAdvancePage s clearPageRemainder) := by
  have pos := d.wide_pos s.rotation
  rw [← h.rotationWidth] at pos
  unfold oledAdvancePage
  dsimp only
  split
  next => exact writeSpaces_drawn h _
  next =>
    refine ⟨Drawn.cursor _, ?_⟩
    rw [next_line _ _ pos]
    split
    next => exact h.zero
    next lt => exact h.line (Nat.lt_of_not_le lt)

theorem oledWriteChar_drawn (h : Ready s) (data : Byte) (invert : Bool) :
    Drawn s (oledWriteChar s data invert) ∧ Ready (oledWriteChar s data invert) := by
  unfold oledWriteChar
  split
  next => exact oledAdvancePage_drawn h true
  next =>
    split
    next => exact oledAdvancePage_drawn h false
    next => exact writeGlyph_drawn h data invert

theorem oledWrite_drawn (h : Ready s) (data : List Byte) (invert : Bool) :
    Drawn s (oledWrite s data invert) ∧ Ready (oledWrite s data invert) := by
  induction data generalizing s with
  | nil => exact ⟨Drawn.refl, h⟩
  | cons c data ih =>
    obtain ⟨drawn, ready⟩ := oledWriteChar_drawn h c invert
    obtain ⟨drawn', ready'⟩ := ih ready
    exact ⟨drawn.trans drawn', ready'⟩

theorem put_drawn {index : Nat} (lt : index < d.matrixSize) (data : Byte) :
    Drawn s (s.put index data) ∧ (s.put index data).cursor = s.cursor := by
  unfold State.put
  split
  next => exact ⟨Drawn.refl, rfl⟩
  next =>
    refine ⟨⟨rfl, rfl, rfl, rfl, rfl, fun k le => ?_, fun b marked => mark_kept marked, fun k _ differs => ?_⟩, rfl⟩
    · exact Function.update_of_ne (by omega) _ _
    · by_cases here : k = index
      · subst here
        exact mark_here lt
      · exact absurd (Function.update_of_ne here _ _) differs

theorem writeRawLoop_drawn (data : List Byte) {index : Nat} (le : index + data.length ≤ d.matrixSize) :
    Drawn s (writeRawLoop data index s) ∧ (writeRawLoop data index s).cursor = s.cursor := by
  induction data generalizing index s with
  | nil => exact ⟨Drawn.refl, rfl⟩
  | cons c data ih =>
    rw [List.length_cons] at le
    obtain ⟨drawn, cursor⟩ := put_drawn (s := s) (show index < d.matrixSize by omega) c
    obtain ⟨drawn', cursor'⟩ := ih (s := s.put index c) (show index + 1 + data.length ≤ d.matrixSize by omega)
    exact ⟨drawn.trans drawn', cursor'.trans cursor⟩

/-- Drawing that leaves the cursor alone -/
theorem Drawn.ready (h : Ready s) (drawn : Drawn s s') (cursor : s'.cursor = s.cursor) : Ready s' where
  rotationWidth := by rw [drawn.rotationWidth, drawn.rotation, h.rotationWidth]
  cursor_lt := by rw [cursor]; exact h.cursor_lt
  fits := by rw [cursor, drawn.rotationWidth]; exact h.fits

theorem oledWriteRaw_drawn (h : Ready s) (data : List Byte) : Drawn s (oledWriteRaw s data) ∧ Ready (oledWriteRaw s data) := by
  have lt := h.cursor_lt
  unfold oledWriteRaw
  dsimp only
  have le : ∀ size, size ≤ d.matrixSize - s.cursor → s.cursor + (data.take size).length ≤ d.matrixSize := by
    intro size le
    have := List.length_take_le size data
    omega
  have size : (if d.matrixSize < data.length + s.cursor then d.matrixSize - s.cursor else data.length) ≤ d.matrixSize - s.cursor := by
    split <;> omega
  obtain ⟨drawn, cursor⟩ := writeRawLoop_drawn (s := s) _ (le _ size)
  exact ⟨drawn, drawn.ready h cursor⟩

theorem oledWritePixel_drawn (h : Ready s) (x y : Byte) (on : Bool) : Drawn s (oledWritePixel s x y on) ∧ Ready (oledWritePixel s x y on) := by
  unfold oledWritePixel
  dsimp only
  split
  next => exact ⟨Drawn.refl, h⟩
  next =>
    split
    next => exact ⟨Drawn.refl, h⟩
    next lt =>
      obtain ⟨drawn, cursor⟩ := put_drawn (s := s) (Nat.lt_of_not_le lt) _
      exact ⟨drawn, drawn.ready h cursor⟩

theorem oledPan_drawn (h : Ready s) (left : Bool) : Drawn s (oledPan s left) ∧ Ready (oledPan s left) := by
  have drawn : Drawn s (oledPan s left) := Drawn.all (c := s.cursor) fun k le => if_pos le
  exact ⟨drawn, drawn.ready h rfl⟩

theorem oledClear_drawn (h : Ready s) : Drawn s (oledClear s) ∧ Ready (oledClear s) := by
  have drawn : Drawn s (oledClear s) := Drawn.all fun k le => patch_above (by rw [List.length_replicate]; omega)
  have zero := h.zero
  exact ⟨drawn, zero.rotationWidth, zero.cursor_lt, zero.fits⟩

end Drawing

end QmkFirmware.Oled
