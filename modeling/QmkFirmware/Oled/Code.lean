import Mathlib
import QmkFirmware.Lib.Memory

/-!
# The OLED driver

`ssd1306_sh1106.c` of `drivers/oled` for the SSD1306. Text and pixels are drawn into a buffer, which is divided
into blocks; a block in which something has changed is marked, and `oled_render` sends
marked blocks to the panel, turned by 90 degrees where the display is mounted so. The
panel itself answers to commands and data over I2C and stands here as a parameter.
-/

namespace QmkFirmware.Oled
open Lib

abbrev Byte := BitVec 8

/-! ## The commands -/

def I2C_CMD : Byte := 0x00
def I2C_DATA : Byte := 0x40
def CONTRAST : Byte := 0x81
def DISPLAY_ALL_ON_RESUME : Byte := 0xA4
def NORMAL_DISPLAY : Byte := 0xA6
def DISPLAY_ON : Byte := 0xAF
def DISPLAY_OFF : Byte := 0xAE
def ACTIVATE_SCROLL : Byte := 0x2F
def DEACTIVATE_SCROLL : Byte := 0x2E
def SCROLL_RIGHT : Byte := 0x26
def SCROLL_LEFT : Byte := 0x27
def MEMORY_MODE : Byte := 0x20
def COLUMN_ADDR : Byte := 0x21
def PAGE_ADDR : Byte := 0x22
def DISPLAY_START_LINE : Byte := 0x40
def SEGMENT_REMAP : Byte := 0xA0
def SEGMENT_REMAP_INV : Byte := 0xA1
def MULTIPLEX_RATIO : Byte := 0xA8
def COM_SCAN_INC : Byte := 0xC0
def COM_SCAN_DEC : Byte := 0xC8
def DISPLAY_OFFSET : Byte := 0xD3
def COM_PINS : Byte := 0xDA
def DISPLAY_CLOCK : Byte := 0xD5
def PRE_CHARGE_PERIOD : Byte := 0xD9
def VCOM_DETECT : Byte := 0xDB
def CHARGE_PUMP : Byte := 0x8D

/-- The settings of `oled_driver.h`. There are as many blocks as columns of eight pixels, and the height divides the width, as for
the two displays that the driver knows: 128 by 32 and 128 by 64, in 16 blocks. -/
structure Display where
  width : Nat
  height : Nat
  blockCount : Nat
  updateProcessLimit : Nat
  fontStart : Nat
  fontEnd : Nat
  fontWidth : Nat
  font : Nat → Byte
  comPins : Byte
  brightness : Byte
  blockCount_pos : 0 < blockCount
  columns : width = 8 * blockCount
  pages : 8 ∣ height
  rows : height ∣ width
  height_pos : 0 < height
  width_lt : width < 256
  fontWidth_pos : 0 < fontWidth
  fontWidth_le : fontWidth ≤ height
  limit_pos : 0 < updateProcessLimit

namespace Display

variable (d : Display)

/-- `OLED_MATRIX_SIZE` -/
def matrixSize : Nat := d.height / 8 * d.width

/-- `OLED_BLOCK_SIZE` -/
def blockSize : Nat := d.matrixSize / d.blockCount

/-- `OLED_SOURCE_MAP` -/
def sourceMap : List Nat := (List.range (d.blockSize / 8)).map (8 * ·)

/-- `OLED_TARGET_MAP` -/
def targetMap : List Nat := d.sourceMap.reverse

end Display

/-- `oled_rotation_t` -/
inductive Rotation where
  | rotation0
  | rotation90
  | rotation180
  | rotation270
  deriving DecidableEq, Repr

/-- `HAS_FLAGS(oled_rotation, OLED_ROTATION_90)` -/
def Rotation.has90 : Rotation → Bool
  | rotation90 | rotation270 => true
  | rotation0 | rotation180 => false

/-- `HAS_FLAGS(oled_rotation, OLED_ROTATION_180)` -/
def Rotation.has180 : Rotation → Bool
  | rotation180 | rotation270 => true
  | rotation0 | rotation90 => false

/-- `I2C_TRANSMIT` and `I2C_WRITE_REG`: what becomes of the panel, and whether it was a success -/
structure Panel (σ : Type) where
  transmit : σ → List Byte → σ × Bool
  writeReg : σ → Byte → List Byte → σ × Bool

/-- The variables of the driver, with the memory from the start of `oled_buffer` on, and the panel -/
structure State (d : Display) (σ : Type) where
  buffer : Nat → Byte
  cursor : Nat
  dirty : BitVec d.blockCount
  initialized : Bool
  active : Bool
  scrolling : Bool
  rotation : Rotation
  rotationWidth : Nat
  scrollSpeed : Byte
  scrollStart : Byte
  scrollEnd : Byte
  panel : σ

section Code

variable {d : Display} {σ : Type} (p : Panel σ) (s : State d σ)

/-! ## Drawing -/

/-- `oled_clear` -/
def oledClear : State d σ :=
  { s with buffer := patch s.buffer 0 (List.replicate d.matrixSize 0), cursor := 0, dirty := BitVec.allOnes _ }

/-- Marks the block of an index -/
def State.mark (index : Nat) : State d σ := { s with dirty := s.dirty ||| BitVec.twoPow _ (index / d.blockSize) }

/-- `oled_set_cursor` -/
def oledSetCursor (col line : Byte) : State d σ :=
  let index := (line.toNat * s.rotationWidth + col.toNat * d.fontWidth) % 2 ^ 16
  { s with cursor := if d.matrixSize ≤ index then 0 else index }

/-- `oled_advance_char` -/
def oledAdvanceChar : State d σ :=
  let nextIndex := s.cursor + d.fontWidth
  let remainingSpace := s.rotationWidth - nextIndex % s.rotationWidth
  let nextIndex := if remainingSpace < d.fontWidth then nextIndex + remainingSpace else nextIndex
  { s with cursor := if d.matrixSize ≤ nextIndex then 0 else nextIndex }

/-- The bytes that `oled_write_char` puts at the cursor -/
def Display.glyph (d : Display) (data : Byte) (invert : Bool) : List Byte :=
  let bytes := if data.toNat < d.fontStart ∨ d.fontEnd < data.toNat then List.replicate d.fontWidth 0
    else slice d.font ((data.toNat - d.fontStart) * d.fontWidth) d.fontWidth
  if invert then bytes.map (~~~ ·) else bytes

/-- `oled_write_char` for a character other than the two that advance the page -/
def writeGlyph (data : Byte) (invert : Bool) : State d σ :=
  let glyph := d.glyph data invert
  let s' := { s with buffer := patch s.buffer s.cursor glyph }
  let s' := if glyph ≠ slice s.buffer s.cursor d.fontWidth then (s'.mark s.cursor).mark (s.cursor + d.fontWidth - 1) else s'
  oledAdvanceChar s'

/-- A number of spaces -/
def writeSpaces : Nat → State d σ → State d σ
  | 0, s => s
  | n + 1, s => writeSpaces n (writeGlyph s 0x20 false)

/-- `oled_advance_page` -/
def oledAdvancePage (clearPageRemainder : Bool) : State d σ :=
  let remaining := s.rotationWidth - s.cursor % s.rotationWidth
  if clearPageRemainder then writeSpaces (remaining / d.fontWidth) s
  else { s with cursor := if d.matrixSize ≤ s.cursor + remaining then 0 else s.cursor + remaining }

/-- `oled_write_char` -/
def oledWriteChar (data : Byte) (invert : Bool) : State d σ :=
  if data = 0x0A then oledAdvancePage s true
  else if data = 0x0D then oledAdvancePage s false
  else writeGlyph s data invert

/-- `oled_write` -/
def oledWrite (data : List Byte) (invert : Bool) : State d σ := data.foldl (fun s c => oledWriteChar s c invert) s

/-- `oled_write_ln` -/
def oledWriteLn (data : List Byte) (invert : Bool) : State d σ := oledAdvancePage (oledWrite s data invert) true

/-- `oled_pan`: every byte of a row, the last one it came to apart, is the one next to it before. -/
def oledPan (left : Bool) : State d σ :=
  { s with
    buffer := fun i =>
      if d.matrixSize ≤ i then s.buffer i
      else if left then if i % d.width < d.width - 1 then s.buffer (i + 1) else s.buffer i
      else if 0 < i % d.width then s.buffer (i - 1) else s.buffer i
    dirty := BitVec.allOnes _ }

/-- A byte into the buffer, and the mark if it changes something -/
def State.put (index : Nat) (data : Byte) : State d σ :=
  if s.buffer index = data then s else { s with buffer := Function.update s.buffer index data }.mark index

/-- `oled_write_raw_byte` -/
def oledWriteRawByte (data : Byte) (index : BitVec 16) : State d σ :=
  s.put (if d.matrixSize < index.toNat then d.matrixSize else index.toNat) data

/-- The loop of `oled_write_raw`, at an index -/
def writeRawLoop : List Byte → Nat → State d σ → State d σ
  | [], _, s => s
  | c :: data, i, s => writeRawLoop data (i + 1) (s.put i c)

/-- `oled_write_raw` -/
def oledWriteRaw (data : List Byte) : State d σ :=
  let size := if d.matrixSize < data.length + s.cursor then d.matrixSize - s.cursor else data.length
  writeRawLoop (data.take size) s.cursor s

/-- `oled_write_pixel` -/
def oledWritePixel (x y : Byte) (on : Bool) : State d σ :=
  if s.rotationWidth ≤ x.toNat then s
  else
    let index := x.toNat + y.toNat / 8 * s.rotationWidth
    if d.matrixSize ≤ index then s
    else
      let bit := BitVec.twoPow 8 (y.toNat % 8)
      s.put index (if on then s.buffer index ||| bit else s.buffer index &&& ~~~bit)

/-! ## The panel -/

/-- `oled_on` -/
def oledOn : State d σ :=
  if !s.initialized || s.active then s
  else
    let r := p.transmit s.panel [I2C_CMD, DISPLAY_ON]
    { s with panel := r.1, active := r.2 }

/-- `oled_off` -/
def oledOff : State d σ :=
  if !s.initialized || !s.active then s
  else
    let r := p.transmit s.panel [I2C_CMD, DISPLAY_OFF]
    { s with panel := r.1, active := !r.2 }

/-- `oled_scroll_set_area` -/
def oledScrollSetArea (startLine endLine : Byte) : State d σ := { s with scrollStart := startLine, scrollEnd := endLine }

/-- `oled_scroll_set_speed` -/
def oledScrollSetSpeed (speed : Fin 8) : State d σ := { s with scrollSpeed := ([7, 4, 5, 0, 6, 1, 2, 3] : List Byte)[speed] }

/-- The command of `oled_scroll_right` and `oled_scroll_left` -/
def State.scrollCommand (direction : Byte) : List Byte :=
  [I2C_CMD, direction, 0x00, s.scrollStart, s.scrollSpeed, s.scrollEnd, 0x00, 0xFF, ACTIVATE_SCROLL]

/-- `oled_scroll_right` and `oled_scroll_left`, of the command for the direction -/
def oledScroll (direction : Byte) : State d σ :=
  if s.initialized && decide (s.dirty = 0) && !s.scrolling then
    let r := p.transmit s.panel (s.scrollCommand direction)
    { s with panel := r.1, scrolling := r.2 }
  else s

def oledScrollRight : State d σ := oledScroll p s SCROLL_RIGHT
def oledScrollLeft : State d σ := oledScroll p s SCROLL_LEFT

/-- `oled_scroll_off` -/
def oledScrollOff : State d σ :=
  if s.initialized && s.scrolling then
    let r := p.transmit s.panel [I2C_CMD, DEACTIVATE_SCROLL]
    if r.2 then { s with panel := r.1, scrolling := false, dirty := BitVec.allOnes _ } else { s with panel := r.1 }
  else s

/-- `display_setup1` -/
def Display.displaySetup1 (d : Display) : List Byte :=
  [I2C_CMD, DISPLAY_OFF, DISPLAY_CLOCK, 0x80, MULTIPLEX_RATIO, BitVec.ofNat 8 (d.height - 1), DISPLAY_OFFSET, 0x00, DISPLAY_START_LINE,
    CHARGE_PUMP, 0x14, MEMORY_MODE, 0x00]

/-- `display_normal` and `display_flipped` -/
def Rotation.displayTurned (rotation : Rotation) : List Byte :=
  if rotation.has180 then [I2C_CMD, SEGMENT_REMAP, COM_SCAN_INC] else [I2C_CMD, SEGMENT_REMAP_INV, COM_SCAN_DEC]

/-- `display_setup2` -/
def Display.displaySetup2 (d : Display) : List Byte :=
  [I2C_CMD, COM_PINS, d.comPins, CONTRAST, d.brightness, PRE_CHARGE_PERIOD, 0xF1, VCOM_DETECT, 0x20, DISPLAY_ALL_ON_RESUME,
    NORMAL_DISPLAY, DEACTIVATE_SCROLL, DISPLAY_ON]

/-- `oled_init`, with the rotation that the keyboard has settled on -/
def oledInit (rotation : Rotation) : State d σ × Bool :=
  let s := { s with rotation := rotation, rotationWidth := if rotation.has90 then d.height else d.width }
  let setup1 := p.transmit s.panel d.displaySetup1
  if !setup1.2 then ({ s with panel := setup1.1 }, false)
  else
    let turned := p.transmit setup1.1 rotation.displayTurned
    if !turned.2 then ({ s with panel := turned.1 }, false)
    else
      let setup2 := p.transmit turned.1 d.displaySetup2
      if !setup2.2 then ({ s with panel := setup2.1 }, false)
      else ({ oledClear { s with panel := setup2.1 } with initialized := true, active := true, scrolling := false }, true)

/-! ## Rendering -/

/-- `crot` -/
def crot (a n : Byte) : Byte := a <<< (n &&& 7) ||| a >>> (-(n &&& 7) &&& 7)

/-- `rotate_90`, from the bytes at `src` of the buffer into those at `dest` of another -/
def rotate90 (buffer : Nat → Byte) (src : Nat) (temp : Nat → Byte) (dest : Nat) : Nat → Byte := fun k =>
  if dest ≤ k ∧ k < dest + 8 then
    (List.range 8).foldl (fun byte j =>
      byte ||| crot (buffer (src + j) &&& BitVec.twoPow 8 (k - dest)) (BitVec.ofNat 8 (7 - (k - dest)) - BitVec.ofNat 8 j)) (temp k)
  else temp k

/-- The columns and the pages from the first to the last that data go to -/
structure Window where
  column : Byte
  columnEnd : Byte
  page : Byte
  pageEnd : Byte
  deriving DecidableEq, Repr

/-- `display_start` -/
def Window.command (w : Window) : List Byte := [I2C_CMD, COLUMN_ADDR, w.column, w.columnEnd, PAGE_ADDR, w.page, w.pageEnd]

/-- `calc_bounds` -/
def Display.calcBounds (d : Display) (updateStart : Nat) : Window :=
  let startPage := BitVec.ofNat 8 (d.blockSize * updateStart / d.width)
  let startColumn := BitVec.ofNat 8 (d.blockSize * updateStart % d.width)
  ⟨startColumn, BitVec.ofNat 8 ((d.blockSize + d.width - 1) % d.width) + startColumn, startPage,
    BitVec.ofNat 8 ((d.blockSize + d.width - 1) / d.width - 1)⟩

/-- `calc_bounds_90` -/
def Display.calcBounds90 (d : Display) (updateStart : Nat) : Window :=
  let column := BitVec.ofNat 8 (d.blockSize * updateStart / d.height * 8)
  ⟨column, BitVec.ofNat 8 ((d.blockSize + d.height - 1) / d.height * 8 - 1) + column,
    BitVec.ofNat 8 (d.blockSize * updateStart % d.height), BitVec.ofNat 8 ((d.blockSize + d.height - 1) % d.height / 8)⟩

/-- Where a block goes -/
def State.bounds (updateStart : Nat) : Window :=
  if s.rotation.has90 then d.calcBounds90 updateStart else d.calcBounds updateStart

/-- `temp_buffer` -/
def State.rotated (updateStart : Nat) : Nat → Byte :=
  (d.sourceMap.zip d.targetMap).foldl
    (fun temp m => rotate90 s.buffer (d.blockSize * updateStart + m.1) temp m.2) fun _ => 0

/-- The bytes of a block as they are sent -/
def State.chunk (updateStart : Nat) : List Byte :=
  if s.rotation.has90 then slice (s.rotated updateStart) 0 d.blockSize else slice s.buffer (d.blockSize * updateStart) d.blockSize

/-- A block is sent, and if that is a success its mark is cleared. -/
def renderBlock (updateStart : Nat) : State d σ × Bool :=
  let start := p.transmit s.panel (s.bounds updateStart).command
  if !start.2 then ({ s with panel := start.1 }, false)
  else
    let data := p.writeReg start.1 I2C_DATA (s.chunk updateStart)
    if !data.2 then ({ s with panel := data.1 }, false)
    else ({ s with panel := data.1, dirty := s.dirty &&& ~~~BitVec.twoPow _ updateStart }, true)

/-- The next dirty block from `updateStart` on -/
def nextDirty {n : Nat} (dirty : BitVec n) : (fuel updateStart : Nat) → Nat
  | 0, updateStart => updateStart
  | fuel + 1, updateStart => if dirty.getLsbD updateStart then updateStart else nextDirty dirty fuel (updateStart + 1)

/-- The loop of `oled_render` -/
def renderLoop : (limit updateStart : Nat) → State d σ → State d σ
  | 0, _, s => s
  | limit + 1, updateStart, s =>
    if s.dirty = 0 then s
    else
      let updateStart := nextDirty s.dirty d.blockCount updateStart
      let r := renderBlock p s updateStart
      if r.2 then renderLoop limit updateStart r.1 else r.1

/-- `oled_render` -/
def oledRender : State d σ :=
  if s.dirty = 0 ∨ s.initialized = false ∨ s.scrolling then s
  else renderLoop p d.updateProcessLimit 0 (oledOn p s)

end Code

end QmkFirmware.Oled
