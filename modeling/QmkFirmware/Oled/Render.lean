import Mathlib
import QmkFirmware.Lib.DirtyBlocks
import QmkFirmware.Oled.Draw

/-!
# What a block becomes on the panel

The panel takes the bytes of a block into a window of its memory. Whichever way the display
is mounted, the window and the bytes of a block are such that every dot of the block comes to
stand where the rotation says, and nothing else in the panel changes.
-/

namespace QmkFirmware.Oled
open Lib

/-! ## The panel -/

namespace Window

variable (w : Window)

/-- How many columns it has -/
def width : Nat := w.columnEnd.toNat + 1 - w.column.toNat

/-- The page and the column that a byte goes to -/
def place (k : Nat) : Nat × Nat := (w.page.toNat + k / w.width, w.column.toNat + k % w.width)

/-- The panel takes so many bytes without coming back to the start. One row it takes whatever the last page is. -/
def Holds (d : Display) (n : Nat) : Prop :=
  w.column.toNat ≤ w.columnEnd.toNat ∧ w.columnEnd.toNat < d.width ∧
    (n ≤ w.width ∧ w.page.toNat < d.height / 8 ∨
      n ≤ w.width * (w.pageEnd.toNat + 1 - w.page.toNat) ∧ w.pageEnd.toNat < d.height / 8)

end Window

/-- What the driver relies on: the memory of the panel by page and column, the window that was set last, and whether it scrolls.
Only data change the memory, unless the panel scrolls; a transfer of data that fails may have changed some of the bytes. -/
structure Screen (d : Display) {σ : Type} (p : Panel σ) where
  ram : σ → Nat → Nat → Byte
  window : σ → Window
  scrolls : σ → Prop
  command_ram : ∀ s cmd, ram (p.transmit s (I2C_CMD :: cmd)).1 = ram s
  command_window : ∀ s (w : Window), (p.transmit s w.command).2 = true → window (p.transmit s w.command).1 = w
  command_scrolls : ∀ s cmd, scrolls (p.transmit s (I2C_CMD :: cmd)).1 →
    scrolls s ∨ (p.transmit s (I2C_CMD :: cmd)).2 = true ∧ cmd.getLast? = some ACTIVATE_SCROLL
  stops : ∀ s, (p.transmit s [I2C_CMD, DEACTIVATE_SCROLL]).2 = true → ¬ scrolls (p.transmit s [I2C_CMD, DEACTIVATE_SCROLL]).1
  setup_stops : ∀ s, (p.transmit s d.displaySetup2).2 = true → ¬ scrolls (p.transmit s d.displaySetup2).1
  data_scrolls : ∀ s data, scrolls (p.writeReg s I2C_DATA data).1 → scrolls s
  data_places : ∀ s data, (window s).Holds d data.length → ∀ page column,
    ram (p.writeReg s I2C_DATA data).1 page column = ram s page column ∨
      ∃ k, ∃ h : k < data.length, (window s).place k = (page, column) ∧ ram (p.writeReg s I2C_DATA data).1 page column = data[k]
  data_sent : ∀ s data, (window s).Holds d data.length → (p.writeReg s I2C_DATA data).2 = true → ∀ k (h : k < data.length),
    ram (p.writeReg s I2C_DATA data).1 ((window s).place k).1 ((window s).place k).2 = data[k]

/-! ## The dots -/

section Dots

variable (d : Display) (rotation : Rotation)

/-- A dot of what is drawn: how far from the left and from the top -/
abbrev Dot := { q : Nat × Nat // q.1 < d.wide rotation ∧ q.2 < d.tall rotation }

variable {d rotation} {σ : Type} (q : Dot d rotation)

/-- The byte of the buffer and the bit -/
def Dot.index : Nat := q.1.1 + q.1.2 / 8 * d.wide rotation

def Dot.block : Nat := q.index / d.blockSize

/-- Where it is on the panel, from the left and from the top: a quarter turn if the rotation says so -/
def Dot.turned : Nat × Nat := if rotation.has90 then (q.1.2, d.height - 1 - q.1.1) else q.1

def Dot.page : Nat := q.turned.2 / 8

def Dot.column : Nat := q.turned.1

def Dot.bit : Nat := q.turned.2 % 8

/-- The dot in the buffer -/
def Dot.drawn (buffer : Nat → Byte) : Bool := (buffer q.index).getLsbD (q.1.2 % 8)

/-- The dot in the memory of the panel -/
def Dot.shown (ram : Nat → Nat → Byte) : Bool := (ram q.page q.column).getLsbD q.bit

theorem Dot.index_lt : q.index < d.matrixSize := by
  obtain ⟨⟨x, y⟩, hx, hy⟩ := q
  obtain ⟨n, hn⟩ := d.pages
  have lines : d.matrixSize = d.tall rotation / 8 * d.wide rotation := by
    unfold Display.matrixSize Display.tall Display.wide
    split
    · rw [d.columns, hn, Nat.mul_div_cancel_left _ (by decide), Nat.mul_div_cancel_left _ (by decide)]
      ring
    · rfl
  have eight : d.tall rotation / 8 * 8 = d.tall rotation := by
    unfold Display.tall
    split
    · rw [d.columns, Nat.mul_div_cancel_left _ (by decide), Nat.mul_comm]
    · rw [hn, Nat.mul_div_cancel_left _ (by decide), Nat.mul_comm]
  have line : y / 8 < d.tall rotation / 8 := by
    dsimp only at hy
    omega
  have rest : (y / 8 + 1) * d.wide rotation ≤ d.tall rotation / 8 * d.wide rotation := Nat.mul_le_mul_right _ line
  rw [Nat.add_mul, Nat.one_mul] at rest
  unfold Dot.index
  dsimp only at hx ⊢
  omega

theorem Dot.block_lt : q.block < d.blockCount := d.block_lt q.index_lt

end Dots

/-! ## The quarter turn -/

section Turn

/-- One bit of a byte goes to where it belongs. -/
theorem crot_selected (a : Byte) {i j : Nat} (hi : i < 8) (hj : j < 8) :
    crot (a &&& BitVec.twoPow 8 i) (BitVec.ofNat 8 (7 - i) - BitVec.ofNat 8 j) =
      if a.getLsbD i then BitVec.twoPow 8 (7 - j) else 0 := by
  have finite : ∀ i < 8, ∀ j < 8, crot (BitVec.twoPow 8 i) (BitVec.ofNat 8 (7 - i) - BitVec.ofNat 8 j) = BitVec.twoPow 8 (7 - j) := by
    decide +kernel
  have zero : ∀ n : Byte, crot 0 n = 0 := by
    intro n
    unfold crot
    simp
  rw [BitVec.and_twoPow]
  split
  · exact finite i hi j hj
  · exact zero _

/-- The bits of a turned byte: the bytes are read from the right. -/
theorem rotate90_bit (buffer : Nat → Byte) (src dest : Nat) {temp : Nat → Byte} {k b : Nat} (lo : dest ≤ k) (hi : k < dest + 8)
    (clear : temp k = 0) (hb : b < 8) :
    (rotate90 buffer src temp dest k).getLsbD b = (buffer (src + (7 - b))).getLsbD (k - dest) := by
  have fold : ∀ n ≤ 8, ((List.range n).foldl (fun byte j => byte ||| crot (buffer (src + j) &&& BitVec.twoPow 8 (k - dest))
      (BitVec.ofNat 8 (7 - (k - dest)) - BitVec.ofNat 8 j)) 0).getLsbD b =
        (decide (7 - b < n) && (buffer (src + (7 - b))).getLsbD (k - dest)) := by
    intro n le
    induction n with
    | zero => simp
    | succ n ih =>
      rw [List.range_succ, List.foldl_append, List.foldl_cons, List.foldl_nil, BitVec.getLsbD_or, ih (by omega),
        crot_selected _ (by omega) (by omega)]
      have here : (if (buffer (src + n)).getLsbD (k - dest) = true then BitVec.twoPow 8 (7 - n) else 0).getLsbD b =
          (decide (7 - b = n) && (buffer (src + (7 - b))).getLsbD (k - dest)) := by
        by_cases eq : 7 - b = n
        · subst eq
          rw [decide_eq_true rfl, Bool.true_and]
          split
          next set =>
            rw [set, BitVec.getLsbD_twoPow]
            simp only [Bool.and_eq_true, decide_eq_true_iff]
            omega
          next unset =>
            rw [Bool.not_eq_true] at unset
            rw [unset]
            exact BitVec.getLsbD_zero
        · rw [decide_eq_false eq, Bool.false_and]
          split
          next =>
            rw [BitVec.getLsbD_twoPow, Bool.and_eq_false_iff]
            right
            rw [decide_eq_false_iff_not]
            omega
          next => exact BitVec.getLsbD_zero
      rw [here]
      rcases Nat.lt_trichotomy (7 - b) n with lt | eq | gt
      · simp [show 7 - b < n by omega, show 7 - b < n + 1 by omega]
      · simp [eq]
      · simp [show ¬ 7 - b < n by omega, show ¬ 7 - b < n + 1 by omega, show ¬ 7 - b = n by omega]
  unfold rotate90
  rw [if_pos ⟨lo, hi⟩, clear, fold 8 le_rfl, decide_eq_true (by omega), Bool.true_and]

theorem rotate90_outside {buffer temp : Nat → Byte} {src dest k : Nat} (h : ¬ (dest ≤ k ∧ k < dest + 8)) :
    rotate90 buffer src temp dest k = temp k := if_neg h

variable {d : Display} {σ : Type} (s : State d σ)

/-- The two maps pair the bytes from the left with those from the right. -/
theorem maps_zip : d.sourceMap.zip d.targetMap = (List.range (d.blockSize / 8)).map fun i => (8 * i, 8 * (d.blockSize / 8 - 1 - i)) := by
  unfold Display.targetMap Display.sourceMap
  apply List.ext_getElem
  · simp
  · intro i _ _
    simp [List.getElem_reverse]

/-- **The turned block**: a row of the buffer becomes columns, from the right. -/
theorem rotated_bit (updateStart : Nat) {k b : Nat} (hk : k < d.blockSize) (hb : b < 8) :
    (s.rotated updateStart k).getLsbD b =
      (s.buffer (d.blockSize * updateStart + (d.blockSize - 1 - (8 * (k / 8) + b)))).getLsbD (k % 8) := by
  have eight : d.blockSize / 8 * 8 = d.blockSize := by
    obtain ⟨n, hn⟩ := d.pages
    rw [d.blockSize_eq]
    omega
  have steps : ∀ n ≤ d.blockSize / 8,
      ((((List.range n).map fun i => (8 * i, 8 * (d.blockSize / 8 - 1 - i))).foldl
        (fun temp m => rotate90 s.buffer (d.blockSize * updateStart + m.1) temp m.2) fun _ => 0) k).getLsbD b =
      (decide (d.blockSize / 8 - 1 - k / 8 < n) &&
        (s.buffer (d.blockSize * updateStart + (d.blockSize - 1 - (8 * (k / 8) + b)))).getLsbD (k % 8)) ∧
      (n ≤ d.blockSize / 8 - 1 - k / 8 → (((List.range n).map fun i => (8 * i, 8 * (d.blockSize / 8 - 1 - i))).foldl
        (fun temp m => rotate90 s.buffer (d.blockSize * updateStart + m.1) temp m.2) fun _ => 0) k = 0) := by
    intro n le
    induction n with
    | zero => simp
    | succ n ih =>
      obtain ⟨bit, clear⟩ := ih (by omega)
      simp only [List.range_succ, List.map_append, List.map_cons, List.map_nil, List.foldl_append, List.foldl_cons, List.foldl_nil]
      by_cases here : d.blockSize / 8 - 1 - k / 8 = n
      · refine ⟨?_, fun le => by omega⟩
        rw [rotate90_bit s.buffer _ _ (by omega) (by omega) (clear (by omega)) hb, decide_eq_true (by omega), Bool.true_and,
          show k - 8 * (d.blockSize / 8 - 1 - n) = k % 8 by omega,
          show d.blockSize * updateStart + 8 * n + (7 - b) =
            d.blockSize * updateStart + (d.blockSize - 1 - (8 * (k / 8) + b)) by omega]
      · rw [rotate90_outside (by omega)]
        refine ⟨?_, fun le => clear (by omega)⟩
        rw [bit]
        congr 1
        exact decide_eq_decide.2 (by omega)
  unfold State.rotated
  rw [maps_zip, (steps _ le_rfl).1, decide_eq_true (by omega), Bool.true_and]

end Turn

/-! ## The block on the panel -/

section Block

variable {d : Display} {rotation : Rotation} {σ : Type} {s : State d σ} {updateStart : Nat}

theorem length_chunk : (s.chunk updateStart).length = d.blockSize := by
  unfold State.chunk
  split <;> rw [length_slice]

/-- Where the window for a block is, in columns and pages -/
theorem bounds_place (turn : s.rotation = rotation) (lt : updateStart < d.blockCount) :
    (s.bounds updateStart).Holds d d.blockSize ∧ ∀ k, k < d.blockSize → (s.bounds updateStart).place k =
      if rotation.has90 then (k / 8, 8 * updateStart + k % 8)
      else (d.height * updateStart / d.width, d.height * updateStart % d.width + k) := by
  obtain ⟨m, hm⟩ := d.rows
  have hpos := d.height_pos
  have wpos := d.width_pos
  have wlt := d.width_lt
  have hle := d.height_le
  have columns := d.columns
  have size := d.blockSize_eq
  unfold State.bounds
  rw [turn]
  by_cases quarter : rotation.has90 = true
  · -- the block is a line of what is drawn, which is eight columns of the panel
    have column : (d.calcBounds90 updateStart).column.toNat = 8 * updateStart := by
      unfold Display.calcBounds90
      rw [size]
      dsimp only
      rw [Nat.mul_div_cancel_left _ hpos, BitVec.toNat_ofNat, Nat.mod_eq_of_lt (by omega), Nat.mul_comm]
    have columnEnd : (d.calcBounds90 updateStart).columnEnd.toNat = 8 * updateStart + 7 := by
      have one : (d.height + d.height - 1) / d.height = 1 :=
        Nat.div_eq_of_lt_le (by omega) (by rw [Nat.succ_mul, Nat.one_mul]; omega)
      unfold Display.calcBounds90
      rw [size]
      dsimp only
      rw [one, Nat.mul_div_cancel_left _ hpos, BitVec.toNat_add, BitVec.toNat_ofNat, BitVec.toNat_ofNat]
      omega
    have page : (d.calcBounds90 updateStart).page.toNat = 0 := by
      unfold Display.calcBounds90
      rw [size]
      dsimp only
      rw [Nat.mul_mod_right]
      rfl
    have pageEnd : (d.calcBounds90 updateStart).pageEnd.toNat = (d.height - 1) / 8 := by
      have rest : (d.height + d.height - 1) % d.height = d.height - 1 := by
        rw [show d.height + d.height - 1 = d.height - 1 + d.height by omega, Nat.add_mod_right, Nat.mod_eq_of_lt (by omega)]
      unfold Display.calcBounds90
      rw [size]
      dsimp only
      rw [rest, BitVec.toNat_ofNat, Nat.mod_eq_of_lt (by omega)]
    have width : (d.calcBounds90 updateStart).width = 8 := by
      unfold Window.width
      omega
    simp only [if_pos quarter]
    refine ⟨⟨by omega, by omega, Or.inr ?_⟩, fun k _ => ?_⟩
    · obtain ⟨n, hn⟩ := d.pages
      rw [width, page, pageEnd]
      omega
    · unfold Window.place
      rw [page, column, width, Nat.zero_add]
  · have mpos : 0 < m := Nat.pos_of_ne_zero fun h => by rw [h] at hm; omega
    have startColumn : d.height * updateStart % d.width = d.height * (updateStart % m) := by rw [hm, Nat.mul_mod_mul_left]
    have room : d.height * (updateStart % m) + d.height ≤ d.width := by
      have := Nat.mul_le_mul_left d.height (Nat.mod_lt updateStart mpos)
      rw [Nat.mul_succ] at this
      omega
    have startPage : d.height * updateStart / d.width < d.height / 8 := by
      have inside : d.height * updateStart < d.matrixSize := by
        rw [d.matrixSize_eq]
        exact Nat.mul_lt_mul_of_pos_left lt hpos
      rw [Display.matrixSize] at inside
      exact Nat.div_lt_of_lt_mul (by rwa [Nat.mul_comm d.width])
    have column : (d.calcBounds updateStart).column.toNat = d.height * updateStart % d.width := by
      unfold Display.calcBounds
      rw [size]
      dsimp only
      rw [BitVec.toNat_ofNat, Nat.mod_eq_of_lt (by have := Nat.mod_lt (d.height * updateStart) wpos; omega)]
    have columnEnd : (d.calcBounds updateStart).columnEnd.toNat = d.height * updateStart % d.width + d.height - 1 := by
      have rest : (d.height + d.width - 1) % d.width = d.height - 1 := by
        rw [show d.height + d.width - 1 = d.height - 1 + d.width by omega, Nat.add_mod_right, Nat.mod_eq_of_lt (by omega)]
      unfold Display.calcBounds
      rw [size]
      dsimp only
      rw [rest, BitVec.toNat_add, BitVec.toNat_ofNat, BitVec.toNat_ofNat]
      omega
    have page : (d.calcBounds updateStart).page.toNat = d.height * updateStart / d.width := by
      unfold Display.calcBounds
      rw [size]
      dsimp only
      rw [BitVec.toNat_ofNat, Nat.mod_eq_of_lt (by omega)]
    have width : (d.calcBounds updateStart).width = d.height := by
      unfold Window.width
      omega
    simp only [if_neg quarter]
    refine ⟨⟨by omega, by omega, Or.inl ⟨by omega, by omega⟩⟩, fun k hk => ?_⟩
    rw [size] at hk
    unfold Window.place
    rw [page, column, width, Nat.div_eq_of_lt hk, Nat.mod_eq_of_lt hk, Nat.add_zero]

/-- A byte of the window that holds a dot is one of the block, and has the dot as it is drawn. -/
theorem chunk_dot (turn : s.rotation = rotation) (lt : updateStart < d.blockCount) (q : Dot d rotation) {k : Nat}
    (hk : k < (s.chunk updateStart).length) (here : (s.bounds updateStart).place k = (q.page, q.column)) :
    q.block = updateStart ∧ (s.chunk updateStart)[k].getLsbD q.bit = q.drawn s.buffer := by
  have size := d.blockSize_eq
  have hk' : k < d.blockSize := by rwa [length_chunk] at hk
  have hpos := d.height_pos
  rw [(bounds_place turn lt).2 k hk', Prod.ext_iff] at here
  obtain ⟨⟨x, y⟩, hx, hy⟩ := q
  dsimp only at hx hy
  by_cases quarter : rotation.has90 = true
  · simp only [if_pos quarter, Dot.page, Dot.column, Dot.turned] at here
    have wide : d.wide rotation = d.height := if_pos quarter
    rw [wide] at hx
    obtain ⟨hpage, hcolumn⟩ := here
    have line : y / 8 = updateStart := by omega
    refine ⟨?_, ?_⟩
    · change (x + y / 8 * d.wide rotation) / d.blockSize = updateStart
      rw [wide, size, line, Nat.add_mul_div_right _ _ hpos, Nat.div_eq_of_lt hx, Nat.zero_add]
    · change _ = (s.buffer (x + y / 8 * d.wide rotation)).getLsbD (y % 8)
      unfold Dot.bit Dot.turned State.chunk
      simp only [turn, if_pos quarter, getElem_slice, Nat.zero_add, wide]
      rw [rotated_bit s updateStart hk' (Nat.mod_lt _ (by decide)), size, line,
        show d.height * updateStart + (d.height - 1 - (8 * (k / 8) + (d.height - 1 - x) % 8)) = x + updateStart * d.height by
          rw [Nat.mul_comm]
          omega,
        show k % 8 = y % 8 by omega]
  · simp only [if_neg quarter, Dot.page, Dot.column, Dot.turned] at here
    have wide : d.wide rotation = d.width := if_neg quarter
    rw [wide] at hx
    obtain ⟨hpage, hcolumn⟩ := here
    have index : x + y / 8 * d.width = d.height * updateStart + k := by
      rw [← hpage, ← hcolumn]
      have := Nat.div_add_mod (d.height * updateStart) d.width
      rw [Nat.mul_comm] at this
      omega
    refine ⟨?_, ?_⟩
    · change (x + y / 8 * d.wide rotation) / d.blockSize = updateStart
      rw [size] at hk'
      rw [wide, size, index, Nat.add_comm, Nat.add_mul_div_left _ _ hpos, Nat.div_eq_of_lt hk', Nat.zero_add]
    · change _ = (s.buffer (x + y / 8 * d.wide rotation)).getLsbD (y % 8)
      unfold Dot.bit Dot.turned State.chunk
      simp only [turn, if_neg quarter, getElem_slice]
      rw [wide, index, size]

/-- Every dot of the block has a byte of the window. -/
theorem dot_chunk (turn : s.rotation = rotation) (q : Dot d rotation) (here : q.block = updateStart) :
    ∃ k, k < d.blockSize ∧ (s.bounds updateStart).place k = (q.page, q.column) := by
  have lt : updateStart < d.blockCount := here ▸ q.block_lt
  have size := d.blockSize_eq
  have hpos := d.height_pos
  have places := (bounds_place turn lt).2
  obtain ⟨⟨x, y⟩, hx, hy⟩ := q
  dsimp only at hx hy
  unfold Dot.block Dot.index at here
  by_cases quarter : rotation.has90 = true
  · simp only [Display.wide, Display.tall, if_pos quarter] at hx hy here
    simp only [if_pos quarter] at places
    rw [size, Nat.add_mul_div_right _ _ hpos, Nat.div_eq_of_lt hx, Nat.zero_add] at here
    obtain ⟨n, hn⟩ := d.pages
    refine ⟨8 * ((d.height - 1 - x) / 8) + y % 8, by omega, ?_⟩
    rw [places _ (by omega)]
    simp only [Dot.page, Dot.column, Dot.turned, if_pos quarter, Prod.mk.injEq]
    omega
  · simp only [Display.wide, Display.tall, if_neg quarter] at hx hy here
    simp only [if_neg quarter] at places
    have wpos := d.width_pos
    have column : (x + y / 8 * d.width) % d.width = x := by rw [Nat.add_mul_mod_self_right, Nat.mod_eq_of_lt hx]
    have page : (x + y / 8 * d.width) / d.width = y / 8 := by rw [Nat.add_mul_div_right _ _ wpos, Nat.div_eq_of_lt hx, Nat.zero_add]
    have split := Nat.div_add_mod (x + y / 8 * d.width) d.height
    have small := Nat.mod_lt (x + y / 8 * d.width) hpos
    obtain ⟨m, hm⟩ := d.rows
    have startPage : d.height * updateStart / d.width = y / 8 := by
      rw [← page, ← here, size, hm, Nat.mul_div_mul_left _ _ hpos, Nat.div_div_eq_div_mul]
    refine ⟨(x + y / 8 * d.width) % d.height, by omega, ?_⟩
    rw [places _ (by omega)]
    simp only [Dot.page, Dot.column, Dot.turned, if_neg quarter, Prod.mk.injEq]
    refine ⟨startPage, ?_⟩
    have whole := Nat.div_add_mod (d.height * updateStart) d.width
    rw [startPage] at whole
    rw [size] at here
    rw [here] at split
    rw [Nat.mul_comm d.width] at whole
    omega

end Block

end QmkFirmware.Oled
