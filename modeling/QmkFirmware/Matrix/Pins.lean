import Mathlib
import QmkFirmware.Debounce.Code
import QmkFirmware.Lib.Wires
import QmkFirmware.Matrix.Task

/-!
# The scan of the matrix

`matrix_scan` of `matrix.c` for both directions of the diodes: a line at a time is driven
low, and the pins of the lines that cross it are read. What a pin reads is up to the
circuit behind it. With diodes a scan reads the contacts that are closed. Without them it
reads the lines that a chain of closed contacts joins, which is where ghosts come from.
-/

namespace QmkFirmware.Matrix
open Lib Relation

/-- `pin_t` of the lines, `NO_PIN` where there is none; a pin is of one line. -/
structure Pins (P : Type) (rows cols : Nat) where
  rowPins : Fin rows → Option P
  colPins : Fin cols → Option P
  row_inj : ∀ r r' pin, rowPins r = some pin → rowPins r' = some pin → r = r'
  col_inj : ∀ c c' pin, colPins c = some pin → colPins c' = some pin → c = c'
  apart : ∀ r c pin, rowPins r = some pin → colPins c ≠ some pin

/-- What `readPin` gives, of the pins that are driven low and a pin; the other pins are inputs that are pulled up. -/
abbrev Circuit (P : Type) := (P → Bool) → P → Bool

/-- `DIODE_DIRECTION` -/
inductive DiodeDirection where
  | col2row
  | row2col
  deriving DecidableEq, Repr

/-- The pins that are driven low, and `curr_matrix` -/
structure Scanning (P : Type) (rows width : Nat) where
  low : P → Bool
  matrix : Rows rows width

/-- `row_shifter` at a column -/
def rowShifter (width col : Nat) : BitVec width := BitVec.ofNat width 1 <<< col

section Bits

variable {width col n : Nat} (value : BitVec width) (lt : col < width)

include lt

/-- The bit of a column is set. -/
theorem getLsbD_set : (value ||| rowShifter width col).getLsbD n = (value.getLsbD n || decide (col = n)) := by
  unfold rowShifter
  rw [BitVec.getLsbD_or, ← BitVec.twoPow_eq, BitVec.getLsbD_twoPow, decide_eq_true lt, Bool.true_and]

/-- The bit of a column is cleared. -/
theorem getLsbD_clear : (value &&& ~~~rowShifter width col).getLsbD n = (value.getLsbD n && !decide (col = n)) := by
  unfold rowShifter
  rw [BitVec.getLsbD_and, BitVec.getLsbD_not, ← BitVec.twoPow_eq, BitVec.getLsbD_twoPow, decide_eq_true lt, Bool.true_and]
  by_cases inside : n < width
  · rw [decide_eq_true inside, Bool.true_and]
  · rw [BitVec.getLsbD_of_ge _ _ (Nat.le_of_not_lt inside), Bool.false_and, Bool.false_and]

end Bits

section Code

variable {P : Type} [DecidableEq P] {rows cols width : Nat} (pins : Pins P rows cols) (readPin : Circuit P)

/-- `readMatrixPin`, with `MATRIX_INPUT_PRESSED_STATE` 0 -/
def readMatrixPin (low : P → Bool) : Option P → Bool
  | some pin => readPin low pin
  | none => true

/-- `select_row` and `select_col` -/
def selectLine (low : P → Bool) (pin : P) : P → Bool := Function.update low pin true

/-- `unselect_row` and `unselect_col` -/
def unselectLine (low : P → Bool) (pin : P) : P → Bool := Function.update low pin false

/-- `current_row_value` after the loop over the columns -/
def rowValue (low : P → Bool) : BitVec width :=
  (List.finRange cols).foldl
    (fun value col => if readMatrixPin readPin low (pins.colPins col) then value else value ||| rowShifter width col) 0

/-- `matrix_read_cols_on_row` -/
def matrixReadColsOnRow (s : Scanning P rows width) (row : Fin rows) : Scanning P rows width :=
  match pins.rowPins row with
  | none => s
  | some pin =>
    let low := selectLine s.low pin
    ⟨unselectLine low pin, Function.update s.matrix row (rowValue pins readPin low)⟩

/-- `matrix_read_rows_on_col` -/
def matrixReadRowsOnCol (s : Scanning P rows width) (col : Fin cols) : Scanning P rows width :=
  match pins.colPins col with
  | none => s
  | some pin =>
    let low := selectLine s.low pin
    ⟨unselectLine low pin, fun row =>
      if readMatrixPin readPin low (pins.rowPins row) then s.matrix row &&& ~~~rowShifter width col else s.matrix row ||| rowShifter width col⟩

/-- `matrix_scan` up to `curr_matrix`, which is clear before it -/
def scanLines (direction : DiodeDirection) (low : P → Bool) : Scanning P rows width :=
  match direction with
  | .col2row => (List.finRange rows).foldl (matrixReadColsOnRow pins readPin) ⟨low, 0⟩
  | .row2col => (List.finRange cols).foldl (matrixReadRowsOnCol pins readPin) ⟨low, 0⟩

end Code

/-! ## `matrix_scan` -/

section Scan

variable {rows width : Nat}

def toBools (m : Rows rows width) : Debounce.Matrix rows width := fun row col => (m row).getLsbD col

def ofBools (m : Debounce.Matrix rows width) : Rows rows width := fun row => BitVec.ofFnLE (m row)

@[simp] theorem ofBools_toBools (m : Rows rows width) : ofBools (toBools m) = m := by
  funext row
  apply BitVec.eq_of_getLsbD_eq
  intro n lt
  unfold ofBools toBools
  rw [BitVec.getLsbD_ofFnLE, dif_pos lt]

/-- The variables of `matrix_scan`: the pins that are driven low, `raw_matrix`, `matrix`, and those of the debounce file -/
structure ScanState (P : Type) (rows width : Nat) (file : Debounce.File rows width) where
  low : P → Bool
  raw : Rows rows width
  matrix : Rows rows width
  debounce : file.State

/-- `matrix_scan`; nothing is split. -/
def matrixScan {P : Type} [DecidableEq P] {cols : Nat} (pins : Pins P rows cols) (direction : DiodeDirection)
    {file : Debounce.File rows width} (readPin : Circuit P) (now : Nat) (s : ScanState P rows width file) :
    ScanState P rows width file :=
  let scanned := scanLines pins readPin direction s.low
  let changed := decide (s.raw ≠ scanned.matrix)
  let raw := if changed then scanned.matrix else s.raw
  let debounced := file.debounce (toBools raw) (toBools s.matrix) changed now s.debounce
  ⟨scanned.low, raw, ofBools debounced.2.1, debounced.1⟩

end Scan

/-! ## What a scan reads -/

section Lines

variable {P : Type} [DecidableEq P] {rows cols width : Nat} (pins : Pins P rows cols) (readPin : Circuit P)

/-- No pin is driven low between the scans. -/
def released : P → Bool := fun _ => false

/-- The pin of the line that is driven, and the pin that is read, for a contact -/
def ends (direction : DiodeDirection) (row : Fin rows) (col : Fin cols) : Option P × Option P :=
  match direction with
  | .col2row => (pins.rowPins row, pins.colPins col)
  | .row2col => (pins.colPins col, pins.rowPins row)

/-- The contact reads as closed. -/
def contactRead (direction : DiodeDirection) (row : Fin rows) (col : Fin cols) : Bool :=
  match ends pins direction row col with
  | (some driven, read) => !readMatrixPin readPin (selectLine released driven) read
  | (none, _) => false

@[simp] theorem unselectLine_selectLine (pin : P) : unselectLine (selectLine released pin) pin = released := by
  funext p
  unfold unselectLine selectLine released
  by_cases here : p = pin
  · rw [here, Function.update_self]
  · rw [Function.update_of_ne here, Function.update_of_ne here]

/-- The bits of a row, or-ed one after the other -/
theorem getLsbD_orLoop {passes : List (Fin cols)} {up : Fin cols → Bool} {value : BitVec width} {col : Fin cols}
    (le : cols ≤ width) :
    (passes.foldl (fun value col => if up col then value else value ||| rowShifter width col) value).getLsbD col =
      (value.getLsbD col || decide (col ∈ passes) && !up col) := by
  induction passes generalizing value with
  | nil => simp
  | cons c passes ih =>
    rw [List.foldl_cons, ih]
    cases here : up c
    · have lt : c.val < width := by omega
      rw [if_neg Bool.false_ne_true, getLsbD_set _ lt]
      by_cases same : col = c
      · subst same
        simp [here]
      · have ne : (c : Nat) ≠ col := fun h => same (Fin.ext h.symm)
        simp [same, ne]
    · rw [if_pos rfl]
      by_cases same : col = c
      · rw [← same] at here
        simp [here]
      · simp [same]

/-- No bit stands for a column that there is not. -/
theorem getLsbD_orLoop_beyond {passes : List (Fin cols)} {up : Fin cols → Bool} {value : BitVec width} {n : Nat}
    (le : cols ≤ width) (beyond : cols ≤ n) (clear : value.getLsbD n = false) :
    (passes.foldl (fun value col => if up col then value else value ||| rowShifter width col) value).getLsbD n = false := by
  induction passes generalizing value with
  | nil => exact clear
  | cons c passes ih =>
    apply ih
    dsimp only
    split
    · exact clear
    · have ne : (c : Nat) ≠ n := by omega
      rw [getLsbD_set _ (by omega), clear, decide_eq_false ne]
      rfl

/-- The loop over the rows, row by row -/
theorem foldl_matrixReadColsOnRow (passes : List (Fin rows)) (s : Scanning P rows width) (idle : s.low = released) :
    let after := passes.foldl (matrixReadColsOnRow pins readPin) s
    after.low = released ∧ ∀ row, after.matrix row = match pins.rowPins row with
      | some pin => if row ∈ passes then rowValue pins readPin (selectLine released pin) else s.matrix row
      | none => s.matrix row := by
  induction passes generalizing s with
  | nil =>
    refine ⟨idle, fun row => ?_⟩
    cases pins.rowPins row <;> rfl
  | cons r passes ih =>
    cases here : pins.rowPins r with
    | none =>
      have same : matrixReadColsOnRow pins readPin s r = s := by
        unfold matrixReadColsOnRow
        rw [here]
      obtain ⟨low, value⟩ := ih s idle
      rw [List.foldl_cons, same]
      refine ⟨low, fun row => (value row).trans ?_⟩
      by_cases eq : row = r
      · rw [eq, here]
      · simp [eq]
    | some pin =>
      have step : matrixReadColsOnRow pins readPin s r =
          ⟨released, Function.update s.matrix r (rowValue pins readPin (selectLine released pin))⟩ := by
        unfold matrixReadColsOnRow
        rw [here]
        dsimp only
        rw [idle, unselectLine_selectLine]
      obtain ⟨low, value⟩ := ih (matrixReadColsOnRow pins readPin s r) (by rw [step])
      rw [List.foldl_cons]
      refine ⟨low, fun row => (value row).trans ?_⟩
      rw [step]
      by_cases eq : row = r
      · rw [eq, here]
        simp
      · simp [eq]

/-- The loop over the columns, bit by bit -/
theorem foldl_matrixReadRowsOnCol (le : cols ≤ width) (passes : List (Fin cols)) (s : Scanning P rows width)
    (idle : s.low = released) :
    let after := passes.foldl (matrixReadRowsOnCol pins readPin) s
    after.low = released ∧ ∀ row, (∀ col : Fin cols, (after.matrix row).getLsbD col =
      if col ∈ passes ∧ (pins.colPins col).isSome then contactRead pins readPin .row2col row col else (s.matrix row).getLsbD col) ∧
      ∀ n, cols ≤ n → (s.matrix row).getLsbD n = false → (after.matrix row).getLsbD n = false := by
  induction passes generalizing s with
  | nil => exact ⟨idle, fun row => ⟨fun col => by simp, fun n _ clear => clear⟩⟩
  | cons c passes ih =>
    cases here : pins.colPins c with
    | none =>
      have same : matrixReadRowsOnCol pins readPin s c = s := by
        unfold matrixReadRowsOnCol
        rw [here]
      obtain ⟨low, bits⟩ := ih s idle
      rw [List.foldl_cons, same]
      refine ⟨low, fun row => ⟨fun col => ((bits row).1 col).trans ?_, (bits row).2⟩⟩
      by_cases eq : col = c
      · simp [eq, here]
      · simp [eq]
    | some pin =>
      have step : matrixReadRowsOnCol pins readPin s c = ⟨released, fun row =>
          if readMatrixPin readPin (selectLine released pin) (pins.rowPins row) then s.matrix row &&& ~~~rowShifter width c
          else s.matrix row ||| rowShifter width c⟩ := by
        unfold matrixReadRowsOnCol
        rw [here]
        dsimp only
        rw [idle, unselectLine_selectLine]
      obtain ⟨low, bits⟩ := ih (matrixReadRowsOnCol pins readPin s c) (by rw [step])
      have lt : c.val < width := by omega
      rw [List.foldl_cons]
      refine ⟨low, fun row => ⟨fun col => ((bits row).1 col).trans ?_, fun n beyond clear => (bits row).2 n beyond ?_⟩⟩
      · rw [step]
        by_cases eq : col = c
        · have read : contactRead pins readPin .row2col row c =
              !readMatrixPin readPin (selectLine released pin) (pins.rowPins row) := by
            unfold contactRead ends
            rw [here]
          have mine : (if readMatrixPin readPin (selectLine released pin) (pins.rowPins row) then s.matrix row &&& ~~~rowShifter width c
              else s.matrix row ||| rowShifter width c).getLsbD c = contactRead pins readPin .row2col row c := by
            rw [read]
            cases readMatrixPin readPin (selectLine released pin) (pins.rowPins row)
            · rw [if_neg Bool.false_ne_true, getLsbD_set _ lt, decide_eq_true rfl, Bool.or_true, Bool.not_false]
            · rw [if_pos rfl, getLsbD_clear _ lt, decide_eq_true rfl, Bool.not_true, Bool.and_false]
          dsimp only
          rw [eq, here, mine]
          simp
        · have ne : (c : Nat) ≠ col := fun h => eq (Fin.ext h.symm)
          have other : (if readMatrixPin readPin (selectLine released pin) (pins.rowPins row) then s.matrix row &&& ~~~rowShifter width c
              else s.matrix row ||| rowShifter width c).getLsbD col = (s.matrix row).getLsbD col := by
            split
            · rw [getLsbD_clear _ lt, decide_eq_false ne, Bool.not_false, Bool.and_true]
            · rw [getLsbD_set _ lt, decide_eq_false ne, Bool.or_false]
          dsimp only
          rw [other]
          simp [eq]
      · rw [step]
        have ne : (c : Nat) ≠ n := by omega
        dsimp only
        split
        · rw [getLsbD_clear _ lt, clear, Bool.false_and]
        · rw [getLsbD_set _ lt, clear, decide_eq_false ne]
          rfl

/-- **What `curr_matrix` is after a scan**: of every contact what it reads as, and no bit beside; and no pin is driven low
after it. -/
theorem scanLines_released {width : Nat} (le : cols ≤ width) (direction : DiodeDirection) :
    let after : Scanning P rows width := scanLines pins readPin direction released
    after.low = released ∧ ∀ row, (∀ col : Fin cols, (after.matrix row).getLsbD col = contactRead pins readPin direction row col) ∧
      ∀ n, cols ≤ n → (after.matrix row).getLsbD n = false := by
  cases direction with
  | col2row =>
    obtain ⟨low, value⟩ := foldl_matrixReadColsOnRow pins readPin (List.finRange rows) (⟨released, 0⟩ : Scanning P rows width) rfl
    refine ⟨low, fun row => ?_⟩
    unfold scanLines
    rw [value row]
    unfold contactRead ends
    cases pins.rowPins row with
    | none => exact ⟨fun col => BitVec.getLsbD_zero, fun n _ => BitVec.getLsbD_zero⟩
    | some pin =>
      dsimp only
      rw [if_pos (List.mem_finRange row)]
      refine ⟨fun col => ?_, fun n beyond => getLsbD_orLoop_beyond le beyond BitVec.getLsbD_zero⟩
      unfold rowValue
      rw [getLsbD_orLoop le, decide_eq_true (List.mem_finRange col)]
      simp
  | row2col =>
    obtain ⟨low, bits⟩ := foldl_matrixReadRowsOnCol pins readPin le (List.finRange cols) (⟨released, 0⟩ : Scanning P rows width) rfl
    refine ⟨low, fun row => ⟨fun col => ((bits row).1 col).trans ?_, fun n beyond => (bits row).2 n beyond BitVec.getLsbD_zero⟩⟩
    cases here : pins.colPins col with
    | none =>
      unfold contactRead ends
      rw [here]
      simp
    | some pin => simp

end Lines

/-! ## The circuit behind the pins -/

section Circuits

variable {P : Type} {rows cols : Nat} (pins : Pins P rows cols)

/-- Current flows from a pin that is pulled up to one that is driven low: through a closed contact, both ways without diodes, and
one way with them. -/
inductive Flows (diodes : Option DiodeDirection) (closed : Fin rows → Fin cols → Prop) : P → P → Prop
  | toRow (row : Fin rows) (col : Fin cols) {p q : P} : diodes ≠ some .row2col → pins.colPins col = some p →
      pins.rowPins row = some q → closed row col → Flows diodes closed p q
  | toCol (row : Fin rows) (col : Fin cols) {p q : P} : diodes ≠ some .col2row → pins.rowPins row = some p →
      pins.colPins col = some q → closed row col → Flows diodes closed p q

/-- A pin reads low if current flows from it to a pin that is driven low. -/
def Obeys (flows : P → P → Prop) (readPin : Circuit P) : Prop :=
  ∀ low pin, readPin low pin = false ↔ ∃ driven, low driven = true ∧ ReflTransGen flows pin driven

/-- A closed contact of lines that have pins -/
def Wired (closed : Fin rows → Fin cols → Prop) (row : Fin rows) (col : Fin cols) : Prop :=
  (pins.rowPins row).isSome = true ∧ (pins.colPins col).isSome = true ∧ closed row col

/-- The pin of a line -/
def linePin : Fin rows ⊕ Fin cols → Option P := Sum.elim pins.rowPins pins.colPins

variable {pins} {closed : Fin rows → Fin cols → Prop} {readPin : Circuit P} {row : Fin rows} {col : Fin cols}

theorem linePin_inj {a b : Fin rows ⊕ Fin cols} {pin : P} (ha : linePin pins a = some pin) (hb : linePin pins b = some pin) :
    a = b := by
  unfold linePin at ha hb
  cases a with
  | inl r =>
    cases b with
    | inl r' => exact congrArg Sum.inl (pins.row_inj r r' pin ha hb)
    | inr c => exact absurd hb (pins.apart r c pin ha)
  | inr c =>
    cases b with
    | inl r => exact absurd ha (pins.apart r c pin hb)
    | inr c' => exact congrArg Sum.inr (pins.col_inj c c' pin ha hb)

/-- While one pin is driven, a pin reads low if current flows from it to that one. -/
theorem Obeys.selected [DecidableEq P] {flows : P → P → Prop} (law : Obeys flows readPin) (driven pin : P) :
    readPin (selectLine released driven) pin = false ↔ ReflTransGen flows pin driven := by
  rw [law]
  constructor
  · rintro ⟨low, here, chain⟩
    unfold selectLine released at here
    by_cases same : low = driven
    · exact same ▸ chain
    · rw [Function.update_of_ne same] at here
      exact absurd here Bool.false_ne_true
  · exact fun chain => ⟨driven, Function.update_self .., chain⟩

/-- With diodes current flows through one contact at most. -/
theorem flows_diode {direction : DiodeDirection} {driven read : P}
    (h : ends pins direction row col = (some driven, some read)) :
    ReflTransGen (Flows pins (some direction) closed) read driven ↔ closed row col := by
  constructor
  · intro chain
    cases direction with
    | col2row =>
      obtain ⟨drivenRow, readCol⟩ := Prod.mk.inj h
      rcases chain.cases_head with same | ⟨next, first, rest⟩
      · exact absurd (same ▸ readCol) (pins.apart row col driven drivenRow)
      · cases first with
        | toRow _ _ _ ofCol ofRow here =>
          have noMore : next = driven := by
            rcases rest.cases_head with same | ⟨_, second, -⟩
            · exact same
            · cases second with
              | toRow _ _ _ again => exact absurd again (pins.apart _ _ _ ofRow)
              | toCol _ _ away => exact absurd rfl away
          rw [noMore] at ofRow
          rwa [pins.row_inj row _ driven drivenRow ofRow, pins.col_inj col _ read readCol ofCol]
        | toCol _ _ away => exact absurd rfl away
    | row2col =>
      obtain ⟨drivenCol, readRow⟩ := Prod.mk.inj h
      rcases chain.cases_head with same | ⟨next, first, rest⟩
      · exact absurd drivenCol (pins.apart row col driven (same ▸ readRow))
      · cases first with
        | toRow _ _ away => exact absurd rfl away
        | toCol _ _ _ ofRow ofCol here =>
          have noMore : next = driven := by
            rcases rest.cases_head with same | ⟨_, second, -⟩
            · exact same
            · cases second with
              | toRow _ _ away => exact absurd rfl away
              | toCol _ _ _ again => exact absurd ofCol (pins.apart _ _ _ again)
          rw [noMore] at ofCol
          rwa [pins.row_inj row _ read readRow ofRow, pins.col_inj col _ driven drivenCol ofCol]
  · intro here
    cases direction with
    | col2row => exact ReflTransGen.single (.toRow row col (by decide) (Prod.mk.inj h).2 (Prod.mk.inj h).1 here)
    | row2col => exact ReflTransGen.single (.toCol row col (by decide) (Prod.mk.inj h).2 (Prod.mk.inj h).1 here)

/-- Without diodes current flows wherever lines meet. -/
theorem flows_iff {p q : P} : Flows pins none closed p q ↔
    ∃ a b, linePin pins a = some p ∧ linePin pins b = some q ∧ Meets (Wired pins closed) a b := by
  constructor
  · intro h
    cases h with
    | toRow row col _ ofCol ofRow here =>
      exact ⟨.inr col, .inl row, ofCol, ofRow, .back ⟨by rw [ofRow]; rfl, by rw [ofCol]; rfl, here⟩⟩
    | toCol row col _ ofRow ofCol here =>
      exact ⟨.inl row, .inr col, ofRow, ofCol, .across ⟨by rw [ofRow]; rfl, by rw [ofCol]; rfl, here⟩⟩
  · rintro ⟨a, b, ofA, ofB, meets⟩
    cases meets with
    | across here => exact .toCol _ _ (by decide) ofA ofB here.2.2
    | back here => exact .toRow _ _ (by decide) ofA ofB here.2.2

/-- Current flows along the chains of lines. -/
theorem flows_chain {a b : Fin rows ⊕ Fin cols} {p q : P} (ofA : linePin pins a = some p) (ofB : linePin pins b = some q) :
    ReflTransGen (Flows pins none closed) p q ↔ ReflTransGen (Meets (Wired pins closed)) a b := by
  constructor
  · intro chain
    induction chain using ReflTransGen.head_induction_on generalizing a with
    | refl => rw [linePin_inj ofA ofB]
    | head step _ ih =>
      obtain ⟨a', next, ofA', ofNext, meets⟩ := flows_iff.1 step
      rw [linePin_inj ofA ofA']
      exact ReflTransGen.head meets (ih ofNext)
  · intro chain
    induction chain using ReflTransGen.head_induction_on generalizing p with
    | refl =>
      rw [ofA, Option.some_inj] at ofB
      rw [ofB]
    | @head a' next meets _ ih =>
      have pinned : ∃ pin, linePin pins next = some pin := by
        cases meets with
        | across here => exact Option.isSome_iff_exists.1 here.2.1
        | back here => exact Option.isSome_iff_exists.1 here.1
      obtain ⟨pin, ofNext⟩ := pinned
      exact ReflTransGen.head (flows_iff.2 ⟨a', next, ofA, ofNext, meets⟩) (ih ofNext)

end Circuits

end QmkFirmware.Matrix
