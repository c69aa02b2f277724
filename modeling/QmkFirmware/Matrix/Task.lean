import Mathlib
import QmkFirmware.Lib.Run

/-!
# The events of the matrix

`matrix_task` of `keyboard.c` compares the matrix with what it was and sends an event for
each key that changed. A row with ghosts is left out, and what it was is then left as it
is too, so the row is compared again at the next scan.
-/

namespace QmkFirmware.Matrix
open Lib

/-- The rows of the matrix, of as many bits as `matrix_row_t` -/
abbrev Rows (rows width : Nat) := Fin rows → BitVec width

/-- What a keyboard is compiled with: `MATRIX_COLS`, `MATRIX_HAS_GHOST`, and whether `should_process_keypress` says so -/
structure Keyboard (width : Nat) where
  cols : Nat
  cols_le : cols ≤ width
  hasGhost : Bool
  processKeypress : Bool

/-- What a call reads: the matrix that was scanned, and the positions to which the keymap gives a key -/
structure Scan (rows width : Nat) where
  matrix : Rows rows width
  keycodeAtKeymapLocation : Fin rows → Nat → Bool

/-- An event of a key -/
structure KeyEvent (rows : Nat) where
  row : Fin rows
  col : Nat
  pressed : Bool
  deriving DecidableEq

section Ghosts

variable {rows width : Nat} (k : Keyboard width) (scan : Scan rows width)

/-- `get_real_keys` -/
def getRealKeys (row : Fin rows) (rowdata : BitVec width) : BitVec width :=
  (List.range k.cols).foldl (fun out col =>
    if scan.keycodeAtKeymapLocation row col && rowdata.getLsbD col then out ||| 1 <<< col else out) 0

/-- `popcount_more_than_one` -/
def popcountMoreThanOne (rowdata : BitVec width) : Bool := rowdata &&& (rowdata - 1) != 0

/-- `has_ghost_in_row` -/
def hasGhostInRow (row : Fin rows) (rowdata : BitVec width) : Bool :=
  k.hasGhost &&
    let rowdata := getRealKeys k scan row rowdata
    popcountMoreThanOne rowdata &&
      (List.finRange rows).any fun i => i != row && popcountMoreThanOne (getRealKeys k scan i (scan.matrix i) &&& rowdata)

end Ghosts

/-! ## The task -/

/-- The matrix that `matrix_get_row` reads, and `matrix_previous` -/
structure State (rows width : Nat) where
  matrix : Rows rows width
  previous : Rows rows width

/-- What a call does: the events for `action_exec` and for `switch_events`, and whether it says that the matrix changed -/
structure Outcome (rows width : Nat) where
  state : State rows width
  exec : List (KeyEvent rows)
  switches : List (KeyEvent rows)
  changed : Bool

section Task

variable {rows width : Nat} (k : Keyboard width)

/-- The row is left out. -/
def skips (scan : Scan rows width) (previous : Rows rows width) (row : Fin rows) : Bool :=
  scan.matrix row ^^^ previous row == 0 || hasGhostInRow k scan row (scan.matrix row)

/-- The events of a row -/
def rowEvents (scan : Scan rows width) (previous : Rows rows width) (row : Fin rows) : List (KeyEvent rows) :=
  if skips k scan previous row then []
  else (List.range k.cols).flatMap fun col =>
    if (scan.matrix row ^^^ previous row).getLsbD col then [⟨row, col, (scan.matrix row).getLsbD col⟩] else []

/-- `matrix_task`; without a scan the matrix cannot be read. -/
def matrixTask (s : State rows width) : Option (Scan rows width) → Outcome rows width
  | none => ⟨s, [], [], false⟩
  | some scan =>
    let changed := (List.finRange rows).any fun row => s.previous row ^^^ scan.matrix row != 0
    if changed then
      let events := (List.finRange rows).flatMap (rowEvents k scan s.previous)
      ⟨⟨scan.matrix, fun row => if skips k scan s.previous row then s.previous row else scan.matrix row⟩,
        if k.processKeypress then events else [], events, changed⟩
    else ⟨⟨scan.matrix, s.previous⟩, [], [], changed⟩

end Task

/-! ## One call -/

section Call

variable {rows width : Nat} {k : Keyboard width} {s : State rows width} {scan : Scan rows width}

/-- The events of a key among others -/
def keyEvents (row : Fin rows) (col : Nat) (events : List (KeyEvent rows)) : List (KeyEvent rows) :=
  events.filter fun e => e.row = row ∧ e.col = col

theorem mem_rowEvents {row : Fin rows} {e : KeyEvent rows} :
    e ∈ rowEvents k scan s.previous row ↔ skips k scan s.previous row = false ∧ e.row = row ∧ e.col < k.cols ∧
      (scan.matrix row ^^^ s.previous row).getLsbD e.col = true ∧ e.pressed = (scan.matrix row).getLsbD e.col := by
  unfold rowEvents
  split
  case isTrue left => simp [left]
  case isFalse taken =>
    rw [Bool.not_eq_true] at taken
    simp only [List.mem_flatMap, List.mem_range, taken, true_and]
    constructor
    · rintro ⟨col, lt, here⟩
      split at here
      case isTrue change =>
        cases List.mem_singleton.1 here
        exact ⟨rfl, lt, change, rfl⟩
      case isFalse => exact absurd here List.not_mem_nil
    · rintro ⟨rfl, lt, change, pressed⟩
      refine ⟨e.col, lt, ?_⟩
      rw [if_pos change, ← pressed]
      exact List.mem_singleton_self e

/-- A loop in which only one pass gives something -/
theorem flatMap_single {I E : Type} {passes : List I} {i : I} {body : I → List E} (nodup : passes.Nodup) (mem : i ∈ passes)
    (others : ∀ j ∈ passes, j ≠ i → body j = []) : passes.flatMap body = body i := by
  obtain ⟨before, after, rfl⟩ := List.append_of_mem mem
  obtain ⟨-, tail, disjoint⟩ := List.nodup_append.1 nodup
  have empty : ∀ some : List I, (∀ j ∈ some, j ∈ before ∨ j ∈ after) → some.flatMap body = [] := by
    intro some sub
    refine List.flatMap_eq_nil_iff.2 fun j here => ?_
    refine others j ?_ ?_
    · rcases sub j here with here | here
      · exact List.mem_append_left _ here
      · exact List.mem_append_right _ (List.mem_cons_of_mem _ here)
    · rintro rfl
      rcases sub j here with here | here
      · exact disjoint j here j List.mem_cons_self rfl
      · exact (List.nodup_cons.1 tail).1 here
  rw [List.flatMap_append, List.flatMap_cons, empty before fun _ => Or.inl, empty after fun _ => Or.inr, List.nil_append,
    List.append_nil]

@[simp] theorem matrixTask_matrix : (matrixTask k s (some scan)).state.matrix = scan.matrix := by
  unfold matrixTask
  dsimp only
  split <;> rfl

/-- What the loop over the rows makes of `matrix_previous`, changed or not -/
theorem matrixTask_previous (row : Fin rows) : (matrixTask k s (some scan)).state.previous row =
    if hasGhostInRow k scan row (scan.matrix row) then s.previous row else scan.matrix row := by
  have same : scan.matrix row ^^^ s.previous row = 0 → s.previous row = scan.matrix row :=
    fun zero => (BitVec.xor_eq_zero_iff.1 zero).symm
  unfold matrixTask
  dsimp only
  split
  case isTrue =>
    dsimp only
    unfold skips
    by_cases zero : scan.matrix row ^^^ s.previous row = 0
    · rw [same zero, ite_self, ite_self]
    · rw [beq_eq_false_iff_ne.2 zero, Bool.false_or]
  case isFalse quiet =>
    rw [Bool.not_eq_true, List.any_eq_false] at quiet
    have zero : scan.matrix row ^^^ s.previous row = 0 := by
      have := quiet row (List.mem_finRange row)
      rw [BitVec.xor_comm]
      simpa using this
    dsimp only
    rw [same zero, ite_self]

/-- The events of a call, changed or not -/
theorem matrixTask_switches : (matrixTask k s (some scan)).switches = (List.finRange rows).flatMap (rowEvents k scan s.previous) := by
  unfold matrixTask
  dsimp only
  split
  case isTrue => rfl
  case isFalse quiet =>
    rw [Bool.not_eq_true, List.any_eq_false] at quiet
    symm
    rw [List.flatMap_eq_nil_iff]
    intro row mem
    have zero := quiet row mem
    unfold rowEvents skips
    rw [BitVec.xor_comm] at zero
    simp only [bne_iff_ne, ne_eq, not_not] at zero
    rw [zero]
    rfl

/-- A call has an event of a key if its bit changed in a row that is not left out. -/
theorem keyEvents_switches {row : Fin rows} {col : Nat} (lt : col < k.cols) :
    keyEvents row col (matrixTask k s (some scan)).switches =
      if skips k scan s.previous row = false ∧ (scan.matrix row ^^^ s.previous row).getLsbD col = true then
        [⟨row, col, (scan.matrix row).getLsbD col⟩]
      else [] := by
  rw [matrixTask_switches, keyEvents, List.filter_flatMap,
    flatMap_single (List.nodup_finRange rows) (List.mem_finRange row) fun other _ ne => ?_]
  · unfold rowEvents
    split
    case isTrue left => simp [left]
    case isFalse taken =>
      rw [Bool.not_eq_true] at taken
      rw [List.filter_flatMap, flatMap_single List.nodup_range (List.mem_range.2 lt) fun other _ ne => ?_]
      · by_cases change : (scan.matrix row ^^^ s.previous row).getLsbD col = true
        · simp [taken, change]
        · simp [taken, change]
      · split
        · simp [ne]
        · rfl
  · rw [List.filter_eq_nil_iff]
    intro e mem
    obtain ⟨-, same, -⟩ := mem_rowEvents.1 mem
    simp [same, ne]

end Call

/-! ## Runs -/

/-- The events of the calls so far beside the state -/
structure World (rows width : Nat) where
  state : State rows width
  exec : List (KeyEvent rows)
  switches : List (KeyEvent rows)

namespace World

variable {rows width : Nat} (k : Keyboard width)

/-- Before the first call; the matrix may have been scanned. -/
def start (matrix : Rows rows width) : World rows width := ⟨⟨matrix, fun _ => 0⟩, [], []⟩

def call (w : World rows width) (input : Option (Scan rows width)) : World rows width :=
  let outcome := matrixTask k w.state input
  ⟨outcome.state, w.exec ++ outcome.exec, w.switches ++ outcome.switches⟩

/-- Press and release alternate, and a press comes first. -/
def Alternates (events : List (KeyEvent rows)) : Prop := (false :: events.map KeyEvent.pressed).IsChain (· ≠ ·)

theorem Alternates.snoc {events : List (KeyEvent rows)} {e : KeyEvent rows} (h : Alternates events)
    (ne : (events.map KeyEvent.pressed).getLastD false ≠ e.pressed) : Alternates (events ++ [e]) := by
  unfold Alternates at h ⊢
  rw [List.map_append, List.map_singleton, ← List.cons_append, List.isChain_append]
  refine ⟨h, List.isChain_singleton _, fun last mem next here => ?_⟩
  rw [List.getLast?_cons, Option.mem_def, Option.some_inj] at mem
  rw [List.head?_singleton, Option.mem_def, Option.some_inj] at here
  rwa [← mem, ← here, ← List.getLastD_eq_getLast?]

/-- The events of a key alternate, and the last one left the bit as it was. -/
structure Inv (w : World rows width) : Prop where
  exec : w.exec = if k.processKeypress then w.switches else []
  alternates : ∀ row, ∀ col < k.cols, Alternates (keyEvents row col w.switches)
  last : ∀ row, ∀ col < k.cols,
    ((keyEvents row col w.switches).map KeyEvent.pressed).getLastD false = (w.state.previous row).getLsbD col

variable {k} {w : World rows width}

theorem inv_start (matrix : Rows rows width) : Inv k (start matrix) := by
  refine ⟨?_, fun row col _ => List.isChain_singleton false, fun row col _ => ?_⟩
  · unfold start
    rw [ite_self]
  · exact BitVec.getLsbD_zero.symm

/-- What is sent goes to both or to `switch_events` alone. -/
theorem exec_eq (s : State rows width) (input : Option (Scan rows width)) :
    (matrixTask k s input).exec = if k.processKeypress then (matrixTask k s input).switches else [] := by
  cases input with
  | none => exact (ite_self _).symm
  | some scan =>
    unfold matrixTask
    dsimp only
    split
    · rfl
    · exact (ite_self _).symm

theorem Inv.call (h : Inv k w) (input : Option (Scan rows width)) : Inv k (w.call k input) := by
  have exec : (w.call k input).exec = if k.processKeypress then (w.call k input).switches else [] := by
    unfold World.call
    dsimp only
    rw [h.exec, exec_eq]
    split <;> rfl
  cases input with
  | none =>
    have none : (w.call k none).switches = w.switches := List.append_nil _
    refine ⟨exec, ?_, ?_⟩
    · rw [none]
      exact h.alternates
    · rw [none]
      exact h.last
  | some scan =>
    have split : ∀ row col, keyEvents row col (w.call k (some scan)).switches =
        keyEvents row col w.switches ++ keyEvents row col (matrixTask k w.state (some scan)).switches :=
      fun row col => List.filter_append ..
    have previous : ∀ row, (w.call k (some scan)).state.previous row =
        if hasGhostInRow k scan row (scan.matrix row) then w.state.previous row else scan.matrix row :=
      fun row => matrixTask_previous row
    have key : ∀ row, ∀ col < k.cols, Alternates (keyEvents row col (w.call k (some scan)).switches) ∧
        ((keyEvents row col (w.call k (some scan)).switches).map KeyEvent.pressed).getLastD false =
          ((w.call k (some scan)).state.previous row).getLsbD col := by
      intro row col lt
      have alternates := h.alternates row col lt
      have last := h.last row col lt
      rw [split, keyEvents_switches lt, previous]
      split
      case isTrue event =>
        obtain ⟨taken, change⟩ := event
        unfold skips at taken
        rw [Bool.or_eq_false_iff] at taken
        rw [taken.2, if_neg Bool.false_ne_true]
        have ne : (scan.matrix row).getLsbD col ≠ (w.state.previous row).getLsbD col := by
          rwa [BitVec.getLsbD_xor, bne_iff_ne] at change
        refine ⟨alternates.snoc ?_, ?_⟩
        · rw [last]
          exact ne.symm
        · rw [List.map_append]
          exact List.getLastD_concat ..
      case isFalse quiet =>
        rw [List.append_nil]
        refine ⟨alternates, last.trans ?_⟩
        split
        case isTrue => rfl
        case isFalse clear =>
          unfold skips at quiet
          rw [Bool.not_eq_true] at clear
          rw [clear, Bool.or_false] at quiet
          by_cases zero : scan.matrix row ^^^ w.state.previous row = 0
          · rw [BitVec.xor_eq_zero_iff.1 zero]
          · have bit := not_and.1 quiet (beq_eq_false_iff_ne.2 zero)
            rw [BitVec.getLsbD_xor, bne_iff_ne, not_not] at bit
            exact bit.symm
    exact ⟨exec, fun row col lt => (key row col lt).1, fun row col lt => (key row col lt).2⟩

/-- **The events of the matrix**: however the matrix changes and whatever rows have ghosts, the events of each key alternate,
each event of a call is the bit of its key, and after a call without ghosts what the matrix was is what it is. -/
theorem events_alternate (k : Keyboard width) (matrix : Rows rows width) (calls : List (Option (Scan rows width))) :
    let w := calls.foldl (World.call k) (start matrix)
    (∀ (row : Fin rows) (col : Fin k.cols), Alternates (keyEvents row col w.exec)) ∧
      ∀ scan, let outcome := matrixTask k w.state (some scan)
        (∀ e ∈ outcome.exec, e.col < k.cols ∧ e.pressed = (outcome.state.matrix e.row).getLsbD e.col) ∧
          ((∀ row, hasGhostInRow k scan row (outcome.state.matrix row) = false) → outcome.state.previous = outcome.state.matrix) := by
  intro w
  have inv : Inv k w := calls.foldlRecOn (World.call k) (inv_start matrix) fun w h input _ => h.call input
  refine ⟨fun row col => ?_, fun scan => ⟨fun e mem => ?_, fun clear => ?_⟩⟩
  · rw [inv.exec]
    split
    · exact inv.alternates row col col.isLt
    · exact List.isChain_singleton false
  · rw [exec_eq] at mem
    split at mem
    case isTrue =>
      rw [matrixTask_switches] at mem
      obtain ⟨row, -, here⟩ := List.mem_flatMap.1 mem
      obtain ⟨-, same, lt, -, pressed⟩ := mem_rowEvents.1 here
      rw [matrixTask_matrix, same]
      exact ⟨lt, pressed⟩
    case isFalse => exact absurd mem List.not_mem_nil
  · rw [matrixTask_matrix] at clear ⊢
    funext row
    rw [matrixTask_previous, clear row, if_neg Bool.false_ne_true]

end World

end QmkFirmware.Matrix
