import Mathlib
import QmkFirmware.Lib.Wires
import QmkFirmware.Matrix.Pins

/-!
# Ghosts

A keyboard without diodes reads every contact that a chain of closed ones stands for. A
row in which two keys share their columns with another row is left out by `matrix_task`,
so a press that it sends is of a closed contact, wherever the keymap has a key at every
corner. With diodes what is read is what is closed.
-/

namespace QmkFirmware.Matrix
open Lib Relation

/-! ## What a contact reads as -/

section Contacts

variable {P : Type} {rows cols : Nat} {pins : Pins P rows cols} {readPin : Circuit P}
  {closed : Fin rows → Fin cols → Prop} {direction : DiodeDirection} {row : Fin rows} {col : Fin cols}

/-- A contact reads as closed if its lines have pins and current flows between them. -/
theorem contactRead_flows [DecidableEq P] {flows : P → P → Prop} (law : Obeys flows readPin) :
    contactRead pins readPin direction row col = true ↔
      ∃ driven read, ends pins direction row col = (some driven, some read) ∧ ReflTransGen flows read driven := by
  unfold contactRead
  rcases ends pins direction row col with ⟨_ | driven, _ | read⟩
  · exact iff_of_false Bool.false_ne_true (by simp)
  · exact iff_of_false Bool.false_ne_true (by simp)
  · exact iff_of_false Bool.false_ne_true (by simp)
  · dsimp only [readMatrixPin]
    rw [Bool.not_eq_true', law.selected]
    simp

theorem ends_some {driven read : P} (h : ends pins direction row col = (some driven, some read)) :
    (pins.rowPins row).isSome = true ∧ (pins.colPins col).isSome = true := by
  cases direction with
  | col2row =>
    obtain ⟨ofRow, ofCol⟩ := Prod.mk.inj h
    exact ⟨by rw [ofRow]; rfl, by rw [ofCol]; rfl⟩
  | row2col =>
    obtain ⟨ofCol, ofRow⟩ := Prod.mk.inj h
    exact ⟨by rw [ofRow]; rfl, by rw [ofCol]; rfl⟩

theorem ends_of_some (direction : DiodeDirection) (ofRow : (pins.rowPins row).isSome = true) (ofCol : (pins.colPins col).isSome = true) :
    ∃ driven read, ends pins direction row col = (some driven, some read) := by
  obtain ⟨r, ofRow⟩ := Option.isSome_iff_exists.1 ofRow
  obtain ⟨c, ofCol⟩ := Option.isSome_iff_exists.1 ofCol
  unfold ends
  rw [ofRow, ofCol]
  cases direction with
  | col2row => exact ⟨r, c, rfl⟩
  | row2col => exact ⟨c, r, rfl⟩

/-- With diodes in the direction of the scan -/
theorem contactRead_diode [DecidableEq P] (law : Obeys (Flows pins (some direction) closed) readPin) :
    contactRead pins readPin direction row col = true ↔ Wired pins closed row col := by
  rw [contactRead_flows law]
  constructor
  · rintro ⟨driven, read, both, chain⟩
    exact ⟨(ends_some both).1, (ends_some both).2, (flows_diode both).1 chain⟩
  · rintro ⟨ofRow, ofCol, here⟩
    obtain ⟨driven, read, both⟩ := ends_of_some direction ofRow ofCol
    exact ⟨driven, read, both, (flows_diode both).2 here⟩

/-- Lines that are joined have pins. -/
theorem joined_pinned (h : Joined (Wired pins closed) row col) :
    (pins.rowPins row).isSome = true ∧ (pins.colPins col).isSome = true := by
  constructor
  · rcases h.cases_head with same | ⟨next, first, -⟩
    · exact absurd same Sum.inl_ne_inr
    · cases first with
      | across here => exact here.1
  · rcases h.cases_tail with same | ⟨before, -, last⟩
    · exact absurd same Sum.inr_ne_inl
    · cases last with
      | across here => exact here.2.1

/-- Chains go both ways. -/
theorem chain_symm {a b : Fin rows ⊕ Fin cols} :
    ReflTransGen (Meets (Wired pins closed)) a b ↔ ReflTransGen (Meets (Wired pins closed)) b a := by
  have same : Function.swap (Meets (Wired pins closed)) = Meets (Wired pins closed) := by
    funext a b
    exact propext Meets.iff
  rw [← reflTransGen_swap, same]

/-- Without diodes, whichever way the scan goes -/
theorem contactRead_joined [DecidableEq P] (law : Obeys (Flows pins none closed) readPin) :
    contactRead pins readPin direction row col = true ↔ Joined (Wired pins closed) row col := by
  have chain : ∀ driven read, ends pins direction row col = (some driven, some read) →
      (ReflTransGen (Flows pins none closed) read driven ↔ Joined (Wired pins closed) row col) := by
    intro driven read both
    cases direction with
    | col2row =>
      obtain ⟨ofRow, ofCol⟩ := Prod.mk.inj both
      rw [flows_chain (a := .inr col) (b := .inl row) ofCol ofRow]
      exact chain_symm
    | row2col =>
      obtain ⟨ofCol, ofRow⟩ := Prod.mk.inj both
      exact flows_chain (a := .inl row) (b := .inr col) ofRow ofCol
  rw [contactRead_flows law]
  constructor
  · rintro ⟨driven, read, both, flows⟩
    exact (chain driven read both).1 flows
  · intro joined
    obtain ⟨driven, read, both⟩ := ends_of_some direction (joined_pinned joined).1 (joined_pinned joined).2
    exact ⟨driven, read, both, (chain driven read both).2 joined⟩

end Contacts

/-! ## Rows with ghosts -/

section Rows

variable {rows width : Nat} {k : Keyboard width} {scan : Scan rows width} {row : Fin rows}

/-- Two bits are enough for `popcount_more_than_one`. -/
theorem popcountMoreThanOne_of_two {value : BitVec width} {i j : Nat} (ne : i ≠ j) (hi : value.getLsbD i = true)
    (hj : value.getLsbD j = true) : popcountMoreThanOne value = true := by
  have nonzero : value.toNat ≠ 0 := by
    intro zero
    rw [BitVec.getLsbD, zero, Nat.zero_testBit] at hi
    exact Bool.false_ne_true hi
  unfold popcountMoreThanOne
  rw [bne_iff_ne]
  intro zero
  have one : BitVec.ofNat width 1 ≤ value := by
    have small : 1 % 2 ^ width ≤ value.toNat := (Nat.mod_le 1 _).trans (Nat.one_le_iff_ne_zero.2 nonzero)
    simpa [BitVec.le_def] using small
  have cleared : value.toNat &&& (value.toNat - 1) = 0 := by
    have inside : 0 < width := by
      by_contra none
      have : width = 0 := by omega
      subst this
      exact nonzero (by rw [BitVec.of_length_zero (x := value)]; rfl)
    have whole : (value - 1).toNat = value.toNat - 1 := by
      change (value - BitVec.ofNat width 1).toNat = _
      rw [BitVec.toNat_sub_of_le one, BitVec.toNat_ofNat, Nat.mod_eq_of_lt (Nat.one_lt_two_pow (by omega))]
    have := congrArg BitVec.toNat zero
    rw [BitVec.toNat_and, whole] at this
    exact this.trans BitVec.toNat_zero
  obtain ⟨n, power⟩ := (Nat.and_sub_one_eq_zero_iff_isPowerOfTwo nonzero).1 cleared
  rw [BitVec.getLsbD, power, Nat.testBit_two_pow] at hi hj
  simp only [decide_eq_true_eq] at hi hj
  exact ne (hi.symm.trans hj)

/-- A bit that a pass sets stays set. -/
theorem getLsbD_foldl_or {passes : List Nat} {take : Nat → Bool} {mask : Nat → BitVec width} {out : BitVec width} {n : Nat}
    (h : out.getLsbD n = true ∨ ∃ c ∈ passes, take c = true ∧ (mask c).getLsbD n = true) :
    (passes.foldl (fun out c => if take c then out ||| mask c else out) out).getLsbD n = true := by
  induction passes generalizing out with
  | nil => exact h.resolve_right fun ⟨c, mem, _⟩ => List.not_mem_nil mem
  | cons c passes ih =>
    apply ih
    rcases h with here | ⟨c', mem, taken, set⟩
    · left
      dsimp only
      split
      · rw [BitVec.getLsbD_or, here, Bool.true_or]
      · exact here
    · rcases List.mem_cons.1 mem with same | later
      · left
        dsimp only
        rw [← same, if_pos taken, BitVec.getLsbD_or, set, Bool.or_true]
      · exact Or.inr ⟨c', later, taken, set⟩

/-- The real keys of a row, key by key -/
theorem getLsbD_getRealKeys {data : BitVec width} {col : Nat} (lt : col < k.cols)
    (key : scan.keycodeAtKeymapLocation row col = true) (set : data.getLsbD col = true) :
    (getRealKeys k scan row data).getLsbD col = true := by
  have inside : col < width := Nat.lt_of_lt_of_le lt k.cols_le
  unfold getRealKeys
  refine getLsbD_foldl_or (Or.inr ⟨col, List.mem_range.2 lt, ?_, ?_⟩)
  · rw [key, set, Bool.and_self]
  · rw [BitVec.natCast_eq_ofNat, BitVec.getLsbD_ofNat, Nat.one_shiftLeft, Nat.testBit_two_pow, decide_eq_true inside,
      decide_eq_true rfl, Bool.and_self]

/-- A row that shares two columns with another one is left out. -/
theorem hasGhostInRow_of_corner (ghosts : k.hasGhost = true) {row' : Fin rows} {col col' : Nat} (other : row' ≠ row)
    (ne : col' ≠ col) (lt : col < k.cols) (lt' : col' < k.cols)
    (keys : ∀ r, r = row ∨ r = row' → ∀ c, c = col ∨ c = col' →
      scan.keycodeAtKeymapLocation r c = true ∧ (scan.matrix r).getLsbD c = true) :
    hasGhostInRow k scan row (scan.matrix row) = true := by
  have real : ∀ r, r = row ∨ r = row' → ∀ c, c = col ∨ c = col' → c < k.cols →
      (getRealKeys k scan r (scan.matrix r)).getLsbD c = true :=
    fun r hr c hc lt => getLsbD_getRealKeys lt (keys r hr c hc).1 (keys r hr c hc).2
  unfold hasGhostInRow
  rw [ghosts, Bool.true_and]
  dsimp only
  rw [popcountMoreThanOne_of_two ne (real row (Or.inl rfl) col' (Or.inr rfl) lt') (real row (Or.inl rfl) col (Or.inl rfl) lt),
    Bool.true_and, List.any_eq_true]
  refine ⟨row', List.mem_finRange row', ?_⟩
  rw [bne_iff_ne.2 other, Bool.true_and]
  apply popcountMoreThanOne_of_two ne
  · rw [BitVec.getLsbD_and, real row' (Or.inr rfl) col' (Or.inr rfl) lt', real row (Or.inl rfl) col' (Or.inr rfl) lt', Bool.and_self]
  · rw [BitVec.getLsbD_and, real row' (Or.inr rfl) col (Or.inl rfl) lt, real row (Or.inl rfl) col (Or.inl rfl) lt, Bool.and_self]

end Rows

/-! ## The scan and the task together -/

section System

variable {P : Type} {rows width : Nat}

/-- A keyboard: what it is compiled with, its pins, the way it scans, its diodes, and where the keymap has a key. Without diodes
it has `MATRIX_HAS_GHOST`, and with them it scans the way they go. -/
structure Board (P : Type) (rows width : Nat) where
  keyboard : Keyboard width
  pins : Pins P rows keyboard.cols
  direction : DiodeDirection
  diodes : Option DiodeDirection
  fits : diodes = none ∧ keyboard.hasGhost = true ∨ diodes = some direction
  keymap : Fin rows → Nat → Bool

/-- What a scan meets: the contacts that are closed, all of them of keys, the circuit that they make, and the time -/
structure Scene (b : Board P rows width) where
  closed : Fin rows → Fin b.keyboard.cols → Prop
  readPin : Circuit P
  now : Nat
  law : Obeys (Flows b.pins b.diodes closed) readPin
  keys : ∀ row col, closed row col → b.keymap row col = true

/-- The variables of the scan and of the task, and the events so far -/
structure System (P : Type) (rows width : Nat) (file : Debounce.File rows width) where
  scan : ScanState P rows width file
  world : World rows width

variable {b : Board P rows width} {file : Debounce.File rows width}

/-- After `matrix_init`, before the first call -/
def System.start : System P rows width file := ⟨⟨released, 0, 0, file.init⟩, World.start 0⟩

/-- A call of `matrix_task`, which scans first -/
def System.step [DecidableEq P] (s : System P rows width file) (scene : Scene b) : System P rows width file :=
  let scan := matrixScan b.pins b.direction scene.readPin scene.now s.scan
  ⟨scan, s.world.call b.keyboard (some ⟨scan.matrix, b.keymap⟩)⟩

namespace Scene

/-- The contacts that are read -/
def Reads (scene : Scene b) : Fin rows → Fin b.keyboard.cols → Prop :=
  match b.diodes with
  | none => Joined (Wired b.pins scene.closed)
  | some _ => Wired b.pins scene.closed

/-- There is a key at the position, and at every corner: in its column on each row that shares the column of a closed contact with
its row. -/
def Covers (scene : Scene b) (row : Fin rows) (col : Fin b.keyboard.cols) : Prop :=
  b.keymap row col = true ∧
    ∀ row', row' ≠ row → (∃ col', scene.closed row col' ∧ scene.closed row' col') → b.keymap row' col = true

/-- A press is of a closed contact, a release of one that is not closed. -/
def Explains (scene : Scene b) (e : KeyEvent rows) : Prop :=
  ∃ lt : e.col < b.keyboard.cols,
    if e.pressed then (b.diodes = none → scene.Covers e.row ⟨e.col, lt⟩) → Wired b.pins scene.closed e.row ⟨e.col, lt⟩
    else ¬ Wired b.pins scene.closed e.row ⟨e.col, lt⟩

variable {scene : Scene b}

theorem contactRead_iff [DecidableEq P] (row : Fin rows) (col : Fin b.keyboard.cols) :
    contactRead b.pins scene.readPin b.direction row col = true ↔ scene.Reads row col := by
  have law := scene.law
  unfold Reads
  rcases b.fits with ⟨bare, -⟩ | diode
  · rw [bare] at law ⊢
    exact contactRead_joined law
  · rw [diode] at law ⊢
    exact contactRead_diode law

/-- A closed contact is read. -/
theorem reads_of_wired {row : Fin rows} {col : Fin b.keyboard.cols} (h : Wired b.pins scene.closed row col) :
    scene.Reads row col := by
  unfold Reads
  cases b.diodes with
  | none => exact Joined.of_closed h
  | some _ => exact h

/-- **A false contact is in a row with ghosts**: the chain that it is read through has a corner, and at the corner two rows share
two columns. -/
theorem ghost_of_false {row : Fin rows} {col : Fin b.keyboard.cols} {matrix : Rows rows width}
    (bits : ∀ row (col : Fin b.keyboard.cols), (matrix row).getLsbD col = true ↔ scene.Reads row col)
    (reads : scene.Reads row col) (apart : ¬ Wired b.pins scene.closed row col)
    (covers : b.diodes = none → scene.Covers row col) :
    hasGhostInRow b.keyboard ⟨matrix, b.keymap⟩ row (matrix row) = true := by
  cases diode : b.diodes with
  | some _ =>
    unfold Reads at reads
    rw [diode] at reads
    exact absurd reads apart
  | none =>
    have ghosts : b.keyboard.hasGhost = true := by
      rcases b.fits with ⟨-, ghosts⟩ | some
      · exact ghosts
      · exact absurd (diode.symm.trans some) (by simp)
    have joined : ∀ row col, scene.Reads row col = Joined (Wired b.pins scene.closed) row col := by
      intro row col
      unfold Reads
      rw [diode]
    rw [joined] at reads
    obtain ⟨row', col', other, ne, near, far, through⟩ := reads.corner apart
    obtain ⟨here, corners⟩ := covers diode
    have bit : ∀ r (c : Fin b.keyboard.cols), Joined (Wired b.pins scene.closed) r c → (matrix r).getLsbD c = true :=
      fun r c h => (bits r c).2 ((joined r c).symm ▸ h)
    apply hasGhostInRow_of_corner ghosts other (fun h => ne (Fin.ext h)) col.isLt col'.isLt
    rintro r (rfl | rfl) c (rfl | rfl)
    · exact ⟨here, bit _ col reads⟩
    · exact ⟨scene.keys _ col' near.2.2, bit _ col' (.of_closed near)⟩
    · exact ⟨corners _ other ⟨col', near.2.2, far.2.2⟩, bit _ col through⟩
    · exact ⟨scene.keys _ col' far.2.2, bit _ col' (.of_closed far)⟩

end Scene

/-- The debounce file copies the whole matrix or leaves it. -/
def Copies (file : Debounce.File rows width) : Prop :=
  ∀ raw cooked changed now s, (file.debounce raw cooked changed now s).2.1 = raw ∨ (file.debounce raw cooked changed now s).2.1 = cooked

theorem deferG_copies {fast DEBOUNCE : Nat} (raw cooked : Debounce.Matrix rows width) (changed : Bool) (now : Nat)
    (s : Debounce.DeferG fast) :
    (s.debounce DEBOUNCE raw cooked changed now).2.1 = raw ∨ (s.debounce DEBOUNCE raw cooked changed now).2.1 = cooked := by
  unfold Debounce.DeferG.debounce
  generalize (if changed then (⟨true, BitVec.ofNat fast now⟩ : Debounce.DeferG fast) else s) = s'
  dsimp only
  split
  · exact Or.inl rfl
  · exact Or.inr rfl

theorem symDeferG_copies (fast DEBOUNCE : Nat) : Copies (Debounce.symDeferG fast DEBOUNCE : Debounce.File rows width) := by
  intro raw cooked changed now s
  cases DEBOUNCE with
  | zero => exact Or.inl rfl
  | succ d => exact deferG_copies raw cooked changed now s

/-- Between two calls: no pin is driven low, the matrix is what one of the scans so far read, and that scan or an earlier one
explains each event. -/
structure System.Inv (past : List (Scene b)) (s : System P rows width file) : Prop where
  idle : s.scan.low = released
  seen : s.scan.matrix = 0 ∧ s.world.state.previous = 0 ∧ s.world.exec = [] ∨
    ∃ scene ∈ past, ∀ row (col : Fin b.keyboard.cols), (s.scan.matrix row).getLsbD col = true ↔ scene.Reads row col
  explained : ∀ e ∈ s.world.exec, ∃ scene ∈ past, scene.Explains e

/-- The matrix after a scan: the one that the scan read, or the one before. -/
theorem matrixScan_matrix [DecidableEq P] (copies : Copies file) {s : ScanState P rows width file} (idle : s.low = released) (scene : Scene b) :
    let after := matrixScan b.pins b.direction scene.readPin scene.now s
    after.low = released ∧ (after.matrix = s.matrix ∨
      ∀ row (col : Fin b.keyboard.cols), (after.matrix row).getLsbD col = true ↔ scene.Reads row col) := by
  obtain ⟨low, bits⟩ := scanLines_released b.pins scene.readPin b.keyboard.cols_le b.direction
  have raw : ∀ scanned : Rows rows width, (if decide (s.raw ≠ scanned) then scanned else s.raw) = scanned := by
    intro scanned
    by_cases same : s.raw = scanned
    · rw [same, ite_self]
    · rw [decide_eq_true same, if_pos rfl]
  unfold matrixScan
  dsimp only
  rw [idle, raw]
  refine ⟨low, ?_⟩
  rcases copies (toBools (scanLines b.pins scene.readPin b.direction released).matrix) (toBools s.matrix)
    (decide (s.raw ≠ (scanLines b.pins scene.readPin b.direction released).matrix)) scene.now s.debounce with new | old
  · right
    intro row col
    rw [new, ofBools_toBools, (bits row).1 col]
    exact Scene.contactRead_iff row col
  · left
    rw [old, ofBools_toBools]

/-- The events of a call are explained by the scan that its matrix is of. -/
theorem explains_of_mem {s : State rows width} {matrix : Rows rows width} {e : KeyEvent rows} {scene : Scene b}
    (bits : ∀ row (col : Fin b.keyboard.cols), (matrix row).getLsbD col = true ↔ scene.Reads row col)
    (mem : e ∈ (matrixTask b.keyboard s (some ⟨matrix, b.keymap⟩)).exec) : scene.Explains e := by
  rw [World.exec_eq] at mem
  have sent : e ∈ (matrixTask b.keyboard s (some ⟨matrix, b.keymap⟩)).switches := by
    split at mem
    · exact mem
    · exact absurd mem List.not_mem_nil
  rw [matrixTask_switches] at sent
  obtain ⟨row, -, here⟩ := List.mem_flatMap.1 sent
  obtain ⟨taken, same, lt, -, pressed⟩ := mem_rowEvents.1 here
  have bit := bits e.row ⟨e.col, lt⟩
  dsimp only at pressed bit
  rw [← same] at pressed taken
  refine ⟨lt, ?_⟩
  rw [pressed]
  split
  case isTrue set =>
    intro covers
    by_contra apart
    have ghost := Scene.ghost_of_false bits (bit.1 set) apart covers
    unfold skips at taken
    rw [ghost, Bool.or_true] at taken
    exact Bool.false_ne_true taken.symm
  case isFalse clear => exact fun wired => clear (bit.2 (Scene.reads_of_wired wired))

namespace System

theorem inv_start : Inv (b := b) [] (start : System P rows width file) :=
  ⟨rfl, Or.inl ⟨rfl, rfl, rfl⟩, fun _ mem => absurd mem List.not_mem_nil⟩

/-- A matrix that stays clear has no events. -/
theorem exec_of_clear {k : Keyboard width} {s : State rows width} (clear : s.previous = 0) (keymap : Fin rows → Nat → Bool) :
    (matrixTask k s (some ⟨0, keymap⟩)).exec = [] ∧ (matrixTask k s (some ⟨0, keymap⟩)).state.previous = 0 := by
  constructor
  · have none : (List.finRange rows).flatMap (rowEvents k ⟨0, keymap⟩ s.previous) = [] := by
      rw [List.flatMap_eq_nil_iff, clear]
      intro row _
      unfold rowEvents skips
      rw [BitVec.xor_self]
      simp
    rw [World.exec_eq, matrixTask_switches, none, ite_self]
  · funext row
    rw [matrixTask_previous, clear, ite_self]

variable [DecidableEq P]

theorem Inv.step {past : List (Scene b)} {s : System P rows width file} (copies : Copies file) (h : Inv past s) (scene : Scene b) :
    Inv (past ++ [scene]) (s.step scene) := by
  obtain ⟨low, matrix⟩ := matrixScan_matrix copies h.idle scene
  have earlier : ∀ {p : Scene b → Prop}, (∃ scene ∈ past, p scene) → ∃ scene' ∈ past ++ [scene], p scene' :=
    fun ⟨scene', mem, here⟩ => ⟨scene', List.mem_append_left _ mem, here⟩
  -- a call that meets what some scan read, this one or an earlier one
  have read : (∃ scene' ∈ past ++ [scene], ∀ row (col : Fin b.keyboard.cols),
      ((s.step scene).scan.matrix row).getLsbD col = true ↔ scene'.Reads row col) → Inv (past ++ [scene]) (s.step scene) := by
    intro seen
    refine ⟨low, Or.inr seen, fun e mem => ?_⟩
    rcases List.mem_append.1 mem with old | new
    · exact earlier (h.explained e old)
    · obtain ⟨scene', among, bits⟩ := seen
      exact ⟨scene', among, explains_of_mem bits new⟩
  rcases matrix with same | new
  · rcases h.seen with ⟨clear, previous, exec⟩ | ⟨scene', among, bits⟩
    · have zero : (s.step scene).scan.matrix = 0 := same.trans clear
      obtain ⟨silent, stays⟩ := exec_of_clear (k := b.keyboard) previous b.keymap
      have call : (s.step scene).world = s.world.call b.keyboard (some ⟨0, b.keymap⟩) := by
        rw [← zero]
        rfl
      have none : (s.step scene).world.exec = [] := by
        rw [call]
        unfold World.call
        dsimp only
        rw [exec, silent, List.append_nil]
      refine ⟨low, Or.inl ⟨zero, ?_, none⟩, fun e mem => ?_⟩
      · rw [call]
        exact stays
      · rw [none] at mem
        exact absurd mem List.not_mem_nil
    · apply read
      refine ⟨scene', List.mem_append_left _ among, fun row col => ?_⟩
      rw [← bits row col]
      exact Eq.congr (congrArg (fun m : Rows rows width => (m row).getLsbD col) same) rfl
  · exact read ⟨scene, List.mem_append_right _ List.mem_cons_self, new⟩

/-- **Every event is explained**: with a debounce file that copies the whole matrix or leaves it, however the contacts open and
close, every press that is sent is of a contact that was closed at one of the scans, unless a corner without a key hides the ghost,
and every release of one that was not. -/
theorem events_explained (b : Board P rows width) (copies : Copies file) (scenes : List (Scene b)) :
    ∀ e ∈ (scenes.foldl step (start : System P rows width file)).world.exec, ∃ scene ∈ scenes, scene.Explains e :=
  (Along.run (fun s past => Inv past s) (fun _ _ scene h _ => h.step copies scene) [] inv_start
    (Along.of_forall (r := fun _ => True) fun _ _ => trivial)).explained

local instance neZero_pins : NeZero 3 := ⟨by decide⟩

theorem pair_fits : 2 ≤ 8 := by decide

/-- Two keys that share a row, without diodes -/
def pairBoard : Board (Fin 3) 1 8 where
  keyboard := ⟨2, pair_fits, true, true⟩
  pins := ⟨fun _ => some 0, Fin.cases (some 1) fun _ => some 2, by decide, by decide, by decide⟩
  direction := .col2row
  diodes := none
  fits := Or.inl ⟨rfl, rfl⟩
  keymap _ _ := true

/-- Both keys are down, so every pin is joined to every other one. -/
def bothDown (now : Nat) : Scene pairBoard where
  closed _ _ := True
  readPin low _ := !(low 0 || low 1 || low 2)
  now := now
  law := by
    have row : ∀ pin : Fin 3, ReflTransGen (Flows pairBoard.pins none fun _ _ => True) pin 0 ∧
        ReflTransGen (Flows pairBoard.pins none fun _ _ => True) 0 pin := by
      intro pin
      match pin with
      | 0 => exact ⟨.refl, .refl⟩
      | 1 => exact ⟨.single (.toRow 0 (0 : Fin 2) (by decide) rfl rfl trivial), .single (.toCol 0 (0 : Fin 2) (by decide) rfl rfl trivial)⟩
      | 2 => exact ⟨.single (.toRow 0 (1 : Fin 2) (by decide) rfl rfl trivial), .single (.toCol 0 (1 : Fin 2) (by decide) rfl rfl trivial)⟩
    intro low pin
    constructor
    · intro h
      have some : low 0 = true ∨ low 1 = true ∨ low 2 = true := by
        rw [Bool.not_eq_false', Bool.or_eq_true, Bool.or_eq_true, or_assoc] at h
        exact h
      rcases some with h | h | h
      · exact ⟨0, h, (row pin).1⟩
      · exact ⟨1, h, (row pin).1.trans (row 1).2⟩
      · exact ⟨2, h, (row pin).1.trans (row 2).2⟩
    · rintro ⟨driven, h, -⟩
      have : ∀ driven : Fin 3, low driven = true → (!(low 0 || low 1 || low 2)) = false := by
        intro driven h
        match driven with
        | 0 => simp [h]
        | 1 => simp [h]
        | 2 => simp [h]
      exact this driven h
  keys _ _ _ := rfl

theorem events_explained_pair :
    ∃ scene ∈ [bothDown 0, bothDown 10], scene.Explains ⟨0, 1, true⟩ :=
  events_explained pairBoard (symDeferG_copies 16 5) [bothDown 0, bothDown 10] ⟨0, 1, true⟩ (by decide)

end System

end System

end QmkFirmware.Matrix
