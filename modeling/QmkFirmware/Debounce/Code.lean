import Mathlib

/-!
# Debouncing

The seven files of `debounce/`. A loop over the rows or the keys treats each of them by
itself, so its body is a function of one cell, the row or key with its counter, and the
loop applies it to all cells and collects the flags it sets. Where the counters of a
file run in the same frame (`sym_defer_pk`, `sym_eager_pr`, `sym_eager_pk` and
`asym_eager_defer_pk`), the frame is one definition.
-/

namespace QmkFirmware.Debounce

/-- The columns of every row that are pressed -/
abbrev Matrix (rows cols : Nat) := Fin rows → Fin cols → Bool

/-- A debounce file: its variables, their values at the start, and `debounce`, which gets the time
in milliseconds too and returns the variables, the cooked matrix and whether it says that it changed. -/
structure File (rows cols : Nat) where
  State : Type
  init : State
  debounce : (raw cooked : Matrix rows cols) → (changed : Bool) → (now : Nat) → State → State × Matrix rows cols × Bool

variable {rows cols : Nat}

/-- `none.c` -/
def none : File rows cols where
  State := Unit
  init := ()
  debounce raw cooked _ _ s := (s, raw, decide (raw ≠ cooked))

/-! ## `sym_defer_g.c` -/

/-- The variables of `sym_defer_g.c` -/
structure DeferG (fast : Nat) where
  debouncing : Bool
  debouncingTime : BitVec fast

/-- `debounce` of `sym_defer_g.c` -/
def DeferG.debounce {fast : Nat} (DEBOUNCE : Nat) (raw cooked : Matrix rows cols) (changed : Bool) (now : Nat)
    (s : DeferG fast) : DeferG fast × Matrix rows cols × Bool :=
  let s := if changed then ⟨true, BitVec.ofNat fast now⟩ else s
  if s.debouncing && decide (DEBOUNCE ≤ (BitVec.ofNat fast now - s.debouncingTime).toNat) then
    ({ s with debouncing := false }, raw, decide (cooked ≠ raw))
  else (s, cooked, false)

/-- `sym_defer_g.c`; `fast` is the width of `fast_timer_t`. -/
def symDeferG (fast : Nat) : (DEBOUNCE : Nat) → File rows cols
  | 0 => none
  | d + 1 => { State := DeferG fast, init := ⟨false, 0⟩, debounce := DeferG.debounce (d + 1) }

/-! ## `sym_defer_pr.c` -/

/-- The variables of `sym_defer_pr.c` -/
structure DeferPr (rows cols : Nat) where
  lastTime : BitVec 16
  countdowns : Fin rows → Nat
  lastRaw : Matrix rows cols

/-- The body of the loop over the rows: the countdown, the cooked row, and what is or-ed to
`cooked_changed` -/
def DeferPr.row (DEBOUNCE elapsed : Nat) (raw lastRaw cooked : Fin cols → Bool) (countdown : Nat) :
    Nat × (Fin cols → Bool) × Bool :=
  if raw ≠ lastRaw then (DEBOUNCE % 2 ^ 8, cooked, false)
  else if elapsed < countdown then (countdown - elapsed, cooked, false)
  else if countdown ≠ 0 then (0, raw, decide (cooked ≠ raw))
  else (countdown, cooked, false)

/-- `debounce` of `sym_defer_pr.c` -/
def DeferPr.debounce (DEBOUNCE : Nat) (raw cooked : Matrix rows cols) (_changed : Bool) (now : Nat)
    (s : DeferPr rows cols) : DeferPr rows cols × Matrix rows cols × Bool :=
  let elapsed := min (BitVec.ofNat 16 now - s.lastTime).toNat 255
  let row r := DeferPr.row DEBOUNCE elapsed (raw r) (s.lastRaw r) (cooked r) (s.countdowns r)
  (⟨BitVec.ofNat 16 now, fun r => (row r).1, raw⟩, fun r => (row r).2.1, decide (∃ r, (row r).2.2 = true))

/-- `sym_defer_pr.c`, initialised at a time -/
def symDeferPr (start DEBOUNCE : Nat) : File rows cols where
  State := DeferPr rows cols
  init := ⟨BitVec.ofNat 16 start, fun _ => 0, fun _ _ => false⟩
  debounce := DeferPr.debounce DEBOUNCE

/-! ## Counters in a common frame -/

/-- What the body of a loop makes of its cell: the cooked value, the counter, and the flags it sets -/
structure Cell (V K : Type) where
  cooked : V
  counter : K
  cookedChanged : Bool
  countersNeedUpdate : Bool
  matrixNeedUpdate : Bool

/-- The cell is left alone. -/
def Cell.same {V K : Type} (cooked : V) (counter : K) : Cell V K := ⟨cooked, counter, false, false, false⟩

/-- The bodies of the two loops of a file -/
structure Bodies (V K : Type) where
  update : (elapsed : Nat) → (raw cooked : V) → (counter : K) → Cell V K
  transfer : (raw cooked : V) → (counter : K) → Cell V K

/-- The variables of the frame -/
structure Frame (fast : Nat) (I K : Type) where
  counters : I → K
  lastTime : BitVec fast
  countersNeedUpdate : Bool
  matrixNeedUpdate : Bool

namespace Frame

variable {fast : Nat} {I V K : Type} [Fintype I]

/-- The loop that takes the elapsed time from the counters -/
def update (bodies : Bodies V K) (raw cooked : I → V) (elapsed : Nat) (s : Frame fast I K) :
    Frame fast I K × (I → V) × Bool :=
  let cell i := bodies.update elapsed (raw i) (cooked i) (s.counters i)
  ({ s with
      counters := fun i => (cell i).counter
      countersNeedUpdate := decide (∃ i, (cell i).countersNeedUpdate = true)
      matrixNeedUpdate := decide (∃ i, (cell i).matrixNeedUpdate = true) },
    fun i => (cell i).cooked, decide (∃ i, (cell i).cookedChanged = true))

/-- The loop that starts the counters -/
def transfer (bodies : Bodies V K) (raw cooked : I → V) (s : Frame fast I K) : Frame fast I K × (I → V) × Bool :=
  let cell i := bodies.transfer (raw i) (cooked i) (s.counters i)
  ({ s with
      counters := fun i => (cell i).counter
      countersNeedUpdate := s.countersNeedUpdate || decide (∃ i, (cell i).countersNeedUpdate = true) },
    fun i => (cell i).cooked, decide (∃ i, (cell i).cookedChanged = true))

/-- The first part of `debounce`: the elapsed time, at most 255 ms, is taken from the counters. -/
def elapse (bodies : Bodies V K) (raw cooked : I → V) (now : Nat) (s : Frame fast I K) :
    Frame fast I K × (I → V) × Bool :=
  if s.countersNeedUpdate then
    let elapsed := min (BitVec.ofNat fast now - s.lastTime).toNat 255
    let s := { s with lastTime := BitVec.ofNat fast now }
    if 0 < elapsed then s.update bodies raw cooked elapsed else (s, cooked, false)
  else (s, cooked, false)

/-- `debounce` of the files with the frame. `last_time` is read once: where it was not updated with
the counters, it is updated with the transfer. -/
def debounce (bodies : Bodies V K) (raw cooked : I → V) (changed : Bool) (now : Nat) (s : Frame fast I K) :
    Frame fast I K × (I → V) × Bool :=
  let (t, cooked, cookedChanged) := s.elapse bodies raw cooked now
  if changed || t.matrixNeedUpdate then
    let (t, cooked, transferred) := { t with lastTime := BitVec.ofNat fast now }.transfer bodies raw cooked
    (t, cooked, cookedChanged || transferred)
  else (t, cooked, cookedChanged)

end Frame

/-- A file that has a counter for each key -/
def perKey {K : Type} (fast : Nat) (elapsed : K) (bodies : Bodies Bool K) : File rows cols where
  State := Frame fast (Fin rows × Fin cols) K
  init := ⟨fun _ => elapsed, 0, false, false⟩
  debounce raw cooked changed now s :=
    let (s, cooked, cookedChanged) :=
      s.debounce bodies (fun key => raw key.1 key.2) (fun key => cooked key.1 key.2) changed now
    (s, fun r c => cooked (r, c), cookedChanged)

/-! ## `sym_defer_pk.c` -/

/-- `sym_defer_pk.c` transfers a value when its counter expires. It has no `matrix_need_update`: nothing sets it here. -/
def deferPk (DEBOUNCE : Nat) : Bodies Bool Nat where
  update elapsed raw cooked counter :=
    if counter ≠ 0 then
      if counter ≤ elapsed then ⟨raw, 0, decide (cooked ≠ raw), false, false⟩
      else ⟨cooked, counter - elapsed, false, true, false⟩
    else .same cooked counter
  transfer raw cooked counter :=
    if raw ≠ cooked then
      if counter = 0 then ⟨cooked, DEBOUNCE, false, true, false⟩ else .same cooked counter
    else .same cooked 0

theorem deferPk_update (d elapsed : Nat) (raw cooked : Bool) (counter : Nat) :
    (deferPk d).update elapsed raw cooked counter =
      ⟨if counter ≠ 0 ∧ counter ≤ elapsed then raw else cooked, counter - elapsed,
        decide ((counter ≠ 0 ∧ counter ≤ elapsed) ∧ cooked ≠ raw), decide (elapsed < counter), false⟩ := by
  unfold deferPk Cell.same
  dsimp only
  split
  next runs =>
    split
    next expired => simp [runs, expired, Nat.sub_eq_zero_of_le expired]
    next waits => simp [runs, waits, not_le.mp waits]
  next off =>
    rw [not_not] at off
    simp [off]

@[simp] theorem deferPk_transfer_self (d : Nat) (raw : Bool) (counter : Nat) :
    (deferPk d).transfer raw raw counter = .same raw 0 := if_neg (not_not.mpr rfl)

theorem deferPk_transfer_ne {d : Nat} {raw cooked : Bool} {counter : Nat} (ne : raw ≠ cooked) :
    (deferPk d).transfer raw cooked counter =
      ⟨cooked, if counter = 0 then d else counter, false, decide (counter = 0), false⟩ := by
  unfold deferPk Cell.same
  dsimp only
  rw [if_pos ne]
  split
  next free => simp [free]
  next runs => simp [runs]

def symDeferPk (fast : Nat) : (DEBOUNCE : Nat) → File rows cols
  | 0 => none
  | d + 1 => perKey fast 0 (deferPk (min (d + 1) 255))

/-! ## `sym_eager_pr.c` and `sym_eager_pk.c` -/

/-- The eager files: `accept` is the cooked value when a change is accepted, and what is or-ed to
`cooked_changed` then. -/
def eager {V : Type} [DecidableEq V] (accept : (raw cooked : V) → V × Bool) (DEBOUNCE : Nat) : Bodies V Nat where
  update elapsed _ cooked counter :=
    if counter ≠ 0 then
      if counter ≤ elapsed then ⟨cooked, 0, false, false, true⟩
      else ⟨cooked, counter - elapsed, false, true, false⟩
    else .same cooked counter
  transfer raw cooked counter :=
    if raw ≠ cooked then
      if counter = 0 then ⟨(accept raw cooked).1, DEBOUNCE, (accept raw cooked).2, true, false⟩
      else .same cooked counter
    else .same cooked counter

theorem eager_update {V : Type} [DecidableEq V] (accept : V → V → V × Bool) (d elapsed : Nat) (raw cooked : V)
    (counter : Nat) :
    (eager accept d).update elapsed raw cooked counter =
      ⟨cooked, counter - elapsed, false, decide (elapsed < counter), decide (counter ≠ 0 ∧ counter ≤ elapsed)⟩ := by
  unfold eager Cell.same
  dsimp only
  split
  next runs =>
    split
    next expired => simp [runs, expired, Nat.sub_eq_zero_of_le expired]
    next waits => simp [waits, not_le.mp waits]
  next off =>
    rw [not_not] at off
    simp [off]

@[simp] theorem eager_transfer_self {V : Type} [DecidableEq V] (accept : V → V → V × Bool) (d : Nat) (raw : V)
    (counter : Nat) : (eager accept d).transfer raw raw counter = .same raw counter := if_neg (not_not.mpr rfl)

theorem eager_transfer_free {V : Type} [DecidableEq V] {accept : V → V → V × Bool} {d : Nat} {raw cooked : V}
    (ne : raw ≠ cooked) :
    (eager accept d).transfer raw cooked 0 = ⟨(accept raw cooked).1, d, (accept raw cooked).2, true, false⟩ := by
  unfold eager
  dsimp only
  rw [if_pos ne, if_pos rfl]

theorem eager_transfer_locked {V : Type} [DecidableEq V] {accept : V → V → V × Bool} {d : Nat} {raw cooked : V}
    {counter : Nat} (runs : counter ≠ 0) : (eager accept d).transfer raw cooked counter = .same cooked counter := by
  unfold eager
  dsimp only
  rw [if_neg runs, ite_self]

/-- `sym_eager_pr.c` stores the raw row and then compares the cooked row with it. -/
def acceptRow (raw _cooked : Fin cols → Bool) : (Fin cols → Bool) × Bool :=
  let cooked := raw
  (cooked, decide (cooked ≠ raw))

/-- `sym_eager_pk.c` flips the bit. -/
def acceptKey (_raw cooked : Bool) : Bool × Bool := (!cooked, true)

def symEagerPr (fast : Nat) : (DEBOUNCE : Nat) → File rows cols
  | 0 => none
  | d + 1 =>
    { State := Frame fast (Fin rows) Nat
      init := ⟨fun _ => 0, 0, false, false⟩
      debounce := Frame.debounce (eager acceptRow (min (d + 1) 255)) }

def symEagerPk (fast : Nat) : (DEBOUNCE : Nat) → File rows cols
  | 0 => none
  | d + 1 => perKey fast 0 (eager acceptKey (min (d + 1) 255))

/-! ## `asym_eager_defer_pk.c` -/

/-- `debounce_counter_t` of `asym_eager_defer_pk.c` -/
structure AsymCounter where
  pressed : Bool
  time : Nat

/-- `asym_eager_defer_pk.c`: a press is accepted at once, a release when it has lasted. -/
def asym (DEBOUNCE : Nat) : Bodies Bool AsymCounter where
  update elapsed raw cooked counter :=
    if counter.time ≠ 0 then
      if counter.time ≤ elapsed then
        if counter.pressed then ⟨cooked, { counter with time := 0 }, false, false, true⟩
        else ⟨raw, { counter with time := 0 }, decide (raw ≠ cooked), false, false⟩
      else ⟨cooked, { counter with time := counter.time - elapsed }, false, true, false⟩
    else .same cooked counter
  transfer raw cooked counter :=
    if raw ≠ cooked then
      if counter.time = 0 then
        if raw then ⟨!cooked, ⟨raw, DEBOUNCE⟩, true, true, false⟩
        else ⟨cooked, ⟨raw, DEBOUNCE⟩, false, true, false⟩
      else .same cooked counter
    else if counter.time ≠ 0 ∧ counter.pressed = false then .same cooked { counter with time := 0 }
    else .same cooked counter

theorem asym_update (d elapsed : Nat) (raw cooked : Bool) (counter : AsymCounter) :
    (asym d).update elapsed raw cooked counter =
      ⟨if (counter.time ≠ 0 ∧ counter.time ≤ elapsed) ∧ counter.pressed = false then raw else cooked,
        { counter with time := counter.time - elapsed },
        decide (((counter.time ≠ 0 ∧ counter.time ≤ elapsed) ∧ counter.pressed = false) ∧ raw ≠ cooked),
        decide (elapsed < counter.time),
        decide ((counter.time ≠ 0 ∧ counter.time ≤ elapsed) ∧ counter.pressed = true)⟩ := by
  obtain ⟨pressed, time⟩ := counter
  unfold asym Cell.same
  dsimp only
  split
  next runs =>
    split
    next expired =>
      cases pressed with
      | true => simp [runs, expired, Nat.sub_eq_zero_of_le expired]
      | false => simp [runs, expired, Nat.sub_eq_zero_of_le expired]
    next waits => simp [waits, not_le.mp waits]
  next off =>
    rw [not_not] at off
    simp [off]

theorem asym_transfer_self (d : Nat) (raw : Bool) (counter : AsymCounter) :
    (asym d).transfer raw raw counter =
      .same raw { counter with time := if counter.pressed then counter.time else 0 } := by
  obtain ⟨pressed, time⟩ := counter
  unfold asym
  dsimp only
  rw [if_neg (not_not.mpr rfl)]
  cases pressed with
  | true => simp
  | false =>
    by_cases off : time = 0
    · simp [off]
    · simp [off]

theorem asym_transfer_press {d : Nat} {pressed : Bool} :
    (asym d).transfer true false ⟨pressed, 0⟩ = ⟨true, ⟨true, d⟩, true, true, false⟩ := rfl

theorem asym_transfer_release {d : Nat} {pressed : Bool} :
    (asym d).transfer false true ⟨pressed, 0⟩ = ⟨true, ⟨false, d⟩, false, true, false⟩ := rfl

theorem asym_transfer_running {d : Nat} {raw cooked : Bool} {counter : AsymCounter} (ne : raw ≠ cooked)
    (runs : counter.time ≠ 0) : (asym d).transfer raw cooked counter = .same cooked counter := by
  unfold asym
  dsimp only
  rw [if_pos ne, if_neg runs]

def asymEagerDeferPk (fast : Nat) : (DEBOUNCE : Nat) → File rows cols
  | 0 => none
  | d + 1 => perKey fast ⟨false, 0⟩ (asym (min (d + 1) 127))

/-! ## Runs -/

/-- The file that is compiled in -/
inductive Algorithm where
  | none
  | symDeferG
  | symDeferPr
  | symDeferPk
  | symEagerPr
  | symEagerPk
  | asymEagerDeferPk
  deriving DecidableEq, Repr

/-- The files; `fast` is the width of `fast_timer_t`, `start` the time at the start. -/
def Algorithm.file (fast start DEBOUNCE : Nat) : Algorithm → File rows cols
  | .none => Debounce.none
  | .symDeferG => Debounce.symDeferG fast DEBOUNCE
  | .symDeferPr => Debounce.symDeferPr start DEBOUNCE
  | .symDeferPk => Debounce.symDeferPk fast DEBOUNCE
  | .symEagerPr => Debounce.symEagerPr fast DEBOUNCE
  | .symEagerPk => Debounce.symEagerPk fast DEBOUNCE
  | .asymEagerDeferPk => Debounce.asymEagerDeferPk fast DEBOUNCE

/-- A call of `debounce`: the matrix that was read, and the time -/
structure Call (rows cols : Nat) where
  raw : Matrix rows cols
  now : Nat

/-- The variables of a file, the cooked matrix and the raw matrix of the last call -/
structure World (file : File rows cols) where
  state : file.State
  cooked : Matrix rows cols
  lastRaw : Matrix rows cols

namespace World

/-- No key is pressed at the start. -/
def start (file : File rows cols) : World file := ⟨file.init, fun _ _ => false, fun _ _ => false⟩

/-- The call as `matrix_scan` makes it, which says whether the raw matrix changed -/
def call {file : File rows cols} (x : World file) (call : Call rows cols) : file.State × Matrix rows cols × Bool :=
  file.debounce call.raw x.cooked (decide (call.raw ≠ x.lastRaw)) call.now x.state

def step {file : File rows cols} (x : World file) (c : Call rows cols) : World file :=
  ⟨(x.call c).1, (x.call c).2.1, c.raw⟩

end World

end QmkFirmware.Debounce
