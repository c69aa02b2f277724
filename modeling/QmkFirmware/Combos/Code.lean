import Mathlib

/-!
# Combos

The functions of `process_combo.c`. The compile-time switches and the functions a
keymap may define are the fields of a configuration. `combo_buffer` is a ring of
`COMBO_BUFFER_LENGTH` slots without a check for room: as a list it is empty again
when the last slot is taken.
-/

namespace QmkFirmware.Combos

/-- `COMBO_END`, which is `KC_NO` too -/
def comboEnd : Nat := 0

def qkComboOn : Nat := 0x7C50
def qkComboOff : Nat := 0x7C51
def qkComboToggle : Nat := 0x7C52

/-- A key event as `process_combo` receives it: `lookup` is the keycode of the key in the layer
that combos refer to, and `time` what the timer reads. -/
structure Event where
  key : Nat × Nat
  pressed : Bool
  keycode : Nat
  lookup : Nat
  time : BitVec 16
  deriving DecidableEq, Repr

/-- The fixed part of a `combo_t`: the keys before `COMBO_END` -/
structure Combo where
  keys : List Nat
  keycode : Nat
  isKey : comboEnd ∉ keys

/-- The part of a `combo_t` that changes -/
structure Flags (w : Nat) where
  disabled : Bool
  active : Bool
  state : BitVec w
  deriving DecidableEq, Repr

/-- The combos and their settings; `n` is `COMBO_LEN` and `w` the width of the state of a combo. -/
structure Config (n : Nat) where
  combos : Fin n → Combo
  comboTerm : Fin n → BitVec 16
  holdTerm : BitVec 16
  mustHold : Fin n → Bool
  mustTap : Fin n → Bool
  mustPressInOrder : Fin n → Bool
  shouldTrigger : Fin n → Event → Bool
  processKeyRelease : Fin n → Nat → Nat → Bool
  noTimer : Bool
  strictTimer : Bool
  keyBufferLength : Nat
  comboBufferLength : Nat

/-- `queued_record_t`: `live` until the event is made a tick, `combo` the combo it was made the
event of. -/
structure QueuedRecord (n : Nat) where
  press : Event
  live : Bool
  combo : Option (Fin n)
  deriving DecidableEq, Repr

/-- What is processed further: an event as it was, or the event of a combo, a record with its
keycode or, without one, a call of `process_combo_event`. -/
inductive Out (n : Nat) where
  | record (e : Event)
  | combo (c : Fin n) (keycode : Nat) (pressed : Bool)
  deriving DecidableEq, Repr

/-- What was processed, in order: the dump of a key buffer, with the presses that were in it, an
event that passed, and the release of a combo. -/
inductive Entry (n : Nat) where
  | dump (gathered : List Event) (out : List (Out n))
  | pass (e : Event)
  | release (c : Fin n) (keycode : Nat)
  deriving DecidableEq, Repr

/-- The variables of `process_combo.c`, and what was processed. -/
structure State (n w : Nat) where
  timer : BitVec 16
  enabled : Bool
  longestTerm : BitVec 16
  keyBuffer : List (QueuedRecord n)
  comboBuffer : List (Fin n)
  flags : Fin n → Flags w
  log : List (Entry n)

variable {n w : Nat}

/-- The state at the start -/
def initial : State n w :=
  { timer := 0, enabled := true, longestTerm := 0, keyBuffer := [], comboBuffer := []
    flags := fun _ => ⟨false, false, 0⟩, log := [] }

/-- `ALL_COMBO_KEYS_ARE_DOWN` -/
def allDown (state : BitVec w) (keyCount : Nat) : Bool := state.toNat == 2 ^ keyCount - 1

/-- `ONLY_ONE_KEY_IS_DOWN` -/
def onlyOneDown (state : BitVec w) : Bool := state &&& (state - 1) == 0

/-- `_find_key_index_and_count`. The keycode is compared with the end of the keys too. -/
def findKeyIndex (keycode : Nat) : List Nat → Nat → Option Nat → Option Nat
  | [], count, index => if keycode = comboEnd then some count else index
  | key :: keys, count, index => findKeyIndex keycode keys (count + 1) (if keycode = key then some count else index)

namespace State

def update (s : State n w) (c : Fin n) (f : Flags w → Flags w) : State n w :=
  { s with flags := Function.update s.flags c (f (s.flags c)) }

/-- `DISABLE_COMBO` -/
def disable (s : State n w) (c : Fin n) : State n w := s.update c fun f => { f with disabled := true }

/-- `ACTIVATE_COMBO` -/
def activate (s : State n w) (c : Fin n) : State n w := s.update c fun f => { f with active := true }

/-- `DEACTIVATE_COMBO` -/
def deactivate (s : State n w) (c : Fin n) : State n w := s.update c fun f => { f with active := false }

/-- `KEY_STATE_DOWN` -/
def keyDown (s : State n w) (c : Fin n) (index : Nat) : State n w :=
  s.update c fun f => { f with state := f.state ||| BitVec.twoPow w index }

/-- `KEY_STATE_UP` -/
def keyUp (s : State n w) (c : Fin n) (index : Nat) : State n w :=
  s.update c fun f => { f with state := f.state &&& ~~~(BitVec.twoPow w index) }

end State

/-- `clear_combos` -/
def clearCombos (s : State n w) : State n w :=
  { s with
    longestTerm := 0
    flags := fun c => if (s.flags c).active then s.flags c else { s.flags c with disabled := false, state := 0 } }

/-- `drop_combo_from_buffer` -/
def dropComboFromBuffer (c : Fin n) (s : State n w) : State n w :=
  if c ∈ s.comboBuffer then
    let s := s.disable c
    if s.comboBuffer.head? = some c then { s with comboBuffer := s.comboBuffer.tail } else s
  else s

namespace Config

variable (cfg : Config n)

def keys (c : Fin n) : List Nat := (cfg.combos c).keys

def keyIndex (c : Fin n) (keycode : Nat) : Option Nat := findKeyIndex keycode (cfg.keys c) 0 none

/-- `_get_wait_time` -/
def waitTime (s : State n w) (c : Fin n) : BitVec 16 :=
  if (cfg.mustHold c || cfg.mustTap c) && decide (s.longestTerm < cfg.holdTerm) then cfg.holdTerm
  else s.longestTerm

/-- `overlaps`: which of the two is to be dropped. -/
def overlaps (combo1 combo2 : Fin n) : Option (Fin n) :=
  if (cfg.keys combo1).any fun key => (cfg.keys combo2).contains key then
    if (cfg.keys combo2).length < (cfg.keys combo1).length then some combo2 else some combo1
  else none

/-- `release_combo` -/
def releaseCombo (c : Fin n) (s : State n w) : State n w :=
  State.deactivate { s with log := s.log ++ [.release c (cfg.combos c).keycode] } c

/-- What `dump_key_buffer` does with a record -/
def emit (q : QueuedRecord n) : Option (Out n) :=
  if !q.live then none else
  match q.combo with
  | some c => some (.combo c (cfg.combos c).keycode true)
  | none => some (.record q.press)

/-- `dump_key_buffer` -/
def dumpKeyBuffer (s : State n w) : State n w :=
  if s.keyBuffer = [] then s else
  { s with
    log := s.log ++ [.dump (s.keyBuffer.map (·.press)) (s.keyBuffer.filterMap cfg.emit)]
    keyBuffer := [] }

/-- The loop of `apply_combo`: the last key of the combo becomes its event, the ones before it
become ticks. Whether the last one was found, and the records. -/
def applyKeys (c : Fin n) : BitVec w → List (QueuedRecord n) → Bool × List (QueuedRecord n)
  | _, [] => (false, [])
  | state, q :: queue =>
    match cfg.keyIndex c q.press.lookup with
    | none => let (found, queue) := applyKeys c state queue; (found, q :: queue)
    | some index =>
      let state := state ||| BitVec.twoPow w index
      if allDown state (cfg.keys c).length then (true, { q with combo := some c } :: queue)
      else let (found, queue) := applyKeys c state queue; (found, { q with live := false } :: queue)

/-- `apply_combo` -/
def applyCombo (c : Fin n) (s : State n w) : State n w :=
  if (s.flags c).disabled then s else
  let (found, queue) := cfg.applyKeys c (0#w) s.keyBuffer
  let s := { s with keyBuffer := queue }
  dropComboFromBuffer c (if found then s.activate c else s)

/-- What `apply_combos` does with a combo of the buffer: tap-only combos are only dropped. -/
def applyQueued (s : State n w) (c : Fin n) : State n w :=
  if cfg.mustTap c then dropComboFromBuffer c s else cfg.applyCombo c s

/-- `apply_combos` -/
def applyCombos (s : State n w) : State n w :=
  clearCombos (cfg.dumpKeyBuffer (s.comboBuffer.foldl cfg.applyQueued s))

/-- `keys_pressed_in_order` -/
def keysPressedInOrder (s : State n w) (c : Fin n) (index : Nat) : Bool :=
  !cfg.mustPressInOrder c || decide (2 ^ index = (s.flags c).state.toNat + 1)

/-- Whether an event counts for a combo. -/
def isPart (s : State n w) (c : Fin n) (e : Event) (index : Nat) : Bool :=
  !(s.flags c).disabled && s.enabled && cfg.keysPressedInOrder s c index && cfg.shouldTrigger c e

/-- The loop over the combos that wait when one is fully pressed: those that overlap with it
are dropped, or it is. The state, the combos that keep waiting, and whether it is kept. -/
def dropOverlapping (c : Fin n) (s : State n w) (kept : List (Fin n)) :
    List (Fin n) → State n w × List (Fin n) × Bool
  | [] => (s, kept, true)
  | buffered :: queue =>
    match cfg.overlaps buffered c with
    | none => dropOverlapping c s (kept ++ [buffered]) queue
    | some drop =>
      if drop = c then (s.disable drop, kept ++ buffered :: queue, false)
      else if kept = [] then dropOverlapping c (s.disable drop) [] queue
      else dropOverlapping c (s.disable drop) (kept ++ [buffered]) queue

/-- A combo is put into `combo_buffer`. -/
def enqueue (queue : List (Fin n)) (c : Fin n) : List (Fin n) :=
  if queue.length + 1 = cfg.comboBufferLength then [] else queue ++ [c]

/-- A combo that was fully pressed waits. -/
def queueCombo (c : Fin n) (s : State n w) : State n w :=
  let (s, queue, keep) := cfg.dropOverlapping c s [] s.comboBuffer
  if keep then { s with comboBuffer := cfg.enqueue queue c, longestTerm := cfg.waitTime s c }
  else { s with comboBuffer := queue }

/-- The press of a key that counts for the combo. -/
def pressCombo (c : Fin n) (index : Nat) (now : BitVec 16) (s : State n w) : State n w :=
  let s := if (s.flags c).active then s else
    { s.keyDown c index with longestTerm := if s.longestTerm < cfg.comboTerm c then cfg.comboTerm c else s.longestTerm }
  if allDown (s.flags c).state (cfg.keys c).length then
    if !cfg.noTimer && s.timer != 0 && decide (cfg.comboTerm c < now - s.timer) then s.disable c
    else cfg.queueCombo c s
  else s

/-- The release of a key of the combo, or a press that does not count. -/
def releaseKey (c : Fin n) (index : Nat) (e : Event) (part : Bool) (s : State n w) : Bool × State n w :=
  let flags := s.flags c
  let (part, s) :=
    if !flags.active && allDown flags.state (cfg.keys c).length then
      if flags.disabled || cfg.mustHold c then (false, dropComboFromBuffer c s)
      else if cfg.mustTap c then
        let s := cfg.applyCombos (cfg.applyCombo c s)
        (part, if cfg.processKeyRelease c index e.lookup then cfg.releaseCombo c s else s)
      else (part, s)
    else if flags.active && flags.state.getLsbD index then
      if onlyOneDown flags.state || cfg.processKeyRelease c index e.lookup then (true, cfg.releaseCombo c s)
      else (true, s)
    else (false, s)
  (part, s.keyUp c index)

/-- `process_single_combo` -/
def processSingleCombo (c : Fin n) (e : Event) (s : State n w) : Bool × State n w :=
  match cfg.keyIndex c e.lookup with
  | none => (false, s)
  | some index =>
    let part := cfg.isPart s c e index
    if e.pressed && part then (true, cfg.pressCombo c index e.time s)
    else cfg.releaseKey c index e part s

/-- `combo_enable` -/
def comboEnable (s : State n w) : State n w := { s with enabled := true }

/-- `combo_disable` -/
def comboDisable (s : State n w) : State n w :=
  cfg.dumpKeyBuffer (clearCombos { s with timer := 0, enabled := false, comboBuffer := [] })

/-- `combo_toggle` -/
def comboToggle (s : State n w) : State n w := if s.enabled then cfg.comboDisable s else comboEnable s

/-- The loop of `process_combo` over the combos: whether the event counts for one of them. -/
def processCombos (e : Event) (s : State n w) : Bool × State n w :=
  (List.finRange n).foldl
    (fun (part, s) c => let (counts, s) := cfg.processSingleCombo c e s; (part || counts, s)) (false, s)

/-- A press that counts for a combo goes to the key buffer, if there is room. -/
def bufferPress (e : Event) (s : State n w) : State n w :=
  let s := if cfg.noTimer || cfg.strictTimer && s.timer != 0 then s else { s with timer := e.time }
  if s.keyBuffer.length < cfg.keyBufferLength then { s with keyBuffer := s.keyBuffer ++ [⟨e, true, none⟩] } else s

/-- Any other event ends the gathering of keys. -/
def endGathering (s : State n w) : State n w :=
  if s.comboBuffer ≠ [] then cfg.applyCombos s
  else clearCombos { cfg.dumpKeyBuffer s with timer := if cfg.noTimer then s.timer else 0 }

/-- `process_combo`: whether the event is processed further, and the state. -/
def processCombo (e : Event) (s : State n w) : Bool × State n w :=
  if e.keycode = qkComboOn ∧ e.pressed then (true, comboEnable s)
  else if e.keycode = qkComboOff ∧ e.pressed then (true, cfg.comboDisable s)
  else if e.keycode = qkComboToggle ∧ e.pressed then (true, cfg.comboToggle s)
  else
    let (part, s) := cfg.processCombos e s
    (!part, if e.pressed && part then cfg.bufferPress e s else cfg.endGathering s)

/-- `combo_task` -/
def comboTask (now : BitVec 16) (s : State n w) : State n w :=
  if !s.enabled then s
  else if !cfg.noTimer && s.timer != 0 && decide (s.longestTerm < now - s.timer) then
    if s.comboBuffer ≠ [] then { cfg.applyCombos s with longestTerm := 0, timer := 0 }
    else clearCombos { cfg.dumpKeyBuffer s with timer := 0 }
  else s

end Config

/-- What happens to the combos: a key event, or `combo_task` at a time. -/
inductive Input where
  | event (e : Event)
  | task (now : BitVec 16)
  deriving DecidableEq, Repr

/-- An event that `process_combo` lets through is processed. -/
def Config.step (cfg : Config n) (s : State n w) : Input → State n w
  | .event e =>
    let (pass, s) := cfg.processCombo e s
    if pass then { s with log := s.log ++ [.pass e] } else s
  | .task now => cfg.comboTask now s

end QmkFirmware.Combos
