import QmkFirmware.AutoShift.Code

/-!
# Auto Shift with its options

`process_auto_shift.c` once more, with the options that `Code` takes at their defaults: keys that
repeat, keys that are tap-hold keys as well, other modifiers, times of their own. A key that
is evaluated by the scan and repeats stays down, and what was done to the shifts for it is
undone when it is released.

Caps Word is left out, which clears the modifiers itself.
-/

namespace QmkFirmware.AutoShift

/-- `AS_DOWN` -/
def asDown : Keycode := 0x7C10
/-- `AS_UP` -/
def asUp : Keycode := 0x7C11
/-- `AS_ON` -/
def asOn : Keycode := 0x7C13
/-- `AS_OFF` -/
def asOff : Keycode := 0x7C14
/-- `AS_TOGG` -/
def asTogg : Keycode := 0x7C15

/-- The code of a key that registers no modifier -/
def NoModifier (code : Keycode) : Prop := isModifierKeycode ((code.truncate 8 : BitVec 8).zeroExtend 16) = false

/-- The options. Each `..._PER_KEY` is a function of the keycode; without it, the function is constant. A key that is
auto-shifted is no modifier. -/
structure Options where
  /-- `get_auto_shifted_key` -/
  autoShifted : Keycode → Bool
  /-- `AUTO_SHIFT_REPEAT`, `get_auto_shift_repeat` -/
  repeats : Keycode → Bool
  /-- `AUTO_SHIFT_NO_AUTO_REPEAT`, `get_auto_shift_no_auto_repeat` -/
  noAutoRepeat : Keycode → Bool
  /-- `AUTO_SHIFT_MODIFIERS` -/
  modifiers : Bool
  /-- `AUTO_SHIFT_NO_SETUP` -/
  noSetup : Bool
  /-- `AUTO_SHIFT_TIMEOUT_PER_KEY`, with `get_autoshift_timeout` -/
  timeoutPerKey : Option (Keycode → BitVec 16)
  /-- `GET_TAPPING_TERM` -/
  tappingTerm : Keycode → BitVec 16
  /-- Whether the release of a tap-hold key evaluates a pending key: not with `IGNORE_MOD_TAP_INTERRUPT`, and
  what `get_hold_on_other_key_press` says with `HOLD_ON_OTHER_KEY_PRESS_PER_KEY` -/
  releaseEvaluates : Keycode → Bool
  noModifier : ∀ k, autoShifted k = true → NoModifier (State.hostCode k)

namespace State

/-- `send_keyboard_report`, as far as the one-shot modifiers go: a report with a key uses them up. -/
def sendKeyboardReport (s : State) : State := if s.keys = [] then s else { s with oneshotMods := 0 }

/-- `autoshift_press_user`, with the report that it sends. -/
def pressUser (s : State) (keycode : Keycode) (shifted : Bool) : State :=
  (s.autoshiftPressUser keycode shifted).sendKeyboardReport

/-- `autoshift_release_user`, with the report that it sends. -/
def releaseUser (s : State) (keycode : Keycode) (shifted : Bool) : State :=
  (s.autoshiftReleaseUser keycode shifted).sendKeyboardReport

/-- `autoshift_flush_shift`, with the report that it sends. -/
def flushShift (s : State) : State := s.autoshiftFlushShift.sendKeyboardReport

/-- Both shifts that the user holds are taken away. -/
def cancelShifts (s : State) : State := s.cancelLshift.cancelRshift

end State

namespace Options

variable (o : Options)

/-- `autoshift_timeout`, or `get_autoshift_timeout` -/
def timeout (s : State) (keycode : Keycode) : BitVec 16 :=
  match o.timeoutPerKey with
  | none => s.timeout
  | some timeoutOf => timeoutOf keycode

/-- Whether a key that the scan evaluates stays down. -/
def staysDown (keycode : Keycode) : Bool := o.repeats keycode && !o.noAutoRepeat keycode

/-- `autoshift_press` -/
def autoshiftPress (s : State) (keycode : Keycode) (now : BitVec 16) : Bool × State :=
  let otherMods : Bool := (s.mods ||| s.oneshotMods) &&& ~~~modLsft ≠ 0
  let s := if otherMods then { s with lastkey := kcNo } else s
  if otherMods && !o.modifiers then
    let s := (s.setAutoshiftShiftState keycode false).pressUser keycode false
    (false, { s with oneshotMods := s.oneshotMods &&& ~~~modLsft })
  else if keycode = s.lastkey ∧ o.repeats s.lastkey ∧ (¬ s.lastshifted ∨ o.noAutoRepeat s.lastkey) ∧
      now - s.time < o.tappingTerm s.lastkey then
    (false, s.cancelShifts.pressUser s.lastkey s.lastshifted)
  else
    (false,
      { s with
        lastshifted := (s.mods ||| s.oneshotMods) &&& modLsft ≠ 0
        oneshotMods := s.oneshotMods &&& ~~~modLsft
        lastkey := keycode
        time := now
        inProgress := true })

/-- The first part of `autoshift_end`: the pending key is pressed, and released again unless it is to be repeated. -/
def autoshiftEvaluate (s : State) (now : BitVec 16) (matrixTrigger : Bool) : State :=
  let s := { s with inProgress := false, lastshifted := s.lastshifted || o.timeout s s.lastkey ≤ now - s.time }
  let s := (s.setAutoshiftShiftState s.lastkey s.lastshifted).cancelShifts
  let pressed := s.pressUser s.lastkey s.lastshifted
  if matrixTrigger && o.staysDown s.lastkey then pressed
  else { (pressed.releaseUser s.lastkey s.lastshifted).flushShift with time := now }

/-- `autoshift_end` -/
def autoshiftEnd (s : State) (keycode : Keycode) (now : BitVec 16) (matrixTrigger : Bool) : State :=
  if s.inProgress && (keycode == s.lastkey || keycode == kcNo) then o.autoshiftEvaluate s now matrixTrigger
  else
    let s := s.releaseUser keycode (s.getAutoshiftShiftState keycode)
    { (if keycode = s.lastkey then s.flushShift else s) with time := now }

/-- `autoshift_matrix_scan` -/
def autoshiftMatrixScan (s : State) (now : BitVec 16) : State :=
  if s.inProgress && o.timeout s s.lastkey ≤ now - s.time then o.autoshiftEnd s s.lastkey now true else s

/-- The keys that set Auto Shift up; what `AS_RPT` types leaves its state alone. -/
def setUp (s : State) (keycode : Keycode) : State :=
  if keycode = asTogg then { s with enabled := !s.enabled }.flushShift
  else if keycode = asOn then { s with enabled := true }
  else if keycode = asOff then { s with enabled := false }.flushShift
  else if o.noSetup then s
  else if keycode = asUp then { s with timeout := s.timeout + 5 }
  else if keycode = asDown then { s with timeout := s.timeout - 5 }
  else s

/-- `process_auto_shift`. A tap-hold key is left to its action if it is used to hold: always without `RETRO_SHIFT`, and else
according to its record, from which the time is then, too. -/
def processAutoShift (s : State) (keycode : Keycode) (pressed hold : Bool) (now : BitVec 16) : Bool × State :=
  if pressed then
    let s := o.setUp (if s.inProgress then o.autoshiftEnd s kcNo now false else s) keycode
    if isRetro keycode && hold then (true, { s with lastkey := kcNo })
    else if !s.enabled then (true, s)
    else if o.autoShifted keycode then o.autoshiftPress s keycode now
    else (true, { s with lastkey := kcNo })
  else
    let s :=
      if keycode = kcLeftShift then { s with cancellingLshift := false }
      else if keycode = kcRightShift then { s with cancellingRshift := false }
      else s
    if isRetro keycode && hold then
      (true, if s.inProgress && o.releaseEvaluates keycode then o.autoshiftEnd s kcNo now false else s)
    else if !s.enabled then (true, s)
    else if o.autoShifted keycode then (false, o.autoshiftEnd s keycode now false)
    else (true, s)

end Options

/-! ## The defaults -/

theorem getAutoShiftedKey_noModifier (k : Keycode) (auto : getAutoShiftedKey k = true) : NoModifier (State.hostCode k) := by
  unfold getAutoShiftedKey autoShiftAlpha autoShiftNumeric autoShiftSpecial at auto
  simp only [Bool.or_eq_true, Bool.and_eq_true, decide_eq_true_eq, beq_iff_eq] at auto
  have host : State.hostCode k = k := by
    unfold State.hostCode isRetro
    rw [if_neg]
    simp only [Bool.and_eq_true, decide_eq_true_eq, not_and]
    bv_omega
  unfold NoModifier isModifierKeycode
  rw [host]
  simp only [Bool.and_eq_false_iff, decide_eq_false_iff_not]
  bv_omega

/-- The options that `Code` has -/
def Options.defaults : Options where
  autoShifted := getAutoShiftedKey
  repeats := fun _ => false
  noAutoRepeat := fun _ => false
  modifiers := false
  noSetup := false
  timeoutPerKey := none
  tappingTerm := fun _ => 200
  releaseEvaluates := fun _ => true
  noModifier := getAutoShiftedKey_noModifier

namespace State

variable {s : State}

theorem sendKeyboardReport_of_none (none : s.oneshotMods = 0) : s.sendKeyboardReport = s := by
  unfold sendKeyboardReport
  split
  next => rfl
  next => rw [← none]

@[simp] theorem registerCode_oneshotMods (code : BitVec 8) : (s.registerCode code).oneshotMods = s.oneshotMods := by
  unfold registerCode
  split_ifs <;> rfl

@[simp] theorem unregisterCode_oneshotMods (code : BitVec 8) : (s.unregisterCode code).oneshotMods = s.oneshotMods := by
  unfold unregisterCode
  split_ifs <;> rfl

@[simp] theorem autoshiftPressUser_oneshotMods (keycode : Keycode) (shifted : Bool) :
    (s.autoshiftPressUser keycode shifted).oneshotMods = s.oneshotMods := by
  unfold autoshiftPressUser registerCode16
  split_ifs <;> simp

@[simp] theorem autoshiftReleaseUser_oneshotMods (keycode : Keycode) (shifted : Bool) :
    (s.autoshiftReleaseUser keycode shifted).oneshotMods = s.oneshotMods := by
  unfold autoshiftReleaseUser unregisterCode16
  dsimp only
  split_ifs <;> simp

@[simp] theorem cancelShifts_oneshotMods : s.cancelShifts.oneshotMods = s.oneshotMods := by
  unfold cancelShifts cancelRshift cancelLshift
  split_ifs <;> rfl

@[simp] theorem autoshiftFlushShift_oneshotMods : s.autoshiftFlushShift.oneshotMods = s.oneshotMods := by
  unfold autoshiftFlushShift restoreRshift restoreLshift
  split_ifs <;> rfl

@[simp] theorem autoshiftEnd_oneshotMods (keycode : Keycode) (now : BitVec 16) :
    (s.autoshiftEnd keycode now).oneshotMods = s.oneshotMods := by
  unfold autoshiftEnd autoshiftEvaluate
  dsimp only
  split_ifs
  next =>
    rw [autoshiftFlushShift_oneshotMods, autoshiftReleaseUser_oneshotMods, autoshiftPressUser_oneshotMods]
    exact cancelShifts_oneshotMods
  next => simp
  next => simp

theorem pressUser_of_none (none : s.oneshotMods = 0) (keycode : Keycode) (shifted : Bool) :
    s.pressUser keycode shifted = s.autoshiftPressUser keycode shifted :=
  sendKeyboardReport_of_none (by rw [autoshiftPressUser_oneshotMods, none])

theorem releaseUser_of_none (none : s.oneshotMods = 0) (keycode : Keycode) (shifted : Bool) :
    s.releaseUser keycode shifted = s.autoshiftReleaseUser keycode shifted :=
  sendKeyboardReport_of_none (by rw [autoshiftReleaseUser_oneshotMods, none])

theorem flushShift_of_none (none : s.oneshotMods = 0) : s.flushShift = s.autoshiftFlushShift :=
  sendKeyboardReport_of_none (by rw [autoshiftFlushShift_oneshotMods, none])

end State

namespace Options

variable {s : State}

/-- A key is always released again. -/
theorem autoshiftEvaluate_defaults (none : s.oneshotMods = 0) (now : BitVec 16) (matrixTrigger : Bool) :
    defaults.autoshiftEvaluate s now matrixTrigger = { s.autoshiftEvaluate now with time := now } := by
  unfold autoshiftEvaluate State.autoshiftEvaluate
  dsimp only
  rw [if_neg (by simp [staysDown, defaults])]
  generalize start : State.setAutoshiftShiftState _ s.lastkey _ = t
  have started : t = ({ s with
      inProgress := false
      lastshifted := s.lastshifted || s.timeout ≤ now - s.time } : State).setAutoshiftShiftState s.lastkey
        (s.lastshifted || s.timeout ≤ now - s.time) := start.symm
  have free : t.cancelShifts.oneshotMods = 0 := by
    rw [started, State.cancelShifts_oneshotMods]
    exact none
  rw [State.pressUser_of_none free, State.releaseUser_of_none (by simpa using free),
    State.flushShift_of_none (by simpa using free), started]
  rfl

theorem autoshiftEnd_defaults (none : s.oneshotMods = 0) (keycode : Keycode) (now : BitVec 16) (matrixTrigger : Bool) :
    defaults.autoshiftEnd s keycode now matrixTrigger = s.autoshiftEnd keycode now := by
  unfold autoshiftEnd State.autoshiftEnd
  split
  next => exact autoshiftEvaluate_defaults none now matrixTrigger
  next =>
    dsimp only
    rw [State.releaseUser_of_none none, State.flushShift_of_none (by simpa using none)]

theorem autoshiftMatrixScan_defaults (none : s.oneshotMods = 0) (now : BitVec 16) :
    defaults.autoshiftMatrixScan s now = s.autoshiftMatrixScan now := by
  unfold autoshiftMatrixScan State.autoshiftMatrixScan
  rw [autoshiftEnd_defaults none]
  rfl

theorem autoshiftPress_defaults (none : s.oneshotMods = 0) (keycode : Keycode) (now : BitVec 16) :
    defaults.autoshiftPress s keycode now = s.autoshiftPress keycode now := by
  unfold autoshiftPress State.autoshiftPress
  dsimp only
  by_cases other : (s.mods ||| s.oneshotMods) &&& ~~~modLsft ≠ 0
  · rw [decide_eq_true other, if_pos rfl, if_pos (show (true && !defaults.modifiers) = true from rfl), if_pos other]
    rw [@State.pressUser_of_none (({ s with lastkey := kcNo } : State).setAutoshiftShiftState keycode false) none]
  · rw [decide_eq_false other, if_neg Bool.false_ne_true,
      if_neg (show ¬ (false && !defaults.modifiers) = true from Bool.false_ne_true), if_neg other]
    rw [if_neg fun again => Bool.false_ne_true again.2.1]

/-- With the options at their defaults, and no one-shot modifiers, this is the code of `Code`. -/
theorem processAutoShift_defaults (none : s.oneshotMods = 0) {keycode : Keycode}
    (other : ∀ k ∈ [asTogg, asOn, asOff, asUp, asDown], keycode ≠ k) (pressed : Bool) (now : BitVec 16) :
    defaults.processAutoShift s keycode pressed true now = s.processAutoShift keycode pressed now := by
  have setUp (t : State) : defaults.setUp t keycode = t := by
    unfold Options.setUp
    simp only [List.mem_cons, List.not_mem_nil, or_false, forall_eq_or_imp, forall_eq] at other
    obtain ⟨togg, on, off, up, down⟩ := other
    rw [if_neg togg, if_neg on, if_neg off, if_neg up, if_neg down, ite_self]
  unfold Options.processAutoShift State.processAutoShift
  dsimp only
  rw [setUp, autoshiftEnd_defaults none, Bool.and_true]
  cases pressed with
  | true =>
    rw [if_pos rfl, if_pos rfl]
    generalize interrupted : (if s.inProgress then s.autoshiftEnd kcNo now else s) = t
    have free : t.oneshotMods = 0 := by
      rw [← interrupted]
      split
      next => rw [State.autoshiftEnd_oneshotMods, none]
      next => exact none
    rw [autoshiftPress_defaults free]
    rfl
  | false =>
    rw [if_neg Bool.false_ne_true, if_neg Bool.false_ne_true]
    generalize released : (if keycode = kcLeftShift then _ else if keycode = kcRightShift then _ else s) = t
    have free : t.oneshotMods = 0 := by
      rw [← released]
      split_ifs <;> exact none
    rw [autoshiftEnd_defaults free, autoshiftEnd_defaults free]
    change (if isRetro keycode then (true, if t.inProgress && true then _ else t) else _) = _
    rw [Bool.and_true]
    rfl

end Options

end QmkFirmware.AutoShift
