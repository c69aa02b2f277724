import QmkFirmware.Lib.Run
import QmkFirmware.Lib.Timer

/-!
# Auto Shift

`process_auto_shift.c` with its default options (no repeat, no retro shift, no modifiers):
a key is held back until it is released, another key is pressed or a scan sees its
timeout, and is then tapped, with shift if it was held for long enough.
-/

namespace QmkFirmware.AutoShift

abbrev Keycode := BitVec 16

/-! ## Keycodes -/

/-- `KC_NO` -/
def kcNo : Keycode := 0x0000
/-- `KC_LEFT_SHIFT` -/
def kcLeftShift : Keycode := 0x00E1
/-- `KC_RIGHT_SHIFT` -/
def kcRightShift : Keycode := 0x00E5

/-- `MOD_BIT(KC_LSFT)` -/
def modLsft : BitVec 8 := 0x02
/-- `MOD_BIT(KC_RSFT)` -/
def modRsft : BitVec 8 := 0x20

/-- `AUTO_SHIFT_ALPHA` -/
def autoShiftAlpha (keycode : Keycode) : Bool := 0x0004 ≤ keycode && keycode ≤ 0x001D
/-- `AUTO_SHIFT_NUMERIC` -/
def autoShiftNumeric (keycode : Keycode) : Bool := 0x001E ≤ keycode && keycode ≤ 0x0027
/-- `AUTO_SHIFT_SPECIAL` -/
def autoShiftSpecial (keycode : Keycode) : Bool :=
  keycode == 0x002B || (0x002D ≤ keycode && keycode ≤ 0x0038) || keycode == 0x0064

/-- `get_auto_shifted_key`, with the weak `get_custom_auto_shifted_key` -/
def getAutoShiftedKey (keycode : Keycode) : Bool :=
  autoShiftAlpha keycode || autoShiftNumeric keycode || autoShiftSpecial keycode

/-- `IS_RETRO` -/
def isRetro (keycode : Keycode) : Bool := 0x2000 ≤ keycode && keycode ≤ 0x4FFF

/-- `IS_BASIC_KEYCODE` -/
def isBasicKeycode (code : BitVec 8) : Bool := 0x04 ≤ code && code ≤ 0xA4

/-- `IS_MODIFIER_KEYCODE` -/
def isModifierKeycode (keycode : Keycode) : Bool := 0x00E0 ≤ keycode && keycode ≤ 0x00E7

/-- `extract_mod_bits` -/
def extractModBits (code : Keycode) : BitVec 8 :=
  if 0x0100 ≤ code && code ≤ 0x1FFF then
    let mods := (code >>> 8).truncate 8 &&& 0x0F#8
    if code.getLsbD 12 then mods <<< 4 else mods
  else 0

/-! ## The state -/

/-- A key that a report brings, with the modifiers of the report -/
structure Typed where
  code : BitVec 8
  mods : BitVec 8
  deriving DecidableEq

/-- The static variables of the file, the modifiers and the keys of the keyboard, and what was typed so far -/
structure State where
  time : BitVec 16
  timeout : BitVec 16
  lastkey : Keycode
  shiftStates : BitVec 8 → Bool
  enabled : Bool
  lastshifted : Bool
  inProgress : Bool
  holdingShift : Bool
  cancellingLshift : Bool
  cancellingRshift : Bool
  mods : BitVec 8
  weakMods : BitVec 8
  oneshotMods : BitVec 8
  keys : List (BitVec 8)
  typed : List Typed

namespace State

def initial (timeout : BitVec 16) : State :=
  ⟨0, timeout, kcNo, fun _ => false, true, false, false, false, false, false, 0, 0, 0, [], []⟩

/-- `register_code`, which forces a new press of a key that is down -/
def registerCode (s : State) (code : BitVec 8) : State :=
  if isBasicKeycode code then
    { s with
      keys := s.keys.erase code ++ [code]
      typed := s.typed ++ [⟨code, s.mods ||| s.weakMods ||| s.oneshotMods⟩] }
  else if isModifierKeycode (code.zeroExtend 16) then { s with mods := s.mods ||| 1#8 <<< (code.toNat % 8) }
  else s

/-- `unregister_code` -/
def unregisterCode (s : State) (code : BitVec 8) : State :=
  if isBasicKeycode code then { s with keys := s.keys.erase code }
  else if isModifierKeycode (code.zeroExtend 16) then { s with mods := s.mods &&& ~~~(1#8 <<< (code.toNat % 8)) }
  else s

/-- `register_code16` -/
def registerCode16 (s : State) (code : Keycode) : State :=
  if isModifierKeycode code || code == kcNo then
    { s with mods := s.mods ||| extractModBits code }.registerCode (code.truncate 8)
  else { s with weakMods := s.weakMods ||| extractModBits code }.registerCode (code.truncate 8)

/-- `unregister_code16` -/
def unregisterCode16 (s : State) (code : Keycode) : State :=
  let s := s.unregisterCode (code.truncate 8)
  if isModifierKeycode code || code == kcNo then { s with mods := s.mods &&& ~~~extractModBits code }
  else { s with weakMods := s.weakMods &&& ~~~extractModBits code }

/-- The keycode given to the host for a key that may be a tap-hold key -/
def hostCode (keycode : Keycode) : Keycode := if isRetro keycode then keycode &&& 0xFF else keycode

/-- `autoshift_press_user` -/
def autoshiftPressUser (s : State) (keycode : Keycode) (shifted : Bool) : State :=
  if shifted then { s with weakMods := s.weakMods ||| modLsft }.registerCode16 (hostCode keycode)
  else s.registerCode16 (hostCode keycode)

/-- `autoshift_release_user` -/
def autoshiftReleaseUser (s : State) (keycode : Keycode) (_shifted : Bool) : State := s.unregisterCode16 (hostCode keycode)

/-- `set_autoshift_shift_state` -/
def setAutoshiftShiftState (s : State) (keycode : Keycode) (shifted : Bool) : State :=
  { s with shiftStates := Function.update s.shiftStates (keycode.truncate 8) shifted }

/-- `get_autoshift_shift_state` -/
def getAutoshiftShiftState (s : State) (keycode : Keycode) : Bool := s.shiftStates (keycode.truncate 8)

/-- The part of `autoshift_flush_shift` that gives one shift back -/
def restoreLshift (s : State) : State :=
  if s.cancellingLshift then { s with cancellingLshift := false, mods := s.mods ||| modLsft } else s

def restoreRshift (s : State) : State :=
  if s.cancellingRshift then { s with cancellingRshift := false, mods := s.mods ||| modRsft } else s

/-- `autoshift_flush_shift` -/
def autoshiftFlushShift (s : State) : State :=
  { s with holdingShift := false, weakMods := s.weakMods &&& ~~~modLsft }.restoreLshift.restoreRshift

/-- The shift that the user holds is taken away. -/
def cancelLshift (s : State) : State :=
  if s.mods &&& modLsft ≠ 0 then { s with cancellingLshift := true, mods := s.mods &&& ~~~modLsft } else s

def cancelRshift (s : State) : State :=
  if s.mods &&& modRsft ≠ 0 then { s with cancellingRshift := true, mods := s.mods &&& ~~~modRsft } else s

/-- `autoshift_press`; a key is left alone when another modifier than the left shift is held. -/
def autoshiftPress (s : State) (keycode : Keycode) (now : BitVec 16) : Bool × State :=
  if (s.mods ||| s.oneshotMods) &&& ~~~modLsft ≠ 0 then
    let s := { s with lastkey := kcNo }.setAutoshiftShiftState keycode false
    let s := s.autoshiftPressUser keycode false
    (false, { s with oneshotMods := s.oneshotMods &&& ~~~modLsft })
  else
    (false,
      { s with
        lastshifted := (s.mods ||| s.oneshotMods) &&& modLsft ≠ 0
        oneshotMods := s.oneshotMods &&& ~~~modLsft
        lastkey := keycode
        time := now
        inProgress := true })

/-- The pending key is tapped, the first part of `autoshift_end`. -/
def autoshiftEvaluate (s : State) (now : BitVec 16) : State :=
  let s := { s with inProgress := false, lastshifted := s.lastshifted || s.timeout ≤ now - s.time }
  let s := (s.setAutoshiftShiftState s.lastkey s.lastshifted).cancelLshift.cancelRshift
  ((s.autoshiftPressUser s.lastkey s.lastshifted).autoshiftReleaseUser s.lastkey s.lastshifted).autoshiftFlushShift

/-- `autoshift_end` -/
def autoshiftEnd (s : State) (keycode : Keycode) (now : BitVec 16) : State :=
  if s.inProgress && (keycode == s.lastkey || keycode == kcNo) then { s.autoshiftEvaluate now with time := now }
  else
    let s := s.autoshiftReleaseUser keycode (s.getAutoshiftShiftState keycode)
    { (if keycode = s.lastkey then s.autoshiftFlushShift else s) with time := now }

/-- `autoshift_matrix_scan` -/
def autoshiftMatrixScan (s : State) (now : BitVec 16) : State :=
  if s.inProgress && s.timeout ≤ now - s.time then s.autoshiftEnd s.lastkey now else s

/-- `process_auto_shift`, for keys that are none of those that set it up; the result tells whether the record is processed
further. -/
def processAutoShift (s : State) (keycode : Keycode) (pressed : Bool) (now : BitVec 16) : Bool × State :=
  if pressed then
    let s := if s.inProgress then s.autoshiftEnd kcNo now else s
    if isRetro keycode then (true, { s with lastkey := kcNo })
    else if !s.enabled then (true, s)
    else if getAutoShiftedKey keycode then s.autoshiftPress keycode now
    else (true, { s with lastkey := kcNo })
  else
    let s :=
      if keycode = kcLeftShift then { s with cancellingLshift := false }
      else if keycode = kcRightShift then { s with cancellingRshift := false }
      else s
    if isRetro keycode then (true, if s.inProgress then s.autoshiftEnd kcNo now else s)
    else if !s.enabled then (true, s)
    else if getAutoShiftedKey keycode then (false, s.autoshiftEnd keycode now)
    else (true, s)

/-- `process_action` of a basic or a modifier keycode -/
def processAction (s : State) (keycode : Keycode) (pressed : Bool) : State :=
  if pressed then s.registerCode (keycode.truncate 8) else s.unregisterCode (keycode.truncate 8)

/-- `process_record`, as far as it concerns these keys -/
def processRecord (s : State) (keycode : Keycode) (pressed : Bool) (now : BitVec 16) : State :=
  match s.processAutoShift keycode pressed now with
  | (true, s) => s.processAction keycode pressed
  | (false, s) => s

/-- `clear_weak_mods` -/
def clearWeakMods (s : State) : State := { s with weakMods := 0 }

/-- `action_exec`, which first clears the weak modifiers at a press; none of these keys waits for the tapping. -/
def actionExec (s : State) (keycode : Keycode) (pressed : Bool) (now : BitVec 16) : State :=
  (if pressed then s.clearWeakMods else s).processRecord keycode pressed now

end State

end QmkFirmware.AutoShift
