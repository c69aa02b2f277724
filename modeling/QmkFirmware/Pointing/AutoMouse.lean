import Mathlib

/-!
# Auto mouse

`pointing_device_auto_mouse.c`: the target layer is switched on while the pointing device is used,
and kept on while keys are held that count for it. `mouse_key_tracker` is their number, an `int8_t`.
-/

namespace QmkFirmware.Pointing

/-- The build: `NO_ACTION_ONESHOT` and `NO_ACTION_TAPPING` are not defined, `TAPPING_TOGGLE`, and the times. -/
structure Build where
  oneshot : Bool
  tapping : Bool
  tappingToggle : Nat
  autoMouseTime : Nat
  autoMouseDelay : Nat
  autoMouseDebounce : Nat

/-- `keyrecord_t`; `isEvent` is false for the events of `IS_NOEVENT`. -/
structure Record where
  keycode : Nat
  tapCount : Nat
  pressed : Bool
  isEvent : Bool

/-- `is_mouse_record_kb`, which adds to the mouse keys -/
abbrev Hook := Record → Bool

/-- `auto_mouse_context`, the layers that are on, the one-shot layer and the time -/
structure State where
  isEnabled : Bool
  layer : Nat
  timerActive : Nat
  timerDelay : Nat
  isActivated : Bool
  isToggled : Bool
  mouseKeyTracker : Int
  layers : Nat → Bool
  oneshotLayer : Nat
  now : Nat

namespace State

/-- `timer_read` -/
def timerRead (s : State) : Nat := s.now % 65536

/-- `timer_elapsed` -/
def timerElapsed (s : State) (last : Nat) : Nat := (s.timerRead + 65536 - last) % 65536

/-- `layer_hold_check` -/
def layerHoldCheck (b : Build) (s : State) : Bool := s.isToggled || (b.oneshot && s.oneshotLayer == s.layer)

/-- `is_auto_mouse_active` -/
def isAutoMouseActive (b : Build) (s : State) : Bool :=
  s.isActivated || s.mouseKeyTracker != 0 || s.layerHoldCheck b

/-- `auto_mouse_reset` -/
def reset (s : State) : State :=
  { s with isActivated := false, isToggled := false, mouseKeyTracker := 0, timerActive := 0, timerDelay := 0 }

/-- `set_auto_mouse_enable` -/
def setAutoMouseEnable (enable : Bool) (s : State) : State :=
  if s.isEnabled = enable then s else { s with isEnabled := enable }.reset

/-- `set_auto_mouse_layer` -/
def setAutoMouseLayer (layer : Nat) (s : State) : State :=
  if s.layer = layer then s else { s with layer := layer }.reset

/-- `auto_mouse_toggle` -/
def toggle (s : State) : State := { s with isToggled := !s.isToggled, timerDelay := 0 }

/-- `layer_on` -/
def layerOn (layer : Nat) (s : State) : State := { s with layers := Function.update s.layers layer true }

/-- `layer_off` -/
def layerOff (layer : Nat) (s : State) : State := { s with layers := Function.update s.layers layer false }

/-- `auto_mouse_layer_off` -/
def autoMouseLayerOff (b : Build) (s : State) : State :=
  if s.layers s.layer ∧ s.isEnabled ∧ ¬ s.layerHoldCheck b then s.layerOff s.layer else s

/-- `pointing_device_task_auto_mouse`, given what `auto_mouse_activation` says of the report -/
def task (b : Build) (activation : Bool) (s : State) : State :=
  if ¬ s.isEnabled ∨ s.timerElapsed s.timerActive ≤ b.autoMouseDebounce ∨ s.timerElapsed s.timerDelay ≤ b.autoMouseDelay then
    s
  else
    let s := { s with isActivated := activation }
    if s.isAutoMouseActive b then
      let s := { s with timerActive := s.timerRead, timerDelay := 0 }
      if ¬ s.layers s.layer then s.layerOn s.layer else s
    else if s.layers s.layer ∧ b.autoMouseTime < s.timerElapsed s.timerActive then
      { s.layerOff s.layer with timerActive := 0 }
    else s

/-- `auto_mouse_keyevent` -/
def keyevent (pressed : Bool) (s : State) : State :=
  { s with
    mouseKeyTracker := if pressed then (s.mouseKeyTracker + 1).bmod 256 else (s.mouseKeyTracker - 1).bmod 256
    timerDelay := 0 }

/-- `auto_mouse_reset_trigger` -/
def resetTrigger (pressed : Bool) (s : State) : State :=
  let s := if pressed then (if s.layers s.layer then s.layerOff s.layer else s).reset else s
  { s with timerDelay := s.timerRead }

end State

/-- The branch of the `switch` in `process_auto_mouse` that a record takes, the comparison with the
target layer included -/
inductive Branch where
  | skip
  | toggle
  | hold
  | tapToggle
  | other
  deriving DecidableEq

def branch (b : Build) (layer : Nat) (r : Record) : Branch :=
  let within low high := low ≤ r.keycode ∧ r.keycode ≤ high
  let target := r.keycode &&& 0x1F = layer
  if within 0xE0 0xE7 ∨ within 0x0100 0x1FFF then .skip -- modifiers, QK_MODS
  else if within 0x5200 0x521F then if target then .toggle else .skip -- QK_TO
  else if within 0x5260 0x527F then if target then .toggle else .skip -- QK_TOGGLE_LAYER
  else if within 0x5220 0x523F then if target then .hold else .skip -- QK_MOMENTARY
  else if within 0x5240 0x525F then .skip -- QK_DEF_LAYER
  else if b.oneshot ∧ within 0x5280 0x52BF then .skip -- QK_ONE_SHOT_LAYER, QK_ONE_SHOT_MOD
  else if within 0x5000 0x51FF then if (r.keycode >>> 5) &&& 0xF = layer then .hold else .skip -- QK_LAYER_MOD
  else if b.tapping ∧ within 0x52C0 0x52DF then if target then .tapToggle else .skip -- QK_LAYER_TAP_TOGGLE
  else if b.tapping ∧ within 0x4000 0x4FFF ∧ r.tapCount = 0 then
    if (r.keycode >>> 8) &&& 0xF = layer then .hold else .skip -- QK_LAYER_TAP
  else if b.tapping ∧ within 0x2000 0x3FFF ∧ r.tapCount = 0 then .skip -- QK_MOD_TAP
  else .other

/-- `is_mouse_record` -/
def isMouseRecord (kb : Hook) (r : Record) : Bool := kb r || decide (0xCD ≤ r.keycode ∧ r.keycode ≤ 0xDF)

/-- The tap of a tap-toggle key that reaches `TAPPING_TOGGLE` -/
def reachesToggle (b : Build) (r : Record) : Bool := b.tappingToggle ≠ 0 ∧ r.tapCount = b.tappingToggle

/-- A tap-toggle key for the target layer -/
def State.tapToggle (b : Build) (r : Record) (s : State) : State :=
  let s := s.keyevent r.pressed
  if reachesToggle b r then
    if r.pressed then { s with mouseKeyTracker := (s.mouseKeyTracker - 1).bmod 256 }
    else
      let s := s.toggle
      { s with mouseKeyTracker := (s.mouseKeyTracker + 1).bmod 256 }
  else s

/-- A tracker below zero is an error. -/
def State.clamp (s : State) : State := if s.mouseKeyTracker < 0 then { s with mouseKeyTracker := 0 } else s

/-- `process_auto_mouse` -/
def processAutoMouse (b : Build) (kb : Hook) (r : Record) (s : State) : State :=
  if ¬ s.isEnabled then s
  else
    match branch b s.layer r with
    | .skip => s.clamp
    | .toggle => (if ¬ r.pressed then s.toggle else s).clamp
    | .hold => (s.keyevent r.pressed).clamp
    | .tapToggle => (s.tapToggle b r).clamp
    | .other =>
      if ¬ r.isEvent then s.clamp
      else if isMouseRecord kb r then (s.keyevent r.pressed).clamp
      else if ¬ s.isAutoMouseActive b then (s.resetTrigger r.pressed).clamp
      else s.clamp

end QmkFirmware.Pointing
