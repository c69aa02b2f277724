import Mathlib

/-!
# Tap dance

`process_tap_dance.c`: the taps of a key are counted until the tapping term has passed or another
key is pressed. The dance is then finished, and reset once its key is up.
-/

namespace QmkFirmware.TapDance

/-- `tap_dance_state_t` -/
structure DanceState where
  interruptingKeycode : Nat
  count : Nat
  weakMods : BitVec 8
  oneshotMods : BitVec 8
  pressed : Bool
  finished : Bool
  interrupted : Bool

def DanceState.zero : DanceState := ⟨0, 0, 0, 0, false, false, false⟩

/-- What a function `on_each_tap` of the user does to its dance: it may set `finished`, as those of the other dances do, and then
call `reset_tap_dance`. -/
structure Effect where
  finishes : Bool
  resets : Bool

/-- What a `tap_dance_action_t` is for: `ACTION_TAP_DANCE_DOUBLE`, `ACTION_TAP_DANCE_LAYER_MOVE`,
`ACTION_TAP_DANCE_LAYER_TOGGLE`, or functions of the user. Of these it matters what `on_each_tap` does for which
state, and for which ones `on_dance_finished` calls `reset_tap_dance`; they are to leave the state alone otherwise, and
`on_reset` does not call itself. -/
inductive Dance where
  | pair (kc1 kc2 : Nat)
  | layerMove (kc layer : Nat)
  | layerToggle (kc layer : Nat)
  | user (onEachTap : DanceState → Effect) (resets : DanceState → Bool)

/-- The calls of the three functions of a dance, and what those of `process_tap_dance.c` call -/
inductive Call where
  | onEachTap (dance : Nat)
  | onDanceFinished (dance : Nat)
  | onReset (dance : Nat)
  | register (keycode : Nat)
  | unregister (keycode : Nat)
  | layerMove (layer : Nat)
  | layerInvert (layer : Nat)
  deriving DecidableEq

/-- The states of `tap_dance_actions`, the two variables, the modifiers, the time and the calls so far. Without
one-shot keys `oneshotMods` stays zero. -/
structure State where
  dances : Nat → DanceState
  activeTd : Nat
  lastTapTime : Nat
  mods : BitVec 8
  weakMods : BitVec 8
  oneshotMods : BitVec 8
  now : Nat
  calls : List Call

namespace State

def call (call : Call) (s : State) : State := { s with calls := s.calls ++ [call] }

def setDance (d : Nat) (change : DanceState → DanceState) (s : State) : State :=
  { s with dances := Function.update s.dances d (change (s.dances d)) }

end State

variable (dances : Nat → Dance)

/-- What the function `on_reset` of a dance calls -/
def resetCalls (count : Nat) : Dance → List Call
  | .pair kc1 kc2 => if count = 1 then [.unregister kc1] else if count = 2 then [.unregister kc2] else []
  | .layerMove kc _ | .layerToggle kc _ => if count = 1 then [.unregister kc] else []
  | .user _ _ => []

/-- `process_tap_dance_action_on_reset` -/
def actionOnReset (d : Nat) (s : State) : State :=
  let state := s.dances d
  { s with
    calls := s.calls ++ .onReset d :: resetCalls state.count (dances d)
    weakMods := s.weakMods &&& ~~~state.weakMods
    mods := s.mods &&& ~~~state.oneshotMods
    dances := Function.update s.dances d .zero }

/-- `reset_tap_dance` -/
def resetTapDance (d : Nat) (s : State) : State := actionOnReset dances d { s with activeTd := 0 }

/-- `process_tap_dance_action_on_each_tap` -/
def actionOnEachTap (d : Nat) (s : State) : State :=
  let s := s.setDance d fun state =>
    { state with count := (state.count + 1) % 256, weakMods := s.mods ||| s.weakMods, oneshotMods := s.oneshotMods }
  let s := s.call (.onEachTap d)
  let finish (s : State) := s.setDance d fun state => { state with finished := true }
  match dances d with
  | .pair _ kc2 => if (s.dances d).count = 2 then finish (s.call (.register kc2)) else s
  | .layerMove _ layer => if (s.dances d).count = 2 then finish (s.call (.layerMove layer)) else s
  | .layerToggle _ _ => s
  | .user onEachTap _ =>
    let effect := onEachTap (s.dances d)
    let s := if effect.finishes then finish s else s
    if effect.resets then resetTapDance dances d s else s

/-- What the function `on_dance_finished` of a dance calls -/
def finishedCalls (count : Nat) : Dance → List Call
  | .pair kc1 _ => [.register kc1]
  | .layerMove kc layer => if count = 1 then [.register kc] else if count = 2 then [.layerMove layer] else []
  | .layerToggle kc layer => if count = 1 then [.register kc] else if count = 2 then [.layerInvert layer] else []
  | .user _ _ => []

/-- Whether the function `on_dance_finished` of a dance calls `reset_tap_dance` -/
def Dance.resetsWhenFinished : Dance → DanceState → Bool
  | .user _ resets, state => resets state
  | _, _ => false

/-- `process_tap_dance_action_on_dance_finished` -/
def actionOnDanceFinished (d : Nat) (s : State) : State :=
  let state := s.dances d
  let s :=
    if ¬ state.finished then
      let s := { s with
        calls := s.calls ++ .onDanceFinished d :: finishedCalls state.count (dances d)
        weakMods := s.weakMods ||| state.weakMods
        mods := s.mods ||| state.oneshotMods
        dances := Function.update s.dances d { state with finished := true } }
      if (dances d).resetsWhenFinished (s.dances d) then resetTapDance dances d s else s
    else s
  let s : State := { s with activeTd := 0 }
  -- `pressed` is read behind the function, which may have reset the state
  if ¬ (s.dances d).pressed then actionOnReset dances d s else s

/-- `preprocess_tap_dance`: the state, and whether the keycode is to be looked up again. -/
def preprocessTapDance (keycode : Nat) (pressed : Bool) (s : State) : State × Bool :=
  if ¬ pressed then (s, false)
  else if s.activeTd = 0 ∨ keycode = s.activeTd then (s, false)
  else
    let d := s.activeTd &&& 0xFF
    let s := s.setDance d fun state => { state with interrupted := true, interruptingKeycode := keycode }
    let s := actionOnDanceFinished dances d s
    ({ s with weakMods := 0 }, true)

/-- `process_tap_dance`, from `QK_TAP_DANCE` to `QK_TAP_DANCE_MAX` -/
def processTapDance (keycode : Nat) (pressed : Bool) (s : State) : State :=
  if 0x5700 ≤ keycode ∧ keycode ≤ 0x57FF then
    let d := keycode &&& 0xFF
    let s := s.setDance d fun state => { state with pressed := pressed }
    if pressed then
      let s := { s with lastTapTime := s.now % 65536 }
      let s := actionOnEachTap dances d s
      { s with activeTd := if (s.dances d).finished then 0 else keycode }
    else if (s.dances d).finished then actionOnReset dances d s
    else s
  else s

/-- `tap_dance_task`; `tappingTerm` is `GET_TAPPING_TERM`. -/
def tapDanceTask (tappingTerm : Nat → Nat) (s : State) : State :=
  if s.activeTd = 0 ∨ (s.now + 65536 - s.lastTapTime) % 65536 ≤ tappingTerm s.activeTd then s
  else
    let d := s.activeTd &&& 0xFF
    if ¬ (s.dances d).interrupted then actionOnDanceFinished dances d s else s

end QmkFirmware.TapDance
