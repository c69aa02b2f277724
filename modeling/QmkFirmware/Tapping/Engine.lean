import Mathlib

/-!
# The tapping engine

`action_tapping.c`, without `COMBO_ENABLE`: a tap-hold key that is pressed becomes
`tapping_key`, and the events that follow wait in `waiting_buffer` until it is
known to be tapped or held. What the engine takes from elsewhere, the settings
of the keys, the action lookup and `process_record`, is an `Env` over the state
`σ` of the keyboard.
-/

namespace QmkFirmware.Tapping

/-! ## Events and records -/

/-- `keypos_t` -/
structure KeyPos where
  col : UInt8
  row : UInt8
  deriving DecidableEq, Repr

/-- `keyevent_t` -/
structure KeyEvent where
  key : KeyPos
  pressed : Bool
  time : UInt16
  deriving DecidableEq, Repr

/-- The position `KEYLOC_TICK`, `KEYLOC_TICK` of tick events. -/
def tickPos : KeyPos := ⟨255, 255⟩

/-- `IS_NOEVENT` -/
def KeyEvent.isNoEvent (event : KeyEvent) : Bool := event.time == 0 || event.key == tickPos

/-- `IS_EVENT` -/
def KeyEvent.isEvent (event : KeyEvent) : Bool := !event.isNoEvent

/-- `IS_RELEASED` -/
def KeyEvent.isReleased (event : KeyEvent) : Bool := event.isEvent && !event.pressed

/-- `tap_t`; `count` has four bits. -/
structure Tap where
  interrupted : Bool
  count : Nat
  deriving DecidableEq, Repr

/-- `keyrecord_t` -/
structure Record where
  event : KeyEvent
  tap : Tap
  deriving DecidableEq, Repr

/-- `(keyrecord_t){}` -/
def Record.empty : Record := ⟨⟨⟨0, 0⟩, false, 0⟩, ⟨false, 0⟩⟩

/-- The record of an event that comes in. -/
def KeyEvent.record (event : KeyEvent) : Record := ⟨event, ⟨false, 0⟩⟩

/-- `TIMER_DIFF_16` -/
def timerDiff16 (a b : UInt16) : Nat := (a - b).toNat

/-- `WAITING_BUFFER_SIZE` -/
def waitingBufferSize : Nat := 8

/-! ## Actions -/

/-- `action_t` -/
abbrev Action := UInt16

namespace Action

/-- `action.kind.id` -/
def kindId (action : Action) : Nat := action.toNat / 2 ^ 12

/-- `action.key.mods` -/
def keyMods (action : Action) : Nat := action.toNat / 2 ^ 8 % 2 ^ 4

/-- `action.key.code`, which is also `action.layer_tap.code` and `action.swap.code` -/
def keyCode (action : Action) : Nat := action.toNat % 2 ^ 8

/-- `action.layer_tap.val` -/
def layerTapVal (action : Action) : Nat := action.toNat / 2 ^ 8 % 2 ^ 5

end Action

/-- `ACT_LMODS` -/
def actLmods : Nat := 0b0000
/-- `ACT_RMODS` -/
def actRmods : Nat := 0b0001
/-- `ACT_LMODS_TAP` -/
def actLmodsTap : Nat := 0b0010
/-- `ACT_RMODS_TAP` -/
def actRmodsTap : Nat := 0b0011
/-- `ACT_SWAP_HANDS` -/
def actSwapHands : Nat := 0b0110
/-- `ACT_LAYER_TAP` -/
def actLayerTap : Nat := 0b1010
/-- `ACT_LAYER_TAP_EXT` -/
def actLayerTapExt : Nat := 0b1011

/-- `OP_TAP_TOGGLE` -/
def opTapToggle : Nat := 0xF0
/-- `OP_ON_OFF` -/
def opOnOff : Nat := 0xF1
/-- `OP_OFF_ON` -/
def opOffOn : Nat := 0xF2
/-- `OP_SET_CLEAR` -/
def opSetClear : Nat := 0xF3
/-- `OP_ONESHOT` -/
def opOneshot : Nat := 0xF4
/-- `OP_SH_TAP_TOGGLE` -/
def opShTapToggle : Nat := 0xF1

/-- `KC_LEFT_CTRL` -/
def kcLeftCtrl : Nat := 0xE0
/-- `KC_RIGHT_GUI` -/
def kcRightGui : Nat := 0xE7

/-- `IS_MODIFIER_KEYCODE` -/
def isModifierKeycode (code : Nat) : Bool := kcLeftCtrl ≤ code && code ≤ kcRightGui

/-- `is_tap_action` -/
def isTapAction (action : Action) : Bool :=
  if action.kindId = actLmodsTap ∨ action.kindId = actRmodsTap ∨ action.kindId = actLayerTap ∨
      action.kindId = actLayerTapExt then
    action.keyCode ≤ kcRightGui || action.keyCode == opTapToggle || action.keyCode == opOneshot
  else if action.kindId = actSwapHands then
    action.keyCode ≤ kcRightGui || action.keyCode == opShTapToggle
  else false

/-- The switch of `process_tapping`: a modifier or layer is retained till the end
of the tapping. -/
def retainsRelease (action : Action) (tapCount : Nat) : Bool :=
  if action.kindId = actLmods ∨ action.kindId = actRmods then
    (action.keyMods != 0 && action.keyCode == 0) || isModifierKeycode action.keyCode
  else if action.kindId = actLmodsTap ∨ action.kindId = actRmodsTap then
    (action.keyMods != 0 && tapCount == 0) || isModifierKeycode action.keyCode
  else if action.kindId = actLayerTap ∨ action.kindId = actLayerTapExt then
    action.keyCode < opTapToggle || action.keyCode == opOnOff || action.keyCode == opOffOn ||
      action.keyCode == opSetClear
  else false

/-! ## The engine and what is around it -/

/-- What the engine takes from elsewhere. The settings are those of the tapping
key (`GET_TAPPING_TERM`, `TAP_GET_PERMISSIVE_HOLD` and so on); `retroTapping` is
false and `retroShiftSwapTimes` does nothing without `RETRO_SHIFT`. The last three
tell whether `process_action` takes its branches that write to the record: for the
press of an interrupted tap, for a press that ends a one-shot layer, and for the
release of a swap-hands key that was tapped. -/
structure Env (σ : Type) where
  tappingTerm : σ → Record → Nat
  quickTapTerm : σ → Record → Nat
  permissiveHold : σ → Record → Bool
  holdOnOtherKeyPress : σ → Record → Bool
  retroTapping : σ → Record → Bool
  retroShift : Nat
  tapIsLt : σ → Record → Bool
  tapIsMt : σ → Record → Bool
  tapIsRetro : σ → Record → Bool
  retroShiftSwapTimes : σ → σ
  layerSwitchGetAction : σ → KeyPos → Action
  processRecordTapHint : σ → Record → σ
  processRecord : σ → Record → σ
  clearKeyboard : σ → σ
  cancelsTap : σ → Record → Bool
  releasesOneshot : σ → Record → Bool
  resetsTap : σ → Record → Bool

/-- A record handed to `process_record`, and whether it is a release that
`process_tapping` made up. -/
structure Handed where
  record : Record
  synthesised : Bool
  deriving DecidableEq, Repr

/-- The static variables, with the ring buffer as a list, the rest of the
keyboard, and the records handed to `process_record` so far. -/
structure Engine (σ : Type) where
  tappingKey : Record
  waitingBuffer : List Record
  keyboard : σ
  handed : List Handed

namespace Engine

variable {σ : Type}

def start (keyboard : σ) : Engine σ := ⟨.empty, [], keyboard, []⟩

/-- `IS_TAPPING_PRESSED` -/
def isTappingPressed (s : Engine σ) : Bool := s.tappingKey.event.isEvent && s.tappingKey.event.pressed

/-- `IS_TAPPING_RELEASED` -/
def isTappingReleased (s : Engine σ) : Bool := s.tappingKey.event.isEvent && !s.tappingKey.event.pressed

/-- `IS_TAPPING_KEY`, and `IS_TAPPING_RECORD` of a record of the key -/
def isTappingKey (s : Engine σ) (key : KeyPos) : Bool :=
  s.tappingKey.event.isEvent && s.tappingKey.event.key == key

/-- `waiting_buffer_typed` -/
def waitingBufferTyped (s : Engine σ) (event : KeyEvent) : Bool :=
  s.waitingBuffer.any fun r => r.event.key == event.key && r.event.pressed != event.pressed

/-- `waiting_buffer_enq`; `none` is the overflow. -/
def waitingBufferEnq (s : Engine σ) (record : Record) : Option (Engine σ) :=
  if record.event.isNoEvent then some s
  else if s.waitingBuffer.length + 1 = waitingBufferSize then none
  else some { s with waitingBuffer := s.waitingBuffer ++ [record] }

end Engine

section Code

variable {σ : Type} (env : Env σ)

/-- `is_tap_record` -/
def isTapRecord (s : Engine σ) (record : Record) : Bool :=
  record.event.isEvent && isTapAction (env.layerSwitchGetAction s.keyboard record.event.key)

/-- `WITHIN_TAPPING_TERM` -/
def withinTappingTerm (s : Engine σ) (event : KeyEvent) : Bool :=
  timerDiff16 event.time s.tappingKey.event.time < env.tappingTerm s.keyboard s.tappingKey

/-- `WITHIN_QUICK_TAP_TERM` -/
def withinQuickTapTerm (s : Engine σ) (event : KeyEvent) : Bool :=
  timerDiff16 event.time s.tappingKey.event.time < env.quickTapTerm s.keyboard s.tappingKey

/-- `MAYBE_RETRO_SHIFTING` -/
def maybeRetroShifting (s : Engine σ) (event : KeyEvent) : Bool :=
  env.retroTapping s.keyboard s.tappingKey && env.retroShift != 0 &&
    timerDiff16 event.time s.tappingKey.event.time < env.retroShift

/-- `process_action` cancels the tap. -/
def cancels (keyboard : σ) (record : Record) : Bool :=
  record.event.pressed && record.tap.count != 0 && record.tap.interrupted && env.cancelsTap keyboard record

/-- `process_action` makes a release of the press, and processes it before it leaves the one-shot layer. -/
def releases (keyboard : σ) (record : Record) : Bool :=
  record.event.pressed && env.releasesOneshot keyboard record

/-- `process_action` clears the record of a release, also of one it has made. -/
def resets (keyboard : σ) (record : Record) : Bool :=
  (!record.event.pressed || releases env keyboard record) && record.tap.count != 0 &&
    !cancels env keyboard record && env.resetsTap keyboard record

/-- The writes of `process_action` to the record it is given. -/
def written (keyboard : σ) (record : Record) : Record :=
  if record.event.isNoEvent then record
  -- hack: reset tap mode
  else if resets env keyboard record then .empty
  else
    { event := { record.event with pressed := record.event.pressed && !releases env keyboard record }
      -- ad hoc: set 0 to cancel tap
      tap := { record.tap with count := if cancels env keyboard record then 0 else record.tap.count } }

/-- `process_record`: the record as it is left, and the state. -/
def process (s : Engine σ) (record : Record) (synthesised : Bool) : Record × Engine σ :=
  (written env s.keyboard record,
    { s with
      handed := s.handed ++ [⟨record, synthesised⟩]
      keyboard := if record.event.isNoEvent then s.keyboard else env.processRecord s.keyboard record })

/-- `process_record(&tapping_key)` -/
def processTappingKey (s : Engine σ) : Engine σ :=
  match process env s s.tappingKey false with
  | (tappingKey, s) => { s with tappingKey }

/-- `process_record(&tapping_key); tapping_key = (keyrecord_t){};` -/
def endTapping (s : Engine σ) : Engine σ := { processTappingKey env s with tappingKey := .empty }

/-- Sets the tap count of the first record with `p` to 1. -/
def markFirst (p : Record → Bool) : List Record → Option (List Record)
  | [] => none
  | r :: l =>
    if p r then some ({ r with tap := { r.tap with count := 1 } } :: l) else (markFirst p l).map (r :: ·)

/-- `waiting_buffer_scan_tap` -/
def waitingBufferScanTap (s : Engine σ) : Engine σ :=
  if 0 < s.tappingKey.tap.count ∨ s.tappingKey.event.pressed = false then s
  else
    match markFirst (fun r => s.isTappingKey r.event.key && !r.event.pressed &&
        withinTappingTerm env s r.event) s.waitingBuffer with
    | some waitingBuffer =>
      processTappingKey env
        { s with
          waitingBuffer
          tappingKey := { s.tappingKey with tap := { s.tappingKey.tap with count := 1 } } }
    | none => s

/-- The condition under which another key ends the tapping as a hold. -/
def interfered (s : Engine σ) (event : KeyEvent) : Bool :=
  (event.isReleased && s.waitingBufferTyped event && env.permissiveHold s.keyboard s.tappingKey) ||
    (env.retroTapping s.keyboard s.tappingKey &&
      ((s.tappingKey.tap.interrupted &&
          ((env.tapIsLt s.keyboard s.tappingKey && env.holdOnOtherKeyPress s.keyboard s.tappingKey) ||
            (env.tapIsMt s.keyboard s.tappingKey && env.holdOnOtherKeyPress s.keyboard s.tappingKey))) ||
        (env.tapIsRetro s.keyboard s.tappingKey && event.key != s.tappingKey.event.key &&
          event.isReleased && s.waitingBufferTyped event)))

/-! The parts of `process_tapping`. Each gives `none` when the record is processed
or consumed, otherwise the record as it is left, to be enqueued. -/

/-- The tapping key is pressed, its term is running and `tap.count` is 0. -/
def processUndecided (s : Engine σ) (keyp : Record) : Option Record × Engine σ :=
  let event := keyp.event
  if s.isTappingKey event.key && !event.pressed then
    -- first tap!
    let s := processTappingKey env
      { s with
        keyboard := env.retroShiftSwapTimes s.keyboard
        tappingKey := { s.tappingKey with tap := { s.tappingKey.tap with count := 1 } } }
    (some { keyp with tap := s.tappingKey.tap }, s)
  else if interfered env s event then (some keyp, endTapping env s)
  else if event.isReleased && !s.waitingBufferTyped event then
    -- the release of a key pressed before the tapping starts
    if retainsRelease (env.layerSwitchGetAction s.keyboard event.key) keyp.tap.count then (some keyp, s)
    else (none, (process env s keyp false).2)
  else if event.pressed then
    let s := { s with
      tappingKey := { s.tappingKey with tap := { s.tappingKey.tap with interrupted := true } } }
    if env.holdOnOtherKeyPress s.keyboard s.tappingKey then (some keyp, endTapping env s) else (some keyp, s)
  else (some keyp, s)

/-- The tapping key is pressed and `tap.count` is not 0; `expired` tells whether its
term is over. -/
def processTapped (expired : Bool) (s : Engine σ) (keyp : Record) : Option Record × Engine σ :=
  if s.isTappingKey keyp.event.key && !keyp.event.pressed then
    match process env s { keyp with tap := s.tappingKey.tap } false with
    | (keyp, s) => (none, { s with tappingKey := if expired then .empty else keyp })
  else if isTapRecord env s keyp && keyp.event.pressed then
    let s :=
      if 1 < s.tappingKey.tap.count then
        -- unregister key
        (process env s ⟨⟨s.tappingKey.event.key, false, keyp.event.time⟩, s.tappingKey.tap⟩ true).2
      else s
    (none, waitingBufferScanTap env { s with tappingKey := keyp })
  else (none, (process env s keyp false).2)

/-- The tapping key is released. -/
def processReleased (s : Engine σ) (keyp : Record) : Option Record × Engine σ :=
  if withinTappingTerm env s keyp.event || maybeRetroShifting env s keyp.event then
    if keyp.event.pressed then
      if s.isTappingKey keyp.event.key then
        if withinQuickTapTerm env s keyp.event && !s.tappingKey.tap.interrupted &&
            0 < s.tappingKey.tap.count then
          -- sequential tap
          let count := s.tappingKey.tap.count
          let tap := { s.tappingKey.tap with count := if count < 15 then count + 1 else count }
          match process env s { keyp with tap } false with
          | (keyp, s) => (none, { s with tappingKey := keyp })
        else (none, { s with tappingKey := keyp })
      else if isTapRecord env s keyp then (none, waitingBufferScanTap env { s with tappingKey := keyp })
      else
        let s := { s with
          tappingKey := { s.tappingKey with tap := { s.tappingKey.tap with interrupted := true } } }
        (none, (process env s keyp false).2)
    else (none, (process env s keyp false).2)
  else (some keyp, { s with tappingKey := .empty })

/-- There is no tapping key. -/
def processIdle (s : Engine σ) (keyp : Record) : Option Record × Engine σ :=
  if keyp.event.pressed && isTapRecord env s keyp then
    (none, waitingBufferScanTap env
      { s with tappingKey := keyp, keyboard := env.processRecordTapHint s.keyboard keyp })
  else (none, (process env s keyp false).2)

/-- `process_tapping` -/
def processTapping (s : Engine σ) (keyp : Record) : Option Record × Engine σ :=
  if s.isTappingPressed then
    if withinTappingTerm env s keyp.event || maybeRetroShifting env s keyp.event then
      if s.tappingKey.tap.count = 0 then processUndecided env s keyp else processTapped env false s keyp
    else if s.tappingKey.tap.count = 0 then (some keyp, endTapping env s)
    else processTapped env true s keyp
  else if s.isTappingReleased then processReleased env s keyp
  else processIdle env s keyp

/-- The loop of `action_tapping_process` over the waiting buffer. -/
def processWaitingBuffer : Nat → Engine σ → Engine σ
  | 0, s => s
  | fuel + 1, s =>
    match s.waitingBuffer with
    | [] => s
    | record :: _ =>
      match processTapping env s record with
      | (none, s) => processWaitingBuffer fuel { s with waitingBuffer := s.waitingBuffer.tail }
      | (some record, s) => { s with waitingBuffer := record :: s.waitingBuffer.tail }

/-- Clears all in case of overflow. -/
def clearAll (s : Engine σ) : Engine σ :=
  { s with keyboard := env.clearKeyboard s.keyboard, waitingBuffer := [], tappingKey := .empty }

/-- The first part of `action_tapping_process`. -/
def processOrEnqueue (s : Engine σ) (record : Record) : Engine σ :=
  match processTapping env s record with
  | (none, s) => s
  | (some record, s) => (s.waitingBufferEnq record).getD (clearAll env s)

/-- `action_tapping_process` -/
def actionTappingProcess (s : Engine σ) (record : Record) : Engine σ :=
  let s := processOrEnqueue env s record
  processWaitingBuffer env s.waitingBuffer.length s

/-- The events given to `action_tapping_process`, one after the other. -/
def run (s : Engine σ) (events : List KeyEvent) : Engine σ :=
  events.foldl (fun s event => actionTappingProcess env s event.record) s

end Code

end QmkFirmware.Tapping
