import QmkFirmware.Layer.Oneshot
import QmkFirmware.Tapping.Engine

/-!
# Actions and their records

`process_action` of `action.c` with everything it does to the record it is given, and to the
layers and the one-shot layer. What it calls besides gets no record and is a parameter, one
operation for each of the functions. Waits, `RETRO_TAPPING` and debug output are left out.
-/

namespace QmkFirmware.DynamicMacro
open Tapping (Record Action)
open Layer (Oneshot OneshotConfig LayerState)

/-- A function that `process_action` calls on the rest of the keyboard, with its arguments -/
inductive Call where
  | addMods (mods : BitVec 8) | addWeakMods (mods : BitVec 8) | delMods (mods : BitVec 8) | delWeakMods (mods : BitVec 8)
  | registerMods (mods : BitVec 8) | unregisterMods (mods : BitVec 8)
  | setOneshotMods (mods : BitVec 8) | clearOneshotMods | setOneshotLockedMods (mods : BitVec 8)
  | registerCode (code : Nat) | unregisterCode (code : Nat) | sendKeyboardReport | clearKeyboard
  | hostSystemSend (code : Nat) | hostConsumerSend (code : Nat) | registerMouse (code : Nat) (pressed : Bool)
  | defaultLayer (op bits : Nat) | ledSet
  | swapHands (on : Bool) | swapHeld (on : Bool) | setOneshotSwaphands | releaseOneshotSwaphands | useOneshotSwaphands
  deriving DecidableEq

/-- The layers and the one-shot layer, `keymap_config.oneshot_enable`, and the rest of the keyboard -/
structure Keyboard (maxLayer : Nat) (σ : Type) where
  oneshotEnable : Bool
  oneshot : Oneshot maxLayer
  rest : σ

/-- The build: `EXTRAKEY_ENABLE` and so on, and what is asked of the rest of the keyboard -/
structure Build (σ : Type) where
  extrakey : Bool
  swapHandsEnable : Bool
  ignoreModTapInterrupt : Bool
  holdOnOtherKeyPressPerKey : Bool
  oneshotTapToggle : Nat
  tappingToggle : Nat
  getHoldOnOtherKeyPress : σ → Record → Bool
  getMods : σ → BitVec 8
  getOneshotMods : σ → BitVec 8
  getOneshotLockedMods : σ → BitVec 8
  swapHands : σ → Bool
  swapHeld : σ → Bool
  call : Call → σ → σ

/-- `ACT_USAGE` -/
def actUsage : Nat := 0b0100
/-- `ACT_MOUSEKEY` -/
def actMousekey : Nat := 0b0101
/-- `ACT_LAYER` -/
def actLayer : Nat := 0b1000
/-- `ACT_LAYER_MODS` -/
def actLayerMods : Nat := 0b1001

/-- `OP_SH_TOGGLE` -/
def opShToggle : Nat := 0xF0
/-- `OP_SH_ON_OFF` -/
def opShOnOff : Nat := 0xF2
/-- `OP_SH_OFF_ON` -/
def opShOffOn : Nat := 0xF3
/-- `OP_SH_OFF` -/
def opShOff : Nat := 0xF4
/-- `OP_SH_ON` -/
def opShOn : Nat := 0xF5
/-- `OP_SH_ONESHOT` -/
def opShOneshot : Nat := 0xF6

variable {maxLayer : Nat} {σ : Type}

section Code

variable (b : Build σ)

namespace Keyboard

def call (c : Call) (k : Keyboard maxLayer σ) : Keyboard maxLayer σ := { k with rest := b.call c k.rest }

/-- An operation on the layers -/
def layers (f : LayerState maxLayer → LayerState maxLayer) (k : Keyboard maxLayer σ) : Keyboard maxLayer σ :=
  { k with oneshot := k.oneshot.own f }

/-- What the functions of the one-shot layer depend on -/
def config (k : Keyboard maxLayer σ) : OneshotConfig := ⟨maxLayer, k.oneshotEnable, b.oneshotTapToggle⟩

end Keyboard

/-- `mods` of a modifier action: those of the right hand are the upper four bits. -/
def actionMods (action : Action) : BitVec 8 :=
  if action.kindId = Tapping.actLmods ∨ action.kindId = Tapping.actLmodsTap then BitVec.ofNat 8 action.keyMods
  else BitVec.ofNat 8 (action.keyMods <<< 4)

/-- `ACT_LMODS` and `ACT_RMODS` -/
def modsAction (action : Action) (pressed : Bool) (k : Keyboard maxLayer σ) : Keyboard maxLayer σ :=
  let mods := actionMods action
  let strong := Tapping.isModifierKeycode action.keyCode || action.keyCode == 0
  if pressed then
    let k := if mods ≠ 0 then (k.call b (if strong then .addMods mods else .addWeakMods mods)).call b .sendKeyboardReport else k
    k.call b (.registerCode action.keyCode)
  else
    let k := k.call b (.unregisterCode action.keyCode)
    if mods ≠ 0 then (k.call b (if strong then .delMods mods else .delWeakMods mods)).call b .sendKeyboardReport else k

/-- `MODS_ONESHOT` -/
def modsOneshot (action : Action) (pressed : Bool) (tapCount : Nat) (k : Keyboard maxLayer σ) : Keyboard maxLayer σ :=
  let mods := actionMods action
  if k.oneshotEnable = false then modsAction b action pressed k
  else if pressed then
    if tapCount = 0 then k.call b (.registerMods (mods ||| b.getOneshotMods k.rest))
    else if tapCount = 1 then k.call b (.setOneshotMods (mods ||| b.getOneshotMods k.rest))
    else if 1 < b.oneshotTapToggle ∧ tapCount = b.oneshotTapToggle then
      let k := (k.call b (.registerMods mods)).call b .clearOneshotMods
      k.call b (.setOneshotLockedMods (mods ||| b.getOneshotLockedMods k.rest))
    else k.call b (.registerMods (mods ||| b.getOneshotMods k.rest))
  else
    if tapCount = 0 then (k.call b .clearOneshotMods).call b (.unregisterMods mods)
    else if tapCount = 1 then
      if 1 < b.oneshotTapToggle ∧ mods &&& b.getMods k.rest ≠ 0 then
        let k := (k.call b (.unregisterMods mods)).call b .clearOneshotMods
        k.call b (.setOneshotLockedMods (~~~mods &&& b.getOneshotLockedMods k.rest))
      else k
    else if 1 < b.oneshotTapToggle ∧ tapCount = b.oneshotTapToggle then k
    else (k.call b (.unregisterMods mods)).call b .clearOneshotMods

/-- The test that cancels a tap: it was interrupted, and the key does not ignore that. -/
def cancelsTap (r : Record) (k : Keyboard maxLayer σ) : Bool :=
  (!b.ignoreModTapInterrupt || b.holdOnOtherKeyPressPerKey) &&
    (!b.holdOnOtherKeyPressPerKey || b.getHoldOnOtherKeyPress k.rest r) && r.tap.interrupted

/-- `ACT_LMODS_TAP` and `ACT_RMODS_TAP` -/
def modsTapAction (r : Record) (action : Action) (k : Keyboard maxLayer σ) : Record × Keyboard maxLayer σ :=
  let mods := actionMods action
  if action.keyCode = 0x00 then (r, modsOneshot b action r.event.pressed r.tap.count k)
  else if action.keyCode = 0x01 then
    if r.event.pressed then (r, if r.tap.count ≤ b.tappingToggle then k.call b (.registerMods mods) else k)
    else (r, if r.tap.count < b.tappingToggle then k.call b (.unregisterMods mods) else k)
  else if r.event.pressed then
    if 0 < r.tap.count then
      -- ad hoc: set 0 to cancel tap
      if cancelsTap b r k then ({ r with tap := { r.tap with count := 0 } }, k.call b (.registerMods mods))
      else (r, k.call b (.registerCode action.keyCode))
    else (r, k.call b (.registerMods mods))
  else if 0 < r.tap.count then (r, k.call b (.unregisterCode action.keyCode))
  else (r, k.call b (.unregisterMods mods))

/-- `ACT_USAGE`, with `PAGE_SYSTEM` and `PAGE_CONSUMER` -/
def usageAction (action : Action) (pressed : Bool) (k : Keyboard maxLayer σ) : Keyboard maxLayer σ :=
  let code := if pressed then action.toNat % 2 ^ 10 else 0
  if b.extrakey = false then k
  else if action.toNat / 2 ^ 10 % 2 ^ 2 = 0 then k.call b (.hostSystemSend code)
  else if action.toNat / 2 ^ 10 % 2 ^ 2 = 1 then k.call b (.hostConsumerSend code)
  else k

/-- `layer_and`, `layer_or`, `layer_xor` and `layer_state_set` -/
def layerBitop (op : Nat) (bits : LayerState maxLayer) (layers : LayerState maxLayer) : LayerState maxLayer :=
  if op = 0 then layers &&& bits
  else if op = 1 then layers ||| bits
  else if op = 2 then layers ^^^ bits
  else bits

/-- `ACT_LAYER` -/
def layerAction (action : Action) (pressed : Bool) (k : Keyboard maxLayer σ) : Keyboard maxLayer σ :=
  let on := action.toNat / 2 ^ 8 % 2 ^ 2
  let op := action.toNat / 2 ^ 10 % 2 ^ 2
  let shift := action.toNat / 2 ^ 5 % 2 ^ 3 * 4
  let bits := BitVec.ofNat maxLayer (action.toNat % 2 ^ 4) <<< shift
  let mask := if action.toNat / 2 ^ 4 % 2 = 1 then ~~~(BitVec.ofNat maxLayer 0xF <<< shift) else 0
  if on = 0 then
    if pressed then k else k.call b (.defaultLayer op (bits ||| mask).toNat)
  else if (if pressed then on % 2 = 1 else on / 2 = 1) then k.layers (layerBitop op (bits ||| mask))
  else k

/-- `ACT_LAYER_MODS` -/
def layerModsAction (action : Action) (pressed : Bool) (k : Keyboard maxLayer σ) : Keyboard maxLayer σ :=
  let layer := action.toNat / 2 ^ 8 % 2 ^ 4
  let mods := BitVec.ofNat 8 action.keyCode
  if pressed then (k.layers (Layer.layerOn · layer)).call b (.registerMods mods)
  else (k.call b (.unregisterMods mods)).layers (Layer.layerOff · layer)

/-- `ACT_LAYER_TAP` and `ACT_LAYER_TAP_EXT` -/
def layerTapAction (action : Action) (pressed : Bool) (tapCount : Nat) (k : Keyboard maxLayer σ) : Keyboard maxLayer σ :=
  let layer := action.layerTapVal
  if action.keyCode = Tapping.opTapToggle then
    if (if pressed then tapCount < b.tappingToggle else tapCount ≤ b.tappingToggle) then
      k.layers (· ^^^ (BitVec.ofNat maxLayer 1 <<< layer))
    else k
  else if action.keyCode = Tapping.opOnOff then
    k.layers fun layers => if pressed then Layer.layerOn layers layer else Layer.layerOff layers layer
  else if action.keyCode = Tapping.opOffOn then
    k.layers fun layers => if pressed then Layer.layerOff layers layer else Layer.layerOn layers layer
  else if action.keyCode = Tapping.opSetClear then
    k.layers fun _ => if pressed then BitVec.ofNat maxLayer 1 <<< layer else 0
  else if action.keyCode = Tapping.opOneshot then
    { k with oneshot := Layer.oneshotAction (k.config b) k.oneshot layer pressed tapCount }
  else if pressed then
    if 0 < tapCount then k.call b (.registerCode action.keyCode) else k.layers (Layer.layerOn · layer)
  else if 0 < tapCount then k.call b (.unregisterCode action.keyCode)
  else k.layers (Layer.layerOff · layer)

/-- `ACT_SWAP_HANDS` -/
def swapHandsAction (r : Record) (action : Action) (k : Keyboard maxLayer σ) : Record × Keyboard maxLayer σ :=
  let toggle (k : Keyboard maxLayer σ) := k.call b (.swapHands !(b.swapHands k.rest))
  if b.swapHandsEnable = false then (r, k)
  else if action.keyCode = opShToggle then (r, if r.event.pressed then toggle k else k)
  else if action.keyCode = opShOnOff then (r, k.call b (.swapHands r.event.pressed))
  else if action.keyCode = opShOffOn then (r, k.call b (.swapHands !r.event.pressed))
  else if action.keyCode = opShOn then (r, if r.event.pressed then k else k.call b (.swapHands true))
  else if action.keyCode = opShOff then (r, if r.event.pressed then k else k.call b (.swapHands false))
  else if action.keyCode = opShOneshot then
    (r, k.call b (if r.event.pressed then .setOneshotSwaphands else .releaseOneshotSwaphands))
  else if action.keyCode = Tapping.opShTapToggle then
    if r.event.pressed then (r, if b.swapHeld k.rest then k.call b (.swapHeld false) else toggle k)
    else (r, if r.tap.count < b.tappingToggle then toggle k else k)
  else if 0 < r.tap.count then
    let k := if b.swapHeld k.rest then (toggle k).call b (.swapHeld false) else k
    if r.event.pressed then (r, k.call b (.registerCode action.keyCode))
    -- hack: reset tap mode
    else (.empty, k.call b (.unregisterCode action.keyCode))
  else (r, if b.swapHeld k.rest ∧ r.event.pressed = false then (toggle k).call b (.swapHeld false) else k)

/-- The `switch` of `process_action` -/
def actionSwitch (r : Record) (action : Action) (k : Keyboard maxLayer σ) : Record × Keyboard maxLayer σ :=
  if action.kindId = Tapping.actLmods ∨ action.kindId = Tapping.actRmods then (r, modsAction b action r.event.pressed k)
  else if action.kindId = Tapping.actLmodsTap ∨ action.kindId = Tapping.actRmodsTap then modsTapAction b r action k
  else if action.kindId = actUsage then (r, usageAction b action r.event.pressed k)
  else if action.kindId = actMousekey then (r, k.call b (.registerMouse action.keyCode r.event.pressed))
  else if action.kindId = actLayer then (r, (layerAction b action r.event.pressed k).call b .ledSet)
  else if action.kindId = actLayerMods then (r, (layerModsAction b action r.event.pressed k).call b .ledSet)
  else if action.kindId = Tapping.actLayerTap ∨ action.kindId = Tapping.actLayerTapExt then
    (r, (layerTapAction b action r.event.pressed r.tap.count k).call b .ledSet)
  else if action.kindId = Tapping.actSwapHands then swapHandsAction b r action k
  else (r, k)

/-- `action.kind.id == ACT_SWAP_HANDS && action.swap.code == OP_SH_ONESHOT` -/
def isOneshotSwaphands (action : Action) : Bool :=
  action.kindId == Tapping.actSwapHands && action.keyCode == opShOneshot

/-- The key of the action clears the one-shot layer: it is no modifier. -/
def clearsOneshotLayer (r : Record) (action : Action) : Bool :=
  (action.kindId == actUsage || !(Tapping.isModifierKeycode action.keyCode ||
    (r.tap.count == 0 && (action.kindId == Tapping.actLmodsTap || action.kindId == Tapping.actRmodsTap)))) &&
  !(b.swapHandsEnable && isOneshotSwaphands action)

/-- `case OP_ONESHOT` with `ONESHOT_TAP_TOGGLE` sets `do_release_oneshot` to false. -/
def keepsOneshot (action : Action) (k : Keyboard maxLayer σ) : Bool :=
  (action.kindId == Tapping.actLayerTap || action.kindId == Tapping.actLayerTapExt) &&
    action.keyCode == Tapping.opOneshot && k.oneshotEnable && decide (1 < b.oneshotTapToggle)

/-- `do_release_oneshot`, as it is at the end -/
def doReleaseOneshot (r : Record) (action : Action) (k : Keyboard maxLayer σ) : Bool :=
  Layer.doReleaseOneshot (k.config b) k.oneshot r.event.pressed (clearsOneshotLayer b r action) && !keepsOneshot b action k

/-- `process_action` up to its last block: the record, the keyboard, and whether the last block is entered -/
def processAction (r : Record) (action : Action) (k : Keyboard maxLayer σ) : Record × Keyboard maxLayer σ × Bool :=
  let cleared := { k with oneshot := Layer.beforeAction (k.config b) k.oneshot r.event.pressed (clearsOneshotLayer b r action) }
  let (record, after) := actionSwitch b r action cleared
  let after := if b.swapHandsEnable && r.event.pressed && !isOneshotSwaphands action then after.call b .useOneshotSwaphands else after
  (record, after, doReleaseOneshot b r action k && (after.oneshot.getOneshotLayerState &&& 0b01#8) == 0)

/-! ## The branches that write to the record -/

/-- A tap is cancelled: the press of a mod-tap key that was tapped and interrupted. -/
def CancelsTap (r : Record) (action : Action) (k : Keyboard maxLayer σ) : Prop :=
  (action.kindId = Tapping.actLmodsTap ∨ action.kindId = Tapping.actRmodsTap) ∧ action.keyCode ≠ 0x00 ∧ action.keyCode ≠ 0x01 ∧
    r.event.pressed = true ∧ 0 < r.tap.count ∧ cancelsTap b r k = true

/-- The tap mode is reset: the release of a swap-hands key that was tapped. -/
def ResetsTap (r : Record) (action : Action) : Prop :=
  action.kindId = Tapping.actSwapHands ∧ b.swapHandsEnable = true ∧
    action.keyCode ∉ [opShToggle, opShOnOff, opShOffOn, opShOn, opShOff, opShOneshot, Tapping.opShTapToggle] ∧
    r.event.pressed = false ∧ 0 < r.tap.count

/-- The action is that of a one-shot layer. -/
def setsOneshot (action : Action) (k : Keyboard maxLayer σ) : Bool :=
  (action.kindId == Tapping.actLayerTap || action.kindId == Tapping.actLayerTapExt) &&
    action.keyCode == Tapping.opOneshot && k.oneshotEnable

/-- The key is released before the one-shot layer is left: its press ends the one-shot layer. -/
def ReleasesKey (r : Record) (action : Action) (k : Keyboard maxLayer σ) : Prop :=
  Layer.doReleaseOneshot (k.config b) k.oneshot r.event.pressed (clearsOneshotLayer b r action) = true ∧
    setsOneshot action k = false

/-- None of the three branches is taken. -/
def Spares (r : Record) (action : Action) (k : Keyboard maxLayer σ) : Prop :=
  ¬ CancelsTap b r action k ∧ ¬ ResetsTap b r action ∧ ¬ ReleasesKey b r action k

end Code

section

variable {b : Build σ} {r : Record} {action : Action} {k : Keyboard maxLayer σ} {pressed : Bool} {tapCount : Nat}

instance : Decidable (CancelsTap b r action k) := inferInstanceAs (Decidable (_ ∧ _))

instance : Decidable (ResetsTap b r action) := inferInstanceAs (Decidable (_ ∧ _))

instance : Decidable (ReleasesKey b r action k) := inferInstanceAs (Decidable (_ ∧ _))

instance : Decidable (Spares b r action k) := inferInstanceAs (Decidable (_ ∧ _))

@[simp] theorem oneshot_call (c : Call) : (k.call b c).oneshot = k.oneshot := rfl

@[simp] theorem data_layers (f : LayerState maxLayer → LayerState maxLayer) :
    (k.layers f).oneshot.oneshotLayerData = k.oneshot.oneshotLayerData := rfl

theorem modsAction_oneshot : (modsAction b action pressed k).oneshot = k.oneshot := by
  unfold modsAction
  dsimp only
  split <;> split <;> rfl

theorem modsOneshot_oneshot : (modsOneshot b action pressed tapCount k).oneshot = k.oneshot := by
  unfold modsOneshot
  dsimp only
  split_ifs <;> first | exact modsAction_oneshot | rfl

theorem modsTapAction_oneshot : (modsTapAction b r action k).2.oneshot = k.oneshot := by
  unfold modsTapAction
  dsimp only
  split_ifs <;> first | exact modsOneshot_oneshot | rfl

theorem usageAction_oneshot : (usageAction b action pressed k).oneshot = k.oneshot := by
  unfold usageAction
  dsimp only
  split_ifs <;> rfl

theorem layerAction_data :
    (layerAction b action pressed k).oneshot.oneshotLayerData = k.oneshot.oneshotLayerData := by
  unfold layerAction
  dsimp only
  split_ifs <;> rfl

theorem layerModsAction_data :
    (layerModsAction b action pressed k).oneshot.oneshotLayerData = k.oneshot.oneshotLayerData := by
  unfold layerModsAction
  dsimp only
  split <;> rfl

theorem swapHandsAction_oneshot : (swapHandsAction b r action k).2.oneshot = k.oneshot := by
  unfold swapHandsAction
  simp only [apply_ite Prod.snd, apply_ite Keyboard.oneshot, oneshot_call, ite_self]

/-- Of the layer-tap actions only that of a one-shot layer touches it. -/
theorem layerTapAction_data (other : ¬ (action.keyCode = Tapping.opOneshot ∧ k.oneshotEnable = true)) :
    (layerTapAction b action pressed tapCount k).oneshot.oneshotLayerData = k.oneshot.oneshotLayerData := by
  unfold layerTapAction
  dsimp only
  by_cases oneshot : action.keyCode = Tapping.opOneshot
  · have off : (k.config b).oneshotEnable = false := eq_false_of_ne_true fun on => other ⟨oneshot, on⟩
    rw [if_neg (by rw [oneshot]; decide), if_neg (by rw [oneshot]; decide), if_neg (by rw [oneshot]; decide),
      if_neg (by rw [oneshot]; decide), if_pos oneshot]
    unfold Layer.oneshotAction
    rw [if_pos off]
    dsimp only
    split <;> rfl
  · rw [if_neg oneshot]
    split_ifs <;> rfl

/-- The flags of the one-shot layer after the `switch` -/
theorem actionSwitch_data (other : setsOneshot action k = false) :
    (actionSwitch b r action k).2.oneshot.oneshotLayerData = k.oneshot.oneshotLayerData := by
  unfold actionSwitch
  split_ifs with mods modsTap usage mouse layer layerMods layerTap swap
  · exact congrArg _ modsAction_oneshot
  · exact congrArg _ modsTapAction_oneshot
  · exact congrArg _ usageAction_oneshot
  · rfl
  · exact layerAction_data
  · exact layerModsAction_data
  · apply layerTapAction_data
    rintro ⟨code, on⟩
    unfold setsOneshot at other
    rw [code, on] at other
    simp only [beq_self_eq_true, Bool.and_true, Bool.or_eq_false_iff, beq_eq_false_iff_ne] at other
    exact layerTap.elim other.1 other.2
  · exact congrArg _ swapHandsAction_oneshot
  · rfl

theorem modsTapAction_record :
    (modsTapAction b r action k).1 =
      if action.keyCode ≠ 0x00 ∧ action.keyCode ≠ 0x01 ∧ r.event.pressed = true ∧ 0 < r.tap.count ∧ cancelsTap b r k = true then
        { r with tap := { r.tap with count := 0 } }
      else r := by
  unfold modsTapAction
  simp only [apply_ite Prod.fst, ite_self]
  by_cases none : action.keyCode = 0x00
  · rw [if_pos none, if_neg fun test => test.1 none]
  · by_cases toggle : action.keyCode = 0x01
    · rw [if_neg none, if_pos toggle, if_neg fun test => test.2.1 toggle]
    · simp only [if_neg none, if_neg toggle, ← ite_and]
      apply if_congr _ rfl rfl
      simp only [ne_eq, none, toggle, not_false_iff, true_and]

theorem swapHandsAction_record :
    (swapHandsAction b r action k).1 =
      if b.swapHandsEnable = true ∧
          action.keyCode ∉ [opShToggle, opShOnOff, opShOffOn, opShOn, opShOff, opShOneshot, Tapping.opShTapToggle] ∧
          r.event.pressed = false ∧ 0 < r.tap.count then .empty
      else r := by
  unfold swapHandsAction
  simp only [apply_ite Prod.fst, ite_self, ← ite_or]
  by_cases listed : b.swapHandsEnable = false ∨
    action.keyCode ∈ [opShToggle, opShOnOff, opShOffOn, opShOn, opShOff, opShOneshot, Tapping.opShTapToggle]
  · have spared : ¬ (b.swapHandsEnable = true ∧
        action.keyCode ∉ [opShToggle, opShOnOff, opShOffOn, opShOn, opShOff, opShOneshot, Tapping.opShTapToggle] ∧
        r.event.pressed = false ∧ 0 < r.tap.count) := by
      rintro ⟨on, other, -⟩
      exact listed.elim (fun off => Bool.noConfusion (on.symm.trans off)) other
    rw [if_neg spared]
    apply if_pos
    simpa only [List.mem_cons, List.not_mem_nil, or_false] using listed
  · rw [if_neg (by simpa only [List.mem_cons, List.not_mem_nil, or_false] using listed)]
    obtain ⟨on, other⟩ := not_or.mp listed
    rw [Bool.not_eq_false] at on
    cases pressed : r.event.pressed with
    | false =>
      rw [if_neg Bool.false_ne_true]
      exact if_congr ⟨fun tapped => ⟨on, other, rfl, tapped⟩, fun test => test.2.2.2⟩ rfl rfl
    | true =>
      rw [if_pos rfl, ite_self, if_neg fun test => Bool.noConfusion test.2.2.1]

theorem cleared_ne (tapped : 0 < r.tap.count) : { r with tap := { r.tap with count := 0 } } ≠ r :=
  fun same => Nat.ne_of_lt tapped (congrArg (fun r : Record => r.tap.count) same)

theorem empty_ne (tapped : 0 < r.tap.count) : Record.empty ≠ r :=
  fun same => Nat.ne_of_lt tapped (congrArg (fun r : Record => r.tap.count) same)

/-- The `switch` leaves the record as it is unless a tap is cancelled or the tap mode is reset. -/
theorem actionSwitch_record : (actionSwitch b r action k).1 = r ↔ ¬ CancelsTap b r action k ∧ ¬ ResetsTap b r action := by
  unfold actionSwitch CancelsTap ResetsTap
  simp only [apply_ite Prod.fst]
  by_cases modsTap : action.kindId = Tapping.actLmodsTap ∨ action.kindId = Tapping.actRmodsTap
  · have plain : ¬ (action.kindId = Tapping.actLmods ∨ action.kindId = Tapping.actRmods) := by
      rcases modsTap with kind | kind <;> rw [kind] <;> decide
    have swap : action.kindId ≠ Tapping.actSwapHands := by
      rcases modsTap with kind | kind <;> rw [kind] <;> decide
    rw [if_neg plain, if_pos modsTap, modsTapAction_record, and_iff_left fun test => swap test.1, and_iff_right modsTap,
      ite_eq_right_iff]
    exact forall_congr' fun test => iff_of_false (cleared_ne test.2.2.2.1) not_false
  · rw [if_neg modsTap, and_iff_right fun test => modsTap test.1]
    by_cases swap : action.kindId = Tapping.actSwapHands
    · have others : action.kindId ∉ [Tapping.actLmods, Tapping.actRmods, actUsage, actMousekey, actLayer, actLayerMods,
          Tapping.actLayerTap, Tapping.actLayerTapExt] := by
        rw [swap]
        decide
      simp only [List.mem_cons, List.not_mem_nil, or_false, not_or] at others
      obtain ⟨lmods, rmods, usage, mouse, layer, layerMods, layerTap, ext⟩ := others
      rw [if_neg (not_or.mpr ⟨lmods, rmods⟩), if_neg usage, if_neg mouse, if_neg layer, if_neg layerMods,
        if_neg (not_or.mpr ⟨layerTap, ext⟩), if_pos swap, swapHandsAction_record, and_iff_right swap, ite_eq_right_iff]
      exact forall_congr' fun test => iff_of_false (empty_ne test.2.2.2) not_false
    · rw [if_neg swap]
      simp only [ite_self, true_iff]
      exact fun test => swap test.1

/-- A key of a one-shot layer is held after its press, so it is not released at the end. -/
theorem oneshotAction_held {c : OneshotConfig} {s : Oneshot c.maxLayer} {layer : Nat} (on : c.oneshotEnable = true)
    (once : ¬ 1 < c.oneshotTapToggle) :
    (Layer.oneshotAction c s layer true tapCount).getOneshotLayerState &&& 0b01#8 ≠ 0 := by
  unfold Layer.oneshotAction
  rw [if_neg (by rw [on]; exact Bool.noConfusion), if_neg once, if_pos rfl]
  unfold Layer.setOneshotLayer
  rw [if_pos on]
  intro zero
  have bit := congrArg (·.getLsbD 0) zero
  simp [Oneshot.getOneshotLayerState, Oneshot.on, Layer.OneshotFullfillment.bits] at bit

theorem layerTapAction_held (code : action.keyCode = Tapping.opOneshot) (on : k.oneshotEnable = true)
    (once : ¬ 1 < b.oneshotTapToggle) :
    (layerTapAction b action true tapCount k).oneshot.getOneshotLayerState &&& 0b01#8 ≠ 0 := by
  unfold layerTapAction
  dsimp only
  rw [if_neg (by rw [code]; decide), if_neg (by rw [code]; decide), if_neg (by rw [code]; decide),
    if_neg (by rw [code]; decide), if_pos code]
  exact @oneshotAction_held _ (k.config b) k.oneshot _ on once

/-- A press that ends the one-shot layer leaves it inactive. -/
theorem inactive_of_release {c : OneshotConfig} {s : Oneshot c.maxLayer} {clears : Bool}
    (release : Layer.doReleaseOneshot c s pressed clears = true) :
    pressed = true ∧ (Layer.beforeAction c s pressed clears).getOneshotLayerState = 0 := by
  unfold Layer.doReleaseOneshot at release
  unfold Layer.beforeAction
  split at release
  next test =>
    rw [if_pos test]
    refine ⟨test.2.1, ?_⟩
    simpa [Oneshot.isOneshotLayerActive] using release
  · cases release

theorem setsOneshot_switch (sets : setsOneshot action k = true) :
    (actionSwitch b r action k).2.oneshot =
      (layerTapAction b action r.event.pressed r.tap.count k).oneshot := by
  unfold setsOneshot at sets
  simp only [Bool.and_eq_true, Bool.or_eq_true, beq_iff_eq] at sets
  have others : action.kindId ∉ [Tapping.actLmods, Tapping.actRmods, Tapping.actLmodsTap, Tapping.actRmodsTap, actUsage,
      actMousekey, actLayer, actLayerMods] := by
    rcases sets.1.1 with kind | kind <;> rw [kind] <;> decide
  simp only [List.mem_cons, List.not_mem_nil, or_false, not_or] at others
  obtain ⟨lmods, rmods, lmodsTap, rmodsTap, usage, mouse, layer, layerMods⟩ := others
  unfold actionSwitch
  rw [if_neg (not_or.mpr ⟨lmods, rmods⟩), if_neg (not_or.mpr ⟨lmodsTap, rmodsTap⟩), if_neg usage, if_neg mouse, if_neg layer,
    if_neg layerMods, if_pos sets.1.1]
  rfl

/-- The last block of `process_action` is entered exactly by a press that ends the one-shot layer. -/
theorem processAction_last : (processAction b r action k).2.2 = true ↔ ReleasesKey b r action k := by
  unfold processAction ReleasesKey doReleaseOneshot
  dsimp only
  generalize release : Layer.doReleaseOneshot (k.config b) k.oneshot r.event.pressed (clearsOneshotLayer b r action) = releases
  cases releases with
  | false => simp
  | true =>
    obtain ⟨pressed, inactive⟩ := inactive_of_release release
    simp only [apply_ite Keyboard.oneshot, oneshot_call, ite_self, Bool.true_and, true_and]
    generalize eq : ({ k with oneshot := Layer.beforeAction (k.config b) k.oneshot r.event.pressed (clearsOneshotLayer b r action) }
      : Keyboard maxLayer σ) = cleared
    have same : setsOneshot action cleared = setsOneshot action k := by
      rw [← eq]
      rfl
    have zero : cleared.oneshot.getOneshotLayerState = 0 := by
      rw [← eq]
      exact inactive
    cases sets : setsOneshot action k with
    | true =>
      rw [setsOneshot_switch (same.trans sets), pressed]
      have on : cleared.oneshotEnable = k.oneshotEnable := by rw [← eq]
      unfold setsOneshot at sets
      simp only [Bool.and_eq_true, Bool.or_eq_true, beq_iff_eq] at sets
      obtain ⟨⟨kind, code⟩, enabled⟩ := sets
      have keeps : keepsOneshot b action k = decide (1 < b.oneshotTapToggle) := by
        unfold keepsOneshot
        rw [code, enabled]
        rcases kind with kind | kind <;> rw [kind] <;> rfl
      rw [keeps]
      by_cases toggles : 1 < b.oneshotTapToggle
      · rw [decide_eq_true toggles]
        exact iff_of_false Bool.noConfusion Bool.noConfusion
      · rw [beq_false_of_ne (layerTapAction_held code (on.trans enabled) toggles), Bool.and_false]
        exact iff_of_false Bool.noConfusion Bool.noConfusion
    | false =>
      have keeps : keepsOneshot b action k = false := by
        unfold keepsOneshot
        unfold setsOneshot at sets
        rw [sets, Bool.false_and]
      have data := @actionSwitch_data _ _ b r action cleared (same.trans sets)
      unfold Oneshot.getOneshotLayerState at zero ⊢
      rw [keeps, data, zero]
      exact iff_of_true rfl rfl

/-- The record is as it was and the last block is not entered, exactly if none of the three branches is taken. -/
theorem processAction_spares :
    ((processAction b r action k).1 = r ∧ (processAction b r action k).2.2 = false) ↔ Spares b r action k := by
  have record : (processAction b r action k).1 = r ↔ ¬ CancelsTap b r action k ∧ ¬ ResetsTap b r action :=
    actionSwitch_record
  rw [record, ← Bool.not_eq_true, processAction_last, and_assoc]
  rfl

end

end QmkFirmware.DynamicMacro
