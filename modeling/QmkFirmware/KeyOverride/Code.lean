import QmkFirmware.AutoShift.Code

/-!
# Key overrides

`process_key_override.c`: while its modifiers and its trigger key are down, an override
takes the trigger out of the report and puts its replacement in. What a modifier event
brings into the report is deferred.
-/

namespace QmkFirmware.KeyOverride
open AutoShift (Keycode extractModBits isBasicKeycode isModifierKeycode)

/-! ## Overrides -/

/-- `ko_option_activation_trigger_down` -/
def activationTriggerDown : BitVec 8 := 0x01
/-- `ko_option_activation_required_mod_down` -/
def activationRequiredModDown : BitVec 8 := 0x02
/-- `ko_option_activation_negative_mod_up` -/
def activationNegativeModUp : BitVec 8 := 0x04
/-- `ko_options_all_activations` -/
def allActivations : BitVec 8 := 0x07
/-- `ko_option_one_mod` -/
def oneMod : BitVec 8 := 0x08
/-- `ko_option_no_reregister_trigger` -/
def noReregisterTrigger : BitVec 8 := 0x10
/-- `ko_option_no_unregister_on_other_key_down` -/
def noUnregisterOnOtherKeyDown : BitVec 8 := 0x20

/-- `SAFE_RANGE` -/
def safeRange : Keycode := 0x7E40
/-- `KEY_OVERRIDE_REPEAT_DELAY` -/
def keyOverrideRepeatDelay : BitVec 32 := 500

/-- `QK_KEY_OVERRIDE_TOGGLE` -/
def qkKeyOverrideToggle : Keycode := 0x7C5D
/-- `QK_KEY_OVERRIDE_ON` -/
def qkKeyOverrideOn : Keycode := 0x7C5E
/-- `QK_KEY_OVERRIDE_OFF` -/
def qkKeyOverrideOff : Keycode := 0x7C5F

/-- `clear_mods_from` -/
def clearModsFrom (keycode : Keycode) : Keycode :=
  if 0x0100 ≤ keycode && keycode ≤ 0x1FFF then keycode &&& ~~~0x1F00#16 else keycode

/-- The key of an action: of a basic keycode, a modified one, or a mod-tap or layer-tap that is tapped -/
def actionKey (keycode : Keycode) (tapped : Bool) : Option (BitVec 8) :=
  if keycode ≤ 0x1FFF || (tapped && keycode ≤ 0x4FFF) then some (keycode.truncate 8) else none

/-- The modifiers of an action that are no weak ones: of a modified modifier, or a mod-tap that is held -/
def actionMods (keycode : Keycode) (tapped : Bool) : BitVec 8 :=
  if keycode ≤ 0x1FFF then
    if isModifierKeycode (keycode &&& 0xFF) || keycode &&& 0xFF == 0 then extractModBits keycode else 0
  else if keycode ≤ 0x3FFF && !tapped then extractModBits (keycode &&& 0x1FFF)
  else 0

/-- `key_override_t`; the custom action as what it returns, and `enabled` as whether it points to a flag -/
structure Override where
  trigger : Keycode
  triggerMods : BitVec 8
  layers : BitVec 32
  negativeModMask : BitVec 8
  suppressedMods : BitVec 8
  replacement : Keycode
  options : BitVec 8
  customAction : Option (Bool → Bool)
  hasEnabled : Bool

namespace Override

variable (o : Override)

/-- `mod_free_replacement` of `try_activating_override` -/
def modFreeReplacement : Keycode := clearModsFrom o.replacement

/-- `mod_free_replacement` of `clear_active_override`, which has eight bits -/
def modFreeByte : BitVec 8 := o.modFreeReplacement.truncate 8

/-- What the custom action returns, if there is one -/
def custom (activated : Bool) : Bool := (o.customAction.map fun action => action activated).getD true

/-- `register_replacement` -/
def registers : Bool := o.modFreeReplacement != 0 && o.modFreeReplacement < safeRange && o.custom true

/-- `unregister_replacement`, whose eight bits are below `SAFE_RANGE` always -/
def unregisters : Bool := o.modFreeByte != 0 && o.modFreeByte.zeroExtend 16 < safeRange && o.custom false

theorem unregisters_eq : o.unregisters = (o.modFreeByte != 0 && o.custom false) := by
  have small : (o.modFreeByte.zeroExtend 16 : Keycode) < safeRange := by
    unfold safeRange
    bv_omega
  rw [unregisters, decide_eq_true small, Bool.and_true]

/-- `key_override_matches_active_modifiers` -/
def matchesActiveModifiers (mods : BitVec 8) : Bool :=
  if o.negativeModMask &&& mods ≠ 0 then false
  else if o.triggerMods = 0 then true
  else if o.options &&& oneMod ≠ 0 then o.triggerMods &&& mods != 0
  else
    let required := (o.triggerMods &&& 0b1111) ||| (o.triggerMods >>> 4)
    let active := o.triggerMods &&& mods
    (active &&& 0b1111) ||| (active >>> 4) == required

/-- `check_activation_event` -/
def checkActivationEvent (keyDown isMod : Bool) : Bool :=
  let options := if o.options &&& allActivations = 0 then allActivations else o.options
  if isMod then
    if keyDown then options &&& activationRequiredModDown != 0 else options &&& activationNegativeModUp != 0
  else keyDown && options &&& activationTriggerDown != 0

end Override

/-- `key_overrides`, the pointers of the array up to its null, and the overrides they point to; the index into it has eight
bits. -/
structure Table (P : Type) where
  keyOverrides : List P
  deref : P → Override
  length_lt : keyOverrides.length < 2 ^ 8

/-! ## The state -/

/-- The static variables of the file, the modifiers, the override masks and the keys of the report -/
structure State (P : Type) where
  activeOverride : Option P
  triggerIsDown : Bool
  lastKeyDown : Keycode
  lastKeyDownTime : BitVec 32
  deferReferenceTime : BitVec 32
  deferDelay : BitVec 32
  deferredRegister : Keycode
  enabled : Bool
  mods : BitVec 8
  suppressedMods : BitVec 8
  weakOverrideMods : BitVec 8
  keys : Finset (BitVec 8)

/-- What is read when an event comes: the timer, the layer of the key, the one-shot modifiers, locked or not, and the flags of
the overrides -/
structure Context (P : Type) where
  now : BitVec 32
  layer : Nat
  oneshotMods : BitVec 8
  isOn : P → Bool

namespace State

variable {P : Type}

def initial : State P := ⟨none, false, 0, 0, 0, 0, 0, true, 0, 0, 0, ∅⟩

/-- `add_key` -/
def addKey (s : State P) (code : BitVec 8) : State P := { s with keys := insert code s.keys }

/-- `del_key` -/
def delKey (s : State P) (code : BitVec 8) : State P := { s with keys := s.keys.erase code }

/-- `register_code` of a basic or a modifier keycode; the others are not in the keyboard report. -/
def registerCode (s : State P) (code : BitVec 8) : State P :=
  if isBasicKeycode code then s.addKey code
  else if isModifierKeycode (code.zeroExtend 16) then { s with mods := s.mods ||| 1#8 <<< (code.toNat % 8) }
  else s

/-- `unregister_code` -/
def unregisterCode (s : State P) (code : BitVec 8) : State P :=
  if isBasicKeycode code then s.delKey code
  else if isModifierKeycode (code.zeroExtend 16) then { s with mods := s.mods &&& ~~~(1#8 <<< (code.toNat % 8)) }
  else s

/-- `process_action`: a key that is down for its action registers its key and its modifiers. -/
def processAction (s : State P) (keycode : Keycode) (tapped keyDown : Bool) : State P :=
  if keyDown then
    let s := { s with mods := s.mods ||| actionMods keycode tapped }
    match actionKey keycode tapped with
    | some code => s.registerCode code
    | none => s
  else
    let s := match actionKey keycode tapped with
      | some code => s.unregisterCode code
      | none => s
    { s with mods := s.mods &&& ~~~actionMods keycode tapped }

/-- `schedule_deferred_register` -/
def scheduleDeferredRegister (s : State P) (keycode : Keycode) (now : BitVec 32) : State P :=
  if now - s.lastKeyDownTime < keyOverrideRepeatDelay then
    { s with
      deferReferenceTime := s.lastKeyDownTime
      deferDelay := keyOverrideRepeatDelay
      deferredRegister := keycode }
  else { s with deferReferenceTime := now, deferDelay := 50, deferredRegister := keycode }

/-- `key_override_task`; `register_code` takes the low byte of what is deferred. -/
def keyOverrideTask (s : State P) (now : BitVec 32) : State P :=
  if s.deferredRegister = 0 then s
  else if s.deferDelay ≤ now - s.deferReferenceTime then
    { s.registerCode (s.deferredRegister.truncate 8) with
      deferredRegister := 0
      deferReferenceTime := 0
      deferDelay := 0 }
  else s

end State

namespace Table

variable {P : Type} [DecidableEq P] (table : Table P)

/-- The replacement leaves the report. -/
def unregisterReplacement (o : Override) (s : State P) : State P :=
  if o.unregisters then
    if isBasicKeycode o.modFreeByte then s.delKey o.modFreeByte else s.unregisterCode o.modFreeByte
  else s

/-- `reregister_trigger` -/
def reregisterTrigger (o : Override) (s : State P) (allowReregister : Bool) : Bool :=
  allowReregister && o.options &&& noReregisterTrigger == 0 && s.triggerIsDown && o.trigger != 0 && o.trigger < safeRange

/-- `clear_active_override` -/
def clearActiveOverride (s : State P) (allowReregister : Bool) (now : BitVec 32) : State P :=
  match s.activeOverride with
  | none => s
  | some p =>
    let s := unregisterReplacement (table.deref p)
      { s with deferredRegister := 0, suppressedMods := 0, weakOverrideMods := 0 }
    let s :=
      if reregisterTrigger (table.deref p) s allowReregister then s.scheduleDeferredRegister (table.deref p).trigger now else s
    { s with activeOverride := none, triggerIsDown := false }

/-- `key_override_on` -/
def keyOverrideOn (s : State P) : State P := { s with enabled := true }

/-- `key_override_off` -/
def keyOverrideOff (s : State P) (now : BitVec 32) : State P :=
  table.clearActiveOverride { s with enabled := false } false now

/-- `key_override_toggle` -/
def keyOverrideToggle (s : State P) (now : BitVec 32) : State P :=
  if s.enabled then table.keyOverrideOff s now else keyOverrideOn s

/-- The checks of `try_activating_override` -/
def activates (s : State P) (keycode : Keycode) (keyDown isMod : Bool) (activeMods : BitVec 8) (c : Context P) (p : P) : Bool :=
  let o := table.deref p
  !(activeMods == 0 && o.triggerMods != 0) && o.layers.getLsbD c.layer && o.checkActivationEvent keyDown isMod &&
    !(o.trigger == keycode && !keyDown) && some p != s.activeOverride && (!o.hasEnabled || c.isOn p) &&
    o.matchesActiveModifiers activeMods &&
    (o.trigger == 0 || (o.trigger == keycode && keyDown) || s.lastKeyDown == o.trigger)

/-- The trigger leaves the report, unless its press is not in it yet. -/
def removeTrigger (o : Override) (s : State P) (triggerDown : Bool) : State P :=
  if !triggerDown && o.trigger != 0 then
    if isBasicKeycode (o.trigger.truncate 8) && o.trigger ≤ 0x00FF then s.delKey (o.trigger.truncate 8)
    else s.unregisterCode (o.trigger.truncate 8)
  else s

/-- The replacement comes into the report, at once or deferred. -/
def registerReplacement (o : Override) (s : State P) (isMod : Bool) (now : BitVec 32) : State P :=
  if o.registers then
    let s := { s with weakOverrideMods := extractModBits o.replacement }
    if isMod then s.scheduleDeferredRegister o.modFreeReplacement now
    else if isBasicKeycode (o.modFreeReplacement.truncate 8) && o.modFreeReplacement ≤ 0x00FF then
      s.addKey (o.modFreeReplacement.truncate 8)
    else s.registerCode (o.modFreeReplacement.truncate 8)
  else s

/-- What activates an override -/
def activate (s : State P) (p : P) (keycode : Keycode) (keyDown isMod : Bool) (now : BitVec 32) : State P :=
  let o := table.deref p
  let s := table.clearActiveOverride s false now
  let s := { s with activeOverride := some p, triggerIsDown := true, suppressedMods := o.suppressedMods }
  registerReplacement o (removeTrigger o s (o.trigger == keycode && keyDown)) isMod now

/-- `try_activating_override`: whether the action of the key is sent, whether an override was activated, and the state -/
def tryActivatingOverride (s : State P) (keycode : Keycode) (keyDown isMod : Bool) (activeMods : BitVec 8) (c : Context P) :
    Bool × Bool × State P :=
  match table.keyOverrides.find? (table.activates s keycode keyDown isMod activeMods c) with
  | some p => (!((table.deref p).trigger == keycode && keyDown), true, table.activate s p keycode keyDown isMod c.now)
  | none => (true, false, s)

/-- The modifiers as they are after the event -/
def effectiveMods (s : State P) (keycode : Keycode) (keyDown isMod : Bool) (c : Context P) : BitVec 8 :=
  let mods := s.mods ||| c.oneshotMods
  if isMod then
    if keyDown then mods ||| 1#8 <<< (keycode.toNat % 8) else mods &&& ~~~(1#8 <<< (keycode.toNat % 8))
  else mods

/-- The last key down, which an event of a key that is no modifier changes -/
def trackKey (s : State P) (keycode : Keycode) (keyDown isMod : Bool) (now : BitVec 32) : State P :=
  if isMod then s
  else if keyDown then { s with lastKeyDown := keycode, lastKeyDownTime := now, deferredRegister := 0 }
  else if keycode = s.lastKeyDown then { s with lastKeyDown := 0, lastKeyDownTime := 0, deferredRegister := 0 }
  else s

/-- Whether the active override is deactivated, for an event that activated none -/
def deactivate (s : State P) (p : P) (keycode : Keycode) (keyDown isMod : Bool) (mods : BitVec 8) (now : BitVec 32) : State P :=
  let o := table.deref p
  if isMod then if o.matchesActiveModifiers mods then s else table.clearActiveOverride s true now
  else
    let up := keycode == o.trigger && !keyDown
    let s := if up then { s with triggerIsDown := false } else s
    if up || (keyDown && o.options &&& noUnregisterOnOtherKeyDown == 0) then table.clearActiveOverride s false now else s

/-- The part of `process_key_override` for overrides that are on -/
def processEnabled (s : State P) (keycode : Keycode) (keyDown : Bool) (c : Context P) : Bool × State P :=
  let isMod := isModifierKeycode keycode
  let mods := effectiveMods s keycode keyDown isMod c
  let s := trackKey s keycode keyDown isMod c.now
  let (send, activated, s) :=
    if isMod || keyDown then table.tryActivatingOverride s keycode keyDown isMod mods c else (true, false, s)
  match activated, s.activeOverride with
  | false, some p => (send, table.deactivate s p keycode keyDown isMod mods c.now)
  | _, _ => (send, s)

/-- `process_key_override`: whether the action of the key is sent, and the state -/
def processKeyOverride (s : State P) (keycode : Keycode) (keyDown : Bool) (c : Context P) : Bool × State P :=
  if keyDown && keycode == qkKeyOverrideToggle then (false, table.keyOverrideToggle s c.now)
  else if keyDown && keycode == qkKeyOverrideOn then (false, keyOverrideOn s)
  else if keyDown && keycode == qkKeyOverrideOff then (false, table.keyOverrideOff s c.now)
  else if !s.enabled then (true, s)
  else table.processEnabled s keycode keyDown c

/-- `process_record`: the action of a key whose record is sent -/
def processRecord (s : State P) (keycode : Keycode) (tapped keyDown : Bool) (c : Context P) : State P :=
  match table.processKeyOverride s keycode keyDown c with
  | (true, s) => s.processAction keycode tapped keyDown
  | (false, s) => s

end Table

end QmkFirmware.KeyOverride
