import QmkFirmware.Layer.SourceCache
import QmkFirmware.Report.Keys
import QmkFirmware.Secure.Unlock

/-!
# Keys held over a request

While the lock is pending no record gets to the actions, so the release of a key that was
pressed before is lost. The request clears the keyboard and the layers for that reason:
everything that is registered belongs to a key that is down and whose release will count.
-/

namespace QmkFirmware.Secure
open Lib
open Tapping (KeyPos Action)
open Layer (Board Layers)

/-! ## The keyboard -/

/-- `QK_SECURE_LOCK` -/
def qkSecureLock : UInt16 := 0x7C60
/-- `QK_SECURE_UNLOCK` -/
def qkSecureUnlock : UInt16 := 0x7C61
/-- `QK_SECURE_TOGGLE` -/
def qkSecureToggle : UInt16 := 0x7C62
/-- `QK_SECURE_REQUEST` -/
def qkSecureRequest : UInt16 := 0x7C63

/-- `KC_A … KC_EXSEL` and `KC_LEFT_CTRL … KC_RIGHT_GUI` -/
def isKey (keycode : UInt16) : Bool :=
  (0x04 ≤ keycode && keycode ≤ 0xA4) || (0xE0 ≤ keycode && keycode ≤ 0xE7)

/-- `IS_QK_MOMENTARY` -/
def isQkMomentary (keycode : UInt16) : Bool := 0x5220 ≤ keycode && keycode ≤ 0x523F

/-- `action_for_keycode`, for keys, modifiers and momentary layers -/
def actionForKeycode (keycode : UInt16) : Action :=
  if isKey keycode then keycode
  else if keycode = 0x0001 then Layer.actionTransparent
  else if isQkMomentary keycode then (0xA0F1 : UInt16) ||| ((keycode &&& 0x1F) <<< 8)
  else 0

/-- A keymap of keys, modifiers, momentary layers and the keys of the lock -/
structure PlainBoard extends Board where
  plain : ∀ layer key, let keycode := keymapKeyToKeycode layer key
    (keycode ≤ 1 || isKey keycode || isQkMomentary keycode || (qkSecureLock ≤ keycode && keycode ≤ qkSecureRequest)) = true
  actions : ∀ keycode, toBoard.actionForKeycode keycode = Secure.actionForKeycode keycode

/-- The keymap, the report and its mode, and the lock's settings -/
structure Device where
  board : PlainBoard
  layout : Report.Layout
  nkro : Bool
  config : Config

/-- What is registered, the layers, and the lock -/
structure Keyboard (d : Device) where
  secure : State
  layers : Layers d.board.toBoard
  report : Report.Bytes
  mods : BitVec 8

namespace Keyboard

variable {d : Device}

def initial (d : Device) (defaultLayerState : Layer.LayerState (2 ^ d.board.maxLayerBits)) : Keyboard d :=
  ⟨.initial, { Layers.initial d.board.toBoard with defaultLayerState }, fun _ => 0, 0⟩

/-- `register_code` -/
def registerCode (k : Keyboard d) (code : Nat) : Keyboard d :=
  if Tapping.isModifierKeycode code then { k with mods := k.mods ||| 1#8 <<< (code % 8) }
  else { k with report := Report.registerCode d.layout d.nkro (BitVec.ofNat 8 code) k.report }

/-- `unregister_code` -/
def unregisterCode (k : Keyboard d) (code : Nat) : Keyboard d :=
  if Tapping.isModifierKeycode code then { k with mods := k.mods &&& ~~~(1#8 <<< (code % 8)) }
  else { k with report := Report.unregisterCode d.layout d.nkro (BitVec.ofNat 8 code) k.report }

/-- `process_action`, for the actions of such a keymap -/
def processAction (k : Keyboard d) (pressed : Bool) (action : Action) : Keyboard d :=
  if action.kindId = Tapping.actLmods then
    if pressed then k.registerCode action.keyCode else k.unregisterCode action.keyCode
  else if (action.kindId = Tapping.actLayerTap ∨ action.kindId = Tapping.actLayerTapExt) ∧
      action.keyCode = Tapping.opOnOff then
    { k with
      layers := { k.layers with
        layerState := if pressed then Layer.layerOn k.layers.layerState action.layerTapVal
          else Layer.layerOff k.layers.layerState action.layerTapVal } }
  else k

/-- `clear_keyboard` and `layer_clear` -/
def clear (k : Keyboard d) : Keyboard d :=
  { k with
    report := Report.clearKeysFromReport d.layout d.nkro k.report
    mods := 0
    layers := { k.layers with layerState := 0 } }

/-- `secure_hook_quantum`, after a change of the status -/
def secureHook (k : Keyboard d) (secure : State) : Keyboard d :=
  if secure.secureStatus = .pending then { k with secure }.clear else { k with secure }

/-- `process_secure`; `none` where it returns true. -/
def processSecure (k : Keyboard d) (keycode : UInt16) (pressed : Bool) : Option (Keyboard d) :=
  if pressed then none
  else if keycode = qkSecureLock then some (k.secureHook k.secure.lock)
  else if keycode = qkSecureUnlock then some (k.secureHook k.secure.unlock)
  else if keycode = qkSecureToggle then
    some (k.secureHook (if k.secure.secureStatus = .locked then k.secure.unlock else k.secure.lock))
  else if keycode = qkSecureRequest then some (k.secureHook k.secure.requestUnlock)
  else none

/-- `process_record`: `process_record_quantum`, and `process_record_handler` if that returns true -/
def processRecord (k : Keyboard d) (key : KeyPos) (pressed : Bool) : Keyboard d :=
  let (keycode, layers) := k.layers.getEventKeycode key pressed true
  let k := { k with layers }
  if k.secure.secureStatus = .pending then
    -- only the last key of the sequence and a wrong one call the hook, with a status that is not pending
    if pressed then { k with secure := k.secure.keypressEvent d.config key.row key.col } else k
  else
    match k.processSecure keycode pressed with
    | some k => k
    | none =>
      let (action, layers) := k.layers.storeOrGetAction pressed key
      { k with layers }.processAction pressed action

end Keyboard

/-- Keys go down and up, and the lock is used by other code as well. -/
inductive KeyEvent where
  | key (key : KeyPos) (pressed : Bool)
  | lock | unlock | requestUnlock | activity | task
  | wait (ms : Nat)

/-- The keyboard, and the keys that are down -/
structure Desk (d : Device) where
  keyboard : Keyboard d
  down : Finset KeyPos

namespace Desk

variable {d : Device}

def step (w : Desk d) : KeyEvent → Desk d
  | .key key pressed => ⟨w.keyboard.processRecord key pressed, if pressed then insert key w.down else w.down.erase key⟩
  | .lock => { w with keyboard := w.keyboard.secureHook w.keyboard.secure.lock }
  | .unlock => { w with keyboard := w.keyboard.secureHook w.keyboard.secure.unlock }
  | .requestUnlock => { w with keyboard := w.keyboard.secureHook w.keyboard.secure.requestUnlock }
  | .activity => { w with keyboard := { w.keyboard with secure := w.keyboard.secure.activityEvent } }
  -- the hook of `secure_lock` is that of a status that is not pending
  | .task => { w with keyboard := { w.keyboard with secure := w.keyboard.secure.task d.config } }
  | .wait ms =>
    { w with keyboard := { w.keyboard with
        secure := { w.keyboard.secure with timer := w.keyboard.secure.timer + UInt32.ofNat ms } } }

/-- What can happen to keys: one goes down that is up, and an encoder is turned in one direction at a time; one goes up
that is down. -/
def Physical (w : Desk d) : KeyEvent → Prop
  | .key key true => d.board.IsKey key ∧ key ∉ w.down ∧ ∀ other ∈ w.down, ¬ d.board.Opposite key other
  | .key key false => key ∈ w.down
  | _ => True

instance (w : Desk d) : ∀ event, Decidable (w.Physical event)
  | .key _ true => inferInstanceAs (Decidable (_ ∧ _))
  | .key key false => inferInstanceAs (Decidable (key ∈ w.down))
  | .lock | .unlock | .requestUnlock | .activity | .task | .wait _ => isTrue trivial

end Desk

/-! ## What is registered belongs to a key -/

/-- Something that stays until a release takes it back -/
inductive Effect where
  | key (code : BitVec 8)
  | modifier (bit : Nat)
  | layer (n : Nat)

/-- The press of a key with the action has the effect. -/
def Does (action : Action) : Effect → Prop
  | .key code => action.kindId = Tapping.actLmods ∧ BitVec.ofNat 8 action.keyCode = code
  | .modifier bit =>
    action.kindId = Tapping.actLmods ∧ Tapping.isModifierKeycode action.keyCode = true ∧ action.keyCode % 8 = bit
  | .layer n =>
    (action.kindId = Tapping.actLayerTap ∨ action.kindId = Tapping.actLayerTapExt) ∧ action.keyCode = Tapping.opOnOff ∧
      action.layerTapVal = n

namespace Keyboard

variable {d : Device} {k : Keyboard d} {held : Finset (BitVec 8)} {action : Action} {effect : Effect}

/-- The effect is there; `held` is what the report holds. -/
def On (k : Keyboard d) (held : Finset (BitVec 8)) : Effect → Prop
  | .key code => code ∈ held
  | .modifier bit => k.mods.getLsbD bit = true
  | .layer n => Layer.isOn k.layers.layerState n = true

/-- What the report holds, all basic keycodes -/
structure Reports (k : Keyboard d) (held : Finset (BitVec 8)) : Prop where
  holds : Report.Holds d.layout d.nkro k.report held
  basic : ∀ code ∈ held, Report.isBasicKeycode code = true

/-- Nothing is registered, and no momentary layer is on. -/
structure Clear (k : Keyboard d) : Prop where
  report : Report.Blank d.layout k.report
  mods : k.mods = 0
  layerState : k.layers.layerState = 0

theorem modifier_not_basic {code : Nat} (modifier : Tapping.isModifierKeycode code = true) :
    Report.isBasicKeycode (BitVec.ofNat 8 code) = false := by
  obtain ⟨lo, hi⟩ : 0xE0 ≤ code ∧ code ≤ 0xE7 := by
    rw [Tapping.isModifierKeycode, Bool.and_eq_true] at modifier
    exact ⟨of_decide_eq_true modifier.1, of_decide_eq_true modifier.2⟩
  have small : (BitVec.ofNat 8 code).toNat = code := by
    rw [BitVec.toNat_ofNat]
    exact Nat.mod_eq_of_lt (by omega)
  simp only [Report.isBasicKeycode, small, Bool.and_eq_false_iff, decide_eq_false_iff_not]
  omega

theorem getLsbD_or_bit (x : BitVec 8) (n bit : Nat) :
    (x ||| 1#8 <<< n).getLsbD bit = true → x.getLsbD bit = true ∨ n = bit := by
  rw [BitVec.getLsbD_or, ← BitVec.twoPow_eq, BitVec.getLsbD_twoPow]
  simp only [Bool.or_eq_true, Bool.and_eq_true, decide_eq_true_eq]
  exact Or.imp_right And.right

theorem getLsbD_andNot_bit (x : BitVec 8) (n bit : Nat) :
    (x &&& ~~~(1#8 <<< n)).getLsbD bit = true → x.getLsbD bit = true ∧ n ≠ bit := by
  rw [BitVec.getLsbD_and, BitVec.getLsbD_not, ← BitVec.twoPow_eq, BitVec.getLsbD_twoPow]
  simp only [Bool.and_eq_true, Bool.not_eq_true', decide_eq_true_eq]
  rintro ⟨on, small, off⟩
  refine ⟨on, fun same => ?_⟩
  subst same
  simp [small] at off

theorem Reports.press (h : k.Reports held) (action : Action) :
    ∃ held', (k.processAction true action).Reports held' ∧
      ∀ effect, (k.processAction true action).On held' effect → k.On held effect ∨ Does action effect := by
  unfold processAction
  split
  case isTrue key =>
    simp only [if_true]
    unfold registerCode
    split
    case isTrue modifier =>
      refine ⟨held, ⟨h.holds, h.basic⟩, fun effect on => ?_⟩
      cases effect with
      | key code => exact Or.inl on
      | modifier bit =>
        exact (getLsbD_or_bit k.mods (action.keyCode % 8) bit on).imp_right fun same => ⟨key, modifier, same⟩
      | layer n => exact Or.inl on
    case isFalse other =>
      refine ⟨_, ⟨h.holds.register, fun code mem => Report.registered_basic h.basic mem⟩, fun effect on => ?_⟩
      cases effect with
      | key code =>
        change code ∈ Report.registered d.nkro (BitVec.ofNat 8 action.keyCode) held at on
        unfold Report.registered at on
        split at on
        · exact (Finset.mem_insert.1 on).symm.imp_right fun same => ⟨key, same.symm⟩
        · exact Or.inl on
      | modifier bit => exact Or.inl on
      | layer n => exact Or.inl on
  case isFalse =>
    split
    case isTrue momentary =>
      refine ⟨held, ⟨h.holds, h.basic⟩, fun effect on => ?_⟩
      cases effect with
      | key code => exact Or.inl on
      | modifier bit => exact Or.inl on
      | layer n =>
        simp only [On, if_true, Layer.isOn_layerOn, Bool.or_eq_true, decide_eq_true_eq] at on
        exact on.imp_right fun same => ⟨momentary.1, momentary.2, same.1.symm⟩
    case isFalse => exact ⟨held, h, fun effect on => Or.inl on⟩

theorem Reports.release (h : k.Reports held) (action : Action) :
    ∃ held', (k.processAction false action).Reports held' ∧
      ∀ effect, (k.processAction false action).On held' effect → k.On held effect ∧ ¬ Does action effect := by
  unfold processAction
  split
  case isTrue key =>
    have plain : ¬ (action.kindId = Tapping.actLayerTap ∨ action.kindId = Tapping.actLayerTapExt) := by
      rw [key]
      decide
    simp only [Bool.false_eq_true, if_false]
    unfold unregisterCode
    split
    case isTrue modifier =>
      refine ⟨held, ⟨h.holds, h.basic⟩, fun effect on => ?_⟩
      cases effect with
      | key code =>
        refine ⟨on, fun does => ?_⟩
        have basic := h.basic code on
        rw [← does.2, modifier_not_basic modifier] at basic
        cases basic
      | modifier bit =>
        exact (getLsbD_andNot_bit k.mods (action.keyCode % 8) bit on).imp_right fun apart does => apart does.2.2
      | layer n => exact ⟨on, fun does => plain does.1⟩
    case isFalse other =>
      have basic {code : BitVec 8} (mem : code ∈ Report.unregistered (BitVec.ofNat 8 action.keyCode) held) :
          code ∈ held ∧ BitVec.ofNat 8 action.keyCode ≠ code := by
        unfold Report.unregistered at mem
        split at mem
        · exact ⟨Finset.mem_of_mem_erase mem, fun same => Finset.ne_of_mem_erase mem same.symm⟩
        case isFalse odd =>
          refine ⟨mem, ?_⟩
          rintro rfl
          exact odd (h.basic _ mem)
      refine ⟨_, ⟨h.holds.unregister, fun code mem => h.basic code (basic mem).1⟩, fun effect on => ?_⟩
      cases effect with
      | key code => exact (basic on).imp_right fun apart does => apart does.2
      | modifier bit => exact ⟨on, fun does => other does.2.1⟩
      | layer n => exact ⟨on, fun does => plain does.1⟩
  case isFalse odd =>
    split
    case isTrue momentary =>
      refine ⟨held, ⟨h.holds, h.basic⟩, fun effect on => ?_⟩
      cases effect with
      | key code => exact ⟨on, fun does => odd does.1⟩
      | modifier bit => exact ⟨on, fun does => odd does.1⟩
      | layer n =>
        simp only [On, Bool.false_eq_true, if_false, Layer.isOn_layerOff, Bool.and_eq_true, decide_eq_true_eq] at on
        exact ⟨on.1, fun does => on.2 does.2.2.symm⟩
    case isFalse still =>
      refine ⟨held, h, fun effect on => ⟨on, fun does => ?_⟩⟩
      cases effect with
      | key code => exact odd does.1
      | modifier bit => exact odd does.1
      | layer n => exact still ⟨does.1, does.2.1⟩

theorem Clear.owned (h : k.Clear) : ∃ held, k.Reports held ∧ ∀ effect, ¬ k.On held effect := by
  refine ⟨∅, ⟨Report.holds_empty_iff.2 h.report, fun code mem => absurd mem (Finset.notMem_empty code)⟩, fun effect on => ?_⟩
  cases effect with
  | key code => exact absurd on (Finset.notMem_empty code)
  | modifier bit => simp [On, h.mods] at on
  | layer n => simp [On, h.layerState, Layer.isOn] at on

theorem clear_clear (h : ∃ held, k.Reports held) : k.clear.Clear := by
  obtain ⟨held, reports⟩ := h
  exact ⟨reports.holds.clear, rfl, rfl⟩

/-- The action of a key on the layer that is kept for it -/
def current (k : Keyboard d) (key : KeyPos) : Action :=
  d.board.actionForKey (d.board.readSourceLayersCache key k.layers.caches).toNat key

@[simp] theorem processAction_caches (pressed : Bool) : (k.processAction pressed action).layers.caches = k.layers.caches := by
  unfold processAction registerCode unregisterCode
  split_ifs <;> rfl

theorem current_processAction (pressed : Bool) (key : KeyPos) :
    (k.processAction pressed action).current key = k.current key := by
  rw [current, processAction_caches, current]

@[simp] theorem processAction_disableActionCache (pressed : Bool) :
    (k.processAction pressed action).layers.disableActionCache = k.layers.disableActionCache := by
  unfold processAction registerCode unregisterCode
  split_ifs <;> rfl

@[simp] theorem processAction_secure (pressed : Bool) : (k.processAction pressed action).secure = k.secure := by
  unfold processAction registerCode unregisterCode
  split_ifs <;> rfl

/-- The keys of the lock act when they are released, and register nothing. -/
theorem processSecure_some {keycode : UInt16} {pressed : Bool} {k' : Keyboard d}
    (h : k.processSecure keycode pressed = some k') :
    actionForKeycode keycode = 0 ∧ ∃ secure, k' = k.secureHook secure := by
  unfold processSecure at h
  split_ifs at h with down lock unlock toggle locked request
  · exact ⟨by rw [lock]; decide, _, (Option.some.inj h).symm⟩
  · exact ⟨by rw [unlock]; decide, _, (Option.some.inj h).symm⟩
  · exact ⟨by rw [toggle]; decide, _, (Option.some.inj h).symm⟩
  · exact ⟨by rw [toggle]; decide, _, (Option.some.inj h).symm⟩
  · exact ⟨by rw [request]; decide, _, (Option.some.inj h).symm⟩

/-- The layer of a press is kept. -/
def cached (k : Keyboard d) (key : KeyPos) : Keyboard d :=
  { k with
    layers := { k.layers with
      caches := d.board.updateSourceLayersCache key (k.layers.layerSwitchGetLayer key) k.layers.caches } }

theorem current_cached {key : KeyPos} (known : d.board.IsKey key) :
    (k.cached key).current key = d.board.actionForKey (k.layers.layerSwitchGetLayer key).toNat key := by
  rw [current, cached, Board.read_updateSourceLayersCache known (k.layers.layerSwitchGetLayer_lt key)]

theorem current_cached_of_ne {key other : KeyPos} (ne : other ≠ key) (apart : ¬ d.board.Opposite key other) :
    (k.cached key).current other = k.current other := by
  rw [current, cached, Board.read_updateSourceLayersCache_of_ne ne apart, current]

/-- A press that gets to its action is kept twice, with the same layer. -/
theorem processRecord_press (enabled : k.layers.disableActionCache = false) (key : KeyPos) :
    k.processRecord key true =
      if k.secure.secureStatus = .pending then { k.cached key with secure := k.secure.keypressEvent d.config key.row key.col }
      else ((k.cached key).cached key).processAction true
        (d.board.actionForKey (k.layers.layerSwitchGetLayer key).toNat key) := by
  unfold processRecord
  rw [Layers.getEventKeycode_eq enabled]
  dsimp only
  split
  case isTrue => rfl
  case isFalse =>
    have through (keycode : UInt16) (k : Keyboard d) : k.processSecure keycode true = none := if_pos rfl
    rw [through, Layers.storeOrGetAction_eq (s := (k.layers.sourceLayer (true && true) key).2) enabled]
    rfl

theorem processRecord_release (enabled : k.layers.disableActionCache = false) (key : KeyPos) :
    k.processRecord key false =
      if k.secure.secureStatus = .pending then k
      else (k.processSecure (d.board.keymapKeyToKeycode (d.board.readSourceLayersCache key k.layers.caches).toNat key)
        false).getD (k.processAction false (k.current key)) := by
  unfold processRecord
  rw [Layers.getEventKeycode_eq enabled]
  dsimp only
  split
  case isTrue => rfl
  case isFalse =>
    change (match k.processSecure (d.board.keymapKeyToKeycode (d.board.readSourceLayersCache key k.layers.caches).toNat key)
      false with | some k => k | none => _) = _
    cases k.processSecure (d.board.keymapKeyToKeycode (d.board.readSourceLayersCache key k.layers.caches).toNat key) false with
    | some k' => rfl
    | none =>
      dsimp only
      rw [Layers.storeOrGetAction_eq (s := (k.layers.sourceLayer (false && true) key).2) enabled]
      rfl

theorem Reports.not_does_zero (h : k.Reports held) (on : k.On held effect) : ¬ Does 0 effect := by
  intro does
  cases effect with
  | key code =>
    have basic := h.basic code on
    rw [← does.2] at basic
    exact absurd basic (by decide)
  | modifier bit => exact absurd does.2.1 (by decide)
  | layer n => exact absurd does.1 (by decide)

end Keyboard

namespace Desk

variable {d : Device} {w : Desk d} {key : KeyPos}

/-- Each effect belongs to a key that is down, and there is none while the lock is pending. -/
structure Inv (w : Desk d) : Prop where
  enabled : w.keyboard.layers.disableActionCache = false
  owned : ∃ held, w.keyboard.Reports held ∧
    ∀ effect, w.keyboard.On held effect → ∃ key ∈ w.down, Does (w.keyboard.current key) effect
  pending : w.keyboard.secure.secureStatus = .pending → w.keyboard.Clear

theorem Inv.of_clear {w : Desk d} (enabled : w.keyboard.layers.disableActionCache = false) (clear : w.keyboard.Clear) :
    w.Inv := by
  obtain ⟨held, reports, none⟩ := clear.owned
  exact ⟨enabled, ⟨held, reports, fun effect on => absurd on (none effect)⟩, fun _ => clear⟩

/-- The hook clears everything when the status is pending. -/
theorem Inv.hook (h : w.Inv) (secure : State) : Inv { w with keyboard := w.keyboard.secureHook secure } := by
  obtain ⟨held, reports, owned⟩ := h.owned
  unfold Keyboard.secureHook
  split
  case isTrue =>
    have clear : { w.keyboard with secure }.clear.Clear := Keyboard.clear_clear ⟨held, reports.holds, reports.basic⟩
    exact .of_clear h.enabled clear
  case isFalse on => exact ⟨h.enabled, ⟨held, ⟨reports.holds, reports.basic⟩, owned⟩, fun pending => absurd pending on⟩

/-- A change of the lock that does not start a pending period -/
theorem Inv.quiet (h : w.Inv) {secure : State}
    (quiet : secure.secureStatus = .pending → w.keyboard.secure.secureStatus = .pending) :
    Inv { w with keyboard := { w.keyboard with secure } } := by
  obtain ⟨held, reports, owned⟩ := h.owned
  refine ⟨h.enabled, ⟨held, ⟨reports.holds, reports.basic⟩, owned⟩, fun pending => ?_⟩
  have clear := h.pending (quiet pending)
  exact ⟨clear.report, clear.mods, clear.layerState⟩

theorem Inv.press (h : w.Inv) (physical : w.Physical (.key key true)) : (w.step (.key key true)).Inv := by
  obtain ⟨known, up, turns⟩ := physical
  change Inv ⟨w.keyboard.processRecord key true, insert key w.down⟩
  rw [Keyboard.processRecord_press h.enabled]
  split
  case isTrue pending =>
    have clear := h.pending pending
    have before : Inv ⟨w.keyboard.cached key, insert key w.down⟩ :=
      .of_clear h.enabled ⟨clear.report, clear.mods, clear.layerState⟩
    exact before.quiet fun _ => pending
  case isFalse on =>
    obtain ⟨held, reports, owned⟩ := h.owned
    obtain ⟨held', reports', effects⟩ := Keyboard.Reports.press (k := (w.keyboard.cached key).cached key)
      ⟨reports.holds, reports.basic⟩ (d.board.actionForKey (w.keyboard.layers.layerSwitchGetLayer key).toNat key)
    refine ⟨?_, ⟨held', reports', fun effect on => ?_⟩, fun pending => ?_⟩
    · rw [Keyboard.processAction_disableActionCache]
      exact h.enabled
    · rcases effects effect on with old | does
      · obtain ⟨other, mem, does⟩ := owned effect old
        refine ⟨other, Finset.mem_insert_of_mem mem, ?_⟩
        have ne : other ≠ key := fun same => up (same ▸ mem)
        rw [Keyboard.current_processAction, Keyboard.current_cached_of_ne ne (turns other mem),
          Keyboard.current_cached_of_ne ne (turns other mem)]
        exact does
      · refine ⟨key, Finset.mem_insert_self key w.down, ?_⟩
        rw [Keyboard.current_processAction, Keyboard.current_cached known]
        exact does
    · rw [Keyboard.processAction_secure] at pending
      exact absurd pending on

theorem Inv.release (h : w.Inv) : (w.step (.key key false)).Inv := by
  change Inv ⟨w.keyboard.processRecord key false, w.down.erase key⟩
  rw [Keyboard.processRecord_release h.enabled]
  obtain ⟨held, reports, owned⟩ := h.owned
  split
  case isTrue pending =>
    exact .of_clear h.enabled (h.pending pending)
  case isFalse on =>
    have others {effect : Effect} (on : w.keyboard.On held effect) (apart : ¬ Does (w.keyboard.current key) effect) :
        ∃ other ∈ w.down.erase key, Does (w.keyboard.current other) effect := by
      obtain ⟨other, mem, does⟩ := owned effect on
      refine ⟨other, Finset.mem_erase.2 ⟨?_, mem⟩, does⟩
      rintro rfl
      exact apart does
    generalize found : w.keyboard.processSecure _ false = locked
    cases locked with
    | some k' =>
      obtain ⟨none, secure, rfl⟩ := Keyboard.processSecure_some found
      have action : w.keyboard.current key = 0 := (d.board.actions _).trans none
      have before : Inv ⟨w.keyboard, w.down.erase key⟩ := by
        refine ⟨h.enabled, ⟨held, reports, fun effect on => others on ?_⟩, h.pending⟩
        rw [action]
        exact reports.not_does_zero on
      exact before.hook secure
    | none =>
      obtain ⟨held', reports', effects⟩ := reports.release (w.keyboard.current key)
      refine ⟨?_, ⟨held', reports', fun effect on => ?_⟩, fun pending => ?_⟩
      · exact (Keyboard.processAction_disableActionCache false).trans h.enabled
      · obtain ⟨on, apart⟩ := effects effect on
        obtain ⟨other, mem, does⟩ := others on apart
        exact ⟨other, mem, (Keyboard.current_processAction false other).symm ▸ does⟩
      · exact absurd ((congrArg State.secureStatus (Keyboard.processAction_secure false)).symm.trans pending) on

theorem Inv.next (h : w.Inv) (event : KeyEvent) (physical : w.Physical event) : (w.step event).Inv := by
  cases event with
  | key key pressed =>
    cases pressed with
    | true => exact h.press physical
    | false => exact h.release
  | lock => exact h.hook _
  | unlock => exact h.hook _
  | requestUnlock => exact h.hook _
  | activity =>
    refine h.quiet fun pending => ?_
    unfold State.activityEvent at pending
    split at pending <;> exact pending
  | task =>
    refine h.quiet fun pending => ?_
    rcases @task_cases d.config w.keyboard.secure with same | locked
    · rwa [same] at pending
    · rw [locked] at pending
      cases pending
  | wait ms => exact h.quiet id

theorem inv_initial (defaultLayerState : Layer.LayerState (2 ^ d.board.maxLayerBits)) :
    Inv ⟨.initial d defaultLayerState, ∅⟩ :=
  .of_clear rfl ⟨fun _ _ => rfl, rfl, rfl⟩

/-- **Locked-out keys are still released.** Whatever the lock does meanwhile, once all keys are up nothing is registered
and no momentary layer is on. -/
theorem clear_when_up (d : Device) (defaultLayerState : Layer.LayerState (2 ^ d.board.maxLayerBits)) (events : List KeyEvent)
    (physical : Along step Physical ⟨.initial d defaultLayerState, ∅⟩ events)
    (up : (events.foldl step ⟨.initial d defaultLayerState, ∅⟩).down = ∅) :
    (events.foldl step ⟨.initial d defaultLayerState, ∅⟩).keyboard.Clear := by
  have inv := physical.invariant Inv (fun w event h p => h.next event p) (inv_initial defaultLayerState)
  obtain ⟨held, reports, owned⟩ := inv.owned
  have none (effect : Effect) : ¬ (events.foldl step ⟨.initial d defaultLayerState, ∅⟩).keyboard.On held effect := by
    intro on
    obtain ⟨key, mem, -⟩ := owned effect on
    rw [up] at mem
    exact Finset.notMem_empty key mem
  have empty : held = ∅ := Finset.eq_empty_of_forall_notMem fun code mem => none (.key code) mem
  refine ⟨?_, ?_, ?_⟩
  · exact Report.holds_empty_iff.1 (empty ▸ reports.holds)
  · exact BitVec.eq_of_getLsbD_eq fun bit _ => (Bool.eq_false_iff.2 (none (.modifier bit))).trans BitVec.getLsbD_zero.symm
  · exact Layer.ext fun n => (Bool.eq_false_iff.2 (none (.layer n))).trans BitVec.getLsbD_zero.symm

/-! ### A run -/

/-- A momentary layer, a key that is another one there, the shift key, and the request -/
def fourKeys (layer : Nat) (key : KeyPos) : UInt16 :=
  if key.col = 0 ∧ layer = 0 then 0x5221
  else if key.col = 1 then if layer = 0 then 0x0004 else 0x0005
  else if key.col = 2 then 0x00E1
  else if key.col = 3 then qkSecureRequest
  else 0x0001

theorem fourKeys_plain (layer : Nat) (key : KeyPos) : let keycode := fourKeys layer key
    (keycode ≤ 1 || isKey keycode || isQkMomentary keycode || (qkSecureLock ≤ keycode && keycode ≤ qkSecureRequest)) = true := by
  dsimp only
  unfold fourKeys
  split_ifs <;> decide

def fourKeyDevice : Device where
  board :=
    { matrixRows := 1, matrixCols := 4, numEncoders := none, maxLayerBits := 3, maxLayer := 2
      keymapKeyToKeycode := fourKeys
      actionForKeycode := Secure.actionForKeycode
      rows_le := Layer.LayerWorld.one_le_rows
      cols_le := Nat.le_add_right 4 252
      fits := Layer.LayerWorld.two_le_eight
      layers_le := Layer.LayerWorld.two_le_layers
      plain := fourKeys_plain
      actions := fun _ => rfl }
  layout := ⟨30, 2, Nat.le_add_right 21 9, Nat.le_add_right 30 2, Nat.le_add_right 8 22⟩
  nkro := true
  config := twoKeys

/-- Three keys are down when the request key goes up; two of them go up while the lock is pending, and the third
after the time is over. -/
def overRequest : List KeyEvent :=
  [.key ⟨0, 0⟩ true, .key ⟨1, 0⟩ true, .key ⟨2, 0⟩ true, .key ⟨3, 0⟩ true, .key ⟨3, 0⟩ false, .key ⟨1, 0⟩ false,
    .key ⟨2, 0⟩ false, .wait 5000, .task, .key ⟨0, 0⟩ false]

theorem clear_when_up_overRequest :
    (overRequest.foldl step ⟨.initial fourKeyDevice 1, ∅⟩).keyboard.Clear :=
  clear_when_up fourKeyDevice 1 overRequest (by decide) (by decide)

/-- Before the request all three have their effect. -/
example : let k := ((overRequest.take 4).foldl step ⟨.initial fourKeyDevice 1, ∅⟩).keyboard
    Report.isKeyPressed fourKeyDevice.layout true k.report 5 = true ∧ k.mods = 2 ∧ k.layers.layerState = 2 := by
  decide

end Desk

end QmkFirmware.Secure
