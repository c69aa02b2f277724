import QmkFirmware.Tapping.Order
import QmkFirmware.Layer.SourceCache

/-!
# The settings of the pending key

The terms and the hold rules of a key are found by its keycode, and the keycode of the
tapping key by the layer in the cache of source layers. The cache holds the layer of
the last press that was processed, and the press of the pending key is processed when
it is decided.
-/

namespace QmkFirmware.Tapping
open Layer (Board Layers LayerEvent)

/-! ## The keyboard around the engine -/

/-- The layers, and everything else -/
structure Keyboard (board : Board) (τ : Type) where
  layers : Layers board
  rest : τ

namespace Keyboard

variable {board : Board} {τ : Type}

/-- `get_record_keycode` with `update_layer_cache` false -/
def getRecordKeycode (k : Keyboard board τ) (record : Record) : UInt16 :=
  (k.layers.getEventKeycode record.event.key record.event.pressed false).1

/-- The keycode of the layer in the cache -/
def cachedKeycode (k : Keyboard board τ) (key : KeyPos) : UInt16 :=
  board.keymapKeyToKeycode (board.readSourceLayersCache key k.layers.caches).toNat key

/-- The keycode of the layer on which `process_record` finds a press -/
def foundKeycode (k : Keyboard board τ) (key : KeyPos) : UInt16 :=
  board.keymapKeyToKeycode (k.layers.layerSwitchGetLayer key).toNat key

/-- `get_record_keycode` with `update_layer_cache` true: the keycode, and the keyboard with the layer of a press kept -/
def lookUp (k : Keyboard board τ) (record : Record) : UInt16 × Keyboard board τ :=
  let (keycode, layers) := k.layers.getEventKeycode record.event.key record.event.pressed true
  (keycode, { k with layers })

theorem getRecordKeycode_eq {k : Keyboard board τ} (enabled : k.layers.disableActionCache = false) (record : Record) :
    k.getRecordKeycode record = k.cachedKeycode record.event.key := by
  rw [getRecordKeycode, Layers.getEventKeycode_eq enabled, Bool.and_false]
  rfl

theorem lookUp_eq {k : Keyboard board τ} (enabled : k.layers.disableActionCache = false) (record : Record) :
    k.lookUp record =
      (board.keymapKeyToKeycode (k.layers.sourceLayer record.event.pressed record.event.key).1.toNat record.event.key,
        { k with layers := (k.layers.sourceLayer record.event.pressed record.event.key).2 }) := by
  rw [lookUp, Layers.getEventKeycode_eq enabled, Bool.and_true]

theorem lookUp_pressed {k : Keyboard board τ} (enabled : k.layers.disableActionCache = false) {record : Record}
    (pressed : record.event.pressed = true) : (k.lookUp record).1 = k.foundKeycode record.event.key := by
  rw [lookUp_eq enabled, pressed]
  rfl

theorem lookUp_released {k : Keyboard board τ} (enabled : k.layers.disableActionCache = false) {record : Record}
    (released : record.event.pressed = false) : (k.lookUp record).2 = k := by
  rw [lookUp_eq enabled, released]
  rfl

theorem lookUp_enabled {k : Keyboard board τ} (enabled : k.layers.disableActionCache = false) (record : Record) :
    (k.lookUp record).2.layers.disableActionCache = false := by
  rw [lookUp_eq enabled]
  exact (Layers.sourceLayer_enabled _ _ _).trans enabled

end Keyboard

/-- `IS_QK_MOD_TAP` -/
def isQkModTap (code : UInt16) : Bool := 0x2000 ≤ code && code ≤ 0x3FFF
/-- `IS_QK_LAYER_TAP` -/
def isQkLayerTap (code : UInt16) : Bool := 0x4000 ≤ code && code ≤ 0x4FFF
/-- `IS_RETRO` -/
def isRetro (code : UInt16) : Bool := isQkModTap code || isQkLayerTap code

/-- The settings of the keys, which may read the whole keyboard, and what becomes of a record: what `process_record` does
with the layers once it has the keycode, and what becomes of the rest -/
structure Firmware (board : Board) (τ : Type) where
  getTappingTerm : Keyboard board τ → UInt16 → Record → Nat
  getQuickTapTerm : Keyboard board τ → UInt16 → Record → Nat
  getPermissiveHold : Keyboard board τ → UInt16 → Record → Bool
  getHoldOnOtherKeyPress : Keyboard board τ → UInt16 → Record → Bool
  getRetroTapping : Keyboard board τ → UInt16 → Record → Bool
  retroShift : Nat
  onLayers : Keyboard board τ → UInt16 → Record → List (LayerEvent board)
  onRest : Keyboard board τ → UInt16 → Record → τ
  processRecordTapHint : Keyboard board τ → Record → τ
  retroShiftSwapTimes : Keyboard board τ → τ
  clearKeyboard : Keyboard board τ → τ
  cancelsTap : Keyboard board τ → Record → Bool
  releasesOneshot : Keyboard board τ → Record → Bool
  resetsTap : Keyboard board τ → Record → Bool

namespace Firmware

variable {board : Board} {τ : Type} (f : Firmware board τ)

/-- What processing a record does to the layers after its keycode is looked up -/
def events (k : Keyboard board τ) (record : Record) : List (LayerEvent board) :=
  f.onLayers (k.lookUp record).2 (k.lookUp record).1 record

/-- `process_record` -/
def processRecord (k : Keyboard board τ) (record : Record) : Keyboard board τ where
  layers := (f.events k record).foldl Layers.happens (k.lookUp record).2.layers
  rest := f.onRest (k.lookUp record).2 (k.lookUp record).1 record

/-- The engine asks for the settings of the keycode of the tapping key. -/
def env : Env (Keyboard board τ) where
  tappingTerm k r := f.getTappingTerm k (k.getRecordKeycode r) r
  quickTapTerm k r := f.getQuickTapTerm k (k.getRecordKeycode r) r
  permissiveHold k r := f.getPermissiveHold k (k.getRecordKeycode r) r
  holdOnOtherKeyPress k r := f.getHoldOnOtherKeyPress k (k.getRecordKeycode r) r
  retroTapping k r := f.getRetroTapping k (k.getRecordKeycode r) r
  retroShift := f.retroShift
  tapIsLt k r := isQkLayerTap (k.getRecordKeycode r)
  tapIsMt k r := isQkModTap (k.getRecordKeycode r)
  tapIsRetro k r := isRetro (k.getRecordKeycode r)
  retroShiftSwapTimes k := { k with rest := f.retroShiftSwapTimes k }
  layerSwitchGetAction k key := k.layers.layerSwitchGetAction key
  processRecordTapHint k r := { k with rest := f.processRecordTapHint k r }
  processRecord := f.processRecord
  clearKeyboard k := { k with rest := f.clearKeyboard k }
  cancelsTap := f.cancelsTap
  releasesOneshot := f.releasesOneshot
  resetsTap := f.resetsTap

end Firmware

/-! ## The pending press -/

section Pending

variable {σ : Type} (env : Env σ) (s : Engine σ) (x : Record)

/-- The press that is pending in a call: that of the undecided tapping key, or else the record -/
def pending : Record := if s.tappingKey.Undecided then s.tappingKey else x

/-- The state from which the call scans the waiting buffer, with the record as the new tapping key -/
def scanFrom : Option (Engine σ) :=
  if x.event.pressed && isTapRecord env s x then
    if s.isTappingPressed then
      if s.tappingKey.tap.count = 0 then none
      else if 1 < s.tappingKey.tap.count then
        some { (process env s ⟨⟨s.tappingKey.event.key, false, x.event.time⟩, s.tappingKey.tap⟩ true).2 with tappingKey := x }
      else some { s with tappingKey := x }
    else if s.isTappingReleased then
      if (withinTappingTerm env s x.event || maybeRetroShifting env s x.event) && !s.isTappingKey x.event.key then
        some { s with tappingKey := x }
      else none
    else some { s with tappingKey := x, keyboard := env.processRecordTapHint s.keyboard x }
  else none

/-- The press of the released tapping key finds the term running and asks for the quick tap term. -/
def asksQuickTap : Bool :=
  s.isTappingReleased && x.event.pressed && s.isTappingKey x.event.key &&
    (withinTappingTerm env s x.event || maybeRetroShifting env s x.event)

/-- The state in which the call asks for the settings of the pending key, which is its tapping key: they are asked for while
the tapping key is undecided, for the quick tap term, and in a scan for each release of the key -/
def asks : Option (Engine σ) :=
  if s.tappingKey.Undecided then some s
  else if asksQuickTap env s x then some s
  else (scanFrom env s x).filter fun t => t.waitingBuffer.any fun r => r.event.key == x.event.key && !r.event.pressed

/-- The call hands the press to `process_record`. -/
def handsOut : Bool :=
  ((processTapping env s x).2.handed.drop s.handed.length).any fun h =>
    !h.synthesised && h.record.event == (pending s x).event

variable {env s x}

/-- The state of a scan is that of the call. -/
theorem processTapping_scan {t : Engine σ} (h : scanFrom env s x = some t) :
    t.tappingKey = x ∧ ¬ s.tappingKey.Undecided ∧ s.handed.length ≤ t.handed.length ∧
      processTapping env s x = (none, waitingBufferScanTap env t) := by
  rw [scanFrom] at h
  split at h
  case isFalse => cases h
  case isTrue tap =>
    rw [Bool.and_eq_true] at tap
    rw [processTapping]
    split at h
    case isTrue pressed =>
      rw [if_pos pressed]
      split at h
      case isTrue => cases h
      case isFalse pos =>
        have decided : ¬ s.tappingKey.Undecided := fun undecided => pos undecided.2.2
        have tapped : ∀ expired, processTapped env expired s x = (none, waitingBufferScanTap env t) := by
          intro expired
          rw [processTapped, tap.1, tap.2]
          simp only [Bool.not_true, Bool.and_false, Bool.false_eq_true, if_false, Bool.and_self, if_true]
          split at h
          case isTrue many =>
            cases h
            rw [if_pos many]
          case isFalse single =>
            cases h
            rw [if_neg single]
        refine ⟨?_, decided, ?_, ?_⟩
        · split at h <;> cases h <;> rfl
        · split at h <;> cases h
          · simp
          · exact Nat.le_refl _
        · split
          · exact tapped false
          · exact tapped true
    case isFalse unpressed =>
      rw [if_neg unpressed]
      split at h
      case isTrue up =>
        rw [if_pos up, processReleased]
        split at h
        case isFalse => cases h
        case isTrue inTerm =>
          cases h
          rw [Bool.and_eq_true, Bool.not_eq_true'] at inTerm
          refine ⟨rfl, isTappingReleased_decided up, Nat.le_refl _, ?_⟩
          rw [if_pos inTerm.1, if_pos tap.1, if_neg (by rw [inTerm.2]; exact Bool.false_ne_true), if_pos tap.2]
      case isFalse idle =>
        cases h
        refine ⟨rfl, fun undecided => ?_, Nat.le_refl _, ?_⟩
        · exact unpressed (by simp [Engine.isTappingPressed, undecided.1, undecided.2.1])
        · rw [if_neg idle, processIdle, tap.1, tap.2]
          rfl

theorem scanFrom_keyboard {t : Engine σ} (h : scanFrom env s x = some t) :
    t.keyboard = s.keyboard ∨ t.keyboard = env.processRecordTapHint s.keyboard x ∨
      ∃ r, t.keyboard = (process env s r true).2.keyboard := by
  rw [scanFrom] at h
  split at h
  case isFalse => cases h
  case isTrue =>
    split at h
    case isTrue =>
      split at h
      case isTrue => cases h
      case isFalse =>
        split at h
        case isTrue =>
          cases h
          exact Or.inr (Or.inr ⟨_, rfl⟩)
        case isFalse =>
          cases h
          exact Or.inl rfl
    case isFalse =>
      split at h
      case isTrue =>
        split at h
        case isTrue =>
          cases h
          exact Or.inl rfl
        case isFalse => cases h
      case isFalse =>
        cases h
        exact Or.inr (Or.inl rfl)

/-- The press of the released key is handed out, or pending. -/
theorem processTapping_again (h : asksQuickTap env s x = true) :
    processTapping env s x = (none, { s with tappingKey := x }) ∨
      ∃ y, sequentialTap env s x = some y ∧
        processTapping env s x = (none, { (process env s y false).2 with tappingKey := written env s.keyboard y }) := by
  simp only [asksQuickTap, Bool.and_eq_true] at h
  obtain ⟨⟨⟨up, pressed⟩, own⟩, inTerm⟩ := h
  have unpressed : ¬ s.isTappingPressed = true := by
    simp only [Engine.isTappingReleased, Bool.and_eq_true, Bool.not_eq_true'] at up
    simp [Engine.isTappingPressed, up.2]
  rw [processTapping, if_neg unpressed, if_pos up, processReleased, if_pos inTerm, if_pos pressed, if_pos own]
  split
  case isFalse => exact Or.inl rfl
  case isTrue quick =>
    refine Or.inr ⟨_, ?_, rfl⟩
    rw [sequentialTap, up, pressed, own, inTerm, quick]
    rfl

theorem asks_cases {t : Engine σ} (h : asks env s x = some t) :
    (s.tappingKey.Undecided ∧ t = s) ∨ (¬ s.tappingKey.Undecided ∧ asksQuickTap env s x = true ∧ t = s) ∨
      (¬ s.tappingKey.Undecided ∧ scanFrom env s x = some t) := by
  rw [asks] at h
  split at h
  case isTrue undecided => exact Or.inl ⟨undecided, (Option.some.inj h).symm⟩
  case isFalse decided =>
    split at h
    case isTrue quick => exact Or.inr (Or.inl ⟨decided, quick, (Option.some.inj h).symm⟩)
    case isFalse => exact Or.inr (Or.inr ⟨decided, (Option.filter_eq_some_iff.1 h).1⟩)

/-- The settings are those of the key of the press. -/
theorem asks_key {t : Engine σ} (h : asks env s x = some t) : t.tappingKey.event.key = (pending s x).event.key := by
  rw [pending]
  rcases asks_cases h with ⟨undecided, rfl⟩ | ⟨decided, quick, rfl⟩ | ⟨decided, scan⟩
  · rw [if_pos undecided]
  · rw [if_neg decided]
    simp only [asksQuickTap, Engine.isTappingKey, Bool.and_eq_true, beq_iff_eq] at quick
    exact quick.1.2.2
  · rw [if_neg decided, (processTapping_scan scan).1]

theorem pending_pressed {t : Engine σ} (h : asks env s x = some t) : (pending s x).event.pressed = true := by
  rw [pending]
  rcases asks_cases h with ⟨undecided, rfl⟩ | ⟨decided, quick, rfl⟩ | ⟨decided, scan⟩
  · rw [if_pos undecided]
    exact undecided.2.1
  · rw [if_neg decided]
    simp only [asksQuickTap, Bool.and_eq_true] at quick
    exact quick.1.1.2
  · rw [if_neg decided]
    rw [scanFrom] at scan
    split at scan
    case isTrue tap => exact (Bool.and_eq_true _ _ ▸ tap).1
    case isFalse => cases scan

theorem handsOut_of_handed {l : List Handed} {r : Record} (handed : (processTapping env s x).2.handed = l ++ [⟨r, false⟩])
    (le : s.handed.length ≤ l.length) (same : r.event = (pending s x).event) : handsOut env s x = true := by
  rw [handsOut, handed, List.drop_append_of_le_length le, List.any_append]
  simp [same]

end Pending

/-! ## The keycodes asked for -/

section Asked

variable {board : Board} {τ : Type} (f : Firmware board τ)

/-- The keycodes by which settings were asked for about the press that is pending, given those of the earlier calls -/
def asked (keycodes : List UInt16) (c : Engine (Keyboard board τ) × Record) : List UInt16 :=
  match asks f.env c.1 c.2 with
  | some t => t.keyboard.getRecordKeycode t.tappingKey :: if c.1.tappingKey.Undecided then keycodes else []
  | none => []

/-- Those of a press that has to wait on -/
def carried (keycodes : List UInt16) (c : Engine (Keyboard board τ) × Record) : List UInt16 :=
  if handsOut f.env c.1 c.2 then [] else asked f keycodes c

/-- When the pending press is handed out, `process_record` finds it on a layer on which it has each keycode asked for. -/
def AskedRight (keycodes : List UInt16) (c : Engine (Keyboard board τ) × Record) : Prop :=
  ∀ t ∈ asks f.env c.1 c.2, handsOut f.env c.1 c.2 = true →
    ∀ keycode ∈ asked f keycodes c, keycode = (t.keyboard.lookUp (pending c.1 c.2)).1

/-- When the pending press is handed out, its key has the same keycode on the layer in the cache and on the layer on which
it is found. -/
def Current (c : Engine (Keyboard board τ) × Record) : Prop :=
  ∀ t ∈ asks f.env c.1 c.2, handsOut f.env c.1 c.2 = true →
    t.keyboard.cachedKeycode (pending c.1 c.2).event.key = t.keyboard.foundKeycode (pending c.1 c.2).event.key

/-- What is processed while a key is undecided, the release of another key, does not press the key. -/
def Undisturbed (c : Engine (Keyboard board τ) × Record) : Prop :=
  c.1.tappingKey.Undecided → c.2.event.isReleased = true → c.2.event.key ≠ c.1.tappingKey.event.key →
    ∀ event ∈ f.events c.1.keyboard c.2, ¬ event.Presses c.1.tappingKey.event.key

/-- The cache is in use, and the keycodes asked for about an undecided key are that of the cache. -/
structure Held (keycodes : List UInt16) (s : Engine (Keyboard board τ)) : Prop where
  enabled : s.keyboard.layers.disableActionCache = false
  cached : s.tappingKey.Undecided → ∀ keycode ∈ keycodes, keycode = s.keyboard.cachedKeycode s.tappingKey.event.key

variable {f} {keycodes : List UInt16} {s t : Engine (Keyboard board τ)} {x : Record}

theorem processRecord_enabled {k : Keyboard board τ} (enabled : k.layers.disableActionCache = false) (record : Record) :
    (f.processRecord k record).layers.disableActionCache = false :=
  (Layers.happens_all (Keyboard.lookUp_enabled enabled record)).1

theorem cachedKeycode_processRecord {k : Keyboard board τ} (enabled : k.layers.disableActionCache = false) {record : Record}
    (released : record.event.pressed = false) {key : KeyPos} (apart : ∀ event ∈ f.events k record, ¬ event.Presses key) :
    (f.processRecord k record).cachedKeycode key = k.cachedKeycode key := by
  have reads := (@Layers.happens_all board k.layers enabled (f.events k record)).2 key apart
  rw [Keyboard.cachedKeycode, Firmware.processRecord, Keyboard.lookUp_released enabled released, reads]
  rfl

theorem process_enabled (enabled : s.keyboard.layers.disableActionCache = false) (record : Record) (synthesised : Bool) :
    (process f.env s record synthesised).2.keyboard.layers.disableActionCache = false := by
  simp only [process]
  split
  · exact enabled
  · exact processRecord_enabled enabled record

theorem scan_enabled (enabled : s.keyboard.layers.disableActionCache = false) :
    (waitingBufferScanTap f.env s).keyboard.layers.disableActionCache = false := by
  rcases waitingBufferScanTap_cases f.env s with same | ⟨waitingBuffer, -, -, -, tap⟩
  · rw [same]
    exact enabled
  · rw [tap]
    exact process_enabled (s := { s with waitingBuffer, tappingKey := s.tappingKey.withCount 1 }) enabled _ false

theorem Call.enabled {o : Option Record} (h : Call f.env s x (o, t)) (enabled : s.keyboard.layers.disableActionCache = false) :
    t.keyboard.layers.disableActionCache = false := by
  cases h with
  | firstTap undecided own released inTerm ht =>
    rw [ht]
    exact process_enabled (s := { s with keyboard := f.env.retroShiftSwapTimes s.keyboard, tappingKey := s.tappingKey.withCount 1 })
      enabled _ false
  | ended undecided b =>
    exact process_enabled (s := { s with tappingKey := s.tappingKey.withInterrupted b }) enabled _ false
  | waits undecided b => exact enabled
  | early => exact process_enabled enabled x false
  | tapRelease tapped own released ht => exact process_enabled enabled _ false
  | interrupts tapped many pressed tapRecord ht =>
    apply scan_enabled
    rw [ht]
    exact process_enabled enabled _ true
  | starts decided single pressed tapRecord hk =>
    apply scan_enabled
    rcases hk with rfl | rfl
    · exact enabled
    · exact enabled
  | again up own pressed => exact enabled
  | sequential up own pressed tap => exact process_enabled enabled _ false
  | direct decided other b hb =>
    exact process_enabled (s := { s with tappingKey := s.tappingKey.withInterrupted b }) enabled x false
  | expired up => exact enabled

theorem asks_enabled (enabled : s.keyboard.layers.disableActionCache = false) (h : asks f.env s x = some t) :
    t.keyboard.layers.disableActionCache = false := by
  rcases asks_cases h with ⟨-, rfl⟩ | ⟨-, -, rfl⟩ | ⟨-, scan⟩
  · exact enabled
  · exact enabled
  · rcases scanFrom_keyboard scan with same | hint | ⟨r, synthesised⟩
    · rwa [same]
    · rw [hint]
      exact enabled
    · rw [synthesised]
      exact process_enabled enabled r true

theorem mem_carried {keycode : UInt16} (h : keycode ∈ carried f keycodes (s, x)) :
    handsOut f.env s x = false ∧ ∃ t, asks f.env s x = some t ∧
      (keycode = t.keyboard.getRecordKeycode t.tappingKey ∨ s.tappingKey.Undecided ∧ keycode ∈ keycodes) := by
  rw [carried] at h
  split at h
  case isTrue => exact absurd h List.not_mem_nil
  case isFalse waits =>
    refine ⟨by simpa using waits, ?_⟩
    simp only [asked] at h
    split at h
    case h_1 t asks =>
      refine ⟨t, asks, (List.mem_cons.1 h).imp_right fun h => ?_⟩
      split at h
      case isTrue undecided => exact ⟨undecided, h⟩
      case isFalse => exact absurd h List.not_mem_nil
    case h_2 => exact absurd h List.not_mem_nil

/-- While the tapping key stays undecided its keycode in the cache stays what it is. -/
theorem waits_cached (enabled : s.keyboard.layers.disableActionCache = false) (calm : Undisturbed f (s, x))
    (undecided : s.tappingKey.Undecided) (waits : handsOut f.env s x = false) :
    (processTapping f.env s x).2.keyboard.cachedKeycode (processTapping f.env s x).2.tappingKey.event.key =
      s.keyboard.cachedKeycode s.tappingKey.event.key := by
  have hands : ∀ l r, (processTapping f.env s x).2.handed = l ++ [⟨r, false⟩] → s.handed.length ≤ l.length →
      r.event = (pending s x).event → handsOut f.env s x = true := fun l r => handsOut_of_handed
  have press : (pending s x).event = s.tappingKey.event := by rw [pending, if_pos undecided]
  rw [waits, press] at hands
  have call := processTapping_call f.env s x
  generalize processTapping f.env s x = result at call hands
  cases call with
  | firstTap _ own released inTerm ht =>
    rw [ht] at hands
    exact absurd (hands s.handed (s.tappingKey.withCount 1) rfl (Nat.le_refl _) rfl) Bool.false_ne_true
  | ended _ b => exact absurd (hands s.handed (s.tappingKey.withInterrupted b) rfl (Nat.le_refl _) rfl) Bool.false_ne_true
  | waits _ b => rfl
  | early _ other released =>
    simp only [process]
    split
    case isTrue => rfl
    case isFalse =>
      have up : x.event.pressed = false := by
        simp only [KeyEvent.isReleased, Bool.and_eq_true, Bool.not_eq_true'] at released
        exact released.2
      exact cachedKeycode_processRecord enabled up (calm undecided released other)
  | tapRelease tapped => exact absurd undecided.2.2 tapped.2.2
  | interrupts tapped => exact absurd undecided.2.2 tapped.2.2
  | starts decided => exact absurd undecided decided
  | again up => exact absurd undecided (isTappingReleased_decided up)
  | sequential up => exact absurd undecided (isTappingReleased_decided up)
  | direct decided => exact absurd undecided decided
  | expired up => exact absurd undecided (isTappingReleased_decided up)

/-- One call: the keycodes asked for about a press that waits on are that of the cache. -/
theorem Held.call (h : Held keycodes s) (calm : Undisturbed f (s, x)) :
    Held (carried f keycodes (s, x)) (processTapping f.env s x).2 := by
  have call := processTapping_call f.env s x
  refine ⟨call.enabled h.enabled, fun undecided' keycode mem => ?_⟩
  obtain ⟨waits, t, asks, keycode_eq⟩ := mem_carried mem
  rcases asks_cases asks with ⟨undecided, rfl⟩ | ⟨decided, quick, rfl⟩ | ⟨decided, scan⟩
  · rw [waits_cached h.enabled calm undecided waits]
    rcases keycode_eq with rfl | ⟨-, earlier⟩
    · exact Keyboard.getRecordKeycode_eq h.enabled _
    · exact h.cached undecided keycode earlier
  · have same : keycode = t.keyboard.cachedKeycode t.tappingKey.event.key := by
      rw [keycode_eq.resolve_right fun earlier => decided earlier.1]
      exact Keyboard.getRecordKeycode_eq h.enabled _
    rcases processTapping_again quick with again | ⟨y, tap, sequential⟩
    · rw [same, again, asks_key asks, pending, if_neg decided]
    · rw [sequential] at undecided'
      have calm := sequentialTap_uncancelled tap t.keyboard
      obtain ⟨count, many, rfl⟩ := sequentialTap_spec tap
      exact absurd undecided' (written_decided calm fun u => absurd u.2.2 (by simp only; omega))
  · obtain ⟨key, -, le, result⟩ := processTapping_scan scan
    rw [result]
    rcases waitingBufferScanTap_cases f.env t with same | ⟨waitingBuffer, -, -, -, tap⟩
    · rw [same, keycode_eq.resolve_right fun earlier => decided earlier.1]
      exact Keyboard.getRecordKeycode_eq (asks_enabled h.enabled asks) _
    · have hands := handsOut_of_handed (l := t.handed) (r := t.tappingKey.withCount 1)
        (show (processTapping f.env s x).2.handed = _ by rw [result, tap]; rfl) le
        (by rw [pending, if_neg decided, Record.withCount_event, key])
      rw [waits] at hands
      cases hands

/-- A press is handed out as it was asked for if and only if the cache is current. -/
theorem Held.askedRight (h : Held keycodes s) : AskedRight f keycodes (s, x) ↔ Current f (s, x) := by
  have found : ∀ t, asks f.env s x = some t →
      (t.keyboard.lookUp (pending s x)).1 = t.keyboard.foundKeycode (pending s x).event.key := fun t asks =>
    Keyboard.lookUp_pressed (asks_enabled h.enabled asks) (pending_pressed asks)
  have used : ∀ t, asks f.env s x = some t →
      t.keyboard.getRecordKeycode t.tappingKey = t.keyboard.cachedKeycode (pending s x).event.key := fun t asks => by
    rw [Keyboard.getRecordKeycode_eq (asks_enabled h.enabled asks), asks_key asks]
  constructor
  · intro right t here hands
    rw [← found t here, ← used t here]
    apply right t here hands _
    simp only [asked, Option.mem_def.1 here]
    exact List.mem_cons_self
  · intro current t here hands keycode mem
    simp only [asked, Option.mem_def.1 here] at mem
    rw [found t here, ← current t here hands]
    rcases List.mem_cons.1 mem with rfl | earlier
    · exact used t here
    · split at earlier
      case isTrue undecided =>
        rw [h.cached undecided keycode earlier, pending, if_pos undecided]
        rcases asks_cases here with ⟨-, rfl⟩ | ⟨decided, -⟩ | ⟨decided, -⟩
        · rfl
        · exact absurd undecided decided
        · exact absurd undecided decided
      case isFalse => exact absurd earlier List.not_mem_nil

theorem Held.of_same (h : Held keycodes s) (key : t.tappingKey = s.tappingKey) (keyboard : t.keyboard = s.keyboard) :
    Held keycodes t := by
  refine ⟨keyboard ▸ h.enabled, fun undecided => ?_⟩
  rw [key] at undecided ⊢
  rw [keyboard]
  exact h.cached undecided

/-! ## Runs -/

/-- The calls of the loop over the buffer -/
theorem Held.processWaitingBuffer (fuel : Nat) (h : Held keycodes s)
    (calm : ∀ c ∈ bufferCalls f.env fuel s, Undisturbed f c) :
    Held ((bufferCalls f.env fuel s).foldl (carried f) keycodes) (processWaitingBuffer f.env fuel s) ∧
      (Lib.Along (carried f) (AskedRight f) keycodes (bufferCalls f.env fuel s) ↔
        ∀ c ∈ bufferCalls f.env fuel s, Current f c) := by
  induction fuel generalizing s keycodes with
  | zero => exact ⟨h, by simp [bufferCalls, Lib.Along]⟩
  | succ fuel ih =>
    cases hs : s.waitingBuffer with
    | nil =>
      rw [processWaitingBuffer_nil hs]
      simp only [bufferCalls, hs]
      exact ⟨h, by simp [Lib.Along]⟩
    | cons record l =>
      rw [bufferCalls_cons hs, List.forall_mem_cons] at calm
      rw [processWaitingBuffer_cons hs, bufferCalls_cons hs, List.foldl_cons, List.forall_mem_cons]
      have next := h.call calm.1
      have right := @Held.askedRight _ _ f _ _ record h
      generalize processTapping f.env s record = result at calm next
      obtain ⟨o, t⟩ := result
      cases o with
      | none =>
        obtain ⟨held, rest⟩ := ih (s := { t with waitingBuffer := t.waitingBuffer.tail }) (next.of_same rfl rfl) calm.2
        exact ⟨held, and_congr right rest⟩
      | some y =>
        exact ⟨next.of_same rfl rfl, and_congr right (by simp [Lib.Along])⟩

/-- The calls of a step -/
theorem Held.actionTappingProcess (h : Held keycodes s) (calm : ∀ c ∈ calls f.env s x, Undisturbed f c) :
    Held ((calls f.env s x).foldl (carried f) keycodes) (actionTappingProcess f.env s x) ∧
      (Lib.Along (carried f) (AskedRight f) keycodes (calls f.env s x) ↔ ∀ c ∈ calls f.env s x, Current f c) := by
  rw [calls, List.forall_mem_cons] at calm
  have next := h.call calm.1
  have held : Held (carried f keycodes (s, x)) (processOrEnqueue f.env s x) := by
    rw [processOrEnqueue]
    generalize processTapping f.env s x = result at next
    obtain ⟨o, t⟩ := result
    cases o with
    | none => exact next
    | some y =>
      simp only [Engine.waitingBufferEnq]
      split
      · exact next
      · split
        · exact ⟨next.enabled, fun undecided => absurd undecided Record.empty_not_undecided⟩
        · exact next.of_same rfl rfl
  obtain ⟨held', rest⟩ := held.processWaitingBuffer _ calm.2
  rw [calls, List.foldl_cons, List.forall_mem_cons]
  exact ⟨held', and_congr h.askedRight rest⟩

end Asked

/-- What comes to the keyboard: an event for the engine, or a change elsewhere of the layers and of the rest -/
inductive Input (board : Board) (τ : Type) where
  | event (event : KeyEvent)
  | elsewhere (event : LayerEvent board) (rest : τ)

section Runs

variable {board : Board} {τ : Type} (f : Firmware board τ)

def stepOn (s : Engine (Keyboard board τ)) : Input board τ → Engine (Keyboard board τ)
  | .event event => step f.env s event
  | .elsewhere event rest => { s with keyboard := ⟨s.keyboard.layers.happens event, rest⟩ }

/-- The calls of `process_tapping` of a step -/
def callsOn (s : Engine (Keyboard board τ)) : Input board τ → List (Engine (Keyboard board τ) × Record)
  | .event event => calls f.env s event.record
  | .elsewhere _ _ => []

/-- All calls of a run, in their order -/
def trace : Engine (Keyboard board τ) → List (Input board τ) → List (Engine (Keyboard board τ) × Record)
  | _, [] => []
  | s, input :: inputs => callsOn f s input ++ trace (stepOn f s input) inputs

/-- Nothing but the engine presses the undecided key. -/
def Calm (s : Engine (Keyboard board τ)) : Input board τ → Prop
  | .event event => ∀ c ∈ calls f.env s event.record, Undisturbed f c
  | .elsewhere event _ => s.tappingKey.Undecided → ¬ event.Presses s.tappingKey.event.key

def startOn (layerState defaultLayerState : Layer.LayerState (2 ^ board.maxLayerBits)) (rest : τ) :
    Engine (Keyboard board τ) :=
  .start ⟨{ Layers.initial board with layerState, defaultLayerState }, rest⟩

variable {f}

theorem Held.stepOn {keycodes : List UInt16} {s : Engine (Keyboard board τ)} (h : Held keycodes s) {input : Input board τ}
    (calm : Calm f s input) :
    Held ((callsOn f s input).foldl (carried f) keycodes) (stepOn f s input) ∧
      (Lib.Along (carried f) (AskedRight f) keycodes (callsOn f s input) ↔ ∀ c ∈ callsOn f s input, Current f c) := by
  cases input with
  | event event => exact h.actionTappingProcess calm
  | elsewhere event rest =>
    refine ⟨⟨Layers.happens_enabled h.enabled event, fun undecided keycode mem => ?_⟩, by simp [callsOn, Lib.Along]⟩
    have reads := Layers.read_happens h.enabled (calm undecided)
    rw [h.cached undecided keycode mem, Keyboard.cachedKeycode, ← reads]
    rfl

theorem Held.trace {keycodes : List UInt16} {s : Engine (Keyboard board τ)} (h : Held keycodes s)
    {inputs : List (Input board τ)} (calm : Lib.Along (Tapping.stepOn f) (Calm f) s inputs) :
    Lib.Along (carried f) (AskedRight f) keycodes (trace f s inputs) ↔ ∀ c ∈ trace f s inputs, Current f c := by
  induction inputs generalizing s keycodes with
  | nil => simp [Tapping.trace, Lib.Along]
  | cons input inputs ih =>
    obtain ⟨held, right⟩ := h.stepOn calm.1
    rw [Tapping.trace, Lib.Along.append, List.forall_mem_append]
    exact and_congr right (ih held calm.2)

theorem held_startOn (layerState defaultLayerState : Layer.LayerState (2 ^ board.maxLayerBits)) (rest : τ) :
    Held [] (startOn layerState defaultLayerState rest : Engine (Keyboard board τ)) :=
  ⟨rfl, fun _ _ mem => absurd mem List.not_mem_nil⟩

/-- **The settings of the pending key.** In every run in which nothing else presses an undecided key, every setting asked for
about a press is that of the keycode with which the press is processed, if and only if at every call that hands such a press
out its key has the same keycode on the layer in the cache and on the layer on which it is found. -/
theorem settings_of_press (f : Firmware board τ) (layerState defaultLayerState : Layer.LayerState (2 ^ board.maxLayerBits))
    (rest : τ) (inputs : List (Input board τ))
    (calm : Lib.Along (stepOn f) (Calm f) (startOn layerState defaultLayerState rest) inputs) :
    Lib.Along (carried f) (AskedRight f) [] (trace f (startOn layerState defaultLayerState rest) inputs) ↔
      ∀ c ∈ trace f (startOn layerState defaultLayerState rest) inputs, Current f c := by
  exact (held_startOn layerState defaultLayerState rest).trace calm

instance (c : Engine (Keyboard board τ) × Record) : Decidable (Undisturbed f c) := inferInstanceAs (Decidable (_ → _ → _ → _))

instance (s : Engine (Keyboard board τ)) : ∀ input, Decidable (Calm f s input)
  | .event event => inferInstanceAs (Decidable (∀ c ∈ calls f.env s event.record, Undisturbed f c))
  | .elsewhere event _ => inferInstanceAs (Decidable (s.tappingKey.Undecided → ¬ event.Presses s.tappingKey.event.key))

instance (keycodes : List UInt16) (c : Engine (Keyboard board τ) × Record) : Decidable (AskedRight f keycodes c) :=
  inferInstanceAs (Decidable (∀ t ∈ asks f.env c.1 c.2, _ → ∀ keycode ∈ asked f keycodes c, _))

instance (c : Engine (Keyboard board τ) × Record) : Decidable (Current f c) :=
  inferInstanceAs (Decidable (∀ t ∈ asks f.env c.1 c.2, _ → _))

end Runs

/-! ## A key with two terms -/

/-- Left shift and A on layer 0, left control and B on layer 1 -/
def twoLayers : Board where
  matrixRows := 1
  matrixCols := 1
  numEncoders := none
  maxLayerBits := 3
  maxLayer := 2
  keymapKeyToKeycode layer _ := if layer = 0 then 0x2204 else 0x2105
  actionForKeycode keycode := keycode
  rows_le := Layer.LayerWorld.one_le_rows
  cols_le := Layer.LayerWorld.one_le_rows
  fits := Layer.LayerWorld.two_le_eight
  layers_le := Layer.LayerWorld.two_le_layers

/-- The key of layer 1 has a term three times as long. -/
def termPerKey : Firmware twoLayers Unit where
  getTappingTerm _ keycode _ := if keycode = 0x2105 then 300 else 100
  getQuickTapTerm _ keycode _ := if keycode = 0x2105 then 300 else 100
  getPermissiveHold _ _ _ := false
  getHoldOnOtherKeyPress _ _ _ := false
  getRetroTapping _ _ _ := false
  retroShift := 0
  onLayers _ _ record := [.action record.event.pressed record.event.key]
  onRest _ _ _ := ()
  processRecordTapHint _ _ := ()
  retroShiftSwapTimes _ := ()
  clearKeyboard _ := ()
  cancelsTap _ _ := false
  releasesOneshot _ _ := false
  resetsTap _ _ := false

/-- The key is tapped for 50 ms. -/
def shortTap : List (Input twoLayers Unit) := [.event ⟨⟨0, 0⟩, true, 10⟩, .event ⟨⟨0, 0⟩, false, 60⟩]

theorem settings_of_press_shortTap :
    Lib.Along (carried termPerKey) (AskedRight termPerKey) [] (trace termPerKey (startOn 0 1 ()) shortTap) :=
  (settings_of_press termPerKey 0 1 () shortTap (by decide)).2 (by decide)

/-- The key is tapped on layer 0, layer 1 comes on, and the key is down for 150 ms: its term is 300 ms there, but that of layer
0 makes it held. -/
theorem term_of_earlier_press :
    let inputs := shortTap ++
      [.elsewhere (.setLayers 2 1) (), .event ⟨⟨0, 0⟩, true, 1000⟩, .event ⟨⟨0, 0⟩, false, 1150⟩]
    let s := inputs.foldl (stepOn termPerKey) (startOn 0 1 ())
    Lib.Along (stepOn termPerKey) (Calm termPerKey) (startOn 0 1 ()) inputs ∧
      s.handed[2]?.map Handed.record = some ⟨⟨⟨0, 0⟩, true, 1000⟩, ⟨false, 0⟩⟩ ∧
      s.keyboard.cachedKeycode ⟨0, 0⟩ = 0x2105 ∧
      ¬ Lib.Along (carried termPerKey) (AskedRight termPerKey) [] (trace termPerKey (startOn 0 1 ()) inputs) := by
  intro inputs s
  have calm : Lib.Along (stepOn termPerKey) (Calm termPerKey) (startOn 0 1 ()) inputs := by decide
  refine ⟨calm, by decide, by decide, fun right => ?_⟩
  exact absurd (((held_startOn 0 1 ()).trace calm).1 right) (by decide)

end QmkFirmware.Tapping
