import QmkFirmware.AutoShift.Options

/-!
# The shifts that Auto Shift takes away

A shift that the user holds is taken away while an auto-shifted key is pressed for him, and is
remembered by a flag. `autoshift_flush_shift` gives it back. A key that stays down to
repeat delays this until it is released, and then it comes only if the key is still
the last one that Auto Shift has seen.
-/

namespace QmkFirmware.AutoShift

open Lib

/-! ## The keyboard -/

/-- What the keymap and the tapping make of a key: modifiers other than the shifts, weak modifiers and one-shot modifiers,
and a key for the host -/
structure Action where
  mods : BitVec 8
  weak : BitVec 8
  oneshot : BitVec 8
  key : Option (BitVec 8)
  noShift : mods &&& (modLsft ||| modRsft) = 0
  basic : ∀ code ∈ key, isBasicKeycode code = true

namespace Action

/-- `process_action` at a press -/
def press (a : Action) (s : State) : State :=
  let s := { s with mods := s.mods ||| a.mods, weakMods := s.weakMods ||| a.weak }
  let s := match a.key with
    | none => s
    | some code => (s.registerCode code).sendKeyboardReport
  { s with oneshotMods := s.oneshotMods ||| a.oneshot }

/-- `process_action` at a release -/
def release (a : Action) (s : State) : State :=
  let s := match a.key with
    | none => s
    | some code => s.unregisterCode code
  { s with mods := s.mods &&& ~~~a.mods, weakMods := s.weakMods &&& ~~~a.weak }.sendKeyboardReport

end Action

/-- What is pressed: a keycode, whether it is a tap-hold key that is used to hold, and its action -/
structure Pressed where
  code : Keycode
  hold : Bool
  action : Action

/-- A key that is auto-shifted -/
def Pressed.auto (o : Options) (p : Pressed) : Bool := o.autoShifted p.code && !(isRetro p.code && p.hold)

/-- The code, and which keys and shifts are physically held -/
structure Board (K : Type) where
  state : State
  down : K → Option Pressed
  leftShift : Bool
  rightShift : Bool

/-- What is processed, with the time that `process_auto_shift` takes for it. `action_exec` clears the weak modifiers when a press
arrives, which may wait for the tapping before it is processed. One-shot modifiers time out, or another report uses them up. -/
inductive Event (K : Type) where
  | arrival
  | press (key : K) (what : Pressed) (now : BitVec 16)
  | release (key : K) (now : BitVec 16)
  | leftShift (pressed : Bool) (now : BitVec 16)
  | rightShift (pressed : Bool) (now : BitVec 16)
  | scan (now : BitVec 16)
  | oneshotEnd

namespace Board

variable {K : Type} [DecidableEq K] (o : Options)

def initial (enabled : Bool) (timeout : BitVec 16) : Board K :=
  ⟨{ State.initial timeout with enabled }, fun _ => none, false, false⟩

/-- A record that `process_auto_shift` lets pass reaches its action. -/
def record (s : State) (code : Keycode) (pressed hold : Bool) (now : BitVec 16) (action : State → State) : State :=
  match o.processAutoShift s code pressed hold now with
  | (true, s) => action s
  | (false, s) => s

def step (b : Board K) : Event K → Board K
  | .arrival => { b with state := b.state.clearWeakMods }
  | .press key p now =>
    { b with
      state := record o b.state p.code true p.hold now p.action.press
      down := Function.update b.down key (some p) }
  | .release key now =>
    match b.down key with
    | none => b
    | some p =>
      { b with
        state := record o b.state p.code false p.hold now p.action.release
        down := Function.update b.down key none }
  | .leftShift pressed now =>
    { b with
      state := record o b.state kcLeftShift pressed false now fun s => s.processAction kcLeftShift pressed
      leftShift := pressed }
  | .rightShift pressed now =>
    { b with
      state := record o b.state kcRightShift pressed false now fun s => s.processAction kcRightShift pressed
      rightShift := pressed }
  | .scan now => { b with state := o.autoshiftMatrixScan b.state now }
  | .oneshotEnd => { b with state := { b.state with oneshotMods := 0 } }

/-- What is up goes down and what is down goes up. The keys are not the shifts, and the action of a key that is auto-shifted
has the modifiers of its keycode. -/
def Possible (b : Board K) : Event K → Prop
  | .press key p _ => b.down key = none ∧ p.code ≠ kcLeftShift ∧ p.code ≠ kcRightShift ∧
      (p.auto o = true → p.action.weak = extractModBits (State.hostCode p.code))
  | .release key _ => b.down key ≠ none
  | .leftShift pressed _ => b.leftShift ≠ pressed
  | .rightShift pressed _ => b.rightShift ≠ pressed
  | .arrival | .scan _ | .oneshotEnd => True

instance (b : Board K) : ∀ e, Decidable (b.Possible o e)
  | .press key p _ => inferInstanceAs (Decidable (b.down key = none ∧ p.code ≠ kcLeftShift ∧ p.code ≠ kcRightShift ∧
      (p.auto o = true → p.action.weak = extractModBits (State.hostCode p.code))))
  | .release key _ => inferInstanceAs (Decidable (¬ b.down key = none))
  | .leftShift pressed _ => inferInstanceAs (Decidable (b.leftShift ≠ pressed))
  | .rightShift pressed _ => inferInstanceAs (Decidable (b.rightShift ≠ pressed))
  | .arrival | .scan _ | .oneshotEnd => isTrue trivial

/-- No key that is auto-shifted is held. -/
def NoneHeld (b : Board K) : Prop := ∀ key p, b.down key = some p → p.auto o = false

/-- A key that is held has this weak shift of its own. -/
def OwnShift (b : Board K) : Prop := ∃ key p, b.down key = some p ∧ p.action.weak &&& modLsft ≠ 0

/-- The shifts are those that the user holds, and a weak shift belongs to a key that is held. -/
structure Restored (b : Board K) : Prop where
  left : b.state.mods &&& modLsft ≠ 0 ↔ b.leftShift = true
  right : b.state.mods &&& modRsft ≠ 0 ↔ b.rightShift = true
  weak : b.state.weakMods &&& modLsft ≠ 0 → b.OwnShift

/-- Auto Shift has given the shifts back, unless one of its keys is held or pending. -/
def GivenBack (b : Board K) : Prop := b.NoneHeld o → b.state.inProgress = false → b.Restored

/-- A shift that the user holds has been taken away. -/
def Taken (b : Board K) : Prop := b.state.cancellingLshift = true ∨ b.state.cancellingRshift = true

/-- A weak shift is set that stays when this key goes up, and that no other key has of its own. -/
def Left (b : Board K) (key : K) (p : Pressed) : Prop :=
  b.state.weakMods &&& ~~~p.action.weak &&& modLsft ≠ 0 ∧
    ∀ other p', other ≠ key → b.down other = some p' → p'.action.weak &&& modLsft = 0

/-- When the last key that is auto-shifted goes up, and a shift is taken away or a weak one left, this is the last key that Auto Shift
has seen. -/
def Seen (b : Board K) : Event K → Prop
  | .release key _ => ∀ p, b.down key = some p → p.auto o = true → b.state.enabled = true →
      (∀ other p', other ≠ key → b.down other = some p' → p'.auto o = false) → b.Taken ∨ b.Left key p →
        p.code = b.state.lastkey
  | _ => True

end Board

/-! ## Bits of the modifiers -/

theorem left_iff (m : BitVec 8) : m &&& modLsft ≠ 0 ↔ m.getLsbD 1 = true := by
  revert m
  decide

theorem right_iff (m : BitVec 8) : m &&& modRsft ≠ 0 ↔ m.getLsbD 5 = true := by
  revert m
  decide

theorem getLsbD_modLsft (i : Nat) : modLsft.getLsbD i = decide (i = 1) := by
  by_cases small : i < 8
  · interval_cases i <;> rfl
  · rw [BitVec.getLsbD_of_ge _ _ (by omega)]
    exact (decide_eq_false (by omega)).symm

@[simp] theorem modLsft_left : modLsft[1] = true := rfl

@[simp] theorem modLsft_right : modLsft[5] = false := rfl

@[simp] theorem modRsft_left : modRsft[1] = false := rfl

@[simp] theorem modRsft_right : modRsft[5] = true := rfl

theorem Action.left_clear (a : Action) : a.mods.getLsbD 1 = false := by
  have none := a.noShift
  generalize a.mods = m at none
  revert m
  decide

theorem Action.right_clear (a : Action) : a.mods.getLsbD 5 = false := by
  have none := a.noShift
  generalize a.mods = m at none
  revert m
  decide

/-- No modifier is set but the left shift, so that a key is not left alone. -/
def State.Alone (s : State) : Prop := ∀ i, i ≠ 1 → s.mods.getLsbD i = false ∧ s.oneshotMods.getLsbD i = false

theorem alone_iff (s : State) : (s.mods ||| s.oneshotMods) &&& ~~~modLsft = 0 ↔ s.Alone := by
  constructor
  · intro none i other
    have bit := congrArg (fun m => BitVec.getLsbD m i) none
    simp only [BitVec.getLsbD_and, BitVec.getLsbD_or, BitVec.getLsbD_not, getLsbD_modLsft,
      other, decide_false, Bool.not_false, Bool.and_true] at bit
    by_cases small : i < 8
    · simpa [small] using bit
    · exact ⟨BitVec.getLsbD_of_ge _ _ (by omega), BitVec.getLsbD_of_ge _ _ (by omega)⟩
  · intro alone
    apply BitVec.eq_of_getLsbD_eq
    intro i small
    simp only [BitVec.getLsbD_and, BitVec.getLsbD_or, BitVec.getLsbD_not, getLsbD_modLsft]
    by_cases one : i = 1
    · simp [one]
    · simp [alone i one]

/-! ## What the parts of the code change -/

theorem NoModifier.whole {code : Keycode} (plain : NoModifier code) : isModifierKeycode code = false := by
  unfold NoModifier isModifierKeycode at *
  simp only [Bool.and_eq_false_iff, decide_eq_false_iff_not] at plain ⊢
  bv_omega

namespace State

/-- Only keys, weak modifiers and times are changed, and one-shot modifiers used up. -/
structure Same (s t : State) : Prop where
  mods : t.mods = s.mods
  oneshotMods : t.oneshotMods = s.oneshotMods ∨ t.oneshotMods = 0
  cancellingLshift : t.cancellingLshift = s.cancellingLshift
  cancellingRshift : t.cancellingRshift = s.cancellingRshift
  inProgress : t.inProgress = s.inProgress
  lastkey : t.lastkey = s.lastkey
  enabled : t.enabled = s.enabled

variable {s t u : State}

theorem Same.refl (s : State) : Same s s := ⟨rfl, Or.inl rfl, rfl, rfl, rfl, rfl, rfl⟩

theorem same_weakMods (s : State) (weakMods : BitVec 8) : Same s { s with weakMods } :=
  ⟨rfl, Or.inl rfl, rfl, rfl, rfl, rfl, rfl⟩

theorem Same.trans (first : Same s t) (second : Same t u) : Same s u where
  mods := second.mods.trans first.mods
  oneshotMods := by
    rcases second.oneshotMods with same | none
    · rw [same]
      exact first.oneshotMods
    · exact Or.inr none
  cancellingLshift := second.cancellingLshift.trans first.cancellingLshift
  cancellingRshift := second.cancellingRshift.trans first.cancellingRshift
  inProgress := second.inProgress.trans first.inProgress
  lastkey := second.lastkey.trans first.lastkey
  enabled := second.enabled.trans first.enabled

theorem Same.alone (same : Same s t) (alone : s.Alone) : t.Alone := by
  intro i other
  obtain ⟨mods, oneshot⟩ := alone i other
  refine ⟨by rw [same.mods]; exact mods, ?_⟩
  rcases same.oneshotMods with kept | none
  · rw [kept]
    exact oneshot
  · rw [none]
    exact BitVec.getLsbD_zero

theorem sendKeyboardReport_same (s : State) : Same s s.sendKeyboardReport := by
  unfold sendKeyboardReport
  split
  next => exact Same.refl s
  next => exact ⟨rfl, Or.inr rfl, rfl, rfl, rfl, rfl, rfl⟩

@[simp] theorem sendKeyboardReport_weakMods (s : State) : s.sendKeyboardReport.weakMods = s.weakMods := by
  unfold sendKeyboardReport
  split <;> rfl

theorem registerCode_same {code : BitVec 8}
    (plain : isModifierKeycode (code.zeroExtend 16) = true → isBasicKeycode code = true) :
    Same s (s.registerCode code) ∧ (s.registerCode code).weakMods = s.weakMods := by
  unfold registerCode
  split
  next => exact ⟨⟨rfl, Or.inl rfl, rfl, rfl, rfl, rfl, rfl⟩, rfl⟩
  next other =>
    rw [if_neg fun modifier => other (plain modifier)]
    exact ⟨Same.refl s, rfl⟩

theorem unregisterCode_same {code : BitVec 8}
    (plain : isModifierKeycode (code.zeroExtend 16) = true → isBasicKeycode code = true) :
    Same s (s.unregisterCode code) ∧ (s.unregisterCode code).weakMods = s.weakMods := by
  unfold unregisterCode
  split
  next => exact ⟨⟨rfl, Or.inl rfl, rfl, rfl, rfl, rfl, rfl⟩, rfl⟩
  next other =>
    rw [if_neg fun modifier => other (plain modifier)]
    exact ⟨Same.refl s, rfl⟩

theorem registerCode16_same {code : Keycode} (plain : NoModifier code) :
    Same s (s.registerCode16 code) := by
  have low : isModifierKeycode ((code.truncate 8 : BitVec 8).zeroExtend 16) = true → isBasicKeycode (code.truncate 8) = true :=
    fun modifier => absurd (plain.symm.trans modifier) Bool.false_ne_true
  unfold registerCode16
  rw [plain.whole, Bool.false_or]
  split
  next none =>
    have zero : extractModBits code = 0#8 := by
      rw [eq_of_beq none]
      rfl
    rw [zero, BitVec.or_zero]
    exact (registerCode_same low).1
  next => exact (same_weakMods s _).trans (registerCode_same low).1

theorem unregisterCode16_same {code : Keycode} (plain : NoModifier code) :
    Same s (s.unregisterCode16 code) ∧ (s.unregisterCode16 code).weakMods = s.weakMods &&& ~~~extractModBits code := by
  have low : isModifierKeycode ((code.truncate 8 : BitVec 8).zeroExtend 16) = true → isBasicKeycode (code.truncate 8) = true :=
    fun modifier => absurd (plain.symm.trans modifier) Bool.false_ne_true
  obtain ⟨same, weak⟩ := @unregisterCode_same s _ low
  unfold unregisterCode16
  dsimp only
  rw [plain.whole, Bool.false_or]
  split
  next none =>
    have zero : extractModBits code = 0#8 := by
      rw [eq_of_beq none]
      rfl
    have all (m : BitVec 8) : m &&& ~~~0#8 = m := BitVec.and_allOnes
    rw [zero, all, all]
    exact ⟨same, weak⟩
  next =>
    exact ⟨same.trans (same_weakMods _ _), by rw [weak]⟩

theorem pressUser_same {keycode : Keycode} (shifted : Bool) (plain : NoModifier (hostCode keycode)) :
    Same s (s.pressUser keycode shifted) := by
  unfold pressUser autoshiftPressUser
  cases shifted with
  | false => exact (registerCode16_same plain).trans (sendKeyboardReport_same _)
  | true => exact (same_weakMods s _).trans ((registerCode16_same plain).trans (sendKeyboardReport_same _))

theorem releaseUser_same {keycode : Keycode} (shifted : Bool) (plain : NoModifier (hostCode keycode)) :
    Same s (s.releaseUser keycode shifted) ∧
      (s.releaseUser keycode shifted).weakMods = s.weakMods &&& ~~~extractModBits (hostCode keycode) := by
  unfold releaseUser autoshiftReleaseUser
  rw [sendKeyboardReport_weakMods]
  obtain ⟨same, weak⟩ := @unregisterCode16_same s _ plain
  exact ⟨same.trans (sendKeyboardReport_same _), weak⟩

end State

/-! ## Shifts that are taken away and given back -/

/-- Each shift that the user holds is either set or remembered by its flag. A right shift is only taken away
if keys are not left alone because of other modifiers. -/
structure Shifts (o : Options) (s : State) (leftShift rightShift : Bool) : Prop where
  left : (s.mods.getLsbD 1 || s.cancellingLshift) = leftShift
  leftOnce : (s.mods.getLsbD 1 && s.cancellingLshift) = false
  right : (s.mods.getLsbD 5 || s.cancellingRshift) = rightShift
  rightOnce : (s.mods.getLsbD 5 && s.cancellingRshift) = false
  rightTaken : s.cancellingRshift = true → o.modifiers = true

namespace Shifts

variable {o : Options} {s t : State} {leftShift rightShift : Bool}

/-- It depends on the modifiers and the two flags only. -/
theorem congr (shifts : Shifts o s leftShift rightShift) (mods : t.mods = s.mods)
    (lshift : t.cancellingLshift = s.cancellingLshift) (rshift : t.cancellingRshift = s.cancellingRshift) :
    Shifts o t leftShift rightShift where
  left := by rw [mods, lshift]; exact shifts.left
  leftOnce := by rw [mods, lshift]; exact shifts.leftOnce
  right := by rw [mods, rshift]; exact shifts.right
  rightOnce := by rw [mods, rshift]; exact shifts.rightOnce
  rightTaken := by rw [rshift]; exact shifts.rightTaken

theorem same (shifts : Shifts o s leftShift rightShift) (same : s.Same t) : Shifts o t leftShift rightShift :=
  shifts.congr same.mods same.cancellingLshift same.cancellingRshift

theorem cancelLshift (shifts : Shifts o s leftShift rightShift) : Shifts o s.cancelLshift leftShift rightShift := by
  unfold State.cancelLshift
  split
  next set =>
    have set := (left_iff _).1 set
    obtain ⟨left, -, right, rightOnce, rightTaken⟩ := shifts
    rw [set, Bool.true_or] at left
    refine ⟨?_, ?_, ?_, ?_, rightTaken⟩
    · exact (Bool.or_true _).trans left
    · simp
    · simpa using right
    · simpa using rightOnce
  next => exact shifts

theorem cancelRshift (shifts : Shifts o s leftShift rightShift) (allowed : o.modifiers = true ∨ s.Alone) :
    Shifts o s.cancelRshift leftShift rightShift := by
  unfold State.cancelRshift
  split
  next set =>
    have set := (right_iff _).1 set
    obtain ⟨left, leftOnce, right, -, -⟩ := shifts
    rw [set, Bool.true_or] at right
    refine ⟨?_, ?_, ?_, ?_, fun _ => ?_⟩
    · simpa using left
    · simpa using leftOnce
    · exact (Bool.or_true _).trans right
    · simp
    · refine allowed.resolve_right fun alone => ?_
      rw [(alone 5 (by decide)).1] at set
      exact Bool.false_ne_true set
  next => exact shifts

theorem restoreLshift (shifts : Shifts o s leftShift rightShift) :
    Shifts o s.restoreLshift leftShift rightShift ∧ s.restoreLshift.cancellingLshift = false := by
  unfold State.restoreLshift
  split
  next taken =>
    obtain ⟨left, -, right, rightOnce, rightTaken⟩ := shifts
    rw [taken, Bool.or_true] at left
    refine ⟨⟨?_, ?_, ?_, ?_, rightTaken⟩, rfl⟩
    · simpa using left
    · exact Bool.and_false _
    · simpa using right
    · simpa using rightOnce
  next kept => exact ⟨shifts, Bool.not_eq_true _ ▸ kept⟩

theorem restoreRshift (shifts : Shifts o s leftShift rightShift) :
    Shifts o s.restoreRshift leftShift rightShift ∧ s.restoreRshift.cancellingRshift = false := by
  unfold State.restoreRshift
  split
  next taken =>
    obtain ⟨left, leftOnce, right, -, -⟩ := shifts
    rw [taken, Bool.or_true] at right
    refine ⟨⟨?_, ?_, ?_, ?_, fun no => absurd no Bool.false_ne_true⟩, rfl⟩
    · simpa using left
    · simpa using leftOnce
    · simpa using right
    · exact Bool.and_false _
  next kept => exact ⟨shifts, Bool.not_eq_true _ ▸ kept⟩

end Shifts

namespace State

/-- Nothing is changed but the shifts and the one-shot modifiers, and that only to take away. -/
structure Kept (s t : State) : Prop where
  inProgress : t.inProgress = s.inProgress
  lastkey : t.lastkey = s.lastkey
  enabled : t.enabled = s.enabled
  weakMods : t.weakMods = s.weakMods
  lastshifted : t.lastshifted = s.lastshifted

variable {s t u : State}

theorem Kept.refl (s : State) : Kept s s := ⟨rfl, rfl, rfl, rfl, rfl⟩

theorem Kept.trans (first : Kept s t) (second : Kept t u) : Kept s u where
  inProgress := second.inProgress.trans first.inProgress
  lastkey := second.lastkey.trans first.lastkey
  enabled := second.enabled.trans first.enabled
  weakMods := second.weakMods.trans first.weakMods
  lastshifted := second.lastshifted.trans first.lastshifted

theorem cancelShifts_kept (s : State) : Kept s s.cancelShifts := by
  have left : Kept s s.cancelLshift := by
    unfold cancelLshift
    split
    next => exact ⟨rfl, rfl, rfl, rfl, rfl⟩
    next => exact Kept.refl s
  have right : Kept s.cancelLshift s.cancelLshift.cancelRshift := by
    unfold cancelRshift
    split
    next => exact ⟨rfl, rfl, rfl, rfl, rfl⟩
    next => exact Kept.refl _
  exact left.trans right

theorem restoreShifts_kept (s : State) : Kept s s.restoreLshift.restoreRshift := by
  have left : Kept s s.restoreLshift := by
    unfold restoreLshift
    split
    next => exact ⟨rfl, rfl, rfl, rfl, rfl⟩
    next => exact Kept.refl s
  have right : Kept s.restoreLshift s.restoreLshift.restoreRshift := by
    unfold restoreRshift
    split
    next => exact ⟨rfl, rfl, rfl, rfl, rfl⟩
    next => exact Kept.refl _
  exact left.trans right

/-- Taking modifiers away leaves no others than before. -/
theorem Alone.fewer (alone : s.Alone) (mods : ∃ kept, t.mods = s.mods &&& kept)
    (oneshot : t.oneshotMods = s.oneshotMods ∨ t.oneshotMods = 0) : t.Alone := by
  intro i other
  obtain ⟨held, before⟩ := alone i other
  obtain ⟨kept, mods⟩ := mods
  constructor
  · rw [mods, BitVec.getLsbD_and, held, Bool.false_and]
  · rcases oneshot with same | none
    · rw [same]
      exact before
    · rw [none]
      exact BitVec.getLsbD_zero

theorem cancelShifts_alone (alone : s.Alone) : s.cancelShifts.Alone := by
  have left : s.cancelLshift.Alone := by
    unfold cancelLshift
    split
    next => exact alone.fewer ⟨_, rfl⟩ (Or.inl rfl)
    next => exact alone
  unfold cancelShifts cancelRshift
  split
  next => exact left.fewer ⟨_, rfl⟩ (Or.inl rfl)
  next => exact left

theorem restoreRshift_cancellingLshift (s : State) : s.restoreRshift.cancellingLshift = s.cancellingLshift := by
  unfold restoreRshift
  split <;> rfl

theorem flushShift_kept (s : State) : s.flushShift.inProgress = s.inProgress ∧ s.flushShift.lastkey = s.lastkey ∧
    s.flushShift.enabled = s.enabled := by
  have kept := restoreShifts_kept { s with holdingShift := false, weakMods := s.weakMods &&& ~~~modLsft }
  have same := sendKeyboardReport_same s.autoshiftFlushShift
  exact ⟨same.inProgress.trans kept.inProgress, same.lastkey.trans kept.lastkey, same.enabled.trans kept.enabled⟩

end State

/-- No shift is taken away, and there is no weak shift. -/
structure Flushed (o : Options) (s : State) (leftShift rightShift : Bool) : Prop where
  shifts : Shifts o s leftShift rightShift
  left : s.cancellingLshift = false
  right : s.cancellingRshift = false
  weak : s.weakMods.getLsbD 1 = false

theorem Shifts.flush {o : Options} {s : State} {leftShift rightShift : Bool} (shifts : Shifts o s leftShift rightShift) :
    Flushed o s.flushShift leftShift rightShift := by
  have start : Shifts o { s with holdingShift := false, weakMods := s.weakMods &&& ~~~modLsft } leftShift rightShift :=
    shifts.congr rfl rfl rfl
  obtain ⟨half, left⟩ := start.restoreLshift
  obtain ⟨whole, right⟩ := half.restoreRshift
  have same := State.sendKeyboardReport_same s.autoshiftFlushShift
  have weak := (State.restoreShifts_kept
    { s with holdingShift := false, weakMods := s.weakMods &&& ~~~modLsft }).weakMods
  refine ⟨whole.same same, ?_, ?_, ?_⟩
  · exact same.cancellingLshift.trans ((State.restoreRshift_cancellingLshift _).trans left)
  · exact same.cancellingRshift.trans right
  · unfold State.flushShift State.autoshiftFlushShift
    rw [State.sendKeyboardReport_weakMods, weak]
    simp

/-! ## The invariant -/

/-- A key that Auto Shift has seen last is held, and no other modifier would have left it alone. -/
def Watched (o : Options) (s : State) (held : Keycode → Prop) : Prop :=
  s.enabled = true ∧ held s.lastkey ∧ (o.modifiers = true ∨ s.Alone)

/-- What holds between any two events, with the shifts that are held, whether a key with a weak shift of its own is held, and
the codes of the keys that are held and auto-shifted. Any of these may have left a weak shift that is set. -/
structure Inv (o : Options) (s : State) (leftShift rightShift : Bool) (own : Prop) (held : Keycode → Prop) : Prop where
  shifts : Shifts o s leftShift rightShift
  taken : s.cancellingLshift = true ∨ s.cancellingRshift = true → s.enabled = true
  weak : s.weakMods.getLsbD 1 = true → own ∨ s.enabled = true ∧ ∃ code, held code
  pending : s.inProgress = true → Watched o s held
  clear : (∀ code, ¬ held code) → s.cancellingLshift = false ∧ s.cancellingRshift = false

section Steps

variable {o : Options} {s t : State} {leftShift rightShift : Bool} {own own' : Prop} {held held' : Keycode → Prop}

theorem Inv.clear_of_disabled (inv : Inv o s leftShift rightShift own held) (disabled : s.enabled = false) :
    s.cancellingLshift = false ∧ s.cancellingRshift = false := by
  constructor
  · exact Bool.eq_false_iff.2 fun left => Bool.false_ne_true (disabled.symm.trans (inv.taken (Or.inl left)))
  · exact Bool.eq_false_iff.2 fun right => Bool.false_ne_true (disabled.symm.trans (inv.taken (Or.inr right)))

theorem Flushed.inv (flushed : Flushed o s leftShift rightShift) (idle : s.inProgress = false) :
    Inv o s leftShift rightShift own held where
  shifts := flushed.shifts
  taken := by
    rw [flushed.left, flushed.right]
    rintro (no | no) <;> exact absurd no Bool.false_ne_true
  weak := fun weak => absurd (flushed.weak.symm.trans weak) Bool.false_ne_true
  pending := fun pending => absurd (idle.symm.trans pending) Bool.false_ne_true
  clear := fun _ => ⟨flushed.left, flushed.right⟩

theorem Watched.same (watched : Watched o s held) (same : s.Same t) : Watched o t held := by
  obtain ⟨enabled, last, allowed⟩ := watched
  refine ⟨same.enabled.trans enabled, ?_, allowed.imp id same.alone⟩
  rw [same.lastkey]
  exact last

theorem Watched.cancelShifts (watched : Watched o s held) : Watched o s.cancelShifts held := by
  obtain ⟨enabled, last, allowed⟩ := watched
  have kept := s.cancelShifts_kept
  refine ⟨kept.enabled.trans enabled, ?_, allowed.imp id State.cancelShifts_alone⟩
  rw [kept.lastkey]
  exact last

theorem Shifts.cancelShifts (shifts : Shifts o s leftShift rightShift) (allowed : o.modifiers = true ∨ s.Alone) :
    Shifts o s.cancelShifts leftShift rightShift := by
  refine shifts.cancelLshift.cancelRshift (allowed.imp id fun alone => ?_)
  unfold State.cancelLshift
  split
  next => exact alone.fewer ⟨_, rfl⟩ (Or.inl rfl)
  next => exact alone

/-- What the pending key leaves, once it is evaluated: a key that stays down, or everything given back -/
structure Evaluated (o : Options) (s t : State) (leftShift rightShift : Bool) (held : Keycode → Prop) : Prop where
  inProgress : t.inProgress = false
  lastkey : t.lastkey = s.lastkey
  enabled : t.enabled = s.enabled
  left : Flushed o t leftShift rightShift ∨ Shifts o t leftShift rightShift ∧ Watched o t held

theorem Evaluated.inv (evaluated : Evaluated o s t leftShift rightShift held) :
    Inv o t leftShift rightShift own held := by
  rcases evaluated.left with flushed | ⟨shifts, watched⟩
  · exact flushed.inv evaluated.inProgress
  · exact ⟨shifts, fun _ => watched.1, fun _ => Or.inr ⟨watched.1, _, watched.2.1⟩,
      fun pending => absurd (evaluated.inProgress.symm.trans pending) Bool.false_ne_true,
      fun none => absurd watched.2.1 (none _)⟩

theorem evaluate_evaluated (inv : Inv o s leftShift rightShift own held) (pending : s.inProgress = true)
    (plain : ∀ code, held code → NoModifier (State.hostCode code)) (now : BitVec 16) (matrixTrigger : Bool) :
    Evaluated o s (o.autoshiftEvaluate s now matrixTrigger) leftShift rightShift held ∧
      (matrixTrigger = false → Flushed o (o.autoshiftEvaluate s now matrixTrigger) leftShift rightShift) := by
  have watched := inv.pending pending
  unfold Options.autoshiftEvaluate
  dsimp only
  generalize start : State.setAutoshiftShiftState _ s.lastkey _ = s₁
  have shifts₁ : Shifts o s₁ leftShift rightShift := by
    rw [← start]
    exact inv.shifts.congr rfl rfl rfl
  have watched₁ : Watched o s₁ held := by
    rw [← start]
    exact watched
  have enabled₁ : s₁.enabled = s.enabled := by
    rw [← start]
    rfl
  have idle₁ : s₁.inProgress = false := by
    rw [← start]
    rfl
  have last₁ : s₁.lastkey = s.lastkey := by
    rw [← start]
    rfl
  have kept := s₁.cancelShifts_kept
  have shifts₁ := shifts₁.cancelShifts watched₁.2.2
  have watched₁ := watched₁.cancelShifts
  have plainKey : NoModifier (State.hostCode s₁.cancelShifts.lastkey) := plain _ watched₁.2.1
  generalize s₁.cancelShifts = s₂ at *
  have same := @State.pressUser_same s₂ _ s₂.lastshifted plainKey
  have lastkey₂ : (s₂.pressUser s₂.lastkey s₂.lastshifted).lastkey = s.lastkey := by rw [same.lastkey, kept.lastkey, last₁]
  have enabled₂ : (s₂.pressUser s₂.lastkey s₂.lastshifted).enabled = s.enabled := by rw [same.enabled, kept.enabled, enabled₁]
  have idle₂ : (s₂.pressUser s₂.lastkey s₂.lastshifted).inProgress = false := by rw [same.inProgress, kept.inProgress, idle₁]
  have shifts₂ := shifts₁.same same
  split
  next stays =>
    refine ⟨⟨idle₂, lastkey₂, enabled₂, Or.inr ⟨shifts₂, watched₁.same same⟩⟩, fun no => ?_⟩
    rw [no, Bool.false_and] at stays
    exact absurd stays Bool.false_ne_true
  next =>
    generalize s₂.pressUser s₂.lastkey s₂.lastshifted = s₃ at *
    obtain ⟨released, -⟩ := @State.releaseUser_same s₃ _ s₂.lastshifted plainKey
    obtain ⟨idle, last, enabled⟩ := (s₃.releaseUser s₂.lastkey s₂.lastshifted).flushShift_kept
    have flushed := (shifts₂.same released).flush
    have timed : Flushed o { (s₃.releaseUser s₂.lastkey s₂.lastshifted).flushShift with time := now } leftShift rightShift :=
      ⟨flushed.shifts.congr rfl rfl rfl, flushed.left, flushed.right, flushed.weak⟩
    refine ⟨⟨?_, ?_, ?_, Or.inl timed⟩, fun _ => timed⟩
    · exact idle.trans (released.inProgress.trans idle₂)
    · exact last.trans (released.lastkey.trans lastkey₂)
    · exact enabled.trans (released.enabled.trans enabled₂)

theorem Inv.same (inv : Inv o s leftShift rightShift own held) (same : s.Same t) (weak : t.weakMods = s.weakMods) :
    Inv o t leftShift rightShift own held where
  shifts := inv.shifts.same same
  taken := by
    rw [same.cancellingLshift, same.cancellingRshift, same.enabled]
    exact inv.taken
  weak := by
    rw [weak]
    rw [same.enabled]
    exact inv.weak
  pending := by
    rw [same.inProgress]
    exact fun pending => (inv.pending pending).same same
  clear := by
    rw [same.cancellingLshift, same.cancellingRshift]
    exact inv.clear

/-- A press, or the release of a tap-hold key, evaluates the key that is pending. -/
theorem interrupt (inv : Inv o s leftShift rightShift own held) (plain : ∀ code, held code → NoModifier (State.hostCode code))
    (now : BitVec 16) (evaluates : Bool) :
    ∃ t, (if s.inProgress && evaluates then o.autoshiftEnd s kcNo now false else s) = t ∧
      Inv o t leftShift rightShift own held ∧ (evaluates = true → t.inProgress = false) ∧
      (t = s ∨ Flushed o t leftShift rightShift) := by
  split
  next both =>
    obtain ⟨pending, -⟩ := (Bool.and_eq_true _ _).mp both
    have ends : o.autoshiftEnd s kcNo now false = o.autoshiftEvaluate s now false := by
      unfold Options.autoshiftEnd
      rw [pending, BEq.rfl, Bool.or_true]
      rfl
    obtain ⟨evaluated, flushed⟩ := evaluate_evaluated inv pending plain now false
    exact ⟨_, ends, evaluated.inv, fun _ => evaluated.inProgress, Or.inr (flushed rfl)⟩
  next not =>
    refine ⟨s, rfl, inv, fun evaluates => ?_, Or.inl rfl⟩
    rw [evaluates, Bool.and_true] at not
    exact Bool.eq_false_iff.2 not

/-- The keys that set Auto Shift up give the shifts back when they switch it off. -/
theorem setUp_inv (inv : Inv o s leftShift rightShift own held) (idle : s.inProgress = false) (keycode : Keycode) :
    Inv o (o.setUp s keycode) leftShift rightShift own held ∧ (o.setUp s keycode).inProgress = false := by
  have flushed (enabled : Bool) : Inv o ({ s with enabled } : State).flushShift leftShift rightShift own held ∧
      ({ s with enabled } : State).flushShift.inProgress = false := by
    have shifts : Shifts o { s with enabled } leftShift rightShift := inv.shifts.congr rfl rfl rfl
    have still := (State.flushShift_kept { s with enabled }).1.trans idle
    exact ⟨shifts.flush.inv still, still⟩
  have timed (timeout : BitVec 16) : Inv o { s with timeout } leftShift rightShift own held :=
    inv.same ⟨rfl, Or.inl rfl, rfl, rfl, rfl, rfl, rfl⟩ rfl
  unfold Options.setUp
  split_ifs
  · exact flushed _
  · refine ⟨⟨?_, fun _ => rfl, fun weak => ?_, fun pending => ?_, inv.clear⟩, idle⟩
    · exact inv.shifts.congr rfl rfl rfl
    · exact (inv.weak weak).imp id fun left => ⟨rfl, left.2⟩
    · exact absurd (idle.symm.trans pending) Bool.false_ne_true
  · exact flushed _
  · exact ⟨inv, idle⟩
  · exact ⟨timed _, idle⟩
  · exact ⟨timed _, idle⟩
  · exact ⟨inv, idle⟩

/-- A key that Auto Shift leaves to its action -/
theorem Inv.acted (inv : Inv o s leftShift rightShift own held) (idle : s.inProgress = false) (lastkey : Keycode) (a : Action)
    (heldMore : ∀ code, held code → held' code) (ownMore : own → own') (ownWeak : a.weak.getLsbD 1 = true → own') :
    Inv o (a.press { s with lastkey }) leftShift rightShift own' held' := by
  have moved : Shifts o { s with lastkey, mods := s.mods ||| a.mods, weakMods := s.weakMods ||| a.weak } leftShift rightShift := by
    obtain ⟨left, leftOnce, right, rightOnce, rightTaken⟩ := inv.shifts
    refine ⟨?_, ?_, ?_, ?_, rightTaken⟩
    all_goals rw [BitVec.getLsbD_or]
    · rw [a.left_clear, Bool.or_false]
      exact left
    · rw [a.left_clear, Bool.or_false]
      exact leftOnce
    · rw [a.right_clear, Bool.or_false]
      exact right
    · rw [a.right_clear, Bool.or_false]
      exact rightOnce
  have typed : ∃ t : State, a.press { s with lastkey } = { t with oneshotMods := t.oneshotMods ||| a.oneshot } ∧
      ({ s with lastkey, mods := s.mods ||| a.mods, weakMods := s.weakMods ||| a.weak } : State).Same t ∧
      t.weakMods = s.weakMods ||| a.weak := by
    unfold Action.press
    cases key : a.key with
    | none => exact ⟨_, rfl, State.Same.refl _, rfl⟩
    | some code =>
      obtain ⟨same, weak⟩ := @State.registerCode_same
        { s with lastkey, mods := s.mods ||| a.mods, weakMods := s.weakMods ||| a.weak } code fun _ => a.basic code key
      exact ⟨_, rfl, same.trans (State.sendKeyboardReport_same _), (State.sendKeyboardReport_weakMods _).trans weak⟩
  obtain ⟨t, pressed, same, weak⟩ := typed
  have shifts := moved.same same
  rw [pressed]
  refine ⟨shifts.congr rfl rfl rfl, ?_, ?_, ?_, fun none => ?_⟩
  · dsimp only
    rw [same.cancellingLshift, same.cancellingRshift, same.enabled]
    exact inv.taken
  · dsimp only
    rw [weak, same.enabled, BitVec.getLsbD_or, Bool.or_eq_true]
    rintro (before | its)
    · exact (inv.weak before).imp ownMore fun left => ⟨left.1, left.2.imp heldMore⟩
    · exact Or.inl (ownWeak its)
  · dsimp only
    rw [same.inProgress]
    exact fun pending => absurd (idle.symm.trans pending) Bool.false_ne_true
  · dsimp only
    rw [same.cancellingLshift, same.cancellingRshift]
    exact inv.clear fun code isHeld => none code (heldMore code isHeld)

/-- A key that is auto-shifted and goes down is left alone, repeated or held back. -/
theorem Inv.autoshiftPress {keycode : Keycode} (inv : Inv o s leftShift rightShift own held) (idle : s.inProgress = false)
    (enabled : s.enabled = true) (plain : NoModifier (State.hostCode keycode)) (isHeld : held' keycode) (now : BitVec 16) :
    (o.autoshiftPress s keycode now).1 = false ∧
      Inv o (o.autoshiftPress s keycode now).2 leftShift rightShift own' held' := by
  unfold Options.autoshiftPress
  dsimp only
  generalize other : decide ((s.mods ||| s.oneshotMods) &&& ~~~modLsft ≠ 0) = otherMods
  have alone : otherMods = false → s.Alone := by
    intro none
    rw [none, decide_eq_false_iff_not, not_not] at other
    exact (alone_iff s).1 other
  generalize last : (if otherMods then { s with lastkey := kcNo } else s) = s₁
  have same : s₁.mods = s.mods ∧ s₁.enabled = s.enabled ∧ s₁.oneshotMods = s.oneshotMods ∧
      Shifts o s₁ leftShift rightShift := by
    rw [← last]
    split
    next => exact ⟨rfl, rfl, rfl, inv.shifts.congr rfl rfl rfl⟩
    next => exact ⟨rfl, rfl, rfl, inv.shifts⟩
  have idle₁ : s₁.inProgress = false := by
    rw [← last]
    split <;> exact idle
  obtain ⟨mods, enabled₁, oneshot, shifts⟩ := same
  rw [enabled] at enabled₁
  have alone₁ (alone : s.Alone) : s₁.Alone := alone.fewer ⟨BitVec.allOnes 8, by rw [mods, BitVec.and_allOnes]⟩ (Or.inl oneshot)
  split
  next =>
    -- The key is pressed as it is.
    refine ⟨rfl, ?_⟩
    have pressed := @State.pressUser_same (s₁.setAutoshiftShiftState keycode false) _ false plain
    have shifts₂ : Shifts o (s₁.setAutoshiftShiftState keycode false) leftShift rightShift := shifts.congr rfl rfl rfl
    have shifts₃ := shifts₂.same pressed
    have enabled₃ := pressed.enabled.trans enabled₁
    refine ⟨shifts₃.congr rfl rfl rfl, fun _ => enabled₃, fun _ => Or.inr ⟨enabled₃, keycode, isHeld⟩, fun pending => ?_,
      fun none => absurd isHeld (none _)⟩
    exact absurd ((pressed.inProgress.trans idle₁).symm.trans pending) Bool.false_ne_true
  next allowed =>
    have allowed : o.modifiers = true ∨ s.Alone := by
      rw [Bool.and_eq_true, Bool.not_eq_true', not_and, Bool.not_eq_false] at allowed
      cases others : otherMods with
      | false => exact Or.inr (alone others)
      | true => exact Or.inl (allowed others)
    have allowed₁ : o.modifiers = true ∨ s₁.Alone := allowed.imp id alone₁
    split
    next again =>
      rw [← again.1]
      refine ⟨rfl, ?_⟩
      have watched : Watched o { s₁ with lastkey := keycode } held' := ⟨enabled₁, isHeld, allowed₁⟩
      have watched : Watched o s₁ held' := by
        rw [again.1] at watched
        exact watched
      have pressed := @State.pressUser_same s₁.cancelShifts _ s₁.lastshifted plain
      have watched₂ := watched.cancelShifts.same pressed
      exact ⟨(shifts.cancelShifts allowed₁).same pressed, fun _ => watched₂.1,
        fun _ => Or.inr ⟨watched₂.1, _, watched₂.2.1⟩, fun _ => watched₂, fun none => absurd isHeld (none _)⟩
    next =>
      refine ⟨rfl, shifts.congr rfl rfl rfl, fun _ => enabled₁, fun _ => Or.inr ⟨enabled₁, keycode, isHeld⟩, fun _ => ?_,
        fun none => absurd isHeld (none _)⟩
      refine ⟨enabled₁, isHeld, allowed₁.imp id fun alone i other => ?_⟩
      obtain ⟨mods, oneshot⟩ := alone i other
      refine ⟨mods, ?_⟩
      dsimp only
      rw [BitVec.getLsbD_and, oneshot, Bool.false_and]

/-- A key whose action is undone takes its own weak modifiers with it. -/
theorem Inv.undone (inv : Inv o s leftShift rightShift own held) (a : Action)
    (ownLess : own → a.weak.getLsbD 1 = true ∨ own') (heldLess : s.enabled = true → ∀ code, held code → held' code) :
    Inv o (a.release s) leftShift rightShift own' held' := by
  have unregistered : ∃ t : State, s.Same t ∧ t.weakMods = s.weakMods ∧ a.release s =
      ({ t with mods := t.mods &&& ~~~a.mods, weakMods := t.weakMods &&& ~~~a.weak } : State).sendKeyboardReport := by
    unfold Action.release
    cases key : a.key with
    | none => exact ⟨s, State.Same.refl s, rfl, rfl⟩
    | some code =>
      obtain ⟨same, weak⟩ := @State.unregisterCode_same s code fun _ => a.basic code key
      exact ⟨_, same, weak, rfl⟩
  obtain ⟨t, same, weak, released⟩ := unregistered
  rw [released]
  have reported := State.sendKeyboardReport_same { t with mods := t.mods &&& ~~~a.mods, weakMods := t.weakMods &&& ~~~a.weak }
  have watched (watched : Watched o s held) : Watched o
      ({ t with mods := t.mods &&& ~~~a.mods, weakMods := t.weakMods &&& ~~~a.weak } : State).sendKeyboardReport held' := by
    obtain ⟨enabled, last, allowed⟩ := watched.same same
    have fewer : Watched o { t with mods := t.mods &&& ~~~a.mods, weakMods := t.weakMods &&& ~~~a.weak } held' :=
      ⟨enabled, heldLess (same.enabled.symm.trans enabled) _ last, allowed.imp id fun alone => alone.fewer ⟨_, rfl⟩ (Or.inl rfl)⟩
    exact fewer.same reported
  have shifts : Shifts o { t with mods := t.mods &&& ~~~a.mods, weakMods := t.weakMods &&& ~~~a.weak } leftShift rightShift := by
    obtain ⟨left, leftOnce, right, rightOnce, rightTaken⟩ := inv.shifts.same same
    refine ⟨?_, ?_, ?_, ?_, rightTaken⟩
    all_goals rw [BitVec.getLsbD_and, BitVec.getLsbD_not]
    · rw [a.left_clear]
      simpa using left
    · rw [a.left_clear]
      simpa using leftOnce
    · rw [a.right_clear]
      simpa using right
    · rw [a.right_clear]
      simpa using rightOnce
  refine ⟨shifts.same reported, ?_, ?_, ?_, fun none => ?_⟩
  · rw [reported.cancellingLshift, reported.cancellingRshift, reported.enabled]
    dsimp only
    rw [same.cancellingLshift, same.cancellingRshift, same.enabled]
    exact inv.taken
  · rw [State.sendKeyboardReport_weakMods]
    dsimp only
    rw [BitVec.getLsbD_and, BitVec.getLsbD_not, Bool.and_eq_true]
    rintro ⟨set, kept⟩
    rcases inv.weak (weak ▸ set) with own | before
    · refine Or.inl ((ownLess own).resolve_left fun its => ?_)
      rw [its] at kept
      exact Bool.false_ne_true kept
    · obtain ⟨enabled, code, isHeld⟩ := before
      exact Or.inr ⟨(reported.enabled.trans same.enabled).trans enabled, code, heldLess enabled code isHeld⟩
  · rw [reported.inProgress]
    exact fun pending => watched (inv.pending (same.inProgress.symm.trans pending))
  · rw [reported.cancellingLshift, reported.cancellingRshift]
    dsimp only
    rw [same.cancellingLshift, same.cancellingRshift]
    cases enabled : s.enabled with
    | true => exact inv.clear fun code isHeld => none code (heldLess enabled code isHeld)
    | false => exact inv.clear_of_disabled enabled

/-- A key goes up that is not pending and not the last one. -/
theorem autoshiftEnd_other {keycode : Keycode} (plain : NoModifier (State.hostCode keycode)) (now : BitVec 16)
    (neither : ¬ (s.inProgress && (keycode == s.lastkey || keycode == kcNo)) = true) (other : keycode ≠ s.lastkey) :
    s.Same { o.autoshiftEnd s keycode now false with time := s.time } ∧
      (o.autoshiftEnd s keycode now false).weakMods = s.weakMods &&& ~~~extractModBits (State.hostCode keycode) := by
  obtain ⟨same, weak⟩ := @State.releaseUser_same s _ (s.getAutoshiftShiftState keycode) plain
  unfold Options.autoshiftEnd
  rw [if_neg neither]
  dsimp only
  rw [if_neg (by rw [same.lastkey]; exact other)]
  exact ⟨⟨same.mods, same.oneshotMods, same.cancellingLshift, same.cancellingRshift, same.inProgress, same.lastkey,
    same.enabled⟩, weak⟩

/-- A key that is auto-shifted goes up. The shifts are given back if it is the key that Auto Shift has seen last; else nothing
happens to them, unless another key was pending. -/
theorem autoshiftEnd_ended {keycode : Keycode} (inv : Inv o s leftShift rightShift own held)
    (plainHeld : ∀ code, held code → NoModifier (State.hostCode code)) (plain : NoModifier (State.hostCode keycode)) (now : BitVec 16) :
    (Flushed o (o.autoshiftEnd s keycode now false) leftShift rightShift ∧ (o.autoshiftEnd s keycode now false).inProgress = false) ∨
      keycode ≠ s.lastkey ∧ s.Same { o.autoshiftEnd s keycode now false with time := s.time } ∧
        (o.autoshiftEnd s keycode now false).weakMods = s.weakMods &&& ~~~extractModBits (State.hostCode keycode) := by
  by_cases both : (s.inProgress && (keycode == s.lastkey || keycode == kcNo)) = true
  · obtain ⟨pending, -⟩ := (Bool.and_eq_true _ _).mp both
    obtain ⟨evaluated, flushed⟩ := evaluate_evaluated inv pending plainHeld now false
    unfold Options.autoshiftEnd
    rw [if_pos both]
    exact Or.inl ⟨flushed rfl, evaluated.inProgress⟩
  by_cases last : keycode = s.lastkey
  · obtain ⟨same, -⟩ := @State.releaseUser_same s _ (s.getAutoshiftShiftState keycode) plain
    have idle : s.inProgress = false := by
      refine Bool.eq_false_iff.2 fun pending => both ?_
      rw [pending, last, BEq.rfl]
      rfl
    have flushed := (inv.shifts.same same).flush
    unfold Options.autoshiftEnd
    rw [if_neg both]
    dsimp only
    rw [if_pos (by rw [same.lastkey]; exact last)]
    exact Or.inl ⟨⟨flushed.shifts.congr rfl rfl rfl, flushed.left, flushed.right, flushed.weak⟩,
      (State.flushShift_kept _).1.trans (same.inProgress.trans idle)⟩
  · exact Or.inr ⟨last, autoshiftEnd_other plain now both last⟩

theorem Inv.ended {keycode : Keycode} (inv : Inv o s leftShift rightShift own held) (enabled : s.enabled = true)
    (plainHeld : ∀ code, held code → NoModifier (State.hostCode code)) (plain : NoModifier (State.hostCode keycode))
    (heldLess : ∀ code, code ≠ keycode → held code → held' code)
    (seen : (∀ code, ¬ held' code) → (s.cancellingLshift = true ∨ s.cancellingRshift = true) ∨
      (s.weakMods &&& ~~~extractModBits (State.hostCode keycode)).getLsbD 1 = true ∧ ¬ own' → keycode = s.lastkey) (now : BitVec 16) :
    Inv o (o.autoshiftEnd s keycode now false) leftShift rightShift own' held' := by
  rcases autoshiftEnd_ended inv plainHeld plain now with ⟨flushed, idle⟩ | ⟨other, same, weak⟩
  · exact flushed.inv idle
  · have watched (watched : Watched o s held) : Watched o (o.autoshiftEnd s keycode now false) held' := by
      obtain ⟨enabled, last, allowed⟩ := watched.same same
      refine ⟨enabled, heldLess _ (fun is => other ?_) last, allowed⟩
      exact is.symm.trans same.lastkey
    have shifts := inv.shifts.same same
    refine ⟨shifts.congr rfl rfl rfl, ?_, ?_, ?_, ?_⟩
    · have taken := inv.taken
      rw [← same.cancellingLshift, ← same.cancellingRshift, ← same.enabled] at taken
      exact taken
    · intro set
      by_contra neither
      rw [not_or] at neither
      have none (code : Keycode) (isHeld : held' code) : False := neither.2 ⟨same.enabled.trans enabled, code, isHeld⟩
      exact other (seen none (Or.inr ⟨weak ▸ set, neither.1⟩))
    · exact fun pending => watched (inv.pending (same.inProgress.symm.trans pending))
    · intro none
      have clear : ¬ (s.cancellingLshift = true ∨ s.cancellingRshift = true) := fun taken => other (seen none (Or.inl taken))
      rw [not_or, Bool.not_eq_true, Bool.not_eq_true, ← same.cancellingLshift, ← same.cancellingRshift] at clear
      exact clear

theorem Inv.cleared (inv : Inv o s leftShift rightShift own held) : Inv o s.clearWeakMods leftShift rightShift own held where
  shifts := inv.shifts.same (State.same_weakMods s 0)
  taken := inv.taken
  weak := fun set => absurd set (by simp [State.clearWeakMods])
  pending := fun pending => (inv.pending pending).same (State.same_weakMods s 0)
  clear := inv.clear

theorem Inv.scanned (inv : Inv o s leftShift rightShift own held)
    (plain : ∀ code, held code → NoModifier (State.hostCode code)) (now : BitVec 16) :
    Inv o (o.autoshiftMatrixScan s now) leftShift rightShift own held := by
  unfold Options.autoshiftMatrixScan
  split
  next both =>
    obtain ⟨pending, -⟩ := (Bool.and_eq_true _ _).mp both
    unfold Options.autoshiftEnd
    rw [pending, BEq.rfl, Bool.true_or]
    exact (evaluate_evaluated inv pending plain now true).1.inv
  next => exact inv

/-- A key goes down, and the one that was pending is evaluated. Its action, or Auto Shift, finds this. -/
theorem pressed (inv : Inv o s leftShift rightShift own held) (plain : ∀ code, held code → NoModifier (State.hostCode code))
    (keycode : Keycode) (hold : Bool) (now : BitVec 16) :
    ∃ t, Inv o t leftShift rightShift own held ∧ t.inProgress = false ∧
      ((∃ lastkey, o.processAutoShift s keycode true hold now = (true, { t with lastkey })) ∨
        o.autoShifted keycode = true ∧ (isRetro keycode && hold) = false ∧ t.enabled = true ∧
          o.processAutoShift s keycode true hold now = o.autoshiftPress t keycode now) := by
  obtain ⟨t, ended, inv, idle, -⟩ := interrupt inv plain now true
  obtain ⟨inv, idle⟩ := setUp_inv inv (idle rfl) keycode
  rw [Bool.and_true] at ended
  refine ⟨_, inv, idle, ?_⟩
  unfold Options.processAutoShift
  rw [if_pos rfl, ended]
  dsimp only
  generalize o.setUp t keycode = u
  split
  next => exact Or.inl ⟨kcNo, rfl⟩
  next notHeld =>
    split
    next => exact Or.inl ⟨u.lastkey, rfl⟩
    next enabled =>
      rw [Bool.not_eq_true', Bool.not_eq_false] at enabled
      split
      next auto => exact Or.inr ⟨auto, Bool.eq_false_iff.2 notHeld, enabled, rfl⟩
      next => exact Or.inl ⟨kcNo, rfl⟩

/-! ## The shifts themselves -/

theorem autoShifted_leftShift (o : Options) : o.autoShifted kcLeftShift = false :=
  Bool.eq_false_iff.2 fun auto => absurd (o.noModifier kcLeftShift auto) (by unfold NoModifier; decide)

theorem autoShifted_rightShift (o : Options) : o.autoShifted kcRightShift = false :=
  Bool.eq_false_iff.2 fun auto => absurd (o.noModifier kcRightShift auto) (by unfold NoModifier; decide)

theorem Inv.leftPressed (inv : Inv o s false rightShift own held) (plain : ∀ code, held code → NoModifier (State.hostCode code))
    (now : BitVec 16) :
    Inv o (Board.record o s kcLeftShift true false now fun s => s.processAction kcLeftShift true) true rightShift own held := by
  obtain ⟨t, inv, idle, ⟨lastkey, passes⟩ | ⟨auto, -⟩⟩ := pressed inv plain kcLeftShift false now
  · obtain ⟨left, -, right, rightOnce, rightTaken⟩ := inv.shifts
    rw [Bool.or_eq_false_iff] at left
    unfold Board.record
    rw [passes]
    change Inv o { t with lastkey, mods := t.mods ||| modLsft } true rightShift own held
    refine ⟨⟨?_, ?_, ?_, ?_, rightTaken⟩, inv.taken, inv.weak, fun pending => ?_, inv.clear⟩
    · simp
    · simp [left.2]
    · simpa using right
    · simpa using rightOnce
    · exact absurd (idle.symm.trans pending) Bool.false_ne_true
  · exact absurd ((autoShifted_leftShift o).symm.trans auto) Bool.false_ne_true

theorem Inv.rightPressed (inv : Inv o s leftShift false own held) (plain : ∀ code, held code → NoModifier (State.hostCode code))
    (now : BitVec 16) :
    Inv o (Board.record o s kcRightShift true false now fun s => s.processAction kcRightShift true) leftShift true own held := by
  obtain ⟨t, inv, idle, ⟨lastkey, passes⟩ | ⟨auto, -⟩⟩ := pressed inv plain kcRightShift false now
  · obtain ⟨left, leftOnce, right, -, rightTaken⟩ := inv.shifts
    rw [Bool.or_eq_false_iff] at right
    unfold Board.record
    rw [passes]
    change Inv o { t with lastkey, mods := t.mods ||| modRsft } leftShift true own held
    refine ⟨⟨?_, ?_, ?_, ?_, rightTaken⟩, inv.taken, inv.weak, fun pending => ?_, inv.clear⟩
    · simpa using left
    · simpa using leftOnce
    · simp
    · simp [right.2]
    · exact absurd (idle.symm.trans pending) Bool.false_ne_true
  · exact absurd ((autoShifted_rightShift o).symm.trans auto) Bool.false_ne_true

theorem Inv.leftReleased (inv : Inv o s leftShift rightShift own held) (now : BitVec 16) :
    Inv o (Board.record o s kcLeftShift false false now fun s => s.processAction kcLeftShift false) false rightShift own held := by
  have passes : o.processAutoShift s kcLeftShift false false now = (true, { s with cancellingLshift := false }) := by
    unfold Options.processAutoShift
    rw [autoShifted_leftShift]
    cases s.enabled <;> simp
  obtain ⟨-, -, right, rightOnce, rightTaken⟩ := inv.shifts
  unfold Board.record
  rw [passes]
  change Inv o { s with cancellingLshift := false, mods := s.mods &&& ~~~modLsft } false rightShift own held
  have watched (watched : Watched o s held) :
      Watched o { s with cancellingLshift := false, mods := s.mods &&& ~~~modLsft } held :=
    ⟨watched.1, watched.2.1, watched.2.2.imp id fun alone => alone.fewer ⟨_, rfl⟩ (Or.inl rfl)⟩
  refine ⟨⟨?_, ?_, ?_, ?_, rightTaken⟩, ?_, inv.weak, ?_, ?_⟩
  · simp
  · simp
  · simpa using right
  · simpa using rightOnce
  · exact fun taken => inv.taken (Or.inr (taken.resolve_left Bool.false_ne_true))
  · exact fun pending => watched (inv.pending pending)
  · exact fun none => ⟨rfl, (inv.clear none).2⟩

theorem Inv.rightReleased (inv : Inv o s leftShift rightShift own held) (now : BitVec 16) :
    Inv o (Board.record o s kcRightShift false false now fun s => s.processAction kcRightShift false) leftShift false own held := by
  have passes : o.processAutoShift s kcRightShift false false now = (true, { s with cancellingRshift := false }) := by
    unfold Options.processAutoShift
    rw [autoShifted_rightShift]
    have other : kcRightShift ≠ kcLeftShift := by decide
    cases s.enabled <;> simp [other]
  obtain ⟨left, leftOnce, -, -, -⟩ := inv.shifts
  unfold Board.record
  rw [passes]
  change Inv o { s with cancellingRshift := false, mods := s.mods &&& ~~~modRsft } leftShift false own held
  have watched (watched : Watched o s held) :
      Watched o { s with cancellingRshift := false, mods := s.mods &&& ~~~modRsft } held :=
    ⟨watched.1, watched.2.1, watched.2.2.imp id fun alone => alone.fewer ⟨_, rfl⟩ (Or.inl rfl)⟩
  refine ⟨⟨?_, ?_, ?_, ?_, fun no => absurd no Bool.false_ne_true⟩, ?_, inv.weak, ?_, ?_⟩
  · simpa using left
  · simpa using leftOnce
  · simp
  · simp
  · exact fun taken => inv.taken (Or.inl (taken.resolve_right Bool.false_ne_true))
  · exact fun pending => watched (inv.pending pending)
  · exact fun none => ⟨(inv.clear none).1, rfl⟩

end Steps

/-! ## Runs -/

namespace Board

variable {K : Type} (o : Options)

/-- The codes of the keys that are held and auto-shifted -/
def Held (b : Board K) (code : Keycode) : Prop := ∃ key p, b.down key = some p ∧ p.auto o = true ∧ p.code = code

/-- The invariant of a keyboard; the keys that are held are what was possible when they were pressed. -/
structure Good (b : Board K) : Prop where
  inv : Inv o b.state b.leftShift b.rightShift b.OwnShift (b.Held o)
  keys : ∀ key p, b.down key = some p → p.code ≠ kcLeftShift ∧ p.code ≠ kcRightShift ∧
    (p.auto o = true → p.action.weak = extractModBits (State.hostCode p.code))

variable {o} {b : Board K}

theorem plain_of_auto {p : Pressed} (auto : p.auto o = true) : NoModifier (State.hostCode p.code) := by
  unfold Pressed.auto at auto
  rw [Bool.and_eq_true] at auto
  exact o.noModifier p.code auto.1

theorem plain_of_held (code : Keycode) (isHeld : b.Held o code) : NoModifier (State.hostCode code) := by
  obtain ⟨key, p, -, auto, rfl⟩ := isHeld
  exact plain_of_auto auto

theorem good_initial (enabled : Bool) (timeout : BitVec 16) : (initial enabled timeout : Board K).Good o where
  inv := by
    refine ⟨⟨?_, ?_, ?_, ?_, fun no => absurd no Bool.false_ne_true⟩, ?_, ?_, fun no => absurd no Bool.false_ne_true,
      fun _ => ⟨rfl, rfl⟩⟩
    · simp [initial, State.initial]
    · simp [initial, State.initial]
    · simp [initial, State.initial]
    · simp [initial, State.initial]
    · rintro (no | no) <;> exact absurd no Bool.false_ne_true
    · simp [initial, State.initial]
  keys := fun _ _ no => absurd no.symm (Option.some_ne_none _)

/-- What the invariant says when no key is held that is auto-shifted. -/
theorem Good.givenBack (good : b.Good o) : b.GivenBack o := by
  intro none _
  have noneHeld (code : Keycode) : ¬ b.Held o code := by
    rintro ⟨key, p, down, auto, -⟩
    exact Bool.false_ne_true ((none key p down).symm.trans auto)
  obtain ⟨left, right⟩ := good.inv.clear noneHeld
  refine ⟨?_, ?_, fun weak => ?_⟩
  · rw [left_iff, ← good.inv.shifts.left, left, Bool.or_false]
  · rw [right_iff, ← good.inv.shifts.right, right, Bool.or_false]
  · exact (good.inv.weak ((left_iff _).1 weak)).resolve_right fun ⟨_, code, isHeld⟩ => noneHeld code isHeld

variable [DecidableEq K]

/-- A key that is pressed joins those that are held. -/
theorem down_update {key other : K} {p p' : Pressed} (up : b.down key = none) (down : b.down other = some p') :
    Function.update b.down key (some p) other = some p' := by
  rw [Function.update_of_ne _ _ _]
  · exact down
  · rintro rfl
    exact Option.some_ne_none _ (down.symm.trans up)

theorem Good.press (good : b.Good o) {key : K} {p : Pressed} {now : BitVec 16} (possible : b.Possible o (.press key p now)) :
    (b.step o (.press key p now)).Good o := by
  obtain ⟨up, notLeft, notRight, weak⟩ := possible
  have more (code : Keycode) (isHeld : b.Held o code) : (b.step o (.press key p now)).Held o code := by
    obtain ⟨other, p', down, auto, rfl⟩ := isHeld
    exact ⟨other, p', down_update up down, auto, rfl⟩
  have ownMore (own : b.OwnShift) : (b.step o (.press key p now)).OwnShift := by
    obtain ⟨other, p', down, own⟩ := own
    exact ⟨other, p', down_update up down, own⟩
  have this : (b.step o (.press key p now)).down key = some p := Function.update_self _ _ _
  constructor
  · obtain ⟨t, inv, idle, ⟨lastkey, passes⟩ | ⟨auto, notHold, enabled, takes⟩⟩ := pressed good.inv plain_of_held p.code p.hold now
    · have acted : Inv o (p.action.press { t with lastkey }) b.leftShift b.rightShift (b.step o (.press key p now)).OwnShift
          ((b.step o (.press key p now)).Held o) :=
        inv.acted idle lastkey p.action more ownMore fun own => ⟨key, p, this, (left_iff _).2 own⟩
      have state : (b.step o (.press key p now)).state = p.action.press { t with lastkey } := by
        change record o b.state p.code true p.hold now p.action.press = _
        unfold record
        rw [passes]
      rw [state]
      exact acted
    · have auto : p.auto o = true := by
        unfold Pressed.auto
        rw [auto, notHold]
        rfl
      have isHeld : (b.step o (.press key p now)).Held o p.code := ⟨key, p, this, auto, rfl⟩
      obtain ⟨taken, inv⟩ := inv.autoshiftPress idle enabled (plain_of_auto auto) isHeld now
      have state : (b.step o (.press key p now)).state = (o.autoshiftPress t p.code now).2 := by
        change record o b.state p.code true p.hold now p.action.press = _
        unfold record
        rw [takes]
        split
        next passes => exact absurd (taken.symm.trans (congrArg Prod.fst passes)) Bool.false_ne_true
        next h => rw [h]
      rw [state]
      exact inv
  · intro other p' down
    change Function.update b.down key (some p) other = some p' at down
    by_cases same : other = key
    · rw [same, Function.update_self] at down
      cases down
      exact ⟨notLeft, notRight, weak⟩
    · rw [Function.update_of_ne same] at down
      exact good.keys other p' down

theorem step_release {key : K} {p : Pressed} {now : BitVec 16} (down : b.down key = some p) :
    b.step o (.release key now) = { b with
      state := record o b.state p.code false p.hold now p.action.release
      down := Function.update b.down key none } := by
  unfold step
  dsimp only
  rw [down]

/-- Only the key that goes up is held no longer. -/
theorem held_of_update {key other : K} {p : Pressed} (down : Function.update b.down key none other = some p) :
    other ≠ key ∧ b.down other = some p := by
  by_cases same : other = key
  · rw [same, Function.update_self] at down
    exact absurd down.symm (Option.some_ne_none _)
  · rw [Function.update_of_ne same] at down
    exact ⟨same, down⟩

/-- What `process_auto_shift` does with the release of a key that is no shift. -/
theorem processAutoShift_release {s : State} {p : Pressed} (notLeft : p.code ≠ kcLeftShift) (notRight : p.code ≠ kcRightShift)
    (now : BitVec 16) :
    (isRetro p.code && p.hold) = true ∧ o.processAutoShift s p.code false p.hold now =
        (true, if s.inProgress && o.releaseEvaluates p.code then o.autoshiftEnd s kcNo now false else s) ∨
      (p.auto o = false ∨ s.enabled = false) ∧ o.processAutoShift s p.code false p.hold now = (true, s) ∨
      p.auto o = true ∧ s.enabled = true ∧
        o.processAutoShift s p.code false p.hold now = (false, o.autoshiftEnd s p.code now false) := by
  unfold Options.processAutoShift Pressed.auto
  rw [if_neg Bool.false_ne_true]
  dsimp only
  rw [if_neg notLeft, if_neg notRight]
  cases hold : isRetro p.code && p.hold with
  | true => exact Or.inl ⟨rfl, if_pos rfl⟩
  | false =>
    rw [if_neg Bool.false_ne_true]
    cases enabled : s.enabled with
    | false => exact Or.inr (Or.inl ⟨Or.inr rfl, if_pos rfl⟩)
    | true =>
      rw [if_neg (by simp)]
      cases auto : o.autoShifted p.code with
      | false => exact Or.inr (Or.inl ⟨Or.inl rfl, if_neg Bool.false_ne_true⟩)
      | true => exact Or.inr (Or.inr ⟨rfl, rfl, if_pos rfl⟩)

theorem Good.release (good : b.Good o) {key : K} {now : BitVec 16} (possible : b.Possible o (.release key now))
    (seen : b.Seen o (.release key now)) : (b.step o (.release key now)).Good o := by
  obtain ⟨p, down⟩ := Option.ne_none_iff_exists'.1 possible
  obtain ⟨notLeft, notRight, weak⟩ := good.keys key p down
  have ownLess (own : b.OwnShift) : p.action.weak.getLsbD 1 = true ∨ (b.step o (.release key now)).OwnShift := by
    obtain ⟨other, p', isDown, own⟩ := own
    rw [step_release down]
    by_cases same : other = key
    · rw [same, down] at isDown
      cases isDown
      exact Or.inl ((left_iff _).1 own)
    · exact Or.inr ⟨other, p', (Function.update_of_ne same _ _).trans isDown, own⟩
  have heldLess (code : Keycode) (other : p.auto o = true → code ≠ p.code) (isHeld : b.Held o code) :
      (b.step o (.release key now)).Held o code := by
    obtain ⟨k, p', isDown, auto, rfl⟩ := isHeld
    rw [step_release down]
    refine ⟨k, p', (Function.update_of_ne ?_ _ _).trans isDown, auto, rfl⟩
    rintro rfl
    rw [down] at isDown
    cases isDown
    exact other auto rfl
  constructor
  · have state : (b.step o (.release key now)).state = record o b.state p.code false p.hold now p.action.release := by
      rw [step_release down]
    have shifts : (b.step o (.release key now)).leftShift = b.leftShift ∧
        (b.step o (.release key now)).rightShift = b.rightShift := by
      rw [step_release down]
      exact ⟨rfl, rfl⟩
    rw [state, shifts.1, shifts.2]
    unfold record
    rcases @processAutoShift_release o b.state p notLeft notRight now with
      ⟨hold, passes⟩ | ⟨idle, passes⟩ | ⟨auto, enabled, takes⟩
    · obtain ⟨t, ended, inv, -, -⟩ := interrupt good.inv plain_of_held now (o.releaseEvaluates p.code)
      rw [passes, ended]
      refine inv.undone p.action ownLess fun _ code => heldLess code fun auto => ?_
      unfold Pressed.auto at auto
      rw [hold, Bool.not_true, Bool.and_false] at auto
      exact absurd auto Bool.false_ne_true
    · rw [passes]
      refine good.inv.undone p.action ownLess fun enabled code => heldLess code fun auto => ?_
      rcases idle with not | disabled
      · exact absurd (not.symm.trans auto) Bool.false_ne_true
      · exact absurd (disabled.symm.trans enabled) Bool.false_ne_true
    · rw [takes]
      refine good.inv.ended enabled plain_of_held (plain_of_auto auto) (fun code other => heldLess code fun _ => other)
        (fun none left => ?_) now
      refine seen p down auto enabled (fun other p' ne isDown => Bool.eq_false_iff.2 fun isAuto => ?_) (left.imp id fun left => ?_)
      · apply none p'.code
        rw [step_release down]
        exact ⟨other, p', (Function.update_of_ne ne _ _).trans isDown, isAuto, rfl⟩
      · obtain ⟨set, notOwn⟩ := left
        rw [← weak auto] at set
        refine ⟨(left_iff _).2 set, fun other p' ne isDown => ?_⟩
        by_contra own
        refine notOwn ⟨other, p', ?_, own⟩
        rw [step_release down]
        exact (Function.update_of_ne ne _ _).trans isDown
  · intro other p' isDown
    rw [step_release down] at isDown
    exact good.keys other p' (held_of_update isDown).2

theorem Good.step (good : b.Good o) (e : Event K) (possible : b.Possible o e) (seen : b.Seen o e) : (b.step o e).Good o := by
  cases e with
  | press key p now => exact good.press possible
  | release key now => exact good.release possible seen
  | leftShift isDown now =>
    refine ⟨?_, good.keys⟩
    cases isDown with
    | true =>
      have up : b.leftShift = false := Bool.eq_false_iff.2 possible
      have inv := good.inv
      rw [up] at inv
      exact inv.leftPressed plain_of_held now
    | false => exact good.inv.leftReleased now
  | rightShift isDown now =>
    refine ⟨?_, good.keys⟩
    cases isDown with
    | true =>
      have up : b.rightShift = false := Bool.eq_false_iff.2 possible
      have inv := good.inv
      rw [up] at inv
      exact inv.rightPressed plain_of_held now
    | false => exact good.inv.rightReleased now
  | arrival => exact ⟨good.inv.cleared, good.keys⟩
  | scan now => exact ⟨good.inv.scanned plain_of_held now, good.keys⟩
  | oneshotEnd => exact ⟨good.inv.same ⟨rfl, Or.inr rfl, rfl, rfl, rfl, rfl, rfl⟩ rfl, good.keys⟩

/-- The last key goes up while a shift is taken away or a weak one left, and it is not the key that Auto Shift has seen last: the
user still holds the shift, and it is not set, or nobody has the weak one. -/
theorem Good.lost (good : b.Good o) (e : Event K) (possible : b.Possible o e) (unseen : ¬ b.Seen o e) :
    ¬ (b.step o e).GivenBack o := by
  cases e with
  | release key now =>
    unfold Seen at unseen
    push Not at unseen
    obtain ⟨p, down, auto, enabled, noOther, lost, unseen⟩ := unseen
    obtain ⟨notLeft, notRight, weak⟩ := good.keys key p down
    have idle : b.state.inProgress = false := by
      refine Bool.eq_false_iff.2 fun pending => ?_
      obtain ⟨-, ⟨other, p', isDown, isAuto, code⟩, -⟩ := good.inv.pending pending
      refine Bool.false_ne_true ((noOther other p' ?_ isDown).symm.trans isAuto)
      rintro rfl
      rw [down] at isDown
      cases isDown
      exact unseen code
    have takes : o.processAutoShift b.state p.code false p.hold now = (false, o.autoshiftEnd b.state p.code now false) := by
      rcases @processAutoShift_release o b.state p notLeft notRight now with ⟨hold, -⟩ | ⟨other, -⟩ | ⟨-, -, takes⟩
      · unfold Pressed.auto at auto
        rw [hold, Bool.not_true, Bool.and_false] at auto
        exact absurd auto Bool.false_ne_true
      · rcases other with not | disabled
        · exact absurd (not.symm.trans auto) Bool.false_ne_true
        · exact absurd (disabled.symm.trans enabled) Bool.false_ne_true
      · exact takes
    obtain ⟨same, weakAfter⟩ := @autoshiftEnd_other o b.state p.code (plain_of_auto auto) now (by rw [idle]; exact Bool.false_ne_true) unseen
    rw [step_release down]
    unfold record
    rw [takes]
    intro givenBack
    have restored := givenBack (fun other p' isDown => noOther other p' (held_of_update isDown).1 (held_of_update isDown).2)
      (same.inProgress.trans idle)
    have mods : (o.autoshiftEnd b.state p.code now false).mods = b.state.mods := same.mods
    have left := restored.left
    have right := restored.right
    dsimp only at left right
    rw [mods, left_iff, ← good.inv.shifts.left] at left
    rw [mods, right_iff, ← good.inv.shifts.right] at right
    have leftOnce := good.inv.shifts.leftOnce
    have rightOnce := good.inv.shifts.rightOnce
    rcases lost with (gone | gone) | ⟨stays, notOwn⟩
    · rw [gone] at left leftOnce
      simp only [Bool.or_true, iff_true] at left
      rw [left] at leftOnce
      exact Bool.false_ne_true leftOnce.symm
    · rw [gone] at right rightOnce
      simp only [Bool.or_true, iff_true] at right
      rw [right] at rightOnce
      exact Bool.false_ne_true rightOnce.symm
    · rw [weak auto] at stays
      obtain ⟨other, p', isDown, own⟩ := restored.weak (weakAfter ▸ stays)
      obtain ⟨ne, isDown⟩ := held_of_update isDown
      exact own (notOwn other p' ne isDown)
  | arrival => exact absurd trivial unseen
  | press => exact absurd trivial unseen
  | leftShift => exact absurd trivial unseen
  | rightShift => exact absurd trivial unseen
  | scan => exact absurd trivial unseen
  | oneshotEnd => exact absurd trivial unseen

end Board

/-! ## A shift that is lost -/

/-- `AUTO_SHIFT_REPEAT`, and the other options at their defaults -/
def repeating : Options := { Options.defaults with repeats := fun _ => true }

/-- A key that types this code -/
def typing (code : BitVec 8) (basic : isBasicKeycode code = true) : Pressed where
  code := code.zeroExtend 16
  hold := true
  action := ⟨0, 0, 0, some code, by decide, by simpa using basic⟩

/-- `A` repeats while the left shift is held, and then `Esc` is tapped on the way. -/
def escaped : List (Event Bool) :=
  [.arrival, .leftShift true 0, .arrival, .press true (typing 0x04 (by decide)) 10, .scan 200, .arrival,
    .press false (typing 0x29 (by decide)) 300, .release false 350, .release true 400]

/-- The same run without `Esc` -/
def repeated : List (Event Bool) :=
  [.arrival, .leftShift true 0, .arrival, .press true (typing 0x04 (by decide)) 10, .scan 200, .release true 400]

end QmkFirmware.AutoShift
