import QmkFirmware.Lib.Run
import QmkFirmware.KeyOverride.Code

/-!
# What an override leaves behind

While an override is active its trigger is down, so that the release of the trigger
clears it. A trigger that is registered again is deferred, and is down as well, unless it
was released when nothing cancelled what is deferred.
-/

namespace QmkFirmware.KeyOverride
open AutoShift (Keycode extractModBits isBasicKeycode isModifierKeycode)
open Lib

/-! ## Overrides over basic keycodes -/

/-- `IS_BASIC_KEYCODE` of a keycode of 16 bits -/
def IsBasic (keycode : Keycode) : Prop := 0x0004 ≤ keycode ∧ keycode ≤ 0x00A4

instance (keycode : Keycode) : Decidable (IsBasic keycode) := inferInstanceAs (Decidable (_ ∧ _))

/-- The trigger is basic, and so is the low byte of the replacement without its modifiers if there is one. -/
def Override.Basic (o : Override) : Prop :=
  IsBasic o.trigger ∧ (o.modFreeByte ≠ 0 → isBasicKeycode o.modFreeByte = true)

/-- A custom action that lets the replacement be registered lets it be unregistered. -/
def Override.Coherent (o : Override) : Prop := o.registers = true → o.custom false = true

instance (o : Override) : Decidable o.Basic := inferInstanceAs (Decidable (_ ∧ _))

instance (o : Override) : Decidable o.Coherent := inferInstanceAs (Decidable (_ → _))

/-- All overrides of the table are so. -/
def Table.Sound {P : Type} (table : Table P) : Prop := ∀ p ∈ table.keyOverrides, (table.deref p).Basic ∧ (table.deref p).Coherent

instance {P : Type} (table : Table P) : Decidable table.Sound := inferInstanceAs (Decidable (∀ p ∈ _, _))

section Codes

variable {keycode : Keycode} {code : BitVec 8}

theorem IsBasic.ne_zero (basic : IsBasic keycode) : keycode ≠ 0 := by
  have low := basic.1
  bv_omega

theorem IsBasic.truncate (basic : IsBasic keycode) :
    isBasicKeycode (keycode.truncate 8) = true ∧ (keycode.truncate 8).zeroExtend 16 = keycode := by
  obtain ⟨low, high⟩ := basic
  simp only [isBasicKeycode, Bool.and_eq_true, decide_eq_true_eq]
  exact ⟨⟨by bv_omega, by bv_omega⟩, by bv_omega⟩

theorem IsBasic.not_modifier (basic : IsBasic keycode) : isModifierKeycode keycode = false := by
  have high := basic.2
  simp only [isModifierKeycode, Bool.and_eq_false_iff, decide_eq_false_iff_not]
  bv_omega

end Codes

/-- What is registered, if it is a key, is unregistered. -/
theorem Override.Coherent.unregisters {o : Override} (coherent : o.Coherent) (registers : o.registers = true)
    (key : o.modFreeByte ≠ 0) : o.unregisters = true := by
  rw [o.unregisters_eq, bne_iff_ne.2 key, coherent registers]
  rfl

/-! ## Between the events -/

/-- What is in the report is the key of an action or the replacement of the active override, whose trigger is held; what is
deferred is that replacement or a key that is held; and without an active override no modifier is changed. -/
structure Clean {P : Type} (table : Table P) (held : Keycode → Prop) (sent : BitVec 8 → Prop) (s : State P) : Prop where
  trigger : ∀ p, s.activeOverride = some p → p ∈ table.keyOverrides ∧ held (table.deref p).trigger
  masks : s.activeOverride = none → s.suppressedMods = 0 ∧ s.weakOverrideMods = 0
  basic : ∀ code ∈ s.keys, isBasicKeycode code = true
  report : ∀ code ∈ s.keys, sent code ∨
    ∃ p, s.activeOverride = some p ∧ code = (table.deref p).modFreeByte ∧ (table.deref p).registers = true
  deferred : s.deferredRegister ≠ 0 →
    (∃ p, s.activeOverride = some p ∧ s.deferredRegister = (table.deref p).modFreeReplacement ∧
      (table.deref p).registers = true) ∨
    held s.deferredRegister ∧ IsBasic s.deferredRegister

section Steps

variable {P : Type} {table : Table P} {held held' : Keycode → Prop} {sent sent' : BitVec 8 → Prop} {s : State P} {now : BitVec 32}

theorem Clean.mono (sound : table.Sound) (h : Clean table held sent s) (more : ∀ code, IsBasic code → held code → held' code)
    (further : ∀ code, isBasicKeycode code = true → sent code → sent' code) : Clean table held' sent' s := by
  refine ⟨fun p active => ?_, h.masks, h.basic, fun code mem => ?_, fun deferred => ?_⟩
  · obtain ⟨mem, trigger⟩ := h.trigger p active
    exact ⟨mem, more _ (sound p mem).1.1 trigger⟩
  · exact (h.report code mem).imp_left (further _ (h.basic code mem))
  · exact (h.deferred deferred).imp_right fun waits => ⟨more _ waits.2 waits.1, waits.2⟩

/-- What is no part of it may change. -/
theorem Clean.congr {t : State P} (h : Clean table held sent s) (active : t.activeOverride = s.activeOverride)
    (suppressed : t.suppressedMods = s.suppressedMods) (weak : t.weakOverrideMods = s.weakOverrideMods)
    (keys : t.keys ⊆ s.keys) (deferred : t.deferredRegister = s.deferredRegister ∨ t.deferredRegister = 0) :
    Clean table held sent t := by
  refine ⟨?_, ?_, fun code mem => h.basic code (keys mem), fun code mem => ?_, fun waits => ?_⟩
  · rw [active]
    exact h.trigger
  · rw [active, suppressed, weak]
    exact h.masks
  · rw [active]
    exact h.report code (keys mem)
  · rcases deferred with same | zero
    · rw [same] at waits ⊢
      rw [active]
      exact h.deferred waits
    · exact absurd zero waits

@[simp] theorem unregisterReplacement_deferred (o : Override) :
    (Table.unregisterReplacement o s).deferredRegister = s.deferredRegister := by
  unfold Table.unregisterReplacement State.unregisterCode
  split_ifs <;> rfl

@[simp] theorem unregisterReplacement_suppressed (o : Override) :
    (Table.unregisterReplacement o s).suppressedMods = s.suppressedMods := by
  unfold Table.unregisterReplacement State.unregisterCode
  split_ifs <;> rfl

@[simp] theorem unregisterReplacement_weak (o : Override) :
    (Table.unregisterReplacement o s).weakOverrideMods = s.weakOverrideMods := by
  unfold Table.unregisterReplacement State.unregisterCode
  split_ifs <;> rfl

/-- What was registered leaves the report, and nothing comes into it. -/
theorem mem_unregisterReplacement {o : Override} (basic : o.Basic) (coherent : o.Coherent)
    (keys : ∀ code ∈ s.keys, isBasicKeycode code = true) {code : BitVec 8} (mem : code ∈ (Table.unregisterReplacement o s).keys) :
    code ∈ s.keys ∧ (o.registers = true → code ≠ o.modFreeByte) := by
  unfold Table.unregisterReplacement at mem
  split at mem
  case isTrue unregisters =>
    rw [o.unregisters_eq, Bool.and_eq_true, bne_iff_ne] at unregisters
    rw [if_pos (basic.2 unregisters.1)] at mem
    obtain ⟨ne, mem⟩ := Finset.mem_erase.1 mem
    exact ⟨mem, fun _ => ne⟩
  case isFalse silent =>
    refine ⟨mem, fun registers same => silent (coherent.unregisters registers ?_)⟩
    -- a key of the report is not `KC_NO`
    rintro none
    have key := keys code mem
    rw [same, none] at key
    exact absurd key (by decide)

@[simp] theorem schedule_keys (keycode : Keycode) : (s.scheduleDeferredRegister keycode now).keys = s.keys := by
  unfold State.scheduleDeferredRegister
  split_ifs <;> rfl

@[simp] theorem schedule_suppressed (keycode : Keycode) :
    (s.scheduleDeferredRegister keycode now).suppressedMods = s.suppressedMods := by
  unfold State.scheduleDeferredRegister
  split_ifs <;> rfl

@[simp] theorem schedule_weak (keycode : Keycode) :
    (s.scheduleDeferredRegister keycode now).weakOverrideMods = s.weakOverrideMods := by
  unfold State.scheduleDeferredRegister
  split_ifs <;> rfl

@[simp] theorem schedule_active (keycode : Keycode) :
    (s.scheduleDeferredRegister keycode now).activeOverride = s.activeOverride := by
  unfold State.scheduleDeferredRegister
  split_ifs <;> rfl

@[simp] theorem schedule_deferred (keycode : Keycode) :
    (s.scheduleDeferredRegister keycode now).deferredRegister = keycode := by
  unfold State.scheduleDeferredRegister
  split_ifs <;> rfl

theorem reregister_keys (again : Bool) (keycode : Keycode) :
    (if again = true then s.scheduleDeferredRegister keycode now else s).keys = s.keys := by
  split
  · exact schedule_keys keycode
  · rfl

/-- What is deactivated leaves nothing behind but, if it may, its trigger to be registered again. -/
theorem Clean.clear (sound : table.Sound) (h : Clean table held sent s) (allowReregister : Bool) :
    Clean table held sent (table.clearActiveOverride s allowReregister now) ∧
      (table.clearActiveOverride s allowReregister now).activeOverride = none := by
  unfold Table.clearActiveOverride
  cases active : s.activeOverride with
  | none => exact ⟨h, active⟩
  | some p =>
    obtain ⟨mem, trigger⟩ := h.trigger p active
    obtain ⟨basic, coherent⟩ := sound p mem
    have report : ∀ code ∈ (Table.unregisterReplacement (table.deref p)
        { s with deferredRegister := 0, suppressedMods := 0, weakOverrideMods := 0 }).keys,
        isBasicKeycode code = true ∧ sent code := by
      intro code here
      obtain ⟨here, ne⟩ := mem_unregisterReplacement (s := { s with deferredRegister := 0, suppressedMods := 0, weakOverrideMods := 0 })
        basic coherent h.basic here
      refine ⟨h.basic code here, ?_⟩
      rcases h.report code here with down | ⟨q, active', same, registers⟩
      · exact down
      · cases active.symm.trans active'
        exact absurd same (ne registers)
    rw [active] at report
    refine ⟨⟨fun q none => (by cases none), fun _ => ?_, fun code here => ?_, fun code here => Or.inl ?_, fun waits => Or.inr ?_⟩, rfl⟩
    · dsimp only
      split <;> simp
    · dsimp only at here
      rw [reregister_keys] at here
      exact (report code here).1
    · dsimp only at here
      rw [reregister_keys] at here
      exact (report code here).2
    · dsimp only at waits ⊢
      split at waits
      case isTrue again =>
        rw [if_pos again, schedule_deferred]
        exact ⟨trigger, basic.1⟩
      case isFalse => simp at waits

/-- What is deactivated for good leaves nothing deferred. -/
theorem clearActiveOverride_for_good {p : P} (active : s.activeOverride = some p) :
    (table.clearActiveOverride s false now).activeOverride = none ∧ (table.clearActiveOverride s false now).deferredRegister = 0 := by
  unfold Table.clearActiveOverride
  rw [active]
  refine ⟨rfl, ?_⟩
  dsimp only
  rw [if_neg (by simp [Table.reregisterTrigger])]
  simp

theorem Clean.addKey {code : BitVec 8} (h : Clean table held sent s) (basic : isBasicKeycode code = true)
    (allowed : sent code ∨
      ∃ p, s.activeOverride = some p ∧ code = (table.deref p).modFreeByte ∧ (table.deref p).registers = true) :
    Clean table held sent (s.addKey code) := by
  refine ⟨h.trigger, h.masks, fun other mem => ?_, fun other mem => ?_, h.deferred⟩ <;>
    rcases Finset.mem_insert.1 mem with rfl | mem
  · exact basic
  · exact h.basic other mem
  · exact allowed
  · exact h.report other mem

/-- What `register_code` brings into the report is a key. -/
theorem Clean.registerCode {code : BitVec 8} (h : Clean table held sent s) (allowed : sent code ∨
      ∃ p, s.activeOverride = some p ∧ code = (table.deref p).modFreeByte ∧ (table.deref p).registers = true) :
    Clean table held sent (s.registerCode code) := by
  unfold State.registerCode
  split_ifs with basic
  · exact h.addKey basic allowed
  · exact h.congr rfl rfl rfl (Finset.Subset.refl _) (Or.inl rfl)
  · exact h

theorem Clean.delKey (h : Clean table held sent s) (code : BitVec 8) : Clean table held sent (s.delKey code) :=
  h.congr rfl rfl rfl (Finset.erase_subset _ _) (Or.inl rfl)

theorem Clean.unregisterCode (h : Clean table held sent s) (code : BitVec 8) : Clean table held sent (s.unregisterCode code) := by
  unfold State.unregisterCode
  split
  · exact h.delKey code
  · split
    · exact h.congr rfl rfl rfl (Finset.Subset.refl _) (Or.inl rfl)
    · exact h

@[simp] theorem unregisterCode_active (code : BitVec 8) : (s.unregisterCode code).activeOverride = s.activeOverride := by
  unfold State.unregisterCode
  split_ifs <;> rfl

theorem Clean.removeTrigger (h : Clean table held sent s) (o : Override) (triggerDown : Bool) :
    Clean table held sent (Table.removeTrigger o s triggerDown) ∧
      (Table.removeTrigger o s triggerDown).activeOverride = s.activeOverride := by
  unfold Table.removeTrigger
  split
  · split
    · exact ⟨h.delKey _, rfl⟩
    · exact ⟨h.unregisterCode _, unregisterCode_active _⟩
  · exact ⟨h, rfl⟩

theorem Clean.registerReplacement (h : Clean table held sent s) {p : P} (active : s.activeOverride = some p)
    (isMod : Bool) : Clean table held sent (Table.registerReplacement (table.deref p) s isMod now) := by
  unfold Table.registerReplacement
  split
  case isFalse => exact h
  case isTrue registers =>
    have weak : Clean table held sent { s with weakOverrideMods := extractModBits (table.deref p).replacement } :=
      ⟨h.trigger, fun none => (by rw [active] at none; cases none), h.basic, h.report, h.deferred⟩
    dsimp only
    split
    · refine ⟨?_, ?_, ?_, ?_, fun _ => Or.inl ⟨p, ?_, schedule_deferred _, registers⟩⟩
      · rw [schedule_active]
        exact weak.trigger
      · rw [schedule_active, schedule_suppressed, schedule_weak]
        exact weak.masks
      · rw [schedule_keys]
        exact weak.basic
      · rw [schedule_active, schedule_keys]
        exact weak.report
      · rw [schedule_active]
        exact active
    · split
      case isTrue basic =>
        rw [Bool.and_eq_true] at basic
        exact weak.addKey basic.1 (Or.inr ⟨p, active, rfl, registers⟩)
      case isFalse => exact weak.registerCode (Or.inr ⟨p, active, rfl, registers⟩)

/-- An override whose trigger is down is activated. -/
theorem Clean.activate (sound : table.Sound) (h : Clean table held sent s) {p : P} (mem : p ∈ table.keyOverrides)
    (trigger : held (table.deref p).trigger) (keycode : Keycode) (keyDown isMod : Bool) :
    Clean table held sent (table.activate s p keycode keyDown isMod now) := by
  obtain ⟨cleared, none⟩ := @Clean.clear P table held sent s now sound h false
  unfold Table.activate
  dsimp only
  generalize table.clearActiveOverride s false now = s at cleared none
  -- nothing in the report, or deferred, is a replacement
  have active : Clean table held sent
      { s with activeOverride := some p, triggerIsDown := true, suppressedMods := (table.deref p).suppressedMods } := by
    refine ⟨fun q same => ?_, fun same => (by cases same), cleared.basic, fun code here => Or.inl ?_, fun waits => Or.inr ?_⟩
    · cases same
      exact ⟨mem, trigger⟩
    · exact (cleared.report code here).resolve_right fun ⟨q, active, _⟩ => (by rw [none] at active; cases active)
    · exact (cleared.deferred waits).resolve_left fun ⟨q, active, _⟩ => (by rw [none] at active; cases active)
  obtain ⟨removed, same⟩ := active.removeTrigger (table.deref p) ((table.deref p).trigger == keycode && keyDown)
  exact removed.registerReplacement same isMod

/-- The deactivation at an event that activates nothing -/
theorem Clean.deactivate (sound : table.Sound) (h : Clean table held sent s) (p : P) (keycode : Keycode) (keyDown isMod : Bool)
    (mods : BitVec 8) : Clean table held sent (table.deactivate s p keycode keyDown isMod mods now) := by
  unfold Table.deactivate
  dsimp only
  split
  · split
    · exact h
    · exact (h.clear sound true).1
  · have up : Clean table held sent (if (keycode == (table.deref p).trigger && !keyDown) = true then { s with triggerIsDown := false }
        else s) := by
      split
      · exact h.congr rfl rfl rfl (Finset.Subset.refl _) (Or.inl rfl)
      · exact h
    split
    · exact (up.clear sound false).1
    · exact up

theorem Clean.trackKey (h : Clean table held sent s) (keycode : Keycode) (keyDown isMod : Bool) :
    Clean table held sent (Table.trackKey s keycode keyDown isMod now) := by
  unfold Table.trackKey
  split_ifs
  · exact h
  · exact h.congr rfl rfl rfl (Finset.Subset.refl _) (Or.inr rfl)
  · exact h.congr rfl rfl rfl (Finset.Subset.refl _) (Or.inr rfl)
  · exact h

theorem Clean.keyOverrideTask (h : Clean table held sent s)
    (sends : ∀ keycode, IsBasic keycode → held keycode → sent (keycode.truncate 8)) :
    Clean table held sent (s.keyOverrideTask now) := by
  unfold State.keyOverrideTask
  split_ifs with none late
  · exact h
  · have registered : Clean table held sent (s.registerCode (s.deferredRegister.truncate 8)) := by
      rcases h.deferred none with ⟨p, active, same, registers⟩ | ⟨down, basic⟩
      · rw [same]
        exact h.registerCode (Or.inr ⟨p, active, rfl, registers⟩)
      · rw [State.registerCode, if_pos basic.truncate.1]
        exact h.addKey basic.truncate.1 (Or.inl (sends _ basic down))
    exact registered.congr rfl rfl rfl (Finset.Subset.refl _) (Or.inr rfl)
  · exact h

/-! ### The switch -/

@[simp] theorem registerCode_enabled (code : BitVec 8) : (s.registerCode code).enabled = s.enabled := by
  unfold State.registerCode
  split_ifs <;> rfl

@[simp] theorem unregisterCode_enabled (code : BitVec 8) : (s.unregisterCode code).enabled = s.enabled := by
  unfold State.unregisterCode
  split_ifs <;> rfl

@[simp] theorem schedule_enabled (keycode : Keycode) : (s.scheduleDeferredRegister keycode now).enabled = s.enabled := by
  unfold State.scheduleDeferredRegister
  split_ifs <;> rfl

@[simp] theorem clearActiveOverride_enabled (allowReregister : Bool) :
    (table.clearActiveOverride s allowReregister now).enabled = s.enabled := by
  unfold Table.clearActiveOverride Table.unregisterReplacement
  split
  · rfl
  · dsimp only
    split_ifs <;> simp [State.delKey]

@[simp] theorem removeTrigger_enabled (o : Override) (triggerDown : Bool) :
    (Table.removeTrigger o s triggerDown).enabled = s.enabled := by
  unfold Table.removeTrigger
  split_ifs <;> simp [State.delKey]

@[simp] theorem registerReplacement_enabled (o : Override) (isMod : Bool) :
    (Table.registerReplacement o s isMod now).enabled = s.enabled := by
  unfold Table.registerReplacement
  dsimp only
  split_ifs <;> simp [State.addKey]

@[simp] theorem activate_enabled (p : P) (keycode : Keycode) (keyDown isMod : Bool) :
    (table.activate s p keycode keyDown isMod now).enabled = s.enabled := by
  unfold Table.activate
  simp

@[simp] theorem deactivate_enabled (p : P) (keycode : Keycode) (keyDown isMod : Bool) (mods : BitVec 8) :
    (table.deactivate s p keycode keyDown isMod mods now).enabled = s.enabled := by
  unfold Table.deactivate
  dsimp only
  split_ifs <;> simp

@[simp] theorem trackKey_enabled (keycode : Keycode) (keyDown isMod : Bool) :
    (Table.trackKey s keycode keyDown isMod now).enabled = s.enabled := by
  unfold Table.trackKey
  split_ifs <;> rfl

@[simp] theorem keyOverrideTask_active : (s.keyOverrideTask now).activeOverride = s.activeOverride := by
  unfold State.keyOverrideTask State.registerCode
  split_ifs <;> rfl

@[simp] theorem keyOverrideTask_enabled : (s.keyOverrideTask now).enabled = s.enabled := by
  unfold State.keyOverrideTask
  split_ifs <;> simp

/-- No override is active while they are off. -/
def Off (s : State P) : Prop := s.enabled = false → s.activeOverride = none

theorem Clean.keyOverrideOff (sound : table.Sound) (h : Clean table held sent s) :
    Clean table held sent (table.keyOverrideOff s now) ∧ Off (table.keyOverrideOff s now) := by
  have off : Clean table held sent { s with enabled := false } := h.congr rfl rfl rfl (Finset.Subset.refl _) (Or.inl rfl)
  obtain ⟨cleared, none⟩ := @Clean.clear P table held sent _ now sound off false
  exact ⟨cleared, fun _ => none⟩

theorem Clean.keyOverrideOn (h : Clean table held sent s) :
    Clean table held sent (Table.keyOverrideOn s) ∧ Off (Table.keyOverrideOn s) :=
  ⟨h.congr rfl rfl rfl (Finset.Subset.refl _) (Or.inl rfl), fun off => (by cases off)⟩

theorem Clean.keyOverrideToggle (sound : table.Sound) (h : Clean table held sent s) :
    Clean table held sent (table.keyOverrideToggle s now) ∧ Off (table.keyOverrideToggle s now) := by
  unfold Table.keyOverrideToggle
  split
  · exact h.keyOverrideOff sound
  · exact h.keyOverrideOn

@[simp] theorem registerCode_active (code : BitVec 8) : (s.registerCode code).activeOverride = s.activeOverride := by
  unfold State.registerCode
  split_ifs <;> rfl

/-! ### Actions -/

/-- The action of a key that is pressed -/
theorem Clean.processAction (h : Clean table held sent s) {keycode : Keycode} {tapped : Bool}
    (down : ∀ code, actionKey keycode tapped = some code → sent code) :
    Clean table held sent (s.processAction keycode tapped true) := by
  unfold State.processAction
  have mods : Clean table held sent { s with mods := s.mods ||| actionMods keycode tapped } :=
    h.congr rfl rfl rfl (Finset.Subset.refl _) (Or.inl rfl)
  rw [if_pos rfl]
  dsimp only
  split
  case h_1 code action => exact mods.registerCode (Or.inl (down code action))
  case h_2 => exact mods

/-- The action of a key that is released takes its key out of the report. -/
theorem Clean.releaseAction (h : Clean table held sent s) {keycode : Keycode} {tapped : Bool}
    (others : ∀ code, sent code → actionKey keycode tapped ≠ some code → sent' code) :
    Clean table held sent' (s.processAction keycode tapped false) := by
  unfold State.processAction
  rw [if_neg Bool.false_ne_true]
  dsimp only
  cases action : actionKey keycode tapped with
  | none =>
    refine ⟨h.trigger, h.masks, h.basic, fun code mem => ?_, h.deferred⟩
    exact (h.report code mem).imp_left fun down => others code down (by rw [action]; exact nofun)
  | some code =>
    have less := h.unregisterCode code
    refine ⟨less.trigger, less.masks, less.basic, fun other mem => ?_, less.deferred⟩
    refine (less.report other mem).imp_left fun down => others other down ?_
    rw [action]
    rintro ⟨rfl⟩
    have basic := less.basic code mem
    dsimp only at mem
    rw [State.unregisterCode, if_pos basic] at mem
    exact absurd rfl (Finset.mem_erase.1 mem).1

@[simp] theorem processAction_active (keycode : Keycode) (tapped keyDown : Bool) :
    (s.processAction keycode tapped keyDown).activeOverride = s.activeOverride := by
  unfold State.processAction
  cases actionKey keycode tapped <;> split <;> simp

@[simp] theorem processAction_enabled (keycode : Keycode) (tapped keyDown : Bool) :
    (s.processAction keycode tapped keyDown).enabled = s.enabled := by
  unfold State.processAction
  cases actionKey keycode tapped <;> split <;> simp

theorem Off.processAction (off : Off s) (keycode : Keycode) (tapped keyDown : Bool) :
    Off (s.processAction keycode tapped keyDown) := by
  unfold Off
  rw [processAction_active, processAction_enabled]
  exact off

/-! ### Events -/

variable [DecidableEq P] {c : Context P} {keycode : Keycode}

/-- Only an override whose trigger is held is activated: by its press, or by a modifier while it is the last key down. -/
theorem activates_held (sound : table.Sound) {keyDown : Bool} {mods : BitVec 8} {p : P} (mem : p ∈ table.keyOverrides)
    (event : isModifierKeycode keycode = true ∨ keyDown = true)
    (last : isModifierKeycode keycode = true → (table.deref p).trigger = s.lastKeyDown → held s.lastKeyDown)
    (pressed : isModifierKeycode keycode = false → held keycode)
    (activates : table.activates (Table.trackKey s keycode keyDown (isModifierKeycode keycode) c.now) keycode keyDown
      (isModifierKeycode keycode) mods c p = true) : held (table.deref p).trigger := by
  have basic := (sound p mem).1.1
  simp only [Table.activates, Bool.and_eq_true, Bool.or_eq_true, beq_iff_eq] at activates
  rcases activates.2 with (zero | ⟨own, -⟩) | same
  · exact absurd zero basic.ne_zero
  · rw [own] at basic ⊢
    exact pressed basic.not_modifier
  · cases modifier : isModifierKeycode keycode with
    | true =>
      rw [modifier, Table.trackKey, if_pos rfl] at same
      rw [← same]
      exact last modifier same.symm
    | false =>
      have down : keyDown = true := event.resolve_left (by simp [modifier])
      rw [modifier, Table.trackKey, if_neg Bool.false_ne_true, if_pos down] at same
      rw [← same]
      exact pressed modifier

theorem Clean.processEnabled (sound : table.Sound) (h : Clean table held sent s) (on : s.enabled = true) (keyDown : Bool)
    (last : isModifierKeycode keycode = true → ∀ p ∈ table.keyOverrides, (table.deref p).trigger = s.lastKeyDown →
      held s.lastKeyDown)
    (pressed : isModifierKeycode keycode = false → held keycode) :
    Clean table held sent (table.processEnabled s keycode keyDown c).2 ∧
      (table.processEnabled s keycode keyDown c).2.enabled = true := by
  unfold Table.processEnabled
  dsimp only
  have tracked : Clean table held sent (Table.trackKey s keycode keyDown (isModifierKeycode keycode) c.now) :=
    h.trackKey keycode keyDown (isModifierKeycode keycode)
  have switch : (Table.trackKey s keycode keyDown (isModifierKeycode keycode) c.now).enabled = true := by
    rw [trackKey_enabled, on]
  have tried : ∀ result, result =
      (if (isModifierKeycode keycode || keyDown) = true then
        table.tryActivatingOverride (Table.trackKey s keycode keyDown (isModifierKeycode keycode) c.now) keycode keyDown
          (isModifierKeycode keycode) (Table.effectiveMods s keycode keyDown (isModifierKeycode keycode) c) c
      else (true, false, Table.trackKey s keycode keyDown (isModifierKeycode keycode) c.now)) →
      Clean table held sent result.2.2 ∧ result.2.2.enabled = true := by
    rintro _ rfl
    split
    case isTrue event =>
      rw [Bool.or_eq_true] at event
      unfold Table.tryActivatingOverride
      split
      case h_1 p found =>
        have mem := List.mem_of_find?_eq_some found
        have trigger := activates_held sound mem event (fun modifier => last modifier p mem) pressed (List.find?_some found)
        exact ⟨tracked.activate sound mem trigger _ _ _, by rw [activate_enabled, switch]⟩
      case h_2 => exact ⟨tracked, switch⟩
    case isFalse => exact ⟨tracked, switch⟩
  generalize (if (isModifierKeycode keycode || keyDown) = true then _ else _ : Bool × Bool × State P) = result at tried ⊢
  obtain ⟨clean, on⟩ := tried result rfl
  split
  case h_1 p _ _ => exact ⟨clean.deactivate sound p _ _ _ _, by rw [deactivate_enabled, on]⟩
  case h_2 => exact ⟨clean, on⟩

/-- An event of a key that is held -/
theorem Clean.processKeyOverride (sound : table.Sound) (h : Clean table held sent s) (off : Off s) (keyDown : Bool)
    (last : isModifierKeycode keycode = true → s.enabled = true → ∀ p ∈ table.keyOverrides,
      (table.deref p).trigger = s.lastKeyDown → held s.lastKeyDown)
    (pressed : isModifierKeycode keycode = false → held keycode) :
    Clean table held sent (table.processKeyOverride s keycode keyDown c).2 ∧
      Off (table.processKeyOverride s keycode keyDown c).2 := by
  unfold Table.processKeyOverride
  split_ifs with toggle on off' disabled
  · exact h.keyOverrideToggle sound
  · exact h.keyOverrideOn
  · exact h.keyOverrideOff sound
  · exact ⟨h, off⟩
  · have enabled : s.enabled = true := by simpa using disabled
    obtain ⟨clean, on⟩ := h.processEnabled (c := c) sound enabled keyDown (fun modifier => last modifier enabled) pressed
    exact ⟨clean, fun off => absurd (on.symm.trans off) (by decide)⟩

/-- The record of a key that is released is sent. -/
theorem processKeyOverride_release : (table.processKeyOverride s keycode false c).1 = true := by
  unfold Table.processKeyOverride
  split_ifs with toggle on off disabled
  · simp at toggle
  · simp at on
  · simp at off
  · rfl
  · have tried : ∀ t isMod mods, (table.tryActivatingOverride t keycode false isMod mods c).1 = true := by
      intro t isMod mods
      unfold Table.tryActivatingOverride
      split <;> simp
    unfold Table.processEnabled
    dsimp only
    by_cases event : (isModifierKeycode keycode || false) = true
    · rw [if_pos event]
      split <;> exact tried _ _ _
    · rw [if_neg event]
      split <;> rfl

/-- The release of a key deactivates the override it is the trigger of, and lets nothing wait that it does not leave as it was. -/
theorem processKeyOverride_released (off : Off s) (basic : IsBasic keycode) :
    let t := (table.processKeyOverride s keycode false c).2
    (∀ p, t.activeOverride = some p → s.activeOverride = some p ∧ (table.deref p).trigger ≠ keycode) ∧
      (t.deferredRegister ≠ 0 → t.deferredRegister = s.deferredRegister ∧ t.activeOverride = s.activeOverride ∧
        ¬ (s.enabled = true ∧ keycode = s.lastKeyDown)) := by
  unfold Table.processKeyOverride
  simp only [Bool.false_and, Bool.false_eq_true, if_false]
  split
  case isTrue disabled =>
    have disabled : s.enabled = false := by simpa using disabled
    have none := off disabled
    exact ⟨fun p active => absurd (none.symm.trans active) nofun,
      fun _ => ⟨rfl, rfl, fun on => absurd (on.1.symm.trans disabled) (by decide)⟩⟩
  case isFalse =>
    unfold Table.processEnabled
    simp only [basic.not_modifier, Bool.false_or, Bool.false_eq_true, if_false]
    have tracked : (Table.trackKey s keycode false false c.now).activeOverride = s.activeOverride := by
      unfold Table.trackKey
      split_ifs <;> rfl
    have kept : (Table.trackKey s keycode false false c.now).deferredRegister ≠ 0 →
        (Table.trackKey s keycode false false c.now).deferredRegister = s.deferredRegister ∧ keycode ≠ s.lastKeyDown := by
      intro waits
      unfold Table.trackKey at waits ⊢
      simp only [Bool.false_eq_true, if_false] at waits ⊢
      split at waits
      · exact absurd rfl waits
      · rename_i ne
        rw [if_neg ne]
        exact ⟨rfl, ne⟩
    generalize Table.trackKey s keycode false false c.now = t at tracked kept ⊢
    cases active : t.activeOverride with
    | none =>
      dsimp only
      rw [active]
      exact ⟨nofun, fun waits => ⟨(kept waits).1, active ▸ tracked, fun last => (kept waits).2 last.2⟩⟩
    | some p =>
      dsimp only
      unfold Table.deactivate
      simp only [Bool.false_eq_true, if_false, Bool.not_false, Bool.and_true, Bool.false_and, Bool.or_false, beq_iff_eq]
      by_cases own : keycode = (table.deref p).trigger
      · have up : { t with triggerIsDown := false }.activeOverride = some p := active
        obtain ⟨none, zero⟩ := @clearActiveOverride_for_good P table _ c.now p up
        rw [if_pos own, if_pos own, none, zero]
        exact ⟨nofun, fun waits => absurd rfl waits⟩
      · rw [if_neg own, if_neg own, active]
        refine ⟨fun q here => ?_, fun waits => ⟨(kept waits).1, active ▸ tracked, fun last => (kept waits).2 last.2⟩⟩
        cases here
        exact ⟨tracked.symm.trans active, fun same => own same.symm⟩

/-- The press of a key -/
theorem Clean.press (sound : table.Sound) (h : Clean table held sent s) (off : Off s) {tapped : Bool}
    (last : isModifierKeycode keycode = true → s.enabled = true → ∀ p ∈ table.keyOverrides,
      (table.deref p).trigger = s.lastKeyDown → held s.lastKeyDown)
    (down : held keycode) (sends : ∀ code, actionKey keycode tapped = some code → sent code) :
    Clean table held sent (table.processRecord s keycode tapped true c) ∧ Off (table.processRecord s keycode tapped true c) := by
  obtain ⟨clean, off'⟩ := h.processKeyOverride (c := c) sound off true last fun _ => down
  unfold Table.processRecord
  split
  case h_1 t result =>
    rw [result] at clean off'
    exact ⟨clean.processAction sends, off'.processAction _ _ _⟩
  case h_2 t result =>
    rw [result] at clean off'
    exact ⟨clean, off'⟩

/-- The release of a key that does not wait to be registered, unless it is cancelled with it -/
theorem Clean.release (sound : table.Sound) (h : Clean table held sent s) (off : Off s) {tapped : Bool}
    (last : isModifierKeycode keycode = true → s.enabled = true → ∀ p ∈ table.keyOverrides,
      (table.deref p).trigger = s.lastKeyDown → held s.lastKeyDown)
    (down : held keycode) (others : ∀ code, held code → code ≠ keycode → held' code)
    (sends : ∀ code, sent code → actionKey keycode tapped ≠ some code → sent' code)
    (cancelled : IsBasic keycode → s.deferredRegister = keycode → held' keycode ∨ s.enabled = true ∧ keycode = s.lastKeyDown ∨
      ∃ p, s.activeOverride = some p ∧ ((table.deref p).trigger = keycode ∨
        (table.deref p).registers = true ∧ (table.deref p).modFreeReplacement = keycode)) :
    Clean table held' sent' (table.processRecord s keycode tapped false c) ∧
      Off (table.processRecord s keycode tapped false c) := by
  obtain ⟨clean, off'⟩ := h.processKeyOverride (c := c) sound off false last fun _ => down
  have passed := @processKeyOverride_released _ table s _ c keycode off
  have record : table.processRecord s keycode tapped false c =
      (table.processKeyOverride s keycode false c).2.processAction keycode tapped false := by
    have sent := @processKeyOverride_release _ table s _ c keycode
    unfold Table.processRecord
    split
    case h_1 t result => rw [result]
    case h_2 t result =>
      rw [result] at sent
      cases sent
  rw [record]
  generalize (table.processKeyOverride s keycode false c).2 = t at clean off' passed
  suffices letGo : Clean table held' sent t from ⟨letGo.releaseAction sends, off'.processAction _ _ _⟩
  refine ⟨fun p active => ?_, clean.masks, clean.basic, clean.report, fun waits => ?_⟩
  · obtain ⟨mem, trigger⟩ := clean.trigger p active
    refine ⟨mem, others _ trigger fun own => ?_⟩
    exact (passed (own ▸ (sound p mem).1.1)).1 p active |>.2 own
  · refine (clean.deferred waits).elim Or.inl fun ⟨trigger, basic⟩ => ?_
    by_cases own : t.deferredRegister = keycode
    · -- what waits is the key that is released, so nothing has cancelled it
      obtain ⟨gone, kept⟩ := passed (own ▸ basic)
      obtain ⟨same, active, notLast⟩ := kept waits
      rcases cancelled (own ▸ basic) (same ▸ own) with again | last | ⟨p, here, trigger | ⟨registers, replaced⟩⟩
      · exact Or.inr ⟨own ▸ again, basic⟩
      · exact absurd last notLast
      · exact absurd trigger (gone p (active.trans here)).2
      · exact Or.inl ⟨p, active.trans here, own.trans replaced.symm, registers⟩
    · exact Or.inr ⟨others _ trigger own, basic⟩

end Steps

/-! ## The keyboard -/

/-- What happens: a key is pressed, with the keycode that its layer gives, or released, overrides are switched, or the task
runs -/
inductive Input (K P : Type) where
  | press (key : K) (keycode : Keycode) (tapped : Bool) (c : Context P)
  | release (key : K) (c : Context P)
  | on
  | off (now : BitVec 32)
  | toggle (now : BitVec 32)
  | task (now : BitVec 32)

/-- The keys that are down, each with its keycode and whether it is tapped, beside the state -/
structure World (K P : Type) where
  state : State P
  down : K → Option (Keycode × Bool)

namespace World

variable {K P : Type} [DecidableEq K] [DecidableEq P] (table : Table P)

def initial : World K P := ⟨.initial, fun _ => none⟩

/-- One thing that happens; the record of a release has the keycode of the press. -/
def step (w : World K P) : Input K P → World K P
  | .press key keycode tapped c =>
    ⟨table.processRecord w.state keycode tapped true c, Function.update w.down key (some (keycode, tapped))⟩
  | .release key c =>
    match w.down key with
    | some (keycode, tapped) => ⟨table.processRecord w.state keycode tapped false c, Function.update w.down key none⟩
    | none => w
  | .on => { w with state := Table.keyOverrideOn w.state }
  | .off now => { w with state := table.keyOverrideOff w.state now }
  | .toggle now => { w with state := table.keyOverrideToggle w.state now }
  | .task now => { w with state := w.state.keyOverrideTask now }

/-- A key goes down when it is up, and up when it is down. -/
def Physical (w : World K P) : Input K P → Prop
  | .press key .. => w.down key = none
  | .release key _ => w.down key ≠ none
  | _ => True

/-- A key with this keycode is down. -/
def Held (w : World K P) (keycode : Keycode) : Prop := ∃ key tapped, w.down key = some (keycode, tapped)

/-- A key is down whose action registers this key. -/
def Sent (w : World K P) (code : BitVec 8) : Prop :=
  ∃ key keycode tapped, w.down key = some (keycode, tapped) ∧ actionKey keycode tapped = some code

/-- At the event of a modifier, the last key down is down if an override has it as its trigger. -/
def LastDown (w : World K P) (keycode : Keycode) : Prop :=
  isModifierKeycode keycode = true → w.state.enabled = true → ∀ p ∈ table.keyOverrides,
    (table.deref p).trigger = w.state.lastKeyDown → w.Held w.state.lastKeyDown

/-- At the release of the key that waits to be registered, another key with its keycode is down, or the release cancels what
waits, or what waits is the replacement of the active override. -/
def Cancelled (w : World K P) (key : K) (keycode : Keycode) : Prop :=
  IsBasic keycode → w.state.deferredRegister = keycode →
    (∃ other tapped, other ≠ key ∧ w.down other = some (keycode, tapped)) ∨
      w.state.enabled = true ∧ keycode = w.state.lastKeyDown ∨
      ∃ p, w.state.activeOverride = some p ∧ ((table.deref p).trigger = keycode ∨
        (table.deref p).registers = true ∧ (table.deref p).modFreeReplacement = keycode)

/-- No key is taken for one that is down, and no key waits longer than it is down. -/
def Careful (w : World K P) : Input K P → Prop
  | .press _ keycode _ _ => LastDown table w keycode
  | .release key _ => ∀ pressed, w.down key = some pressed → LastDown table w pressed.1 ∧ Cancelled table w key pressed.1
  | _ => True

/-- The invariant of a run -/
structure Inv (w : World K P) : Prop where
  clean : Clean table w.Held w.Sent w.state
  off : Off w.state

variable {table} {w : World K P}

omit [DecidableEq K] [DecidableEq P] in
/-- A basic keycode is the key of its own action. -/
theorem sent_of_held (keycode : Keycode) (basic : IsBasic keycode) (down : w.Held keycode) : w.Sent (keycode.truncate 8) := by
  obtain ⟨key, tapped, down⟩ := down
  refine ⟨key, keycode, tapped, down, ?_⟩
  have high := basic.2
  rw [actionKey, if_pos]
  rw [Bool.or_eq_true, decide_eq_true_eq]
  exact Or.inl (by bv_omega)

omit [DecidableEq K] [DecidableEq P] in
theorem inv_initial : Inv table (initial : World K P) := by
  refine ⟨⟨nofun, fun _ => ⟨rfl, rfl⟩, fun code mem => ?_, fun code mem => ?_, fun waits => absurd rfl waits⟩, fun _ => rfl⟩
  · exact absurd mem (Finset.notMem_empty code)
  · exact absurd mem (Finset.notMem_empty code)

theorem Inv.press (sound : table.Sound) (h : Inv table w) {key : K} {keycode : Keycode} {tapped : Bool} {c : Context P}
    (up : w.down key = none) (last : LastDown table w keycode) : Inv table (step table w (.press key keycode tapped c)) := by
  have more : ∀ other pressed, w.down other = some pressed →
      Function.update w.down key (some (keycode, tapped)) other = some pressed := by
    intro other pressed down
    rw [Function.update_of_ne]
    · exact down
    · rintro rfl
      rw [up] at down
      cases down
  have held : ∀ code, w.Held code → (step table w (.press key keycode tapped c)).Held code :=
    fun code ⟨other, tap, down⟩ => ⟨other, tap, more _ _ down⟩
  have sent : ∀ code, w.Sent code → (step table w (.press key keycode tapped c)).Sent code :=
    fun code ⟨other, pressed, tap, down, action⟩ => ⟨other, pressed, tap, more _ _ down, action⟩
  have clean := h.clean.mono sound (fun code _ => held code) fun code _ => sent code
  have pressed : Clean table (World.Held (step table w (.press key keycode tapped c)))
      (World.Sent (step table w (.press key keycode tapped c))) (table.processRecord w.state keycode tapped true c) ∧
      Off (table.processRecord w.state keycode tapped true c) := by
    apply clean.press sound h.off
    · exact fun modifier on p mem same => held _ (last modifier on p mem same)
    · exact ⟨key, tapped, Function.update_self ..⟩
    · exact fun code action => ⟨key, keycode, tapped, Function.update_self .., action⟩
  exact ⟨pressed.1, pressed.2⟩

theorem Inv.release (sound : table.Sound) (h : Inv table w) {key : K} {c : Context P}
    (careful : Careful table w (.release key c)) : Inv table (step table w (.release key c)) := by
  cases down : w.down key with
  | none =>
    have same : step table w (.release key c) = w := by
      rw [step, down]
    rw [same]
    exact h
  | some pressed =>
    obtain ⟨keycode, tapped⟩ := pressed
    obtain ⟨last, cancelled⟩ := careful _ down
    have after : step table w (.release key c) =
        ⟨table.processRecord w.state keycode tapped false c, Function.update w.down key none⟩ := by
      rw [step, down]
    rw [after]
    have others : ∀ other pressed, w.down other = some pressed → other ≠ key →
        Function.update w.down key none other = some pressed := by
      intro other pressed here ne
      rwa [Function.update_of_ne ne]
    suffices released : Clean table
        (World.Held ⟨table.processRecord w.state keycode tapped false c, Function.update w.down key none⟩)
        (World.Sent ⟨table.processRecord w.state keycode tapped false c, Function.update w.down key none⟩)
        (table.processRecord w.state keycode tapped false c) ∧ Off (table.processRecord w.state keycode tapped false c) from
      ⟨released.1, released.2⟩
    apply h.clean.release sound h.off last ⟨key, tapped, down⟩
    · rintro code ⟨other, tap, here⟩ ne
      refine ⟨other, tap, others _ _ here ?_⟩
      rintro rfl
      rw [down] at here
      cases here
      exact ne rfl
    · rintro code ⟨other, held, tap, here, action⟩ ne
      refine ⟨other, held, tap, others _ _ here ?_, action⟩
      rintro rfl
      rw [down] at here
      cases here
      exact ne action
    · intro basic waits
      refine (cancelled basic waits).imp_left fun ⟨other, tap, ne, here⟩ => ?_
      exact ⟨other, tap, others _ _ here ne⟩

theorem Inv.step (sound : table.Sound) (h : Inv table w) {input : Input K P} (physical : Physical w input)
    (careful : Careful table w input) : Inv table (step table w input) := by
  cases input with
  | press key keycode tapped c => exact h.press sound physical careful
  | release key c => exact h.release sound careful
  | on => exact ⟨h.clean.keyOverrideOn.1, h.clean.keyOverrideOn.2⟩
  | off now => exact ⟨(h.clean.keyOverrideOff sound).1, (h.clean.keyOverrideOff sound).2⟩
  | toggle now => exact ⟨(h.clean.keyOverrideToggle sound).1, (h.clean.keyOverrideToggle sound).2⟩
  | task now =>
    refine ⟨h.clean.keyOverrideTask sent_of_held, ?_⟩
    have off := h.off
    unfold Off at off ⊢
    rw [World.step, keyOverrideTask_active, keyOverrideTask_enabled]
    exact off

/-- **Key overrides.** In every run of a keyboard in which no key is taken for one that is down and none waits longer than it is
down, whenever all keys are up no key is in the report or waits to be, and no modifier is suppressed or added. -/
theorem nothing_left (sound : table.Sound) {inputs : List (Input K P)}
    (physical : Along (step table) Physical initial inputs) (careful : Along (step table) (Careful table) initial inputs) :
    let w := inputs.foldl (step table) initial
    (∀ key, w.down key = none) →
      w.state.keys = ∅ ∧ w.state.suppressedMods = 0 ∧ w.state.weakOverrideMods = 0 ∧ w.state.deferredRegister = 0 := by
  intro w up
  have inv : Inv table w := Along.invariant (Inv table) (fun _ _ h input => h.step sound input.1 input.2) inv_initial
    (physical.and careful)
  have none : w.state.activeOverride = none := by
    cases active : w.state.activeOverride with
    | none => rfl
    | some p =>
      obtain ⟨-, key, tapped, down⟩ := inv.clean.trigger p active
      rw [up key] at down
      cases down
  obtain ⟨suppressed, weak⟩ := inv.clean.masks none
  refine ⟨Finset.eq_empty_of_forall_notMem fun code mem => ?_, suppressed, weak, by_contra fun waits => ?_⟩
  · rcases inv.clean.report code mem with ⟨key, keycode, tapped, down, -⟩ | ⟨p, active, -⟩
    · rw [up key] at down
      cases down
    · rw [none] at active
      cases active
  · rcases inv.clean.deferred waits with ⟨p, active, -⟩ | ⟨⟨key, tapped, down⟩, -⟩
    · rw [none] at active
      cases active
    · rw [up key] at down
      cases down

instance (w : World K P) : ∀ input, Decidable (Physical w input)
  | .press key _ _ _ => inferInstanceAs (Decidable (w.down key = none))
  | .release key _ => inferInstanceAs (Decidable (w.down key ≠ none))
  | .on | .off _ | .toggle _ | .task _ => isTrue trivial

section Sample

variable [Fintype K] [Fintype P]

instance (w : World K P) (keycode : Keycode) : Decidable (w.Held keycode) := inferInstanceAs (Decidable (∃ _ _, _))

instance (w : World K P) (keycode : Keycode) : Decidable (LastDown table w keycode) :=
  inferInstanceAs (Decidable (_ → _ → ∀ p ∈ table.keyOverrides, _))

instance (w : World K P) (key : K) (keycode : Keycode) : Decidable (Cancelled table w key keycode) :=
  inferInstanceAs (Decidable (_ → _ → (∃ _ _, _) ∨ _ ∨ ∃ _, _))

instance (w : World K P) : ∀ input, Decidable (Careful table w input)
  | .press _ keycode _ _ => inferInstanceAs (Decidable (LastDown table w keycode))
  | .release key _ =>
    haveI : DecidablePred fun pressed : Keycode × Bool => LastDown table w pressed.1 ∧ Cancelled table w key pressed.1 :=
      fun _ => inferInstance
    @Option.decidableForallMem _ _ this (w.down key)
  | .on | .off _ | .toggle _ | .task _ => isTrue trivial

end Sample

/-! ### One override -/

/-- B for A with the left shift -/
def shiftA : Table Unit where
  keyOverrides := [()]
  deref _ :=
    { trigger := 0x0004
      triggerMods := 0x02
      layers := 0xFFFFFFFF
      negativeModMask := 0
      suppressedMods := 0x02
      replacement := 0x0005
      options := allActivations
      customAction := none
      hasEnabled := false }
  length_lt := by decide

/-- Nothing but the time is read. -/
def timer (now : BitVec 32) : Context Unit := ⟨now, 0, 0, fun _ => true⟩

/-- The shift is released before A is. -/
def shiftFirst : List (Input Bool Unit) :=
  [.press true 0x00E1 false (timer 1000), .press false 0x0004 false (timer 1100), .release true (timer 1200),
    .release false (timer 1300), .task 2000]

theorem nothing_left_shiftFirst : (shiftFirst.foldl (step shiftA) initial).state.keys = ∅ := by
  have sound : shiftA.Sound := by decide
  have physical : Along (step shiftA) Physical initial shiftFirst := by decide
  have careful : Along (step shiftA) (Careful shiftA) initial shiftFirst := by decide
  exact (nothing_left sound physical careful (by decide)).1

/-- The overrides are switched off while A, still down, waits to be registered again. -/
def switchedOff : List (Input Bool Unit) :=
  [.press true 0x00E1 false (timer 1000), .press false 0x0004 false (timer 1100), .release true (timer 1200), .off 1250,
    .release false (timer 1300), .task 2000]

/-- All keys are up, nothing waits, and A is in the report. -/
theorem trigger_left :
    let w := switchedOff.foldl (step shiftA) initial
    shiftA.Sound ∧ Along (step shiftA) Physical (initial : World Bool Unit) switchedOff ∧ (∀ key, w.down key = none) ∧
      w.state.deferredRegister = 0 ∧ w.state.keys = {0x04} := by
  decide

end World

end QmkFirmware.KeyOverride
