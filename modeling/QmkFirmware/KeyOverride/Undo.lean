import QmkFirmware.KeyOverride.Code

/-!
# Deactivation against activation

`clear_active_override` takes the replacement out of the report whether or not it was this
activation that has brought it there: it may be deferred still, or have been down before.
-/

namespace QmkFirmware.KeyOverride
open AutoShift (Keycode extractModBits isBasicKeycode isModifierKeycode)

/-! ## What is in the report -/

namespace State

variable {P : Type} {s : State P} {code other : BitVec 8}

/-- Whether a key or a modifier is in the report -/
def has (s : State P) (code : BitVec 8) : Bool :=
  if isBasicKeycode code then decide (code ∈ s.keys)
  else isModifierKeycode (code.zeroExtend 16) && s.mods.getLsbD (code.toNat % 8)

/-- A keycode that is in the keyboard report -/
def listed (code : BitVec 8) : Bool := isBasicKeycode code || isModifierKeycode (code.zeroExtend 16)

/-- Different modifiers have different bits. -/
theorem modifier_index (h : isModifierKeycode (code.zeroExtend 16) = true)
    (h' : isModifierKeycode (other.zeroExtend 16) = true) : other.toNat % 8 = code.toNat % 8 ↔ other = code := by
  simp only [isModifierKeycode, Bool.and_eq_true, decide_eq_true_eq] at h h'
  constructor
  · intro same
    bv_omega
  · rintro rfl
    rfl

theorem getLsbD_bit (i j : Nat) (hi : i < 8) : (1#8 <<< j).getLsbD i = decide (i = j) := by
  rw [BitVec.getLsbD_shiftLeft, BitVec.getLsbD_one, decide_eq_true hi, Bool.true_and, Bool.eq_iff_iff]
  simp only [Bool.and_eq_true, Bool.not_eq_true', decide_eq_false_iff_not, decide_eq_true_eq]
  omega

theorem has_registerCode (s : State P) (code other : BitVec 8) :
    (s.registerCode code).has other = (s.has other || (other == code && listed code)) := by
  have bound : other.toNat % 8 < 8 := Nat.mod_lt _ (by decide)
  unfold registerCode has listed addKey
  by_cases basic : isBasicKeycode code = true
  · by_cases basic' : isBasicKeycode other = true
    · simp [basic, basic', Bool.or_comm, beq_eq_decide]
    · have ne : other ≠ code := fun same => basic' (same ▸ basic)
      simp [basic, basic', ne]
  · by_cases modifier : isModifierKeycode (code.zeroExtend 16) = true
    · by_cases basic' : isBasicKeycode other = true
      · have ne : other ≠ code := fun same => basic (same ▸ basic')
        simp [basic, basic', modifier, ne]
      · by_cases modifier' : isModifierKeycode (other.zeroExtend 16) = true
        · have index := modifier_index modifier modifier'
          simp only [basic, basic', modifier, modifier', if_false, if_true, Bool.true_and, Bool.false_eq_true, Bool.or_true,
            Bool.and_true, BitVec.getLsbD_or, getLsbD_bit _ _ bound, index, beq_eq_decide]
        · have ne : other ≠ code := fun same => modifier' (same ▸ modifier)
          simp [basic, basic', modifier, modifier', ne]
    · simp [basic, modifier]

theorem has_unregisterCode (s : State P) (code other : BitVec 8) :
    (s.unregisterCode code).has other = (s.has other && other != code) := by
  have bound : other.toNat % 8 < 8 := Nat.mod_lt _ (by decide)
  unfold unregisterCode has delKey
  by_cases basic : isBasicKeycode code = true
  · by_cases basic' : isBasicKeycode other = true
    · simp [basic, basic', Bool.and_comm, bne, beq_eq_decide]
    · have ne : other ≠ code := fun same => basic' (same ▸ basic)
      simp [basic, basic', ne]
  · by_cases modifier : isModifierKeycode (code.zeroExtend 16) = true
    · by_cases basic' : isBasicKeycode other = true
      · have ne : other ≠ code := fun same => basic (same ▸ basic')
        simp [basic, basic', modifier, ne]
      · by_cases modifier' : isModifierKeycode (other.zeroExtend 16) = true
        · have index := modifier_index modifier modifier'
          simp only [basic, basic', modifier, modifier', if_false, if_true, Bool.true_and, Bool.false_eq_true,
            BitVec.getLsbD_and, BitVec.getLsbD_not, decide_eq_true bound, getLsbD_bit _ _ bound, index, bne, beq_eq_decide]
        · simp [basic, basic', modifier, modifier']
    · by_cases same : other = code
      · subst same
        simp [basic, modifier]
      · simp [basic, modifier, same]

/-- Only what is in the report can be taken out of it. -/
theorem unregisterCode_of_not_has (absent : s.has code = false) :
    (s.unregisterCode code).keys = s.keys ∧ (s.unregisterCode code).mods = s.mods := by
  unfold has at absent
  unfold unregisterCode delKey
  by_cases basic : isBasicKeycode code = true
  · rw [if_pos basic, decide_eq_false_iff_not] at absent
    simp only [basic, if_true, and_true]
    exact Finset.erase_eq_of_notMem absent
  · rw [if_neg basic] at absent
    rw [if_neg basic]
    split
    case isFalse => exact ⟨rfl, rfl⟩
    case isTrue modifier =>
      rw [modifier, Bool.true_and] at absent
      refine ⟨rfl, BitVec.eq_of_getLsbD_eq fun i hi => ?_⟩
      rw [BitVec.getLsbD_and, BitVec.getLsbD_not, getLsbD_bit _ _ hi, decide_eq_true hi, Bool.true_and]
      by_cases here : i = code.toNat % 8
      · subst here
        simp [absent]
      · simp [here]

end State

/-! ## From the activation to the deactivation -/

/-- The state with the weak modifiers, which are in the report as well -/
structure Board (P : Type) where
  state : State P
  weakMods : BitVec 8

/-- Who has brought a key into the report -/
inductive Holder where
  | nobody | other | override
  deriving DecidableEq

/-- The key is in the report already, or is brought there. -/
def Holder.bring : Holder → Holder → Holder
  | .nobody, who => who
  | holder, _ => holder

/-- What happens while an override is active: `key_override_task`, an event that is only noted, other keys and modifiers that
are registered and unregistered, and weak modifiers that are set -/
inductive Op where
  | task (now : BitVec 32)
  | track (keycode : Keycode) (keyDown isMod : Bool) (now : BitVec 32)
  | press (code : BitVec 8)
  | release (code : BitVec 8)
  | weak (mods : BitVec 8)

/-- Who holds the key of the replacement, and whether the deferred register is the one of the activation; no part of the code -/
structure Watch where
  holder : Holder
  pending : Bool

namespace Board

variable {P : Type} (table : Table P)

/-- `key_override_task`, with the weak modifiers that `register_code16` registers -/
def keyOverrideTask (b : Board P) (now : BitVec 32) : Board P where
  state := b.state.keyOverrideTask now
  weakMods :=
    if b.state.deferredRegister ≠ 0 ∧ b.state.deferDelay ≤ now - b.state.deferReferenceTime then
      b.weakMods ||| extractModBits b.state.deferredRegister
    else b.weakMods

/-- What activates an override -/
def activate (b : Board P) (p : P) (keycode : Keycode) (keyDown isMod : Bool) (now : BitVec 32) : Board P :=
  { b with state := table.activate b.state p keycode keyDown isMod now }

/-- `clear_active_override` -/
def clearActiveOverride (b : Board P) (allowReregister : Bool) (now : BitVec 32) : Board P :=
  { b with state := table.clearActiveOverride b.state allowReregister now }

def step (b : Board P) : Op → Board P
  | .task now => b.keyOverrideTask now
  | .track keycode keyDown isMod now => { b with state := Table.trackKey b.state keycode keyDown isMod now }
  | .press code => { b with state := b.state.registerCode code }
  | .release code => { b with state := b.state.unregisterCode code }
  | .weak mods => { b with weakMods := mods }

/-- The report as the activation finds it, without the trigger -/
def found (b : Board P) (p : P) (keycode : Keycode) (keyDown : Bool) (now : BitVec 32) : State P :=
  let o := table.deref p
  Table.removeTrigger o
    { table.clearActiveOverride b.state false now with
      activeOverride := some p
      triggerIsDown := true
      suppressedMods := o.suppressedMods }
    (o.trigger == keycode && keyDown)

end Board

namespace Watch

variable {P : Type} (table : Table P)

/-- The key as the activation finds and leaves it -/
def start (b : Board P) (p : P) (keycode : Keycode) (keyDown isMod : Bool) (now : BitVec 32) : Watch :=
  let o := table.deref p
  let holder : Holder := if (b.found table p keycode keyDown now).has o.modFreeByte then .other else .nobody
  if o.registers && State.listed o.modFreeByte then
    if isMod then ⟨holder, true⟩ else ⟨holder.bring .override, false⟩
  else ⟨holder, false⟩

/-- The key `code` through what happens -/
def step (code : BitVec 8) (w : Watch) (b : Board P) : Op → Watch
  | .task now =>
    if b.state.deferredRegister ≠ 0 ∧ b.state.deferDelay ≤ now - b.state.deferReferenceTime then
      if b.state.deferredRegister.truncate 8 = code ∧ State.listed code then
        ⟨w.holder.bring (if w.pending then .override else .other), false⟩
      else ⟨w.holder, false⟩
    else w
  | .track keycode keyDown isMod now =>
    { w with pending := w.pending && (Table.trackKey b.state keycode keyDown isMod now).deferredRegister != 0 }
  | .press pressed => if pressed = code ∧ State.listed code then { w with holder := w.holder.bring .other } else w
  | .release released => if released = code then { w with holder := .nobody } else w
  | .weak _ => w

/-- The board and the key together -/
def both (code : BitVec 8) (x : Board P × Watch) (op : Op) : Board P × Watch := (x.1.step op, x.2.step code x.1 op)

end Watch

/-! ## The key is where its holder says -/

@[simp] theorem Holder.bring_eq_nobody {h who : Holder} : h.bring who = .nobody ↔ h = .nobody ∧ who = .nobody := by
  cases h <;> simp [Holder.bring]

section Steps

variable {P : Type} {s : State P} {code : BitVec 8}

/-- Whether a key is in the report depends on the keys and the modifiers. -/
theorem State.has_congr {t : State P} (keys : t.keys = s.keys) (mods : t.mods = s.mods) : t.has code = s.has code := by
  unfold State.has
  rw [keys, mods]

/-- The task that registers what is deferred -/
theorem State.has_keyOverrideTask (now : BitVec 32) :
    (s.keyOverrideTask now).has code =
      (s.has code || (decide (s.deferredRegister ≠ 0 ∧ s.deferDelay ≤ now - s.deferReferenceTime) &&
        (code == s.deferredRegister.truncate 8 && State.listed (s.deferredRegister.truncate 8)))) := by
  unfold State.keyOverrideTask
  by_cases waits : s.deferredRegister = 0
  · simp [waits]
  · by_cases due : s.deferDelay ≤ now - s.deferReferenceTime
    · rw [if_neg waits, if_pos due, decide_eq_true ⟨waits, due⟩, Bool.true_and]
      exact (State.has_congr rfl rfl).trans (State.has_registerCode s _ code)
    · rw [if_neg waits, if_neg due]
      simp [due]

theorem trackKey_report (keycode : Keycode) (keyDown isMod : Bool) (now : BitVec 32) :
    (Table.trackKey s keycode keyDown isMod now).keys = s.keys ∧ (Table.trackKey s keycode keyDown isMod now).mods = s.mods := by
  unfold Table.trackKey
  split_ifs <;> exact ⟨rfl, rfl⟩

/-- The key is in the report if and only if somebody holds it. -/
def Watch.Tracks (code : BitVec 8) (x : Board P × Watch) : Prop := x.2.holder = .nobody ↔ x.1.state.has code = false

/-- A keycode that somebody registers -/
theorem Holder.bring_iff {h who : Holder} {registered : BitVec 8} (named : who ≠ .nobody)
    (before : h = .nobody ↔ s.has code = false) :
    (if registered = code ∧ State.listed code then h.bring who else h) = .nobody ↔
      (s.has code || (code == registered && State.listed registered)) = false := by
  by_cases here : registered = code ∧ State.listed code = true
  · obtain ⟨rfl, listed⟩ := here
    simp [listed, named]
  · rw [if_neg here, before]
    have absent : (code == registered && State.listed registered) = false := by
      rw [Bool.eq_false_iff, Ne, Bool.and_eq_true, beq_iff_eq]
      rintro ⟨rfl, listed⟩
      exact here ⟨rfl, listed⟩
    rw [absent, Bool.or_false]

theorem Watch.Tracks.step (x : Board P × Watch) (op : Op) (h : Watch.Tracks code x) : Watch.Tracks code (Watch.both code x op) := by
  obtain ⟨b, w⟩ := x
  unfold Watch.Tracks at h ⊢
  simp only at h
  cases op with
  | task now =>
    simp only [Watch.both, Board.step, Watch.step, Board.keyOverrideTask, State.has_keyOverrideTask]
    by_cases fires : b.state.deferredRegister ≠ 0 ∧ b.state.deferDelay ≤ now - b.state.deferReferenceTime
    · rw [if_pos fires, decide_eq_true fires, Bool.true_and]
      have named : (if w.pending then Holder.override else .other) ≠ .nobody := by split <;> decide
      rw [← Holder.bring_iff named h]
      split <;> rfl
    · rw [if_neg fires, decide_eq_false fires, Bool.false_and, Bool.or_false]
      exact h
  | track keycode keyDown isMod now =>
    obtain ⟨keys, mods⟩ := trackKey_report (s := b.state) keycode keyDown isMod now
    simp only [Watch.both, Board.step, Watch.step]
    rw [State.has_congr keys mods]
    exact h
  | press pressed =>
    simp only [Watch.both, Board.step, Watch.step, State.has_registerCode]
    have named : Holder.other ≠ .nobody := by decide
    rw [← Holder.bring_iff named h]
    split <;> rfl
  | release released =>
    simp only [Watch.both, Board.step, Watch.step, State.has_unregisterCode]
    by_cases here : released = code
    · simp [here]
    · rw [if_neg here, h]
      simp [Ne.symm here]
  | weak mods => exact h

/-- The active override stays the one that was activated. -/
theorem Board.step_active (b : Board P) (op : Op) : (b.step op).state.activeOverride = b.state.activeOverride := by
  cases op with
  | task now =>
    simp only [Board.step, Board.keyOverrideTask, State.keyOverrideTask, State.registerCode, State.addKey]
    split_ifs <;> rfl
  | track keycode keyDown isMod now =>
    simp only [Board.step, Table.trackKey]
    split_ifs <;> rfl
  | press pressed =>
    simp only [Board.step, State.registerCode, State.addKey]
    split_ifs <;> rfl
  | release released =>
    simp only [Board.step, State.unregisterCode, State.delKey]
    split_ifs <;> rfl
  | weak mods => rfl

end Steps

/-! ## What the activation and the deactivation do -/

section Undo

variable {P : Type}

/-- Custom actions that return true -/
def Override.Plain (o : Override) : Prop := ∀ action ∈ o.customAction, ∀ activated, action activated = true

theorem Override.Plain.unregisters {o : Override} (plain : o.Plain) : o.unregisters = (o.modFreeByte != 0) := by
  have custom : o.custom false = true := by
    unfold Override.custom
    cases action : o.customAction with
    | none => rfl
    | some f => exact plain f action false
  rw [o.unregisters_eq, custom, Bool.and_true]

/-- A custom keycode is never registered, but its low byte is unregistered. -/
theorem Override.Plain.custom_keycode {o : Override} (plain : o.Plain) (custom : safeRange ≤ o.modFreeReplacement) :
    o.registers = false ∧ o.unregisters = (o.modFreeByte != 0) := by
  refine ⟨?_, plain.unregisters⟩
  rw [Override.registers, decide_eq_false (BitVec.not_lt.2 custom), Bool.and_false, Bool.false_and]

/-- `add_key` and `register_code` bring the same key into the report. -/
theorem registerReplacement_has (o : Override) (s : State P) (isMod : Bool) (now : BitVec 32) (code : BitVec 8) :
    (Table.registerReplacement o s isMod now).has code =
      (s.has code || (o.registers && !isMod && (code == o.modFreeByte && State.listed o.modFreeByte))) := by
  unfold Table.registerReplacement
  cases registers : o.registers
  case false => simp
  case true =>
    simp only [if_true, Bool.true_and]
    cases isMod
    case true =>
      simp only [if_true, Bool.not_true, Bool.false_and, Bool.or_false]
      unfold State.scheduleDeferredRegister
      split <;> exact State.has_congr rfl rfl
    case false =>
      simp only [Bool.false_eq_true, if_false, Bool.not_false, Bool.true_and]
      rw [← State.has_registerCode]
      split
      case isTrue basic =>
        rw [Bool.and_eq_true] at basic
        unfold State.registerCode
        rw [Override.modFreeByte, if_pos basic.1]
        exact State.has_congr rfl rfl
      case isFalse => exact (State.has_registerCode _ _ code).trans (State.has_registerCode s _ code).symm

variable {table : Table P} {b : Board P} {p : P} {keycode : Keycode} {keyDown isMod : Bool} {now : BitVec 32}

/-- The activation leaves the key as its holder says. -/
theorem Watch.tracks_start : Watch.Tracks (table.deref p).modFreeByte
    (b.activate table p keycode keyDown isMod now, Watch.start table b p keycode keyDown isMod now) := by
  unfold Watch.Tracks
  show _ ↔ (Table.registerReplacement (table.deref p) (b.found table p keycode keyDown now) isMod now).has _ = false
  rw [registerReplacement_has]
  unfold Watch.start
  dsimp only
  generalize (b.found table p keycode keyDown now).has (table.deref p).modFreeByte = present
  generalize (table.deref p).registers = registers
  generalize State.listed (table.deref p).modFreeByte = listed
  cases present <;> cases registers <;> cases listed <;> cases isMod <;> simp

theorem registerReplacement_active (o : Override) (s : State P) :
    (Table.registerReplacement o s isMod now).activeOverride = s.activeOverride := by
  unfold Table.registerReplacement State.scheduleDeferredRegister State.registerCode State.addKey
  dsimp only
  split_ifs <;> rfl

theorem removeTrigger_active (o : Override) (s : State P) (triggerDown : Bool) :
    (Table.removeTrigger o s triggerDown).activeOverride = s.activeOverride := by
  unfold Table.removeTrigger State.unregisterCode State.delKey
  split_ifs <;> rfl

theorem Board.activate_active : (b.activate table p keycode keyDown isMod now).state.activeOverride = some p := by
  show (Table.registerReplacement _ (Table.removeTrigger _ _ _) isMod now).activeOverride = some p
  rw [registerReplacement_active, removeTrigger_active]

/-- The replacement leaves the report, whoever has brought it there. -/
theorem Board.clear_report (active : b.state.activeOverride = some p) (plain : (table.deref p).Plain) (allowReregister : Bool)
    (later : BitVec 32) :
    (b.clearActiveOverride table allowReregister later).state.keys =
        (b.state.unregisterCode (table.deref p).modFreeByte).keys ∧
      (b.clearActiveOverride table allowReregister later).state.mods =
        (b.state.unregisterCode (table.deref p).modFreeByte).mods := by
  have taken : ∀ s : State P, s.keys = b.state.keys → s.mods = b.state.mods →
      (Table.unregisterReplacement (table.deref p) s).keys = (b.state.unregisterCode (table.deref p).modFreeByte).keys ∧
        (Table.unregisterReplacement (table.deref p) s).mods =
          (b.state.unregisterCode (table.deref p).modFreeByte).mods := by
    intro s keys mods
    unfold Table.unregisterReplacement
    rw [plain.unregisters]
    by_cases none : (table.deref p).modFreeByte = 0
    · have absent : b.state.has (table.deref p).modFreeByte = false := by
        rw [none]
        rfl
      obtain ⟨keys', mods'⟩ := State.unregisterCode_of_not_has absent
      rw [if_neg (by simp [none]), keys', mods']
      exact ⟨keys, mods⟩
    · rw [if_pos (bne_iff_ne.2 none)]
      unfold State.unregisterCode State.delKey
      split_ifs <;> simp [keys, mods]
  simp only [Board.clearActiveOverride, Table.clearActiveOverride, active]
  split
  · unfold State.scheduleDeferredRegister
    split <;> exact taken _ rfl rfl
  · exact taken _ rfl rfl

/-- What the activation registered leaves the report, and nothing else does. -/
def Board.Undone (b c : Board P) (code : BitVec 8) (w : Watch) : Prop :=
  (if w.holder = .override then (b.state.unregisterCode code).keys else b.state.keys) = c.state.keys ∧
    (if w.holder = .override then (b.state.unregisterCode code).mods else b.state.mods) = c.state.mods ∧ b.weakMods = c.weakMods

instance (b c : Board P) (code : BitVec 8) (w : Watch) : Decidable (b.Undone c code w) := inferInstanceAs (Decidable (_ ∧ _))

/-- The activation, what happens after it, and the key of the replacement through both -/
def Board.after (table : Table P) (b : Board P) (p : P) (keycode : Keycode) (keyDown isMod : Bool) (now : BitVec 32)
    (ops : List Op) : Board P × Watch :=
  ops.foldl (Watch.both (table.deref p).modFreeByte)
    (b.activate table p keycode keyDown isMod now, Watch.start table b p keycode keyDown isMod now)

/-- What a run keeps -/
theorem Watch.run {code : BitVec 8} {x : Board P × Watch} (ops : List Op) (tracks : Watch.Tracks code x)
    (active : x.1.state.activeOverride = some p) :
    Watch.Tracks code (ops.foldl (Watch.both code) x) ∧ (ops.foldl (Watch.both code) x).1.state.activeOverride = some p := by
  induction ops generalizing x with
  | nil => exact ⟨tracks, active⟩
  | cons op ops ih => exact ih (tracks.step x op) ((x.1.step_active op).trans active)

/-- Only a key that nobody but the activation holds can be taken out without harm. -/
theorem Watch.Tracks.undone_iff {x : Board P × Watch} (tracks : Watch.Tracks (table.deref p).modFreeByte x)
    (active : x.1.state.activeOverride = some p) (plain : (table.deref p).Plain) (allowReregister : Bool) (later : BitVec 32) :
    x.1.Undone (x.1.clearActiveOverride table allowReregister later) (table.deref p).modFreeByte x.2 ↔
      x.2.holder ≠ .other := by
  obtain ⟨keys, mods⟩ := Board.clear_report active plain allowReregister later
  unfold Board.Undone
  rw [keys, mods]
  cases holder : x.2.holder with
  | override => simp [Board.clearActiveOverride]
  | nobody =>
    obtain ⟨keys, mods⟩ := State.unregisterCode_of_not_has (tracks.1 holder)
    simp [Board.clearActiveOverride, keys, mods]
  | other =>
    have present : x.1.state.has (table.deref p).modFreeByte = true := by
      by_contra absent
      have nobody := tracks.2 (Bool.not_eq_true _ ▸ absent)
      simp [holder] at nobody
    refine iff_of_false (fun undone => ?_) (fun ne => ne rfl)
    have gone := State.has_unregisterCode x.1.state (table.deref p).modFreeByte (table.deref p).modFreeByte
    rw [State.has_congr undone.1.symm undone.2.1.symm, present] at gone
    simp at gone

theorem length_single_lt : [()].length < 2 ^ 8 := by decide

/-- Left shift and X give A. -/
def shiftedX : Table Unit where
  keyOverrides := [()]
  deref _ :=
    { trigger := 0x001B
      triggerMods := 0x02
      layers := BitVec.allOnes 32
      negativeModMask := 0
      suppressedMods := 0x02
      replacement := 0x0004
      options := allActivations
      customAction := none
      hasEnabled := false }
  length_lt := length_single_lt

theorem shiftedX_plain : (shiftedX.deref ()).Plain := by
  intro action mem
  cases mem

end Undo

end QmkFirmware.KeyOverride
