import QmkFirmware.AutoShift.Code

/-!
# The hold time of a key

Every press of a key is typed once, in order. `autoshift_time` is the time of the
pending press until another key is released: it is moved on then as well, and the
pending key is judged by the time since that release.
-/

namespace QmkFirmware.AutoShift
open Lib

/-! ## What the user does -/

/-- Keys that are auto-shifted, with their keycodes -/
structure Keys (K : Type) where
  code : K → Keycode
  auto : ∀ k, getAutoShiftedKey (code k) = true

/-- A key or the left shift goes down or up, or the matrix scan comes -/
inductive Input (K : Type) where
  | press (key : K)
  | release (key : K)
  | shift (pressed : Bool)
  | scan
  deriving DecidableEq

/-- A press that is not typed yet: when it came, whether shift was held then, and when a key was last pressed or released -/
structure Press (K : Type) where
  key : K
  time : Nat
  shift : Bool
  since : Nat

/-- The code, and what the user did: the time, the keys that are down, the press that is not typed yet, and all presses -/
structure Desk (K : Type) where
  state : State
  now : Nat
  down : Finset K
  shiftDown : Bool
  pending : Option (Press K)
  presses : List K

namespace Desk

variable {K : Type} [DecidableEq K] (keys : Keys K)

def initial (timeout : BitVec 16) : Desk K := ⟨.initial timeout, 0, ∅, false, none, []⟩

/-- What the code does -/
def next (s : State) (now : BitVec 16) : Input K → State
  | .press key => s.actionExec (keys.code key) true now
  | .release key => s.actionExec (keys.code key) false now
  | .shift pressed => s.actionExec kcLeftShift pressed now
  | .scan => s.autoshiftMatrixScan now

/-- What the step types -/
def types (d : Desk K) (now : Nat) (input : Input K) : List Typed :=
  (next keys d.state (BitVec.ofNat 16 now) input).typed.drop d.state.typed.length

/-- The press that is not typed after the step -/
def waiting (d : Desk K) (now : Nat) : Input K → Option (Press K)
  | .press key => some ⟨key, now, d.shiftDown, now⟩
  | .release key => if types keys d now (.release key) = [] then d.pending.map fun p => { p with since := now } else none
  | .shift pressed => if types keys d now (.shift pressed) = [] then d.pending else none
  | .scan => if types keys d now .scan = [] then d.pending else none

/-- A step; the time of each is given. -/
def step (d : Desk K) (e : Nat × Input K) : Desk K where
  state := next keys d.state (BitVec.ofNat 16 e.1) e.2
  now := e.1
  down :=
    match e.2 with
    | .press key => insert key d.down
    | .release key => d.down.erase key
    | _ => d.down
  shiftDown :=
    match e.2 with
    | .shift pressed => pressed
    | _ => d.shiftDown
  pending := waiting keys d e.1 e.2
  presses :=
    match e.2 with
    | .press key => d.presses ++ [key]
    | _ => d.presses

/-- A press is to be typed by the release of its key, by the next press or by a scan that sees its timeout. -/
def Due (p : Press K) (timeout : BitVec 16) (now : Nat) : Input K → Prop
  | .press _ => True
  | .release key => key = p.key
  | .shift pressed => pressed = true
  | .scan => timeout.toNat ≤ now - p.time

/-- What a step types is the pending press, when it is due, with shift if and only if shift was held at the press or the
timeout has passed since. -/
def TypesRight (d : Desk K) (e : Nat × Input K) : Prop :=
  ∀ t ∈ types keys d e.1 e.2, ∃ p ∈ d.pending, Due p d.state.timeout e.1 e.2 ∧
    t = ⟨(keys.code p.key).truncate 8, if p.shift = true ∨ d.state.timeout.toNat ≤ e.1 - p.time then modLsft else 0⟩

/-- If the key was pressed without shift and its timeout has passed, it has passed as well since a key was last released, by
a timer of 16 bits. -/
def Late (p : Press K) (timeout : BitVec 16) (now : Nat) : Prop :=
  p.shift = false → timeout.toNat ≤ now - p.time → timeout.toNat ≤ (now - p.since) % 2 ^ 16

/-- A pending key that is released or followed by a press is judged by its own time, and no other key with its keycode is
released. -/
def Judged (d : Desk K) (e : Nat × Input K) : Prop :=
  ∀ p ∈ d.pending,
    match e.2 with
    | .press _ => Late p d.state.timeout e.1
    | .release key => keys.code key = keys.code p.key → key = p.key ∧ Late p d.state.timeout e.1
    | .shift pressed => pressed = true → Late p d.state.timeout e.1
    | .scan => True

end Desk

/-! ## What the code does -/

section Code

variable {code : Keycode}

/-- The keycode of an auto-shifted key is basic and has no modifiers. -/
theorem autoShifted_range (auto : getAutoShiftedKey code = true) : 0x04 ≤ code ∧ code ≤ 0x64 := by
  simp only [getAutoShiftedKey, autoShiftAlpha, autoShiftNumeric, autoShiftSpecial, Bool.or_eq_true, Bool.and_eq_true,
    decide_eq_true_eq, beq_iff_eq] at auto
  rcases auto with (⟨low, high⟩ | ⟨low, high⟩) | (rfl | ⟨low, high⟩) | rfl
  · exact ⟨low, by bv_omega⟩
  · exact ⟨by bv_omega, by bv_omega⟩
  · exact ⟨by decide, by decide⟩
  · exact ⟨by bv_omega, by bv_omega⟩
  · exact ⟨by decide, by decide⟩

theorem isRetro_auto (auto : getAutoShiftedKey code = true) : isRetro code = false := by
  obtain ⟨-, high⟩ := autoShifted_range auto
  simp only [isRetro, Bool.and_eq_false_iff, decide_eq_false_iff_not]
  bv_omega

theorem hostCode_auto (auto : getAutoShiftedKey code = true) : State.hostCode code = code := by
  rw [State.hostCode, isRetro_auto auto]
  rfl

theorem kcNo_ne_auto (auto : getAutoShiftedKey code = true) : kcNo ≠ code := by
  obtain ⟨low, -⟩ := autoShifted_range auto
  unfold kcNo
  bv_omega

theorem plain_auto (auto : getAutoShiftedKey code = true) : (isModifierKeycode code || code == kcNo) = false := by
  obtain ⟨-, high⟩ := autoShifted_range auto
  simp only [isModifierKeycode, Bool.or_eq_false_iff, Bool.and_eq_false_iff, decide_eq_false_iff_not, beq_eq_false_iff_ne]
  exact ⟨by bv_omega, (kcNo_ne_auto auto).symm⟩

theorem extractModBits_auto (auto : getAutoShiftedKey code = true) : extractModBits code = 0#8 := by
  obtain ⟨-, high⟩ := autoShifted_range auto
  rw [extractModBits]
  refine if_neg fun modified => ?_
  rw [Bool.and_eq_true, decide_eq_true_eq, decide_eq_true_eq] at modified
  bv_omega

theorem isBasicKeycode_auto (auto : getAutoShiftedKey code = true) : isBasicKeycode (code.truncate 8) = true := by
  obtain ⟨low, high⟩ := autoShifted_range auto
  simp only [isBasicKeycode, Bool.and_eq_true, decide_eq_true_eq]
  exact ⟨by bv_omega, by bv_omega⟩

end Code

/-! ## Between the steps -/

namespace State

/-- The keyboard between two steps: no key is down on the host, and of the modifiers the left shift is, if the user holds it. -/
structure Settled (s : State) (shift : Bool) : Prop where
  enabled : s.enabled = true
  mods : s.mods = if shift then modLsft else 0
  weakMods : s.weakMods = 0
  oneshotMods : s.oneshotMods = 0
  keys : s.keys = []
  cancellingLshift : s.cancellingLshift = false
  cancellingRshift : s.cancellingRshift = false

variable {s : State} {shift : Bool} {code : Keycode} {now : BitVec 16}

theorem registerCode16_auto (auto : getAutoShiftedKey code = true) :
    s.registerCode16 code =
      { s with
        keys := s.keys.erase (code.truncate 8) ++ [code.truncate 8]
        typed := s.typed ++ [⟨code.truncate 8, s.mods ||| s.weakMods ||| s.oneshotMods⟩] } := by
  rw [registerCode16, plain_auto auto, extractModBits_auto auto]
  simp only [Bool.false_eq_true, if_false, registerCode, isBasicKeycode_auto auto, if_true, BitVec.or_zero]

theorem unregisterCode16_auto (auto : getAutoShiftedKey code = true) :
    s.unregisterCode16 code = { s with keys := s.keys.erase (code.truncate 8) } := by
  rw [unregisterCode16, plain_auto auto, extractModBits_auto auto]
  simp only [Bool.false_eq_true, if_false, unregisterCode, isBasicKeycode_auto auto, if_true, BitVec.not_zero,
    BitVec.and_allOnes]

/-- Nothing is down that a release could take up. -/
theorem Settled.release (h : s.Settled shift) (auto : getAutoShiftedKey code = true) (shifted : Bool) :
    s.autoshiftReleaseUser code shifted = s := by
  rw [autoshiftReleaseUser, hostCode_auto auto, unregisterCode16_auto auto, h.keys]
  cases s
  cases h.keys
  rfl

theorem Settled.flush (h : s.Settled shift) : s.autoshiftFlushShift = { s with holdingShift := false } := by
  have weak : s.weakMods &&& ~~~modLsft = s.weakMods := by rw [h.weakMods]; rfl
  simp [autoshiftFlushShift, restoreLshift, restoreRshift, h.cancellingLshift, h.cancellingRshift, weak]

/-- The pending key is tapped: with shift if that was held or the timer shows the timeout. -/
def tap (s : State) (now : BitVec 16) : State :=
  { s with
    time := now
    inProgress := false
    lastshifted := s.lastshifted || s.timeout ≤ now - s.time
    shiftStates := Function.update s.shiftStates (s.lastkey.truncate 8) (s.lastshifted || s.timeout ≤ now - s.time)
    holdingShift := false
    typed := s.typed ++
      [⟨s.lastkey.truncate 8, if (s.lastshifted || s.timeout ≤ now - s.time) = true then modLsft else 0⟩] }

theorem Settled.tap (h : s.Settled shift) : (s.tap now).Settled shift :=
  ⟨h.enabled, h.mods, h.weakMods, h.oneshotMods, h.keys, h.cancellingLshift, h.cancellingRshift⟩

/-- The modifiers are what they were before the tap. -/
theorem Settled.evaluate (h : s.Settled shift) (auto : getAutoShiftedKey s.lastkey = true) :
    { s.autoshiftEvaluate now with time := now } = s.tap now := by
  obtain ⟨enabled, mods, weak, oneshot, keys, lshift, rshift⟩ := h
  unfold autoshiftEvaluate State.tap
  generalize (s.lastshifted || decide (s.timeout ≤ now - s.time)) = shifted
  cases shift <;> cases shifted <;>
    simp [cancelLshift, cancelRshift, setAutoshiftShiftState, autoshiftPressUser, autoshiftReleaseUser, hostCode_auto auto,
      registerCode16_auto auto, unregisterCode16_auto auto, autoshiftFlushShift, restoreLshift, restoreRshift, mods, weak,
      oneshot, keys, lshift, rshift, modLsft, modRsft]

/-- A key in progress is auto-shifted. -/
def Pending (s : State) : Prop := s.inProgress = true → getAutoShiftedKey s.lastkey = true

theorem Settled.end_pending (h : s.Settled shift) (on : s.inProgress = true) (auto : getAutoShiftedKey s.lastkey = true)
    (own : code = s.lastkey ∨ code = kcNo) : s.autoshiftEnd code now = s.tap now := by
  have here : (s.inProgress && (code == s.lastkey || code == kcNo)) = true := by
    rw [on]
    simpa using own
  rw [autoshiftEnd, if_pos here, h.evaluate auto]

/-- The release of a key that is not pending types nothing, but the time is moved on. -/
theorem Settled.end_other (h : s.Settled shift) (auto : getAutoShiftedKey code = true)
    (other : s.inProgress = true → code ≠ s.lastkey) :
    ∃ holdingShift, s.autoshiftEnd code now = { s with holdingShift, time := now } := by
  have there : ¬ (s.inProgress && (code == s.lastkey || code == kcNo)) = true := by
    simp only [Bool.and_eq_true, Bool.or_eq_true, beq_iff_eq, not_and, not_or]
    exact fun on => ⟨other on, (kcNo_ne_auto auto).symm⟩
  rw [autoshiftEnd, if_neg there]
  simp only [h.release auto]
  split
  · exact ⟨false, by rw [h.flush]⟩
  · exact ⟨s.holdingShift, rfl⟩

/-- What the press of any key does first -/
def interrupt (s : State) (now : BitVec 16) : State := if s.inProgress then s.tap now else s

theorem Settled.interrupt (h : s.Settled shift) : (s.interrupt now).Settled shift := by
  rw [State.interrupt]
  split
  · exact h.tap
  · exact h

theorem Settled.interrupted (h : s.Settled shift) (pending : s.Pending) :
    (if s.inProgress then s.autoshiftEnd kcNo now else s) = s.interrupt now := by
  rw [State.interrupt]
  split
  case isTrue on => exact h.end_pending on (pending on) (Or.inr rfl)
  case isFalse => rfl

/-- There are no weak modifiers to clear. -/
theorem Settled.exec (h : s.Settled shift) (pressed : Bool) :
    s.actionExec code pressed now = s.processRecord code pressed now := by
  have cleared : s.clearWeakMods = s := by rw [clearWeakMods, ← h.weakMods]
  rw [actionExec, cleared, ite_self]

theorem Settled.press (h : s.Settled shift) (pending : s.Pending) (auto : getAutoShiftedKey code = true) :
    s.actionExec code true now =
      { s.interrupt now with lastshifted := shift, lastkey := code, time := now, inProgress := true } := by
  have settled : (s.interrupt now).Settled shift := h.interrupt
  have alone : ¬ ((s.interrupt now).mods ||| (s.interrupt now).oneshotMods) &&& ~~~modLsft ≠ 0 := by
    rw [settled.mods, settled.oneshotMods]
    cases shift <;> decide
  have shifted : decide (((s.interrupt now).mods ||| (s.interrupt now).oneshotMods) &&& modLsft ≠ 0) = shift := by
    rw [settled.mods, settled.oneshotMods]
    cases shift <;> decide
  have oneshot : (s.interrupt now).oneshotMods &&& ~~~modLsft = (s.interrupt now).oneshotMods := by
    rw [settled.oneshotMods]
    rfl
  rw [h.exec]
  unfold processRecord processAutoShift
  simp only [if_true, h.interrupted pending, isRetro_auto auto, settled.enabled, auto, autoshiftPress, if_neg alone, shifted,
    oneshot, Bool.false_eq_true, if_false, Bool.not_true]

theorem not_shift_auto (auto : getAutoShiftedKey code = true) : code ≠ kcLeftShift ∧ code ≠ kcRightShift := by
  obtain ⟨-, high⟩ := autoShifted_range auto
  unfold kcLeftShift kcRightShift
  exact ⟨by bv_omega, by bv_omega⟩

theorem Settled.up (h : s.Settled shift) (auto : getAutoShiftedKey code = true) :
    s.actionExec code false now = s.autoshiftEnd code now := by
  rw [h.exec]
  unfold processRecord processAutoShift
  simp only [Bool.false_eq_true, if_false, if_neg (not_shift_auto auto).1, if_neg (not_shift_auto auto).2, isRetro_auto auto,
    h.enabled, Bool.not_true, auto, if_true]

theorem Settled.shiftDown (h : s.Settled shift) (pending : s.Pending) :
    s.actionExec kcLeftShift true now = { s.interrupt now with lastkey := kcNo, mods := modLsft } := by
  have settled : (s.interrupt now).Settled shift := h.interrupt
  have down : (s.interrupt now).mods ||| 1#8 <<< ((kcLeftShift.truncate 8).toNat % 8) = modLsft := by
    rw [settled.mods]
    cases shift <;> decide
  rw [h.exec]
  unfold processRecord processAutoShift
  simp only [if_true, h.interrupted pending, show isRetro kcLeftShift = false from rfl, settled.enabled, Bool.not_true,
    show getAutoShiftedKey kcLeftShift = false from rfl, Bool.false_eq_true, if_false, processAction, registerCode,
    show isBasicKeycode (kcLeftShift.truncate 8) = false from rfl,
    show isModifierKeycode ((kcLeftShift.truncate 8).zeroExtend 16) = true from rfl, down]

theorem Settled.shiftUp (h : s.Settled shift) :
    s.actionExec kcLeftShift false now = { s with mods := 0 } := by
  have up : s.mods &&& ~~~(1#8 <<< ((kcLeftShift.truncate 8).toNat % 8)) = 0 := by
    rw [h.mods]
    cases shift <;> decide
  rw [h.exec]
  unfold processRecord processAutoShift
  simp only [Bool.false_eq_true, if_false, if_true, show isRetro kcLeftShift = false from rfl, h.enabled, Bool.not_true,
    show getAutoShiftedKey kcLeftShift = false from rfl, processAction, unregisterCode,
    show isBasicKeycode (kcLeftShift.truncate 8) = false from rfl,
    show isModifierKeycode ((kcLeftShift.truncate 8).zeroExtend 16) = true from rfl, up]
  rw [h.cancellingLshift]

theorem Settled.scan (h : s.Settled shift) (pending : s.Pending) :
    s.autoshiftMatrixScan now = if s.inProgress && s.timeout ≤ now - s.time then s.tap now else s := by
  rw [autoshiftMatrixScan]
  split
  case isTrue on =>
    rw [Bool.and_eq_true] at on
    exact h.end_pending on.1 (pending on.1) (Or.inl rfl)
  case isFalse => rfl

end State

/-! ## Runs -/

namespace Desk

variable {K : Type}

/-- The code given to the host for a press -/
def host (keys : Keys K) (key : K) : BitVec 8 := (keys.code key).truncate 8

/-- The pending key of the code is the press. -/
structure Holds (keys : Keys K) (p : Press K) (d : Desk K) : Prop where
  on : d.state.inProgress = true
  lastkey : d.state.lastkey = keys.code p.key
  lastshifted : d.state.lastshifted = p.shift
  time : d.state.time = BitVec.ofNat 16 p.since
  le : p.time ≤ p.since
  past : p.since ≤ d.now
  down : p.key ∈ d.down

/-- The code holds back the press that is not typed, and has typed all others in their order. -/
structure Inv (keys : Keys K) (d : Desk K) : Prop where
  settled : d.state.Settled d.shiftDown
  idle : d.pending = none → d.state.inProgress = false
  holds : ∀ p ∈ d.pending, Holds keys p d
  typed : d.state.typed.map Typed.code ++ d.pending.toList.map (fun p => host keys p.key) = d.presses.map (host keys)

/-- What a tap of the pending key types -/
def taps (d : Desk K) (now : Nat) : List Typed :=
  if d.state.inProgress then
    [⟨d.state.lastkey.truncate 8,
      if (d.state.lastshifted || d.state.timeout ≤ BitVec.ofNat 16 now - d.state.time) = true then modLsft else 0⟩]
  else []

variable {keys : Keys K} {d : Desk K} {now : Nat} {input : Input K}

theorem Holds.auto {p : Press K} (h : Holds keys p d) : getAutoShiftedKey d.state.lastkey = true := by
  rw [h.lastkey]
  exact keys.auto p.key

theorem Inv.pending (h : Inv keys d) : d.state.Pending := by
  intro on
  cases hp : d.pending with
  | none => exact absurd on (by simp [h.idle hp])
  | some p => exact (h.holds p hp).auto

/-- The timer shows the time since a key was last released. -/
theorem Holds.shows {p : Press K} (h : Holds keys p d) (le : d.now ≤ now) :
    (d.state.lastshifted || d.state.timeout ≤ BitVec.ofNat 16 now - d.state.time) = true ↔
      p.shift = true ∨ d.state.timeout.toNat ≤ (now - p.since) % 2 ^ 16 := by
  have shown : (BitVec.ofNat 16 now - BitVec.ofNat 16 p.since).toNat = (now - p.since) % 2 ^ 16 := by
    rw [elapsed_add _ (h.past.trans le), BitVec.sub_self, BitVec.toNat_zero, Nat.zero_add]
  rw [h.lastshifted, h.time, Bool.or_eq_true, decide_eq_true_eq, BitVec.le_def, shown]

/-- A tap is right if and only if it is due and the time since a key was last released has not misled the code. -/
theorem Inv.right_iff (h : Inv keys d) (le : d.now ≤ now) (types_eq : types keys d now input = taps d now) :
    TypesRight keys d (now, input) ↔ ∀ p ∈ d.pending, Due p d.state.timeout now input ∧ Late p d.state.timeout now := by
  unfold TypesRight
  simp only [types_eq, taps]
  cases hp : d.pending with
  | none => simp [h.idle hp]
  | some p =>
    have holds := h.holds p hp
    have shows := holds.shows le
    have own : (now - p.since) % 2 ^ 16 ≤ now - p.time :=
      (Nat.mod_le _ _).trans (Nat.sub_le_sub_left holds.le now)
    simp only [holds.on, if_true, List.mem_singleton, forall_eq, forall_eq', Option.mem_def, Option.some.injEq, exists_eq_left',
      holds.lastkey, Typed.mk.injEq, true_and, Late]
    refine and_congr_right fun _ => ?_
    by_cases shifted : p.shift = true ∨ d.state.timeout.toNat ≤ (now - p.since) % 2 ^ 16
    · have late : p.shift = true ∨ d.state.timeout.toNat ≤ now - p.time := shifted.imp_right fun passed => passed.trans own
      rw [if_pos (shows.2 shifted), if_pos late]
      exact iff_of_true rfl fun unshifted _ => shifted.resolve_left (by simp [unshifted])
    · rw [if_neg fun on => shifted (shows.1 on)]
      rw [not_or] at shifted
      by_cases late : p.shift = true ∨ d.state.timeout.toNat ≤ now - p.time
      · rw [if_pos late]
        refine iff_of_false (by decide) fun judged => ?_
        exact shifted.2 (judged (by simpa using shifted.1) (late.resolve_left shifted.1))
      · rw [if_neg late]
        rw [not_or] at late
        exact iff_of_true rfl fun _ passed => absurd passed late.2

theorem right_of_silent (silent : types keys d now input = []) : TypesRight keys d (now, input) := by
  intro t mem
  rw [silent] at mem
  exact absurd mem List.not_mem_nil

theorem types_eq {l : List Typed} (typed : (next keys d.state (BitVec.ofNat 16 now) input).typed = d.state.typed ++ l) :
    types keys d now input = l := by
  rw [types, typed, List.drop_left]

theorem Inv.taps_code (h : Inv keys d) :
    (taps d now).map Typed.code = d.pending.toList.map fun p => host keys p.key := by
  rw [taps]
  cases hp : d.pending with
  | none => simp [h.idle hp]
  | some p =>
    simp only [(h.holds p hp).on, if_true, (h.holds p hp).lastkey, List.map_cons, List.map_nil, Option.toList_some]
    rfl

theorem Inv.taps_eq_nil (h : Inv keys d) : taps d now = [] ↔ d.pending = none := by
  rw [taps]
  cases hp : d.pending with
  | none => simp [h.idle hp]
  | some p => simp [(h.holds p hp).on]

theorem interrupt_typed : (d.state.interrupt (BitVec.ofNat 16 now)).typed = d.state.typed ++ taps d now := by
  rw [State.interrupt, taps]
  split
  · rfl
  · rw [List.append_nil]

theorem inv_initial (timeout : BitVec 16) : Inv keys (initial timeout) :=
  ⟨⟨rfl, rfl, rfl, rfl, rfl, rfl, rfl⟩, fun _ => rfl, fun _ mem => (by cases mem), rfl⟩

/-- A step that taps the pending key leaves none. -/
theorem Inv.of_tap {d' : Desk K} (h : Inv keys d) (settled : d'.state.Settled d'.shiftDown) (off : d'.state.inProgress = false)
    (typed : d'.state.typed = d.state.typed ++ taps d now) (none : d'.pending = none) (presses : d'.presses = d.presses) :
    Inv keys d' := by
  refine ⟨settled, fun _ => off, fun p mem => ?_, ?_⟩
  · rw [none] at mem
    cases mem
  · rw [typed, none, presses, List.map_append, h.taps_code, h.typed]
    exact List.append_nil _

/-- A step that changes nothing about the pending key keeps it. -/
theorem Inv.of_same {d' : Desk K} (h : Inv keys d) (le : d.now ≤ d'.now) (settled : d'.state.Settled d'.shiftDown)
    (state : d'.state = { d.state with mods := d'.state.mods }) (pending : d'.pending = d.pending) (down : d'.down = d.down)
    (presses : d'.presses = d.presses) : Inv keys d' := by
  refine ⟨settled, fun none => ?_, fun p mem => ?_, ?_⟩
  · rw [state]
    exact h.idle (pending.symm.trans none)
  · have holds := h.holds p (pending ▸ mem)
    refine ⟨?_, ?_, ?_, ?_, holds.le, holds.past.trans le, down ▸ holds.down⟩ <;> rw [state]
    · exact holds.on
    · exact holds.lastkey
    · exact holds.lastshifted
    · exact holds.time
  · rw [state, pending, presses]
    exact h.typed

/-! ### Steps -/

variable [DecidableEq K] {key : K}

theorem Inv.press (h : Inv keys d) (le : d.now ≤ now) :
    Inv keys (step keys d (now, .press key)) ∧
      (TypesRight keys d (now, .press key) ↔ Judged keys d (now, .press key)) := by
  have auto := keys.auto key
  have after : next keys d.state (BitVec.ofNat 16 now) (.press key) = _ := h.settled.press h.pending auto
  have typed : (next keys d.state (BitVec.ofNat 16 now) (.press key)).typed = d.state.typed ++ taps d now := by
    rw [after]
    exact interrupt_typed
  constructor
  · have settled : (d.state.interrupt (BitVec.ofNat 16 now)).Settled d.shiftDown := h.settled.interrupt
    refine ⟨?_, fun none => ?_, fun p mem => ?_, ?_⟩
    · rw [step, after]
      exact ⟨settled.enabled, settled.mods, settled.weakMods, settled.oneshotMods, settled.keys, settled.cancellingLshift,
        settled.cancellingRshift⟩
    · cases none
    · cases mem
      simp only [step, after]
      exact ⟨rfl, rfl, rfl, rfl, Nat.le_refl now, Nat.le_refl now, Finset.mem_insert_self key d.down⟩
    · simp only [step, waiting, typed, List.map_append, h.taps_code, h.typed, Option.toList_some, List.map_cons, List.map_nil]
  · rw [h.right_iff le (types_eq typed)]
    simp only [Judged, Due, true_and]

theorem Inv.release (h : Inv keys d) (le : d.now ≤ now) :
    Inv keys (step keys d (now, .release key)) ∧
      (TypesRight keys d (now, .release key) ↔ Judged keys d (now, .release key)) := by
  have auto := keys.auto key
  have after : next keys d.state (BitVec.ofNat 16 now) (.release key) = _ := h.settled.up auto
  by_cases own : ∃ p ∈ d.pending, keys.code key = keys.code p.key
  · obtain ⟨p, mem, same⟩ := own
    have holds := h.holds p mem
    rw [h.settled.end_pending holds.on holds.auto (Or.inl (same.trans holds.lastkey.symm))] at after
    have typed : (next keys d.state (BitVec.ofNat 16 now) (.release key)).typed = d.state.typed ++ taps d now := by
      rw [after, taps, if_pos holds.on]
      rfl
    have tapped := types_eq typed
    have taps : types keys d now (.release key) ≠ [] := by
      rw [tapped]
      intro nil
      have none := h.taps_eq_nil.1 nil
      rw [Option.mem_def.1 mem] at none
      cases none
    constructor
    · refine h.of_tap ?_ ?_ typed (if_neg taps) rfl <;> rw [step, after]
      · exact h.settled.tap
      · rfl
    · rw [h.right_iff le tapped]
      simp only [Judged, Due, Option.mem_def.1 mem, Option.mem_def, Option.some.injEq, forall_eq', same, forall_const]
  · have other : d.state.inProgress = true → keys.code key ≠ d.state.lastkey := by
      intro on same
      cases hp : d.pending with
      | none => simp [h.idle hp] at on
      | some p => exact own ⟨p, hp, same.trans (h.holds p hp).lastkey⟩
    obtain ⟨holdingShift, kept⟩ := @State.Settled.end_other _ _ _ (BitVec.ofNat 16 now) h.settled auto other
    rw [kept] at after
    have silent : types keys d now (.release key) = [] := types_eq (by rw [after, List.append_nil])
    constructor
    · refine ⟨?_, fun none => ?_, fun q mem => ?_, ?_⟩
      · rw [step, after]
        exact ⟨h.settled.enabled, h.settled.mods, h.settled.weakMods, h.settled.oneshotMods, h.settled.keys,
          h.settled.cancellingLshift, h.settled.cancellingRshift⟩
      · simp only [step, waiting, silent, if_true, Option.map_eq_none_iff] at none
        rw [step, after]
        exact h.idle none
      · simp only [step, waiting, silent, if_true, Option.mem_def, Option.map_eq_some_iff] at mem
        obtain ⟨p, hp, rfl⟩ := mem
        have holds := h.holds p hp
        simp only [step, after]
        refine ⟨holds.on, holds.lastkey, holds.lastshifted, rfl, holds.le.trans (holds.past.trans le), Nat.le_refl now, ?_⟩
        refine Finset.mem_erase.2 ⟨fun same => ?_, holds.down⟩
        exact own ⟨p, hp, by rw [← same]⟩
      · simp only [step, waiting, silent, if_true, after]
        rw [← h.typed]
        cases d.pending <;> rfl
    · refine iff_of_true (right_of_silent silent) fun p mem same => ?_
      exact absurd ⟨p, mem, same⟩ own

theorem Inv.shift {pressed : Bool} (h : Inv keys d) (le : d.now ≤ now) :
    Inv keys (step keys d (now, .shift pressed)) ∧
      (TypesRight keys d (now, .shift pressed) ↔ Judged keys d (now, .shift pressed)) := by
  cases pressed with
  | true =>
    have after : next keys d.state (BitVec.ofNat 16 now) (.shift true) = _ := h.settled.shiftDown h.pending
    have typed : (next keys d.state (BitVec.ofNat 16 now) (.shift true)).typed = d.state.typed ++ taps d now := by
      rw [after]
      exact interrupt_typed
    have tapped := types_eq typed
    have none : waiting keys d now (.shift true) = none := by
      rw [waiting, tapped]
      split
      case isTrue nil => exact h.taps_eq_nil.1 nil
      case isFalse => rfl
    constructor
    · have settled : (d.state.interrupt (BitVec.ofNat 16 now)).Settled d.shiftDown := h.settled.interrupt
      refine h.of_tap ?_ ?_ typed none rfl <;> rw [step, after]
      · exact ⟨settled.enabled, rfl, settled.weakMods, settled.oneshotMods, settled.keys, settled.cancellingLshift,
          settled.cancellingRshift⟩
      · simp only [State.interrupt]
        split
        case isTrue => rfl
        case isFalse off => exact Bool.eq_false_of_not_eq_true off
    · rw [h.right_iff le tapped]
      simp only [Judged, Due, true_and, forall_const]
  | false =>
    have after : next keys d.state (BitVec.ofNat 16 now) (.shift false) = _ := h.settled.shiftUp
    have silent : types keys d now (.shift false) = [] := types_eq (by rw [after, List.append_nil])
    have same : waiting keys d now (.shift false) = d.pending := by rw [waiting, if_pos silent]
    constructor
    · refine h.of_same le ?_ ?_ same rfl rfl <;> rw [step, after]
      exact ⟨h.settled.enabled, rfl, h.settled.weakMods, h.settled.oneshotMods, h.settled.keys, h.settled.cancellingLshift,
        h.settled.cancellingRshift⟩
    · exact iff_of_true (right_of_silent silent) fun p _ pressed => absurd pressed (by decide)

theorem Inv.scan (h : Inv keys d) (le : d.now ≤ now) :
    Inv keys (step keys d (now, .scan)) ∧ (TypesRight keys d (now, .scan) ↔ Judged keys d (now, .scan)) := by
  have after : next keys d.state (BitVec.ofNat 16 now) .scan = _ := h.settled.scan h.pending
  by_cases seen : (d.state.inProgress && d.state.timeout ≤ BitVec.ofNat 16 now - d.state.time) = true
  · rw [if_pos seen] at after
    rw [Bool.and_eq_true] at seen
    have typed : (next keys d.state (BitVec.ofNat 16 now) .scan).typed = d.state.typed ++ taps d now := by
      rw [after, taps, if_pos seen.1]
      rfl
    have tapped := types_eq typed
    have none : waiting keys d now .scan = none := by
      rw [waiting, tapped]
      split
      case isTrue nil => exact h.taps_eq_nil.1 nil
      case isFalse => rfl
    constructor
    · refine h.of_tap ?_ ?_ typed none rfl <;> rw [step, after]
      · exact h.settled.tap
      · rfl
    · rw [h.right_iff le tapped]
      refine iff_of_true (fun p mem => ?_) fun _ _ => trivial
      have holds := h.holds p mem
      have passed : d.state.timeout.toNat ≤ (now - p.since) % 2 ^ 16 := by
        have shown := seen.2
        rw [decide_eq_true_eq, BitVec.le_def, holds.time, elapsed_add _ (holds.past.trans le), BitVec.sub_self,
          BitVec.toNat_zero, Nat.zero_add] at shown
        exact shown
      refine ⟨?_, fun _ _ => passed⟩
      exact passed.trans ((Nat.mod_le _ _).trans (Nat.sub_le_sub_left holds.le now))
  · rw [if_neg seen] at after
    have silent : types keys d now .scan = [] := types_eq (by rw [after, List.append_nil])
    have same : waiting keys d now .scan = d.pending := by rw [waiting, if_pos silent]
    constructor
    · refine h.of_same le ?_ ?_ same rfl rfl <;> rw [step, after]
      exact h.settled
    · exact iff_of_true (right_of_silent silent) fun _ _ => trivial

theorem Inv.step {e : Nat × Input K} (h : Inv keys d) (le : d.now ≤ e.1) :
    Inv keys (step keys d e) ∧ (TypesRight keys d e ↔ Judged keys d e) := by
  obtain ⟨now, input⟩ := e
  cases input with
  | press key => exact h.press le
  | release key => exact h.release le
  | shift pressed => exact h.shift le
  | scan => exact h.scan le

theorem Inv.run {events : List (Nat × Input K)} (h : Inv keys d)
    (times : Along (Desk.step keys) (fun d e => d.now ≤ e.1) d events) :
    Inv keys (events.foldl (Desk.step keys) d) ∧
      (Along (Desk.step keys) (TypesRight keys) d events ↔ Along (Desk.step keys) (Judged keys) d events) := by
  induction events generalizing d with
  | nil => exact ⟨h, Iff.rfl⟩
  | cons e events ih =>
    obtain ⟨inv, right⟩ := h.step times.1
    obtain ⟨last, rest⟩ := ih inv times.2
    exact ⟨last, and_congr right rest⟩

/-- **Auto Shift.** In every run in which time does not go back, the presses of keys are typed once each and in their order, all
of them once no key is down; and each is typed when it is due and shifted by its own hold time if and only if at every step the
pending key is judged by its own time. -/
theorem typed_by_hold_time (keys : Keys K) (timeout : BitVec 16) (events : List (Nat × Input K))
    (times : Along (Desk.step keys) (fun d e => d.now ≤ e.1) (initial timeout) events) :
    let d := events.foldl (Desk.step keys) (initial timeout)
    d.state.typed.map Typed.code ++ d.pending.toList.map (fun p => host keys p.key) = d.presses.map (host keys) ∧
      (d.down = ∅ → d.state.typed.map Typed.code = d.presses.map (host keys)) ∧
      (Along (Desk.step keys) (TypesRight keys) (initial timeout) events ↔
        Along (Desk.step keys) (Judged keys) (initial timeout) events) := by
  intro d
  obtain ⟨inv, right⟩ := (@inv_initial _ keys timeout).run times
  refine ⟨inv.typed, fun up => ?_, right⟩
  have typed := inv.typed
  cases hp : d.pending with
  | none => rwa [hp, Option.toList_none, List.map_nil, List.append_nil] at typed
  | some p =>
    have down : p.key ∈ d.down := (inv.holds p hp).down
    rw [up] at down
    exact absurd down (Finset.notMem_empty _)

instance (p : Press K) (timeout : BitVec 16) (now : Nat) : Decidable (Late p timeout now) :=
  inferInstanceAs (Decidable (_ → _ → _))

instance (d : Desk K) : ∀ e, Decidable (Judged keys d e)
  | (now, .press _) => inferInstanceAs (Decidable (∀ p ∈ d.pending, Late p d.state.timeout now))
  | (now, .release key) =>
    inferInstanceAs (Decidable (∀ p ∈ d.pending, keys.code key = keys.code p.key → key = p.key ∧ Late p d.state.timeout now))
  | (now, .shift pressed) => inferInstanceAs (Decidable (∀ p ∈ d.pending, pressed = true → Late p d.state.timeout now))
  | (_, .scan) => isTrue fun _ _ => trivial

/-! ### Two keys -/

/-- The keys A and B -/
def twoKeys : Keys Bool where
  code key := if key then 0x0004 else 0x0005
  auto key := by cases key <;> rfl

/-- A is tapped and B is held for longer than the timeout. -/
def tapThenHold : List (Nat × Input Bool) :=
  [(0, .press true), (50, .release true), (60, .press false), (160, .scan), (260, .release false)]

theorem typed_by_hold_time_tapThenHold :
    (tapThenHold.foldl (Desk.step twoKeys) (initial 175)).state.typed.map Typed.code = [0x04, 0x05] :=
  (typed_by_hold_time twoKeys 175 tapThenHold (by decide)).2.1 (by decide)

/-- B is held for 190 ms, but A is released 140 ms before B is. -/
def rolledOver : List (Nat × Input Bool) :=
  [(0, .press true), (50, .press false), (100, .release true), (240, .release false)]

theorem judged_by_other_release :
    let d := rolledOver.foldl (Desk.step twoKeys) (initial 175)
    Along (Desk.step twoKeys) (fun d e => d.now ≤ e.1) (initial 175) rolledOver ∧
      d.state.typed = [⟨0x04, 0⟩, ⟨0x05, 0⟩] ∧
      ¬ Along (Desk.step twoKeys) (TypesRight twoKeys) (initial 175) rolledOver := by
  intro d
  have times : Along (Desk.step twoKeys) (fun d e => d.now ≤ e.1) (initial 175) rolledOver := by decide
  refine ⟨times, by decide, fun right => ?_⟩
  have judged := ((inv_initial 175).run times).2.1 right
  exact absurd judged (by decide)

end Desk

end QmkFirmware.AutoShift
