import QmkFirmware.Lib.Run
import QmkFirmware.Lib.Timer

/-!
# The factory reset

Fn, J and Z reset the keyboard when they are held for three seconds: the key that completes the combination
starts a timer, which a task checks, and the release of any of them stops it. Fn and two other keys start the
test of the backlight in the same way, with the same timer.
-/

namespace QmkFirmware.Keychron
open Lib

/-- The keys of the `switch`, each with its bit in `factory_reset_state` -/
inductive FactoryKey where
  | fnKey1 | fnKey2 | kcJ | kcZ | blTestKey1 | blTestKey2 | other
  deriving DecidableEq, Repr

def keyPressFn : UInt8 := 0x01
def keyPressJ : UInt8 := 0x02
def keyPressZ : UInt8 := 0x04
def keyPressBlKey1 : UInt8 := 0x08
def keyPressBlKey2 : UInt8 := 0x10
def keyPressFactoryReset : UInt8 := keyPressFn ||| keyPressJ ||| keyPressZ
def keyPressBacklightTest : UInt8 := keyPressFn ||| keyPressBlKey1 ||| keyPressBlKey2

def backlightTestOff : UInt8 := 0
def backlightTestWhite : UInt8 := 1
def backlightTestMax : UInt8 := 5

def FactoryKey.mask : FactoryKey → UInt8
  | fnKey1 => keyPressFn
  | fnKey2 => keyPressFn
  | kcJ => keyPressJ
  | kcZ => keyPressZ
  | blTestKey1 => keyPressBlKey1
  | blTestKey2 => keyPressBlKey2
  | other => 0

/-- The statics of `factory_test.c` -/
structure FactoryTest where
  factoryResetTimer : BitVec 32
  factoryResetState : UInt8
  backlightTestMode : UInt8
  factoryResetIndTimer : BitVec 32
  factoryResetIndState : UInt8
  deriving DecidableEq, Repr

/-- What a call of the task sets off -/
inductive FactoryAction where
  | factoryReset | backlightTest
  deriving DecidableEq, Repr

/-- `timer_read32() == 0 ? 1 : timer_read32()`, with the times of both readings -/
def timerStart (first second : Nat) : BitVec 32 := if BitVec.ofNat 32 first = 0 then 1 else BitVec.ofNat 32 second

/-- What a timer says that was started: the time since then, unless it is read in the millisecond in which it was 0. -/
theorem timerStart_passed {first second now ms : Nat} (ordered : first ≤ second) (later : second ≤ now)
    (passed : ms < (BitVec.ofNat 32 now - timerStart first second).toNat) :
    first + ms < now ∨ timerStart first second = 1 ∧ 2 ^ 32 ∣ now ∧ first = now := by
  unfold timerStart at passed ⊢
  split at passed
  case isTrue zero =>
    rw [if_pos zero]
    by_cases same : first = now
    · refine .inr ⟨rfl, ?_, same⟩
      rw [← same]
      have toNat := congrArg BitVec.toNat zero
      rw [BitVec.toNat_ofNat] at toNat
      exact Nat.dvd_of_mod_eq_zero toNat
    · refine .inl ?_
      have one : BitVec.ofNat 32 (first + 1) = 1 := by
        rw [BitVec.ofNat_add, zero]
        rfl
      have le : first + 1 ≤ now := by omega
      have := elapsed_le (w := 32) le
      rw [one] at this
      omega
  case isFalse =>
    have := elapsed_le (w := 32) later
    omega

namespace FactoryTest

def initial : FactoryTest := ⟨0, 0, 0, 0, 0⟩

section Code

-- the times at which a call reads the timer, in order
variable (reads : Nat → Nat)

/-- `factory_timer_start` -/
def factoryTimerStart (s : FactoryTest) : FactoryTest := { s with factoryResetTimer := timerStart (reads 0) (reads 1) }

/-- A key sets its bit, and starts the timer if that makes the combination. -/
def press (mask : UInt8) (combination : Option UInt8) (s : FactoryTest) : FactoryTest :=
  let s := { s with factoryResetState := s.factoryResetState ||| mask }
  if combination = some s.factoryResetState then s.factoryTimerStart reads else s

def release (mask : UInt8) (s : FactoryTest) : FactoryTest :=
  { s with factoryResetState := s.factoryResetState &&& ~~~mask, factoryResetTimer := 0 }

/-- `process_record_factory_reset` -/
def processRecordFactoryReset (key : FactoryKey) (pressed : Bool) (s : FactoryTest) : FactoryTest :=
  match key with
  | .fnKey1 => if pressed then s.press reads keyPressFn none else s.release keyPressFn
  | .fnKey2 => if pressed then s.press reads keyPressFn none else s.release keyPressFn
  | .kcJ => if pressed then s.press reads keyPressJ (some 0x07) else s.release keyPressJ
  | .kcZ => if pressed then s.press reads keyPressZ (some 0x07) else s.release keyPressZ
  | .blTestKey1 =>
    if pressed then
      if s.backlightTestMode ≠ 0 then
        let mode := s.backlightTestMode + 1
        { s with backlightTestMode := if backlightTestMax ≤ mode then backlightTestWhite else mode }
      else s.press reads keyPressBlKey1 (some 0x19)
    else s.release keyPressBlKey1
  | .blTestKey2 =>
    if pressed then
      if s.backlightTestMode ≠ 0 then { s with backlightTestMode := backlightTestOff }
      else s.press reads keyPressBlKey2 (some 0x19)
    else s.release keyPressBlKey2
  | .other => s

/-- `factory_timer_check` -/
def factoryTimerCheck (s : FactoryTest) : FactoryTest × Option FactoryAction :=
  if 3000 < (BitVec.ofNat 32 (reads 0) - s.factoryResetTimer).toNat then
    let s := { s with factoryResetTimer := 0 }
    if s.factoryResetState = keyPressFactoryReset then
      ({ s with
          factoryResetIndTimer := timerStart (reads 1) (reads 2)
          factoryResetIndState := s.factoryResetIndState + 1
          factoryResetState := 0 }, some .factoryReset)
    else if s.factoryResetState = keyPressBacklightTest then
      ({ s with backlightTestMode := backlightTestWhite, factoryResetState := 0 }, some .backlightTest)
    else ({ s with factoryResetState := 0 }, none)
  else (s, none)

/-- `factory_reset_ind_timer_check` -/
def factoryResetIndTimerCheck (s : FactoryTest) : FactoryTest :=
  if s.factoryResetIndTimer ≠ 0 ∧ 250 < (BitVec.ofNat 32 (reads 3) - s.factoryResetIndTimer).toNat then
    if 6 < s.factoryResetIndState then { s with factoryResetIndTimer := 0, factoryResetIndState := 0 }
    else { s with factoryResetIndState := s.factoryResetIndState + 1, factoryResetIndTimer := timerStart (reads 4) (reads 5) }
  else s

/-- `factory_reset_task` -/
def factoryResetTask (s : FactoryTest) : FactoryTest × Option FactoryAction :=
  let (s, action) := if s.factoryResetTimer ≠ 0 then s.factoryTimerCheck reads else (s, none)
  (if s.factoryResetIndTimer ≠ 0 then s.factoryResetIndTimerCheck reads else s, action)

end Code

/-- What happens: a key event, a call of the task, a call of `rgb_matrix_indicators_user`, or the command of the host that
sets the mode of the backlight test -/
inductive Kind where
  | key (key : FactoryKey) (pressed : Bool)
  | task
  | indicators
  | backlight (mode : UInt8)
  deriving DecidableEq, Repr

/-- With the times of its timer readings -/
structure Event where
  kind : Kind
  reads : Nat → Nat
  ordered : Monotone reads

/-- An event all of whose readings give one time -/
def Event.now (kind : Kind) (time : Nat) : Event := ⟨kind, fun _ => time, monotone_const⟩

def step (s : FactoryTest) (e : Event) : FactoryTest :=
  match e.kind with
  | .key key pressed => s.processRecordFactoryReset e.reads key pressed
  | .task => (s.factoryResetTask e.reads).1
  | .indicators => if s.factoryResetIndState ≠ 0 then { s with backlightTestMode := backlightTestOff } else s
  | .backlight mode => { s with backlightTestMode := mode, factoryResetTimer := 0 }

/-- The task resets the keyboard. -/
def Resets (s : FactoryTest) (e : Event) : Prop := e.kind = .task ∧ (s.factoryResetTask e.reads).2 = some .factoryReset

instance (s : FactoryTest) (e : Event) : Decidable (s.Resets e) := inferInstanceAs (Decidable (_ ∧ _))

/-! ## What is held -/

/-- The last event of the key with a bit, or of the keys with it, was a press. -/
def down (mask : UInt8) (past : List Event) : Bool :=
  past.foldl (fun held e => match e.kind with
    | .key key pressed => if key.mask = mask then pressed else held
    | _ => held) false

/-- The keys of the combination are down. -/
def AllDown (past : List Event) : Prop := down keyPressFn past = true ∧ down keyPressJ past = true ∧ down keyPressZ past = true

/-- The keys of the combination have been down after every event since one that was more than `ms` before `now`. -/
def HeldFor (ms now : Nat) (past : List Event) : Prop :=
  ∃ before start since, past = before ++ start :: since ∧ start.reads 0 + ms < now ∧
    ∀ seen, seen <+: since → AllDown (before ++ start :: seen)

/-- The variables, and beside them the events so far -/
structure World where
  state : FactoryTest
  past : List Event

namespace World

def initial : World := ⟨FactoryTest.initial, []⟩

def step (x : World) (e : Event) : World := ⟨x.state.step e, x.past ++ [e]⟩

/-- Time does not go back. -/
def Later (x : World) (e : Event) : Prop := ∀ e' ∈ x.past, ∀ i, e'.reads i ≤ e.reads 0

/-- The task is not called in the millisecond in which J or Z was pressed, where the timer reads 0 then and was started. -/
def Timely (x : World) (e : Event) : Prop :=
  e.kind = .task → x.state.factoryResetTimer = 1 → x.state.factoryResetState = keyPressFactoryReset → 2 ^ 32 ∣ e.reads 0 →
    ∀ e' ∈ x.past, e'.kind = .key .kcJ true ∨ e'.kind = .key .kcZ true → e'.reads 0 ≠ e.reads 0

/-- The keyboard is reset only when the keys were held for more than three seconds, and their release stops the timer. -/
def Right (x : World) (e : Event) : Prop :=
  (x.state.Resets e → HeldFor 3000 (e.reads 0) x.past) ∧
    ∀ key, key.mask &&& keyPressFactoryReset ≠ 0 → e.kind = .key key false →
      (x.step e).state.factoryResetTimer = 0 ∧ ∀ e', ¬ (x.step e).state.Resets e'

/-- The bits are those of keys that are down. While the timer runs, the combination is that of the backlight test, or it has been
held since the timer was started. -/
structure Inv (x : World) : Prop where
  bits : ∀ mask ∈ [keyPressFn, keyPressJ, keyPressZ], x.state.factoryResetState &&& mask ≠ 0 → down mask x.past = true
  timer : x.state.factoryResetTimer ≠ 0 → x.state.factoryResetState &&& keyPressBlKey1 ≠ 0 ∨
    ∃ before start since, x.past = before ++ start :: since ∧ (start.kind = .key .kcJ true ∨ start.kind = .key .kcZ true) ∧
      x.state.factoryResetTimer = timerStart (start.reads 0) (start.reads 1) ∧ ∀ seen, seen <+: since → AllDown (before ++ start :: seen)

end World

section Step

variable {s : FactoryTest} {reads : Nat → Nat} {key : FactoryKey} {mask : UInt8} {past : List Event} {e : Event}

theorem down_snoc : down mask (past ++ [e]) = match e.kind with
    | .key key pressed => if key.mask = mask then pressed else down mask past
    | _ => down mask past := by
  unfold down
  rw [List.foldl_append]
  rfl

/-- Only the release of a key takes it up. -/
theorem down_keep (h : down mask past = true) (held : ∀ key, e.kind = .key key false → key.mask ≠ mask) :
    down mask (past ++ [e]) = true := by
  rw [down_snoc]
  cases kind : e.kind with
  | key key pressed =>
    dsimp only
    split
    case isTrue same =>
      cases pressed with
      | true => rfl
      | false => exact absurd same (held key kind)
    case isFalse => exact h
  | task => exact h
  | indicators => exact h
  | backlight => exact h

/-- The keys but those of a bit have other bits. -/
theorem mask_and (key : FactoryKey) (mem : mask ∈ [keyPressFn, keyPressJ, keyPressZ]) (ne : key.mask ≠ mask) : key.mask &&& mask = 0 := by
  have all : ∀ mask ∈ [keyPressFn, keyPressJ, keyPressZ], ∀ key : FactoryKey, key.mask ≠ mask → key.mask &&& mask = 0 := by
    intro mask mem key
    cases key <;> revert mask <;> decide +kernel
  exact all mask mem key ne

theorem press_state {combination : Option UInt8} : (s.press reads mask combination).factoryResetState = s.factoryResetState ||| mask := by
  unfold press
  dsimp only
  split
  · rfl
  · rfl

/-- The timer is started when the combination is complete. -/
theorem press_timer {combination : Option UInt8} : (s.press reads mask combination).factoryResetTimer = s.factoryResetTimer ∨
    (s.press reads mask combination).factoryResetTimer = timerStart (reads 0) (reads 1) ∧
      combination = some (s.factoryResetState ||| mask) := by
  unfold press
  dsimp only
  split
  case isTrue complete => exact .inr ⟨rfl, complete⟩
  case isFalse => exact .inl rfl

/-- What a press does: the bit is set, and the timer is started if that completes a combination; or the mode of the backlight test
changes. -/
theorem processRecord_press :
    let s' := s.processRecordFactoryReset reads key true
    (s'.factoryResetState = s.factoryResetState ||| key.mask ∧
        (s'.factoryResetTimer = s.factoryResetTimer ∨ s'.factoryResetTimer = timerStart (reads 0) (reads 1) ∧
          ((key = .kcJ ∨ key = .kcZ) ∧ s'.factoryResetState = 0x07 ∨ s'.factoryResetState = 0x19))) ∨
      (s'.factoryResetState = s.factoryResetState ∧ s'.factoryResetTimer = s.factoryResetTimer) := by
  have completes (combination : Option UInt8) (is : s.processRecordFactoryReset reads key true = s.press reads key.mask combination)
      (complete : ∀ state, combination = some state → (key = .kcJ ∨ key = .kcZ) ∧ state = 0x07 ∨ state = 0x19) :
      let s' := s.processRecordFactoryReset reads key true
      s'.factoryResetState = s.factoryResetState ||| key.mask ∧
        (s'.factoryResetTimer = s.factoryResetTimer ∨ s'.factoryResetTimer = timerStart (reads 0) (reads 1) ∧
          ((key = .kcJ ∨ key = .kcZ) ∧ s'.factoryResetState = 0x07 ∨ s'.factoryResetState = 0x19)) := by
    rw [is]
    refine ⟨press_state, press_timer.imp_right fun started => ⟨started.1, ?_⟩⟩
    rw [press_state]
    exact complete _ started.2
  cases key with
  | fnKey1 => exact .inl (completes none rfl nofun)
  | fnKey2 => exact .inl (completes none rfl nofun)
  | kcJ => exact .inl (completes (some 0x07) rfl fun state same => .inl ⟨.inl rfl, (Option.some.inj same).symm⟩)
  | kcZ => exact .inl (completes (some 0x07) rfl fun state same => .inl ⟨.inr rfl, (Option.some.inj same).symm⟩)
  | blTestKey1 =>
    by_cases mode : s.backlightTestMode ≠ 0
    · refine .inr ?_
      unfold processRecordFactoryReset
      simp only [if_pos mode, if_true, and_self]
    · exact .inl (completes (some 0x19) (if_neg mode) fun state same => .inr (Option.some.inj same).symm)
  | blTestKey2 =>
    by_cases mode : s.backlightTestMode ≠ 0
    · refine .inr ?_
      unfold processRecordFactoryReset
      simp only [if_pos mode, if_true, and_self]
    · exact .inl (completes (some 0x19) (if_neg mode) fun state same => .inr (Option.some.inj same).symm)
  | other => exact .inr ⟨rfl, rfl⟩

/-- The release of a key clears its bit and stops the timer. -/
theorem processRecord_release (ne : key ≠ .other) : s.processRecordFactoryReset reads key false = s.release key.mask := by
  cases key with
  | other => exact absurd rfl ne
  | _ => rfl

/-- What a call of the task does -/
theorem task_cases :
    let out := s.factoryResetTask reads
    (out.1.factoryResetState = s.factoryResetState ∧ out.1.factoryResetTimer = s.factoryResetTimer ∧ out.2 = none) ∨
      (out.1.factoryResetState = 0 ∧ out.1.factoryResetTimer = 0 ∧ s.factoryResetTimer ≠ 0 ∧
        3000 < (BitVec.ofNat 32 (reads 0) - s.factoryResetTimer).toNat ∧
        (out.2 = some .factoryReset → s.factoryResetState = keyPressFactoryReset)) := by
  have blink (t : FactoryTest) :
      let t' := if t.factoryResetIndTimer ≠ 0 then t.factoryResetIndTimerCheck reads else t
      t'.factoryResetState = t.factoryResetState ∧ t'.factoryResetTimer = t.factoryResetTimer := by
    unfold factoryResetIndTimerCheck
    dsimp only
    split_ifs <;> exact ⟨rfl, rfl⟩
  unfold factoryResetTask
  by_cases runs : s.factoryResetTimer ≠ 0
  · rw [if_pos runs]
    unfold factoryTimerCheck
    by_cases passed : 3000 < (BitVec.ofNat 32 (reads 0) - s.factoryResetTimer).toNat
    · rw [if_pos passed]
      dsimp only
      refine .inr ?_
      by_cases reset : s.factoryResetState = keyPressFactoryReset
      · rw [if_pos reset]
        exact ⟨(blink _).1, (blink _).2, runs, passed, fun _ => reset⟩
      · rw [if_neg reset]
        by_cases test : s.factoryResetState = keyPressBacklightTest
        · rw [if_pos test]
          exact ⟨(blink _).1, (blink _).2, runs, passed, fun action => FactoryAction.noConfusion (Option.some.inj action)⟩
        · rw [if_neg test]
          exact ⟨(blink _).1, (blink _).2, runs, passed, fun action => (Option.some_ne_none _ action.symm).elim⟩
    · rw [if_neg passed]
      exact .inl ⟨(blink _).1, (blink _).2, rfl⟩
  · rw [if_neg runs]
    exact .inl ⟨(blink _).1, (blink _).2, rfl⟩

theorem bit_or (state k : UInt8) : (state ||| k) &&& mask = (state &&& mask) ||| (k &&& mask) := by
  apply UInt8.toBitVec_inj.1
  ext i
  simp [Bool.and_or_distrib_right]

theorem bit_clear (state k : UInt8) : (state &&& ~~~k) &&& mask = (state &&& mask) &&& ~~~k := by
  rw [UInt8.and_assoc, UInt8.and_comm (~~~k), ← UInt8.and_assoc]

theorem AllDown.keep (h : AllDown past)
    (held : ∀ key, e.kind = .key key false → key.mask &&& keyPressFactoryReset = 0) : AllDown (past ++ [e]) := by
  obtain ⟨fn, j, z⟩ := h
  have other {mask : UInt8} (bit : mask &&& keyPressFactoryReset ≠ 0) (key : FactoryKey) (kind : e.kind = .key key false) :
      key.mask ≠ mask := fun same => bit (same ▸ held key kind)
  exact ⟨down_keep fn (other (by decide)), down_keep j (other (by decide)), down_keep z (other (by decide))⟩

end Step

namespace World

variable {x : World} {e : Event}

/-- What was held still is after an event that is not its release. -/
theorem Inv.held (h : Inv x) (runs : x.state.factoryResetTimer ≠ 0)
    (held : ∀ key, e.kind = .key key false → key.mask &&& keyPressFactoryReset = 0) :
    x.state.factoryResetState &&& keyPressBlKey1 ≠ 0 ∨
      ∃ before start since, x.past ++ [e] = before ++ start :: since ∧ (start.kind = .key .kcJ true ∨ start.kind = .key .kcZ true) ∧
        x.state.factoryResetTimer = timerStart (start.reads 0) (start.reads 1) ∧
        ∀ seen, seen <+: since → AllDown (before ++ start :: seen) := by
  refine (h.timer runs).imp_right ?_
  rintro ⟨before, start, since, past, kind, timer, all⟩
  refine ⟨before, start, since ++ [e], by rw [past]; simp, kind, timer, ?_⟩
  intro seen lt
  rcases List.prefix_concat_iff.1 lt with rfl | earlier
  · have last := AllDown.keep (all since List.prefix_rfl) held
    rwa [List.append_assoc, List.cons_append] at last
  · exact all seen earlier

theorem Inv.press (h : Inv x) {key : FactoryKey} (kind : e.kind = .key key true) : Inv (x.step e) := by
  have held (key' : FactoryKey) (release : e.kind = .key key' false) : key'.mask &&& keyPressFactoryReset = 0 := by
    rw [kind] at release
    exact absurd (Kind.key.inj release).2 (by decide)
  have next : (x.step e).state = x.state.processRecordFactoryReset e.reads key true := by
    show x.state.step e = _
    unfold FactoryTest.step
    rw [kind]
  have bits : ∀ mask ∈ [keyPressFn, keyPressJ, keyPressZ], (x.step e).state.factoryResetState &&& mask ≠ 0 →
      down mask (x.past ++ [e]) = true := by
    intro mask mem bit
    by_cases same : key.mask = mask
    · rw [down_snoc, kind]
      exact if_pos same
    · refine down_keep (h.bits mask mem ?_) fun key' release => ?_
      · rw [next] at bit
        rcases @processRecord_press x.state e.reads key with ⟨state, -⟩ | ⟨state, -⟩
        · rw [state, bit_or, mask_and key mem same, UInt8.or_zero] at bit
          exact bit
        · rwa [state] at bit
      · rw [kind] at release
        exact absurd (Kind.key.inj release).2 (by decide)
  refine ⟨bits, ?_⟩
  rw [next] at bits ⊢
  intro runs
  rcases @processRecord_press x.state e.reads key with ⟨state, timer | ⟨timer, ⟨which, full⟩ | full⟩⟩ | ⟨state, timer⟩
  · rw [timer] at runs ⊢
    refine (h.held runs held).imp_left fun bit => ?_
    rw [state, bit_or]
    exact fun none => bit (UInt8.or_eq_zero_iff.1 none).1
  · have completes : e.kind = .key .kcJ true ∨ e.kind = .key .kcZ true := by
      rcases which with rfl | rfl
      · exact .inl kind
      · exact .inr kind
    refine .inr ⟨x.past, e, [], rfl, completes, timer, ?_⟩
    intro seen first
    rw [List.prefix_nil.1 first]
    rw [full] at bits
    exact ⟨bits _ (by decide) (by decide), bits _ (by decide) (by decide), bits _ (by decide) (by decide)⟩
  · refine .inl ?_
    rw [full]
    decide
  · rw [timer] at runs ⊢
    rw [state]
    exact h.held runs held

theorem Inv.release (h : Inv x) {key : FactoryKey} (kind : e.kind = .key key false) (ne : key ≠ .other) : Inv (x.step e) := by
  have next : (x.step e).state = x.state.release key.mask := by
    show x.state.step e = _
    unfold FactoryTest.step
    rw [kind]
    exact processRecord_release ne
  constructor
  · intro mask mem bit
    rw [next] at bit
    change x.state.factoryResetState &&& ~~~key.mask &&& mask ≠ 0 at bit
    rw [bit_clear] at bit
    have other : key.mask ≠ mask := by
      rintro rfl
      rw [UInt8.and_assoc, UInt8.and_not_self, UInt8.and_zero] at bit
      exact bit rfl
    refine down_keep (h.bits mask mem ?_) fun key' release => ?_
    · intro none
      rw [none, UInt8.zero_and] at bit
      exact bit rfl
    · rw [kind] at release
      exact (Kind.key.inj release).1 ▸ other
  · rw [next]
    exact fun runs => absurd rfl runs

/-- An event that changes neither the bits nor, unless it stops it, the timer, and is no release of the combination -/
theorem Inv.quiet (h : Inv x) (held : ∀ key, e.kind = .key key false → key.mask &&& keyPressFactoryReset = 0)
    (state : (x.state.step e).factoryResetState = x.state.factoryResetState)
    (timer : (x.state.step e).factoryResetTimer = x.state.factoryResetTimer ∨ (x.state.step e).factoryResetTimer = 0) :
    Inv (x.step e) := by
  constructor
  · intro mask mem bit
    change (x.state.step e).factoryResetState &&& mask ≠ 0 at bit
    rw [state] at bit
    refine down_keep (h.bits mask mem bit) fun key release same => ?_
    have combination : ∀ mask ∈ [keyPressFn, keyPressJ, keyPressZ], mask &&& keyPressFactoryReset ≠ 0 := by decide +kernel
    exact combination mask mem (same ▸ held key release)
  · intro runs
    change (x.state.step e).factoryResetTimer ≠ 0 at runs
    rcases timer with same | off
    · rw [same] at runs
      show (x.state.step e).factoryResetState &&& _ ≠ 0 ∨ ∃ before start since, _ ∧ _ ∧ (x.state.step e).factoryResetTimer = _ ∧ _
      rw [state, same]
      exact h.held runs held
    · exact absurd off runs

theorem Inv.step (h : Inv x) (e : Event) : Inv (x.step e) := by
  cases kind : e.kind with
  | key key pressed =>
    cases pressed with
    | true => exact h.press kind
    | false =>
      by_cases other : key = .other
      · subst other
        have same : x.state.step e = x.state := by
          unfold FactoryTest.step
          rw [kind]
          rfl
        refine h.quiet (fun key release => ?_) (by rw [same]) (.inl (by rw [same]))
        rw [kind] at release
        rw [← (Kind.key.inj release).1]
        decide
      · exact h.release kind other
  | task =>
    have held (key : FactoryKey) (release : e.kind = .key key false) : key.mask &&& keyPressFactoryReset = 0 := by
      rw [kind] at release
      exact absurd release (by simp)
    have next : x.state.step e = (x.state.factoryResetTask e.reads).1 := by
      unfold FactoryTest.step
      rw [kind]
    rcases @task_cases x.state e.reads with ⟨state, timer, -⟩ | ⟨state, timer, -⟩
    · exact h.quiet held (next ▸ state) (.inl (next ▸ timer))
    · constructor
      · intro mask mem bit
        change (x.state.step e).factoryResetState &&& mask ≠ 0 at bit
        rw [next, state, UInt8.zero_and] at bit
        exact absurd rfl bit
      · intro runs
        change (x.state.step e).factoryResetTimer ≠ 0 at runs
        rw [next, timer] at runs
        exact absurd rfl runs
  | indicators =>
    have next : x.state.step e = if x.state.factoryResetIndState ≠ 0 then { x.state with backlightTestMode := backlightTestOff }
        else x.state := by
      unfold FactoryTest.step
      rw [kind]
    refine h.quiet (fun key release => ?_) ?_ (.inl ?_)
    · rw [kind] at release
      exact absurd release (by simp)
    · rw [next]
      split <;> rfl
    · rw [next]
      split <;> rfl
  | backlight mode =>
    have next : x.state.step e = { x.state with backlightTestMode := mode, factoryResetTimer := 0 } := by
      unfold FactoryTest.step
      rw [kind]
    refine h.quiet (fun key release => ?_) ?_ (.inr ?_)
    · rw [kind] at release
      exact absurd release (by simp)
    · rw [next]
    · rw [next]

/-- The task resets the keyboard when the combination was held for more than three seconds. -/
theorem Inv.right (h : Inv x) (later : Later x e) (timely : Timely x e) : Right x e := by
  constructor
  · rintro ⟨task, reset⟩
    rcases @task_cases x.state e.reads with ⟨-, -, none⟩ | ⟨-, -, runs, passed, state⟩
    · rw [none] at reset
      exact absurd reset (by simp)
    · rcases h.timer runs with test | ⟨before, start, since, past, which, timer, all⟩
      · rw [state reset] at test
        exact absurd test (by decide)
      · refine ⟨before, start, since, past, ?_, all⟩
        have mem : start ∈ x.past := past ▸ by simp
        have first := later start mem 0
        have second := later start mem 1
        have ordered := start.ordered (Nat.zero_le 1)
        rcases timerStart_passed ordered second (timer ▸ passed) with longer | ⟨one, wrapped, same⟩
        · exact longer
        · exact absurd same (timely task (timer.trans one) (state reset) wrapped start mem which)
  · intro key combination kind
    have off : (x.step e).state.factoryResetTimer = 0 := by
      have other : key ≠ .other := by
        rintro rfl
        exact combination rfl
      show (x.state.step e).factoryResetTimer = 0
      unfold FactoryTest.step
      rw [kind]
      dsimp only
      rw [processRecord_release other]
      rfl
    refine ⟨off, ?_⟩
    rintro e' ⟨-, reset⟩
    rcases @task_cases (x.step e).state e'.reads with ⟨-, -, none⟩ | ⟨-, -, runs, -⟩
    · rw [none] at reset
      exact absurd reset (by simp)
    · exact runs off

/-- **The factory reset**: in every run in which the task is not called in the millisecond of a start at 0, the keyboard is reset
only when the keys have been held for more than three seconds, and the release of any of them stops that. -/
theorem reset_held {events : List Event} (h : Along step (fun x e => Later x e ∧ Timely x e) initial events) :
    Along step Right initial events :=
  Along.each Inv (fun _ e inv met => ⟨inv.step e, inv.right met.1 met.2⟩)
    ⟨fun _ _ bit => absurd (UInt8.zero_and) bit, fun runs => absurd rfl runs⟩ h

/-- Fn, Z and then J are pressed, and the task is called. -/
def hold (start task : Nat) : List Event :=
  [.now (.key .fnKey1 true) (start - 200), .now (.key .kcZ true) (start - 100), .now (.key .kcJ true) start, .now .task task]

/-- The keyboard is reset after 3001 ms. -/
theorem reset_held_hold :
    Along step (fun x e => Later x e ∧ Timely x e) initial (hold 1200 4201) ∧ Along step Right initial (hold 1200 4201) ∧
      (((hold 1200 4201).take 3).foldl step initial).state.Resets (.now .task 4201) := by
  have met : Along step (fun x e => Later x e ∧ Timely x e) initial (hold 1200 4201) := by
    refine ⟨⟨nofun, nofun⟩, ⟨?_, nofun⟩, ⟨?_, nofun⟩, ⟨?_, fun _ _ _ wrapped => absurd wrapped (by decide)⟩, trivial⟩
    all_goals simp [Later, step, initial, Event.now]
  exact ⟨met, reset_held met, by decide⟩

/-- J is pressed when the timer wraps to 0, and the keyboard is reset at once. -/
theorem reset_at_wrap : ¬ Along step Right initial (hold (2 ^ 32) (2 ^ 32)) := by
  intro right
  have task := right.2.2.2.1.1 (by decide)
  obtain ⟨before, start, since, past, early, -⟩ := task
  have mem : start ∈ before ++ start :: since := by simp
  rw [← past] at mem
  have late : ∀ e ∈ (hold (2 ^ 32) (2 ^ 32)).take 3, 2 ^ 32 - 200 ≤ e.reads 0 := by
    simp [hold, Event.now]
  have := late start mem
  have : start.reads 0 + 3000 < 2 ^ 32 := early
  omega

end World

end FactoryTest

end QmkFirmware.Keychron
