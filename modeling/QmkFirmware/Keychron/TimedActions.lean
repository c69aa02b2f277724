import QmkFirmware.Lib.Run
import QmkFirmware.Lib.Timer

/-!
# Timed actions

The keys of `KC_SIRI`, the indicator at power-on and the blinking of the low battery last for a time from their start. The
start is stored with its lowest bit set, so that it is never 0, which stands for none: a scan that comes in the same
millisecond as an even start sees nearly the whole range of the timer as elapsed.
-/

namespace QmkFirmware.Keychron
open Lib

/-- `POWER_ON_LED_DURATION` -/
def powerOnLedDuration : Nat := 3000

/-- How the low battery is shown: by a pin or by `bat_low_led_pin_state`, `LOW_BAT_LED_BLINK_PERIOD` and
`LOW_BAT_LED_BLINK_DURATION`, which a timer can measure -/
structure LowBattery where
  ledPin : Bool
  blinkPeriod : Nat
  blinkDuration : Nat
  fits : blinkDuration < 2 ^ 32 - 1

/-- The statics of `k3_pro.c` and `indicator.c`, whether the keys of `KC_SIRI` are registered, and the pins, true where on -/
structure Timers where
  siriTimerBuffer : BitVec 32
  siriRegistered : Bool
  powerOnIndicatorTimerBuffer : BitVec 32
  batLowPinIndicator : BitVec 32
  batLowBlinkDuration : BitVec 32
  batLowLedPinState : Bool
  batLowLedPin : Bool
  capsLockPin : Bool
  deriving DecidableEq, Repr

/-- `sync_timer_read32() | 1` -/
def stamp (now : Nat) : BitVec 32 := BitVec.ofNat 32 now ||| 1

/-- `sync_timer_elapsed32` -/
def syncTimerElapsed32 (now : Nat) (last : BitVec 32) : Nat := (BitVec.ofNat 32 now - last).toNat

namespace Timers

def initial : Timers := ⟨0, false, 0, 0, 0, false, false, false⟩

/-- `process_record_kb_bt` of `KC_SIRI` -/
def siri (pressed : Bool) (now : Nat) (s : Timers) : Timers :=
  if pressed ∧ s.siriTimerBuffer = 0 then { s with siriRegistered := true, siriTimerBuffer := stamp now } else s

/-- `keyboard_post_init_kb` -/
def keyboardPostInit (now : Nat) (s : Timers) : Timers :=
  { s with powerOnIndicatorTimerBuffer := stamp now, batLowLedPin := true, capsLockPin := true }

/-- `matrix_scan_kb`, which reads the timer twice -/
def matrixScan (capsLock : Bool) (first second : Nat) (s : Timers) : Timers :=
  let s :=
    if s.powerOnIndicatorTimerBuffer ≠ 0 then
      if powerOnLedDuration < syncTimerElapsed32 first s.powerOnIndicatorTimerBuffer then
        { s with
          powerOnIndicatorTimerBuffer := 0
          batLowLedPin := false
          capsLockPin := if capsLock then s.capsLockPin else false }
      else { s with batLowLedPin := true, capsLockPin := true }
    else s
  if s.siriTimerBuffer ≠ 0 ∧ 500 < syncTimerElapsed32 second s.siriTimerBuffer then
    { s with siriTimerBuffer := 0, siriRegistered := false }
  else s

/-- `indicator_battery_low_enable` -/
def indicatorBatteryLowEnable (config : LowBattery) (enable : Bool) (now : Nat) (s : Timers) : Timers :=
  if enable then
    if s.batLowBlinkDuration = 0 then { s with batLowBlinkDuration := stamp now, batLowPinIndicator := stamp now }
    else { s with batLowBlinkDuration := stamp now }
  else if config.ledPin then { s with batLowLedPin := false }
  else { s with batLowLedPinState := false }

/-- The light of the low battery is toggled. -/
def toggle (config : LowBattery) (s : Timers) : Timers :=
  if config.ledPin then { s with batLowLedPin := !s.batLowLedPin } else { s with batLowLedPinState := !s.batLowLedPinState }

/-- The first half of `indicator_battery_low`, which reads the timer up to three times -/
def indicatorBatteryLow (config : LowBattery) (first second third : Nat) (s : Timers) : Timers :=
  if s.batLowPinIndicator ≠ 0 ∧ config.blinkPeriod < syncTimerElapsed32 first s.batLowPinIndicator then
    let s := { s.toggle config with batLowPinIndicator := stamp second }
    if config.blinkDuration < syncTimerElapsed32 third s.batLowBlinkDuration ∧ (config.ledPin → s.batLowLedPin = false) then
      { s with batLowBlinkDuration := 0, batLowPinIndicator := 0 }
    else s
  else s

end Timers

/-- What happens, and what the rest of the firmware does to the pins -/
inductive TimedAct where
  | siri (pressed : Bool)
  | keyboardPostInit
  | matrixScan (capsLock : Bool)
  | indicatorBatteryLowEnable (enable : Bool)
  | indicatorBatteryLow
  | writePins (batLow capsLock : Bool)
  deriving DecidableEq, Repr

/-- With the milliseconds before each of its readings -/
structure TimedEvent where
  act : TimedAct
  first : Nat
  second : Nat
  third : Nat
  deriving DecidableEq, Repr

/-- The variables, the time, and the times of the last starts -/
structure TimedWorld where
  state : Timers
  now : Nat
  siriStart : Nat
  powerOnStart : Nat
  batteryLowStart : Nat
  deriving DecidableEq, Repr

namespace TimedWorld

variable (config : LowBattery)

def initial (now : Nat) : TimedWorld := ⟨Timers.initial, now, 0, 0, 0⟩

section Readings

-- the times of the readings in an event
variable (x : TimedWorld) (e : TimedEvent)

def first : Nat := x.now + e.first

def second : Nat := x.first e + e.second

def third : Nat := x.second e + e.third

end Readings

def step (x : TimedWorld) (e : TimedEvent) : TimedWorld :=
  let now := x.third e
  match e.act with
  | .siri pressed =>
    { x with
      now
      state := x.state.siri pressed (x.first e)
      siriStart := if pressed ∧ x.state.siriTimerBuffer = 0 then x.first e else x.siriStart }
  | .keyboardPostInit => { x with now, state := x.state.keyboardPostInit (x.first e), powerOnStart := x.first e }
  | .matrixScan capsLock => { x with now, state := x.state.matrixScan capsLock (x.first e) (x.second e) }
  | .indicatorBatteryLowEnable enable =>
    { x with
      now
      state := x.state.indicatorBatteryLowEnable config enable (x.first e)
      batteryLowStart := if enable then x.first e else x.batteryLowStart }
  | .indicatorBatteryLow => { x with now, state := x.state.indicatorBatteryLow config (x.first e) (x.second e) (x.third e) }
  | .writePins batLow capsLock => { x with now, state := { x.state with batLowLedPin := batLow, capsLockPin := capsLock } }

/-- A scan -/
def IsScan (e : TimedEvent) : Prop := ∃ capsLock, e.act = .matrixScan capsLock

/-- Each action lasts its time. -/
structure Right (x : TimedWorld) (e : TimedEvent) : Prop where
  registers : e.act = .siri true → (x.step config e).state.siriRegistered = true
  siri : x.state.siriTimerBuffer ≠ 0 →
    ((x.step config e).state.siriRegistered = false ↔ IsScan e ∧ 500 < x.second e - x.siriStart)
  powerOn : x.state.powerOnIndicatorTimerBuffer ≠ 0 →
    ((x.step config e).state.powerOnIndicatorTimerBuffer = 0 ↔ IsScan e ∧ powerOnLedDuration < x.first e - x.powerOnStart) ∧
      (IsScan e → (x.step config e).state.powerOnIndicatorTimerBuffer ≠ 0 →
        (x.step config e).state.batLowLedPin = true ∧ (x.step config e).state.capsLockPin = true)
  batteryLow : x.state.batLowBlinkDuration ≠ 0 → (x.step config e).state.batLowBlinkDuration = 0 →
    config.blinkDuration < x.third e - x.batteryLowStart

/-- A scan that does not come before the stored start, which is the odd one of two milliseconds, and that sees from it what has passed
from the start -/
def Within (ms start now : Nat) : Prop := start ||| 1 ≤ now ∧ (ms < now - start → ms < (now - (start ||| 1)) % 2 ^ 32)

/-- The scans come when the stored starts say what the starts do, and the light of the low battery is not switched off in the millisecond
of an even start. -/
def Timely (x : TimedWorld) (e : TimedEvent) : Prop :=
  match e.act with
  | .matrixScan _ =>
    (x.state.powerOnIndicatorTimerBuffer ≠ 0 → Within powerOnLedDuration x.powerOnStart (x.first e)) ∧
      (x.state.siriTimerBuffer ≠ 0 → Within 500 x.siriStart (x.second e))
  | .indicatorBatteryLow =>
    x.state.batLowPinIndicator ≠ 0 → config.blinkPeriod < syncTimerElapsed32 (x.first e) x.state.batLowPinIndicator →
      (config.ledPin → x.state.batLowLedPin = true) → x.batteryLowStart ||| 1 ≤ x.third e
  | _ => True

/-- The stored starts are those of the last starts. -/
structure Inv (x : TimedWorld) : Prop where
  siri : x.state.siriTimerBuffer ≠ 0 →
    x.state.siriTimerBuffer = stamp x.siriStart ∧ x.siriStart ≤ x.now ∧ x.state.siriRegistered = true
  powerOn : x.state.powerOnIndicatorTimerBuffer ≠ 0 → x.state.powerOnIndicatorTimerBuffer = stamp x.powerOnStart ∧ x.powerOnStart ≤ x.now
  batteryLow : x.state.batLowBlinkDuration ≠ 0 → x.state.batLowBlinkDuration = stamp x.batteryLowStart ∧ x.batteryLowStart ≤ x.now
  blinks : x.state.batLowPinIndicator ≠ 0 → x.state.batLowBlinkDuration ≠ 0

end TimedWorld

/-! ## Starts -/

section Stamp

variable {ms start now : Nat}

/-- The odd one of two milliseconds -/
theorem or_one (start : Nat) : start ||| 1 = 2 * (start / 2) + 1 := by
  have half : (start ||| 1) / 2 = start / 2 := by
    rw [Nat.or_div_two]
    exact Nat.or_zero _
  have odd : (start ||| 1) % 2 = 1 := Nat.or_mod_two_eq_one.2 (.inr rfl)
  omega

theorem stamp_eq (start : Nat) : stamp start = BitVec.ofNat 32 (start ||| 1) := BitVec.ofNat_or.symm

theorem stamp_ne_zero (start : Nat) : stamp start ≠ 0 := by
  intro zero
  have none := congrArg (·.toNat % 2) zero
  unfold stamp at none
  rw [BitVec.toNat_or] at none
  have odd : ((BitVec.ofNat 32 start).toNat ||| (1 : BitVec 32).toNat) % 2 = 1 := Nat.or_mod_two_eq_one.2 (.inr rfl)
  rw [odd] at none
  exact absurd none (by decide)

/-- What a scan sees of a start: it comes in its millisecond, before the stored one, or it sees the time from the stored one. -/
theorem elapsed_stamp (le : start ≤ now) :
    (now < start ||| 1 ∧ now = start ∧ syncTimerElapsed32 now (stamp start) = 2 ^ 32 - 1) ∨
      (start ||| 1 ≤ now ∧ syncTimerElapsed32 now (stamp start) = (now - (start ||| 1)) % 2 ^ 32) := by
  unfold syncTimerElapsed32
  rw [stamp_eq]
  by_cases early : now < start ||| 1
  · have same : now = start := by
      rw [or_one] at early
      omega
    refine .inl ⟨early, same, ?_⟩
    have next : start ||| 1 = start + 1 := by
      rw [or_one] at early ⊢
      omega
    rw [same, next, BitVec.toNat_sub, BitVec.toNat_ofNat, BitVec.toNat_ofNat]
    omega
  · have late := Nat.le_of_not_lt early
    refine .inr ⟨late, ?_⟩
    rw [elapsed_add _ late, BitVec.sub_self, BitVec.toNat_zero, Nat.zero_add]

/-- An action with this start ends with a scan when its time is over. -/
theorem within_iff (le : start ≤ now) (fits : ms < 2 ^ 32 - 1) :
    (ms < syncTimerElapsed32 now (stamp start) ↔ ms < now - start) ↔ TimedWorld.Within ms start now := by
  unfold TimedWorld.Within
  rcases elapsed_stamp le with ⟨early, same, elapsed⟩ | ⟨late, elapsed⟩
  · rw [elapsed, same, Nat.sub_self]
    omega
  · rw [elapsed, and_iff_right late]
    have most : (now - (start ||| 1)) % 2 ^ 32 ≤ now - (start ||| 1) := Nat.mod_le _ _
    have least : start ≤ start ||| 1 := Nat.left_le_or
    constructor
    · exact fun same passed => same.2 passed
    · exact fun sees => ⟨fun seen => by omega, sees⟩

end Stamp

/-! ## What the functions change -/

namespace Timers

variable {s : Timers} {config : LowBattery} {first second third : Nat} {capsLock : Bool}

/-- The first half of a scan is about the power-on indicator. -/
theorem matrixScan_powerOn (on : s.powerOnIndicatorTimerBuffer ≠ 0) :
    let s' := s.matrixScan capsLock first second
    (s'.powerOnIndicatorTimerBuffer = 0 ↔ powerOnLedDuration < syncTimerElapsed32 first s.powerOnIndicatorTimerBuffer) ∧
      (s'.powerOnIndicatorTimerBuffer ≠ 0 → s'.powerOnIndicatorTimerBuffer = s.powerOnIndicatorTimerBuffer ∧
        s'.batLowLedPin = true ∧ s'.capsLockPin = true) := by
  unfold matrixScan
  rw [if_pos on]
  by_cases due : powerOnLedDuration < syncTimerElapsed32 first s.powerOnIndicatorTimerBuffer
  · rw [if_pos due]
    dsimp only
    split_ifs <;> exact ⟨iff_of_true rfl due, fun still => absurd rfl still⟩
  · rw [if_neg due]
    dsimp only
    split_ifs <;> exact ⟨iff_of_false on due, fun _ => ⟨rfl, rfl, rfl⟩⟩

theorem matrixScan_powerOff (off : s.powerOnIndicatorTimerBuffer = 0) :
    (s.matrixScan capsLock first second).powerOnIndicatorTimerBuffer = 0 := by
  unfold matrixScan
  rw [if_neg (not_not.2 off)]
  dsimp only
  split_ifs <;> exact off

/-- The second half is about the keys. -/
theorem matrixScan_siri :
    let s' := s.matrixScan capsLock first second
    if s.siriTimerBuffer ≠ 0 ∧ 500 < syncTimerElapsed32 second s.siriTimerBuffer then s'.siriTimerBuffer = 0 ∧ s'.siriRegistered = false
    else s'.siriTimerBuffer = s.siriTimerBuffer ∧ s'.siriRegistered = s.siriRegistered := by
  unfold matrixScan
  dsimp only
  split_ifs <;> simp_all

theorem matrixScan_batteryLow :
    (s.matrixScan capsLock first second).batLowBlinkDuration = s.batLowBlinkDuration ∧
      (s.matrixScan capsLock first second).batLowPinIndicator = s.batLowPinIndicator := by
  unfold matrixScan
  dsimp only
  split_ifs <;> exact ⟨rfl, rfl⟩

/-- The blinking ends where the light is switched off after the duration. -/
theorem indicatorBatteryLow_ends (blinks : s.batLowBlinkDuration ≠ 0) :
    (s.indicatorBatteryLow config first second third).batLowBlinkDuration = 0 ↔
      s.batLowPinIndicator ≠ 0 ∧ config.blinkPeriod < syncTimerElapsed32 first s.batLowPinIndicator ∧
        config.blinkDuration < syncTimerElapsed32 third s.batLowBlinkDuration ∧ (config.ledPin → s.batLowLedPin = true) := by
  have duration : (s.toggle config).batLowBlinkDuration = s.batLowBlinkDuration := by
    unfold toggle
    split <;> rfl
  have pin : (config.ledPin = true → (s.toggle config).batLowLedPin = false) ↔ (config.ledPin = true → s.batLowLedPin = true) := by
    unfold toggle
    split
    case isTrue => simp
    case isFalse off => simp [off]
  unfold indicatorBatteryLow
  dsimp only
  rw [duration, ← pin]
  split
  case isTrue due =>
    rw [and_iff_right due.1, and_iff_right due.2]
    split
    case isTrue ends => exact iff_of_true rfl ends
    case isFalse goes =>
      exact iff_of_false blinks goes
  case isFalse early =>
    exact iff_of_false blinks fun all => early ⟨all.1, all.2.1⟩

theorem indicatorBatteryLow_keeps :
    let s' := s.indicatorBatteryLow config first second third
    (s'.batLowBlinkDuration = s.batLowBlinkDuration ∨ s'.batLowBlinkDuration = 0) ∧
      (s'.batLowPinIndicator ≠ 0 → s'.batLowBlinkDuration = s.batLowBlinkDuration ∧ s.batLowPinIndicator ≠ 0) ∧
      s'.siriTimerBuffer = s.siriTimerBuffer ∧ s'.siriRegistered = s.siriRegistered ∧
      s'.powerOnIndicatorTimerBuffer = s.powerOnIndicatorTimerBuffer := by
  unfold indicatorBatteryLow toggle
  dsimp only
  split_ifs <;> simp_all

theorem indicatorBatteryLowEnable_keeps (enable : Bool) (now : Nat) :
    let s' := s.indicatorBatteryLowEnable config enable now
    s'.siriTimerBuffer = s.siriTimerBuffer ∧ s'.siriRegistered = s.siriRegistered ∧
      s'.powerOnIndicatorTimerBuffer = s.powerOnIndicatorTimerBuffer ∧
      (if enable then s'.batLowBlinkDuration = stamp now
        else s'.batLowBlinkDuration = s.batLowBlinkDuration ∧ s'.batLowPinIndicator = s.batLowPinIndicator) := by
  unfold indicatorBatteryLowEnable
  dsimp only
  split_ifs <;> simp

end Timers

namespace TimedWorld

variable {config : LowBattery} {x : TimedWorld}

theorem now_le_third (x : TimedWorld) (e : TimedEvent) : x.now ≤ x.first e ∧ x.first e ≤ x.second e ∧ x.second e ≤ x.third e := by
  unfold third second first
  omega

theorem Inv.step (h : Inv x) (e : TimedEvent) : Inv (x.step config e) := by
  obtain ⟨first, second, third⟩ := now_le_third x e
  have siri (on : x.state.siriTimerBuffer ≠ 0) : x.state.siriTimerBuffer = stamp x.siriStart ∧ x.siriStart ≤ x.third e ∧
      x.state.siriRegistered = true := ⟨(h.siri on).1, (h.siri on).2.1.trans (by omega), (h.siri on).2.2⟩
  have powerOn (on : x.state.powerOnIndicatorTimerBuffer ≠ 0) :
      x.state.powerOnIndicatorTimerBuffer = stamp x.powerOnStart ∧ x.powerOnStart ≤ x.third e :=
    ⟨(h.powerOn on).1, (h.powerOn on).2.trans (by omega)⟩
  have batteryLow (on : x.state.batLowBlinkDuration ≠ 0) :
      x.state.batLowBlinkDuration = stamp x.batteryLowStart ∧ x.batteryLowStart ≤ x.third e :=
    ⟨(h.batteryLow on).1, (h.batteryLow on).2.trans (by omega)⟩
  unfold TimedWorld.step
  cases e.act with
  | siri pressed =>
    unfold Timers.siri
    dsimp only
    split_ifs with starts
    · exact ⟨fun _ => ⟨rfl, by dsimp only; omega, rfl⟩, powerOn, batteryLow, h.blinks⟩
    · exact ⟨siri, powerOn, batteryLow, h.blinks⟩
  | keyboardPostInit => exact ⟨siri, fun _ => ⟨rfl, by dsimp only; omega⟩, batteryLow, h.blinks⟩
  | matrixScan capsLock =>
    obtain ⟨duration, indicator⟩ := @Timers.matrixScan_batteryLow x.state (x.first e) (x.second e) capsLock
    have keys := @Timers.matrixScan_siri x.state (x.first e) (x.second e) capsLock
    refine ⟨?_, ?_, ?_, ?_⟩
    · dsimp only at keys ⊢
      split_ifs at keys
      · exact fun on => absurd keys.1 on
      · rw [keys.1, keys.2]
        exact siri
    · dsimp only
      intro on
      by_cases before : x.state.powerOnIndicatorTimerBuffer = 0
      · exact absurd (Timers.matrixScan_powerOff before) on
      · rw [((Timers.matrixScan_powerOn before).2 on).1]
        exact powerOn before
    · dsimp only
      rw [duration]
      exact batteryLow
    · dsimp only
      rw [duration, indicator]
      exact h.blinks
  | indicatorBatteryLowEnable enable =>
    obtain ⟨buffer, registered, power, low⟩ := @Timers.indicatorBatteryLowEnable_keeps x.state config enable (x.first e)
    refine ⟨?_, ?_, ?_, ?_⟩
    · dsimp only
      rw [buffer, registered]
      exact siri
    · dsimp only
      rw [power]
      exact powerOn
    · dsimp only
      split_ifs at low ⊢
      · rw [low]
        exact fun _ => ⟨rfl, by omega⟩
      · rw [low.1]
        exact batteryLow
    · dsimp only
      split_ifs at low
      · rw [low]
        exact fun _ => stamp_ne_zero _
      · rw [low.1, low.2]
        exact h.blinks
  | indicatorBatteryLow =>
    obtain ⟨duration, indicator, buffer, registered, power⟩ :=
      @Timers.indicatorBatteryLow_keeps x.state config (x.first e) (x.second e) (x.third e)
    refine ⟨?_, ?_, ?_, ?_⟩
    · dsimp only
      rw [buffer, registered]
      exact siri
    · dsimp only
      rw [power]
      exact powerOn
    · dsimp only
      rcases duration with same | off
      · rw [same]
        exact batteryLow
      · exact fun on => absurd off on
    · dsimp only
      intro on
      rw [(indicator on).1]
      exact h.blinks (indicator on).2
  | writePins => exact ⟨siri, powerOn, batteryLow, h.blinks⟩

theorem noScan {e : TimedEvent} {act : TimedAct} (is : e.act = act) (other : ∀ capsLock, act ≠ .matrixScan capsLock) : ¬ IsScan e := by
  rintro ⟨capsLock, scan⟩
  exact other capsLock (is.symm.trans scan)

/-- An event that is no scan and leaves the keys, the power-on indicator and the duration alone -/
theorem right_quiet (h : Inv x) {e : TimedEvent} (noScan : ¬ IsScan e)
    (registers : e.act = .siri true → (x.step config e).state.siriRegistered = true)
    (registered : x.state.siriRegistered = true → (x.step config e).state.siriRegistered = true)
    (power : x.state.powerOnIndicatorTimerBuffer ≠ 0 → (x.step config e).state.powerOnIndicatorTimerBuffer ≠ 0)
    (low : x.state.batLowBlinkDuration ≠ 0 → (x.step config e).state.batLowBlinkDuration = 0 →
      config.blinkDuration < x.third e - x.batteryLowStart) : Right config x e where
  registers := registers
  siri on := by
    rw [registered (h.siri on).2.2]
    exact iff_of_false (by decide) fun scan => noScan scan.1
  powerOn on := ⟨iff_of_false (power on) fun scan => noScan scan.1, fun scan => absurd scan noScan⟩
  batteryLow := low

theorem right_iff_scan (h : Inv x) {e : TimedEvent} {capsLock : Bool} (scan : e.act = .matrixScan capsLock) :
    Right config x e ↔ (x.state.powerOnIndicatorTimerBuffer ≠ 0 → Within powerOnLedDuration x.powerOnStart (x.first e)) ∧
      (x.state.siriTimerBuffer ≠ 0 → Within 500 x.siriStart (x.second e)) := by
  obtain ⟨first, second, third⟩ := now_le_third x e
  have next : (x.step config e).state = x.state.matrixScan capsLock (x.first e) (x.second e) := by
    unfold TimedWorld.step
    rw [scan]
  have isScan : IsScan e := ⟨capsLock, scan⟩
  have keys := @Timers.matrixScan_siri x.state (x.first e) (x.second e) capsLock
  have siri (on : x.state.siriTimerBuffer ≠ 0) :
      ((x.state.matrixScan capsLock (x.first e) (x.second e)).siriRegistered = false ↔ IsScan e ∧ 500 < x.second e - x.siriStart) ↔
        Within 500 x.siriStart (x.second e) := by
    rw [← within_iff ((h.siri on).2.1.trans (first.trans second)) (by decide), ← (h.siri on).1, and_iff_right isScan]
    dsimp only at keys
    split at keys
    case isTrue due =>
      rw [iff_true_intro keys.2, iff_true_intro due.2]
    case isFalse early =>
      have waits : ¬ 500 < syncTimerElapsed32 (x.second e) x.state.siriTimerBuffer := fun due => early ⟨on, due⟩
      rw [keys.2, (h.siri on).2.2, iff_false_intro waits, iff_false_intro (show ¬ (true = false) by decide)]
  have power (on : x.state.powerOnIndicatorTimerBuffer ≠ 0) := @Timers.matrixScan_powerOn x.state (x.first e) (x.second e) capsLock on
  have indicator (on : x.state.powerOnIndicatorTimerBuffer ≠ 0) :
      ((x.state.matrixScan capsLock (x.first e) (x.second e)).powerOnIndicatorTimerBuffer = 0 ↔
        IsScan e ∧ powerOnLedDuration < x.first e - x.powerOnStart) ↔ Within powerOnLedDuration x.powerOnStart (x.first e) := by
    rw [← within_iff ((h.powerOn on).2.trans first) (by decide), ← (h.powerOn on).1, and_iff_right isScan, (power on).1]
  constructor
  · intro right
    have lasts := right.powerOn
    have keeps := right.siri
    rw [next] at lasts keeps
    exact ⟨fun on => (indicator on).1 (lasts on).1, fun on => (siri on).1 (keeps on)⟩
  · rintro ⟨lasts, keeps⟩
    refine ⟨fun press => ?_, ?_, ?_, ?_⟩
    · rw [scan] at press
      exact absurd press (by simp)
    · rw [next]
      exact fun on => (siri on).2 (keeps on)
    · rw [next]
      exact fun on => ⟨(indicator on).2 (lasts on), fun _ still => ((power on).2 still).2⟩
    · rw [next, (Timers.matrixScan_batteryLow).1]
      exact fun on off => absurd off on

theorem right_iff_batteryLow (h : Inv x) {e : TimedEvent} (low : e.act = .indicatorBatteryLow) :
    Right config x e ↔ (x.state.batLowPinIndicator ≠ 0 → config.blinkPeriod < syncTimerElapsed32 (x.first e) x.state.batLowPinIndicator →
      (config.ledPin → x.state.batLowLedPin = true) → x.batteryLowStart ||| 1 ≤ x.third e) := by
  obtain ⟨first, second, third⟩ := now_le_third x e
  have next : (x.step config e).state = x.state.indicatorBatteryLow config (x.first e) (x.second e) (x.third e) := by
    unfold TimedWorld.step
    rw [low]
  obtain ⟨-, -, buffer, registered, power⟩ := @Timers.indicatorBatteryLow_keeps x.state config (x.first e) (x.second e) (x.third e)
  have ends (on : x.state.batLowBlinkDuration ≠ 0) :=
    @Timers.indicatorBatteryLow_ends x.state config (x.first e) (x.second e) (x.third e) on
  constructor
  · intro right indicator due light
    have on := h.blinks indicator
    have start := h.batteryLow on
    rcases @elapsed_stamp x.batteryLowStart (x.third e) (start.2.trans (by omega)) with ⟨-, same, elapsed⟩ | ⟨late, -⟩
    · have passed := right.batteryLow on (by
        rw [next, ends on, start.1, elapsed]
        exact ⟨indicator, due, config.fits, light⟩)
      omega
    · exact late
  · intro timely
    refine right_quiet h (noScan low (by simp)) (fun press => ?_) ?_ ?_ fun on off => ?_
    · rw [low] at press
      exact absurd press (by simp)
    · rw [next, registered]
      exact id
    · rw [next, power]
      exact id
    · rw [next, ends on] at off
      obtain ⟨indicator, due, passed, light⟩ := off
      have start := h.batteryLow on
      rw [start.1] at passed
      have late := timely indicator due light
      rcases @elapsed_stamp x.batteryLowStart (x.third e) (start.2.trans (by omega)) with ⟨early, -, -⟩ | ⟨-, elapsed⟩
      · omega
      · have most : (x.third e - (x.batteryLowStart ||| 1)) % 2 ^ 32 ≤ x.third e - (x.batteryLowStart ||| 1) := Nat.mod_le _ _
        have least : x.batteryLowStart ≤ x.batteryLowStart ||| 1 := Nat.left_le_or
        omega

/-- An event does what it should if and only if it is timely. -/
theorem right_iff (h : Inv x) (e : TimedEvent) : Right config x e ↔ Timely config x e := by
  unfold Timely
  cases act : e.act with
  | matrixScan capsLock => exact right_iff_scan h act
  | indicatorBatteryLow => exact right_iff_batteryLow h act
  | siri pressed =>
    have next : (x.step config e).state = x.state.siri pressed (x.first e) := by
      unfold TimedWorld.step
      rw [act]
    refine iff_of_true (right_quiet h (noScan act (by simp)) ?_ ?_ ?_ ?_) trivial
    · rw [next, act]
      unfold Timers.siri
      rintro same
      obtain rfl := TimedAct.siri.inj same
      split_ifs with starts
      · rfl
      · exact (h.siri fun off => starts ⟨rfl, off⟩).2.2
    · rw [next]
      unfold Timers.siri
      split_ifs
      · exact fun _ => rfl
      · exact id
    · rw [next]
      unfold Timers.siri
      split_ifs <;> exact id
    · rw [next]
      unfold Timers.siri
      split_ifs <;> exact fun on off => absurd off on
  | keyboardPostInit =>
    have next : (x.step config e).state = x.state.keyboardPostInit (x.first e) := by
      unfold TimedWorld.step
      rw [act]
    refine iff_of_true (right_quiet h (noScan act (by simp)) (fun press => ?_) ?_ ?_ ?_) trivial
    · rw [act] at press
      exact absurd press (by simp)
    · rw [next]
      exact id
    · rw [next]
      exact fun _ => stamp_ne_zero _
    · rw [next]
      exact fun on off => absurd off on
  | indicatorBatteryLowEnable enable =>
    have next : (x.step config e).state = x.state.indicatorBatteryLowEnable config enable (x.first e) := by
      unfold TimedWorld.step
      rw [act]
    obtain ⟨-, registered, power, low⟩ := @Timers.indicatorBatteryLowEnable_keeps x.state config enable (x.first e)
    refine iff_of_true (right_quiet h (noScan act (by simp)) (fun press => ?_) ?_ ?_ fun on off => ?_) trivial
    · rw [act] at press
      exact absurd press (by simp)
    · rw [next, registered]
      exact id
    · rw [next, power]
      exact id
    · rw [next] at off
      split at low
      · exact absurd (low ▸ off) (stamp_ne_zero _)
      · exact absurd (low.1 ▸ off) on
  | writePins batLow capsLock =>
    have next : (x.step config e).state = { x.state with batLowLedPin := batLow, capsLockPin := capsLock } := by
      unfold TimedWorld.step
      rw [act]
    refine iff_of_true (right_quiet h (noScan act (by simp)) (fun press => ?_) ?_ ?_ ?_) trivial
    · rw [act] at press
      exact absurd press (by simp)
    · rw [next]
      exact id
    · rw [next]
      exact id
    · rw [next]
      exact fun on off => absurd off on

/-- **Timed actions**: in a run from any time on, each action lasts its time if and only if the scans see of the stored starts what has
passed from the starts. -/
theorem actions_last (now : Nat) (events : List TimedEvent) :
    Along (step config) (Right config) (initial now) events ↔ Along (step config) (Timely config) (initial now) events :=
  Along.congr Inv (fun _ e h => right_iff h e) (fun _ e h _ => h.step e)
    ⟨fun on => absurd rfl on, fun on => absurd rfl on, fun on => absurd rfl on, fun on => absurd rfl on⟩

/-- The light of `BAT_LOW_LED_PIN`, with the periods of `indicator.h` -/
def batLowLed : LowBattery := ⟨true, 1000, 10000, by decide⟩

/-- A scan in the millisecond of an even start releases the keys, or switches the power-on indicator off, at once; and the light that was
enabled again in such a millisecond stops to blink. -/
theorem ended_at_once :
    ¬ Along (step batLowLed) (Right batLowLed) (initial 1000) [⟨.siri true, 0, 0, 0⟩, ⟨.matrixScan false, 0, 0, 0⟩] ∧
      ¬ Along (step batLowLed) (Right batLowLed) (initial 1000) [⟨.keyboardPostInit, 0, 0, 0⟩, ⟨.matrixScan false, 0, 0, 0⟩] ∧
      ¬ Along (step batLowLed) (Right batLowLed) (initial 1000) [⟨.indicatorBatteryLowEnable true, 0, 0, 0⟩,
        ⟨.indicatorBatteryLow, 1002, 0, 0⟩, ⟨.indicatorBatteryLowEnable true, 1002, 0, 0⟩, ⟨.indicatorBatteryLow, 0, 0, 0⟩] := by
  refine ⟨fun right => ?_, fun right => ?_, fun right => ?_⟩
  · have last := (right.2.1.siri (by decide)).1 (by decide)
    exact absurd last.2 (by decide)
  · have last := (right.2.1.powerOn (by decide)).1.1 (by decide)
    exact absurd last.2 (by decide)
  · have last := right.2.2.2.1.batteryLow (by decide) (by decide)
    exact absurd last (by decide)

end TimedWorld

end QmkFirmware.Keychron
