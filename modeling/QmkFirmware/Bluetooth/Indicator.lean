import QmkFirmware.Lib.Audited
import QmkFirmware.Lib.Run

/-!
# The host indicator

`indicator.c`: an indicator shows the host that the module has named in its packets. `value` packs the index of the host
and, in the high bit, whether its LED is on; the two lists of the hosts' LEDs and pins are indexed with the index less
one.
-/

namespace QmkFirmware.Bluetooth.Indicator
open Lib Audited

/-- `indicator_type_t` -/
inductive IndicatorType where
  | none | off | on | onOff | blink | last
  deriving DecidableEq, Repr

/-- `indicator_config_t` -/
structure IndicatorConfig where
  type : IndicatorType
  onTime : UInt32
  offTime : UInt32
  duration : UInt32
  highlight : Bool
  value : UInt8
  elapsed : UInt32
  deriving DecidableEq

/-- `bluetooth_state_t` -/
inductive BluetoothState where
  | reset | initialized | disconnected | connected | paring | reconnecting | suspend
  deriving DecidableEq, Repr

/-- What a keyboard is compiled with: `HOST_DEVICES_COUNT`, whether there is a `HOST_LED_PIN_LIST`, and the indicators -/
structure Keyboard where
  hostDevicesCount : Nat
  pinList : Bool
  pairing : IndicatorConfig
  connected : IndicatorConfig
  reconnecting : IndicatorConfig
  disconnected : IndicatorConfig

/-- An index into `host_led_matrix_list` or `host_led_pin_list` -/
inductive Access where
  | matrix (index : Int)
  | pin (index : Int)
  deriving DecidableEq, Repr

/-- Both lists have an entry for each host. -/
def Access.Inside (k : Keyboard) : Access → Prop
  | .matrix index => 0 ≤ index ∧ index < k.hostDevicesCount
  | .pin index => 0 ≤ index ∧ index < k.hostDevicesCount

instance (k : Keyboard) : DecidablePred (Access.Inside k)
  | .matrix _ => inferInstanceAs (Decidable (_ ∧ _))
  | .pin _ => inferInstanceAs (Decidable (_ ∧ _))

/-- The variables of `indicator.c`, with the static ones of its functions -/
structure State where
  config : IndicatorConfig
  indicatorState : BluetoothState
  nextPeriod : UInt16
  type : IndicatorType
  timerBuffer : UInt32
  currentState : BluetoothState
  currentHost : UInt8
  lastHostIndex : UInt8

/-- What the rest of the firmware says during an event: is the transport Bluetooth, is the battery critically low, does the
keymap leave the indicators to the keyboard, and what the timer reads -/
structure Env where
  bluetooth : Bool
  criticalLow : Bool
  user : Bool
  now : UInt32

def ledOn : UInt8 := 0x80

/-- An all-zero `indicator_config_t` -/
def noConfig : IndicatorConfig := ⟨.none, 0, 0, 0, false, 0, 0⟩

/-- The variables when the firmware starts; 0 is `BLUETOOTH_RESET`. -/
def State.initial : State := ⟨noConfig, .reset, 0, .none, 0, .reset, 0, 0xFF⟩

def State.setValue (s : State) (value : UInt8) : State := { s with config := { s.config with value := value } }

section Code

variable (k : Keyboard) (env : Env)

/-- `indicator_init` -/
def indicatorInit (s : State) : Audited Access State := do
  let s := { s with config := noConfig }
  if k.pinList then
    loop (fun i s => do
      note (Access.pin i) ()
      note (Access.pin i) s) k.hostDevicesCount s
  else pure s

/-- The part of `LED_INDICATORS_KB` before the LED of the host: all LEDs, or the one of the host before it, go off. -/
def turnLastOff (s : State) : Audited Access State :=
  if s.config.highlight then pure s
  else if s.lastHostIndex ≠ s.config.value &&& 0x0F then
    note (.matrix (s.lastHostIndex.toNat - 1)) { s with lastHostIndex := s.config.value &&& 0x0F }
  else pure s

/-- `LED_INDICATORS_KB`, the part that is about the host: `SET_LED_BT` or `SET_LED_OFF` comes last. -/
def ledIndicatorsKb (s : State) : Audited Access State :=
  if ¬ env.user ∨ ¬ env.bluetooth ∨ env.criticalLow then pure s
  else if s.config.value ≠ 0 then do
    let s ← turnLastOff s
    note (.matrix ((s.config.value &&& 0x0F).toNat - 1)) s
  else pure s

/-- The switch of `indicator_timer_cb`: is the time up, and what is left -/
def timerSwitch (s : State) : Bool × State :=
  match s.type with
  | .none => (false, s)
  | .off => (true, { s with nextPeriod := 0 })
  | .on =>
    if s.config.value ≠ 0 then
      if s.config.elapsed = 0 then
        let s := s.setValue (s.config.value ||| ledOn)
        (false, if s.config.duration ≠ 0 then
          { s with config := { s.config with elapsed := s.config.elapsed + s.config.duration } } else s)
      else (true, s)
    else (false, s)
  | .onOff =>
    if s.config.value ≠ 0 then
      let s := if s.config.elapsed = 0 then
          { s.setValue (s.config.value ||| ledOn) with nextPeriod := s.config.onTime.toUInt16 }
        else { s.setValue (s.config.value &&& 0x0F) with nextPeriod := (s.config.duration - s.config.onTime).toUInt16 }
      if (s.config.duration = 0 ∨ s.config.elapsed ≤ s.config.duration) ∧ s.nextPeriod ≠ 0 then
        (false, { s with config := { s.config with elapsed := s.config.elapsed + s.nextPeriod.toUInt32 } })
      else (true, s)
    else (false, s)
  | .blink =>
    if s.config.value ≠ 0 then
      let s := if s.config.value &&& ledOn ≠ 0 then
          { s.setValue (s.config.value &&& 0x0F) with nextPeriod := s.config.offTime.toUInt16 }
        else { s.setValue (s.config.value ||| ledOn) with nextPeriod := s.config.onTime.toUInt16 }
      if (s.config.duration = 0 ∨ s.config.elapsed ≤ s.config.duration) ∧ s.nextPeriod ≠ 0 then
        (false, { s with config := { s.config with elapsed := s.config.elapsed + s.nextPeriod.toUInt32 } })
      else (true, s)
    else (false, s)
  | .last => (true, { s with nextPeriod := 0 })

/-- The pin of the host in `indicator_timer_cb` -/
def writeHostPin (s : State) : Audited Access State :=
  let idx := (s.config.value &&& 0x0F) - 1
  if k.pinList ∧ s.config.value ≠ 0 ∧ idx.toNat < k.hostDevicesCount then note (.pin idx.toNat) s else pure s

/-- The end of `indicator_timer_cb` -/
def finish (timeUp : Bool) (s : State) : Audited Access State :=
  if timeUp then do
    let s ← ledIndicatorsKb env (s.setValue (s.config.value &&& 0x0F))
    pure (s.setValue 0)
  else pure s

/-- `indicator_timer_cb` -/
def indicatorTimerCb (arg : IndicatorType) (s : State) : Audited Access State := do
  let result := timerSwitch (if arg ≠ .last then { s with type := arg } else s)
  let s ← writeHostPin k result.2
  finish env result.1 s

/-- `INDICATOR_SET`, the value, and the call of the timer -/
def startIndicator (config : IndicatorConfig) (value : UInt8) (s : State) : Audited Access State :=
  let s := { s with config := { config with value := if config.type = .none then 0 else value } }
  indicatorTimerCb k env s.config.type s

/-- `writePin(host_led_pin_list[host_index - 1], ..)` -/
def clearHostPin (hostIndex : UInt8) (s : State) : Audited Access State :=
  if k.pinList then note (.pin (hostIndex.toNat - 1)) s else pure s

/-- The switch of `indicator_set` -/
def enterState (state : BluetoothState) (hostIndex : UInt8) (s : State) : Audited Access State :=
  match state with
  | .disconnected => do
    let s ← clearHostPin k hostIndex s
    startIndicator k env k.disconnected hostIndex s
  | .connected => if s.indicatorState ≠ .connected then startIndicator k env k.connected hostIndex s else pure s
  | .paring => startIndicator k env k.pairing (ledOn ||| hostIndex) s
  | .reconnecting => startIndicator k env k.reconnecting (ledOn ||| hostIndex) s
  | .suspend => startIndicator k env k.disconnected hostIndex s
  | .reset => pure s
  | .initialized => pure s

/-- `indicator_set` -/
def indicatorSet (state : BluetoothState) (hostIndex : UInt8) (s : State) : Audited Access State :=
  if env.bluetooth = false then pure s
  else
    let changed := s.currentHost ≠ hostIndex ∧ state ≠ .disconnected
    let s := if s.currentHost ≠ hostIndex ∧ state ≠ .disconnected then { s with currentHost := hostIndex } else s
    if s.currentState ≠ state ∨ changed then do
      let s ← enterState k env state hostIndex { s with currentState := state, timerBuffer := env.now }
      pure { s with indicatorState := state }
    else pure s

/-- `indicator_stop` -/
def indicatorStop (s : State) : State := s.setValue 0

/-- `indicator_task`, the part that is about the host -/
def indicatorTask (s : State) : Audited Access State :=
  if s.config.value ≠ 0 ∧ s.nextPeriod.toUInt32 ≤ env.now - s.timerBuffer then do
    let s ← indicatorTimerCb k env s.type s
    pure { s with timerBuffer := env.now }
  else pure s

end Code

/-- What calls `indicator.c`: the Bluetooth events with the index that the module sent, the task, the LED matrix, and a change of
the transport -/
inductive Event where
  | init
  | set (env : Env) (state : BluetoothState) (hostIndex : UInt8)
  | task (env : Env)
  | indicators (env : Env)
  | stop

def step (k : Keyboard) (s : State) : Event → Audited Access State
  | .init => indicatorInit k s
  | .set env state hostIndex => indicatorSet k env state hostIndex s
  | .task env => indicatorTask k env s
  | .indicators env => ledIndicatorsKb env s
  | .stop => pure (indicatorStop s)

/-! ## Where the index is a host's -/

variable {k : Keyboard} {env : Env} {s : State}

/-- The host of a value -/
def host (value : UInt8) : Nat := (value &&& 0x0F).toNat

/-- What an indicator shows is nothing, which is also what blinks off first when there is no host, or a host that there is.
The LED of the host before it is not looked up, as it is for an indicator that does not highlight. -/
def Shows (k : Keyboard) (config : IndicatorConfig) (value : UInt8) : Prop :=
  config.type = .none ∨ value = 0 ∨ (config.type = .blink ∧ host value = 0 ∧ value &&& ledOn ≠ 0) ∨
    config.highlight = true ∧ 1 ≤ host value ∧ host value ≤ k.hostDevicesCount

/-- The condition on an event: an `indicator_set` that is not ignored names a host that there is. -/
def Fine (k : Keyboard) (s : State) : Event → Prop
  | .set env state hostIndex =>
    env.bluetooth = true → s.currentState ≠ state ∨ s.currentHost ≠ hostIndex ∧ state ≠ .disconnected →
      match state with
      | .disconnected => (k.pinList = true → 1 ≤ hostIndex.toNat ∧ hostIndex.toNat ≤ k.hostDevicesCount) ∧
          Shows k k.disconnected hostIndex
      | .connected => s.indicatorState ≠ .connected → Shows k k.connected hostIndex
      | .paring => Shows k k.pairing (ledOn ||| hostIndex)
      | .reconnecting => Shows k k.reconnecting (ledOn ||| hostIndex)
      | .suspend => Shows k k.disconnected hostIndex
      | .reset => True
      | .initialized => True
  | _ => True

instance (k : Keyboard) (config : IndicatorConfig) (value : UInt8) : Decidable (Shows k config value) :=
  inferInstanceAs (Decidable (_ ∨ _))

instance (k : Keyboard) (s : State) : DecidablePred (Fine k s)
  | .init => isTrue trivial
  | .set _ .disconnected _ => inferInstanceAs (Decidable (_ → _ → _ ∧ _))
  | .set _ .connected _ => inferInstanceAs (Decidable (_ → _ → _ → _))
  | .set _ .paring _ => inferInstanceAs (Decidable (_ → _ → Shows _ _ _))
  | .set _ .reconnecting _ => inferInstanceAs (Decidable (_ → _ → Shows _ _ _))
  | .set _ .suspend _ => inferInstanceAs (Decidable (_ → _ → Shows _ _ _))
  | .set _ .reset _ => isTrue fun _ _ => trivial
  | .set _ .initialized _ => isTrue fun _ _ => trivial
  | .task _ => isTrue trivial
  | .indicators _ => isTrue trivial
  | .stop => isTrue trivial

/-- What the indicator shows now is nothing, or a host that there is. -/
def Shown (k : Keyboard) (s : State) : Prop :=
  s.config.value = 0 ∨ s.config.highlight = true ∧ 1 ≤ host s.config.value ∧ host s.config.value ≤ k.hostDevicesCount

theorem host_or (value : UInt8) : host (value ||| ledOn) = host value := by
  unfold host ledOn
  congr 1
  apply UInt8.toBitVec_inj.1
  rw [UInt8.toBitVec_and, UInt8.toBitVec_or, UInt8.toBitVec_and, BitVec.and_or_distrib_right]
  exact BitVec.or_zero

theorem host_and (value : UInt8) : host (value &&& 0x0F) = host value := by
  unfold host
  rw [UInt8.and_assoc]
  rfl

/-- The indicator shows the same host, or nothing more than before. -/
structure Same (s t : State) : Prop where
  highlight : t.config.highlight = s.config.highlight
  host : host t.config.value = host s.config.value
  zero : s.config.value = 0 → t.config.value = 0

theorem Same.refl (s : State) : Same s s := ⟨rfl, rfl, id⟩

theorem Same.shown {t : State} (same : Same s t) (h : Shown k s) : Shown k t := by
  rcases h with zero | ⟨highlight, low, high⟩
  · exact Or.inl (same.zero zero)
  · refine Or.inr ⟨same.highlight.trans highlight, ?_, ?_⟩
    · rwa [same.host]
    · rwa [same.host]

/-- The LED goes on or off. -/
theorem same_of_value {t : State} (lit : s.config.value ≠ 0) (highlight : t.config.highlight = s.config.highlight)
    (value : t.config.value = s.config.value ||| ledOn ∨ t.config.value = s.config.value &&& 0x0F) : Same s t := by
  refine ⟨highlight, ?_, fun zero => absurd zero lit⟩
  rcases value with on | off
  · rw [on, host_or]
  · rw [off, host_and]

theorem same_timerSwitch (s : State) : Same s (timerSwitch s).2 := by
  unfold timerSwitch
  cases s.type with
  | none => exact .refl s
  | off => exact ⟨rfl, rfl, id⟩
  | last => exact ⟨rfl, rfl, id⟩
  | on =>
    dsimp only
    split_ifs with lit start duration
    · exact same_of_value lit rfl (Or.inl rfl)
    · exact same_of_value lit rfl (Or.inl rfl)
    · exact .refl s
    · exact .refl s
  | onOff =>
    dsimp only
    split_ifs with lit start more more
    · exact same_of_value lit rfl (Or.inl rfl)
    · exact same_of_value lit rfl (Or.inl rfl)
    · exact same_of_value lit rfl (Or.inr rfl)
    · exact same_of_value lit rfl (Or.inr rfl)
    · exact .refl s
  | blink =>
    dsimp only
    split_ifs with lit start more more
    · exact same_of_value lit rfl (Or.inr rfl)
    · exact same_of_value lit rfl (Or.inr rfl)
    · exact same_of_value lit rfl (Or.inl rfl)
    · exact same_of_value lit rfl (Or.inl rfl)
    · exact .refl s

/-- A step is as it should be: it looks up hosts that there are, and it shows one after it. -/
structure Ok (k : Keyboard) (result : Audited Access State) : Prop where
  safe : result.Safe (Access.Inside k)
  shown : Shown k result.value

theorem ok_pure (h : Shown k s) : Ok k (pure s) := ⟨safe_pure s, h⟩

theorem ok_bind {x : Audited Access State} {f : State → Audited Access State} (safe : x.Safe (Access.Inside k))
    (rest : Ok k (f x.value)) : Ok k (x >>= f) := ⟨(safe_bind x f).2 ⟨safe, rest.safe⟩, rest.shown⟩

theorem ok_ledIndicatorsKb (h : Shown k s) : Ok k (ledIndicatorsKb env s) := by
  unfold ledIndicatorsKb
  split_ifs with off lit
  · exact ok_pure h
  · rcases h with zero | ⟨highlight, low, high⟩
    · exact absurd zero lit
    · have same : turnLastOff s = pure s := if_pos highlight
      rw [same]
      refine ⟨?_, Or.inr ⟨highlight, low, high⟩⟩
      rw [safe_bind, safe_note]
      refine ⟨safe_pure s, ?_⟩
      change 0 ≤ ((host s.config.value : Nat) : Int) - 1 ∧ ((host s.config.value : Nat) : Int) - 1 < k.hostDevicesCount
      omega
  · exact ok_pure h

theorem ok_writeHostPin (h : Shown k s) : Ok k (writeHostPin k s) := by
  unfold writeHostPin
  dsimp only
  split_ifs with pin
  · exact ⟨(safe_note _ _).2 ⟨Int.natCast_nonneg _, Int.ofNat_lt.2 pin.2.2⟩, h⟩
  · exact ok_pure h

theorem ok_finish (timeUp : Bool) (h : Shown k s) : Ok k (finish env timeUp s) := by
  unfold finish
  split_ifs
  · have off : Same s (s.setValue (s.config.value &&& 0x0F)) :=
      ⟨rfl, host_and _, fun zero => by simp [State.setValue, zero]⟩
    exact ok_bind (ok_ledIndicatorsKb (off.shown h)).safe (ok_pure (Or.inl rfl))
  · exact ok_pure h

theorem ok_indicatorTimerCb {arg : IndicatorType}
    (h : Shown k (timerSwitch (if arg ≠ .last then { s with type := arg } else s)).2) : Ok k (indicatorTimerCb k env arg s) := by
  have pin := ok_writeHostPin h
  exact ok_bind pin.safe (ok_finish _ pin.shown)

theorem ok_timer (arg : IndicatorType) (h : Shown k s) : Ok k (indicatorTimerCb k env arg s) := by
  refine ok_indicatorTimerCb ((same_timerSwitch _).shown ?_)
  split_ifs
  · exact h
  · exact h

/-- An indicator that blinks goes off first. -/
theorem blink_off (type : s.type = .blink) (none : host s.config.value = 0) (on : s.config.value &&& ledOn ≠ 0) :
    (timerSwitch s).2.config.value = 0 := by
  have lit : s.config.value ≠ 0 := by
    intro zero
    rw [zero] at on
    exact on (by decide)
  have off : s.config.value &&& 0x0F = 0 := UInt8.toNat_inj.1 none
  unfold timerSwitch
  rw [type]
  dsimp only
  rw [if_pos lit, if_pos on]
  split_ifs
  · exact off
  · exact off

theorem ok_startIndicator {config : IndicatorConfig} {value : UInt8} (shows : Shows k config value) :
    Ok k (startIndicator k env config value s) := by
  unfold startIndicator
  dsimp only
  have plain (h : (if config.type = .none then 0 else value) = 0 ∨
      config.highlight = true ∧ 1 ≤ host value ∧ host value ≤ k.hostDevicesCount) :
      Shown k { s with config := { config with value := if config.type = .none then 0 else value } } := by
    unfold Shown
    dsimp only
    split_ifs at h ⊢
    · exact Or.inl rfl
    · exact h
  rcases shows with none | zero | ⟨blink, none, on⟩ | lit
  · exact ok_timer _ (plain (Or.inl (if_pos none)))
  · refine ok_timer _ (plain (Or.inl ?_))
    rw [zero]
    exact ite_self 0
  · refine ok_indicatorTimerCb (Or.inl (blink_off ?_ ?_ ?_))
    · simp [blink]
    · simpa [blink] using none
    · simpa [blink] using on
  · exact ok_timer _ (plain (Or.inr lit))

/-! ## Every run -/

theorem ok_enterState {state : BluetoothState} {hostIndex : UInt8} {t : State} (h : Shown k t) (bluetooth : env.bluetooth = true)
    (taken : s.currentState ≠ state ∨ s.currentHost ≠ hostIndex ∧ state ≠ .disconnected)
    (same : t.indicatorState = s.indicatorState) (fine : Fine k s (.set env state hostIndex)) :
    Ok k (enterState k env state hostIndex t) := by
  have fine := fine bluetooth taken
  cases state with
  | disconnected =>
    have pin : Ok k (clearHostPin k hostIndex t) := by
      unfold clearHostPin
      split_ifs with pinned
      · have inside := fine.1 pinned
        refine ⟨(safe_note _ _).2 ?_, h⟩
        change 0 ≤ (hostIndex.toNat : Int) - 1 ∧ (hostIndex.toNat : Int) - 1 < k.hostDevicesCount
        omega
      · exact ok_pure h
    exact ok_bind pin.safe (ok_startIndicator fine.2)
  | connected =>
    unfold enterState
    dsimp only
    split_ifs with changed
    · exact ok_startIndicator (fine (same ▸ changed))
    · exact ok_pure h
  | paring => exact ok_startIndicator fine
  | reconnecting => exact ok_startIndicator fine
  | suspend => exact ok_startIndicator fine
  | reset => exact ok_pure h
  | initialized => exact ok_pure h

/-- What one event does -/
theorem ok_step {e : Event} (h : Shown k s) (fine : Fine k s e) : Ok k (step k s e) := by
  cases e with
  | init =>
    have off : Shown k { s with config := noConfig } := Or.inl rfl
    change Ok k (indicatorInit k s)
    unfold indicatorInit
    dsimp only
    split_ifs
    · have body (n : Nat) : Shown k (loop (fun i s => do
          note (Access.pin i) ()
          note (Access.pin i) s) n { s with config := noConfig } : Audited Access State).value := by
        induction n with
        | zero => exact off
        | succ n ih => exact ih
      refine ⟨?_, body _⟩
      simp only [safe_loop, safe_bind, safe_note]
      exact fun i lt => ⟨⟨Int.natCast_nonneg _, Int.ofNat_lt.2 lt⟩, Int.natCast_nonneg _, Int.ofNat_lt.2 lt⟩
    · exact ok_pure off
  | set env state hostIndex =>
    change Ok k (indicatorSet k env state hostIndex s)
    unfold indicatorSet
    by_cases off : env.bluetooth = false
    · rw [if_pos off]
      exact ok_pure h
    have bluetooth : env.bluetooth = true := by simpa using off
    rw [if_neg off]
    dsimp only
    generalize eq : (if s.currentHost ≠ hostIndex ∧ state ≠ .disconnected then { s with currentHost := hostIndex } else s) = t
    obtain ⟨shown, current, previous⟩ : Shown k t ∧ t.currentState = s.currentState ∧ t.indicatorState = s.indicatorState := by
      subst eq
      split_ifs
      · exact ⟨h, rfl, rfl⟩
      · exact ⟨h, rfl, rfl⟩
    split_ifs with taken
    · rw [current] at taken
      have entered := @ok_enterState k env s state hostIndex { t with currentState := state, timerBuffer := env.now } shown
        bluetooth taken previous fine
      exact ok_bind entered.safe (ok_pure entered.shown)
    · exact ok_pure shown
  | task env =>
    change Ok k (indicatorTask k env s)
    unfold indicatorTask
    split_ifs
    · have timer := @ok_timer k env s s.type h
      exact ok_bind timer.safe (ok_pure timer.shown)
    · exact ok_pure h
  | indicators env => exact ok_ledIndicatorsKb h
  | stop => exact ok_pure (Or.inl rfl)

/-- **The indices stay in range** in every run in which each `indicator_set` that is not ignored names a host that there is,
for an indicator that highlights. -/
theorem indices_in_range {events : List Event}
    (fine : Along (fun s e => (step k s e).value) (Fine k) State.initial events) :
    Along (fun s e => (step k s e).value) (fun s e => (step k s e).Safe (Access.Inside k)) State.initial events :=
  fine.each (Shown k) (fun _ _ h fine => ⟨(ok_step h fine).shown, (ok_step h fine).safe⟩) (Or.inl rfl)

section Examples

/-- The indicators of `indicator.h`, for three hosts with pins -/
def pro : Keyboard where
  hostDevicesCount := 3
  pinList := true
  pairing := ⟨.blink, 1000, 1000, 0, true, 0, 0⟩
  connected := ⟨.onOff, 2000, 250, 2000, true, 0, 0⟩
  reconnecting := ⟨.blink, 100, 100, 600, true, 0, 0⟩
  disconnected := ⟨.none, 100, 100, 600, false, 0, 0⟩

/-- On Bluetooth, with a battery that is not low, at a time -/
def clock (now : UInt32) : Env := ⟨true, false, true, now⟩

theorem indices_in_range_pro :
    Along (fun s e => (step pro s e).value) (fun s e => (step pro s e).Safe (Access.Inside pro)) State.initial
      [.init, .set (clock 10) .paring 2, .indicators (clock 20), .set (clock 30) .connected 2, .indicators (clock 40),
        .task (clock 3000), .set (clock 4000) .suspend 2] :=
  indices_in_range (by decide +kernel)

/-- The module names host 5, and host 0 where it has disconnected; and an indicator without highlight looks up the LED of the host
before the first one. -/
theorem index_out_of_range :
    ¬ (step pro State.initial (.set (clock 10) .disconnected 0)).Safe (Access.Inside pro) ∧
    ¬ (ledIndicatorsKb (clock 20) (step pro State.initial (.set (clock 10) .reconnecting 5)).value).Safe (Access.Inside pro) ∧
    ¬ (step { pro with disconnected := ⟨.off, 100, 100, 600, false, 0, 0⟩ } State.initial
      (.set (clock 10) .disconnected 2)).Safe (Access.Inside pro) := by
  decide +kernel

end Examples

end QmkFirmware.Bluetooth.Indicator
