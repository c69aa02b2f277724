import QmkFirmware.Bluetooth.Driver

/-!
# Pairing by a host key

A host key that is pressed starts a virtual timer, whose callback pairs with the host that `host_idx` then names. The
timer expires in an interrupt, so also between the assignment of `host_idx` and the call that sets or resets the timer.
-/

namespace QmkFirmware.Keychron
open Lib
open Bluetooth (BluetoothState)

/-- `transport_t` -/
inductive Transport where
  | none | usb | bluetooth
  deriving DecidableEq, Repr

/-- What is asked of the Bluetooth part, and by it of the module -/
inductive HostCall where
  | bluetoothPairingEx (hostIdx : UInt8)
  | pairingEx (hostIdx : UInt8)
  | connectEx (hostIdx : UInt8) (timeout : UInt16)
  deriving DecidableEq, Repr

/-- The variables: `pairing_key_timer` by the time at which it expires -/
structure Pairing where
  transport : Transport
  hostIdx : UInt8
  pairingKeyTimer : Option Nat
  batteryIsCriticalLow : Bool
  btState : BluetoothState
  hostIndex : UInt8
  ledState : UInt8
  deriving DecidableEq, Repr

/-- The index of `BT_HST1` to `BT_HST3` -/
def hostOf (key : Fin 3) : UInt8 := UInt8.ofNat (key + 1)

namespace Pairing

/-- `bluetooth_pairing_ex` -/
def bluetoothPairingEx (hostIdx : UInt8) (s : Pairing) : Pairing × List HostCall :=
  if s.batteryIsCriticalLow then (s, [])
  else ({ s with btState := .paring, hostIndex := hostIdx }, [.pairingEx hostIdx])

/-- `bluetooth_connect_ex` -/
def bluetoothConnectEx (hostIdx : UInt8) (timeout : UInt16) (s : Pairing) : Pairing × List HostCall :=
  if s.batteryIsCriticalLow then (s, [])
  else if hostIdx ≠ 0 ∧ s.hostIndex = hostIdx ∧ s.btState = .connected then (s, [])
  else
    let s := if hostIdx ≠ 0 then { s with hostIndex := hostIdx, ledState := 0 } else s
    ({ s with btState := .reconnecting }, [.connectEx hostIdx timeout])

/-- `pairing_key_timer_cb`, with the timer off -/
def pairingKeyTimerCb (s : Pairing) : Pairing × List HostCall :=
  let out := { s with pairingKeyTimer := none }.bluetoothPairingEx s.hostIdx
  (out.1, .bluetoothPairingEx s.hostIdx :: out.2)

/-- The timer expires, if it is due. -/
def expire (now : Nat) (s : Pairing) : Pairing × List HostCall :=
  if s.pairingKeyTimer.any (· ≤ now) then s.pairingKeyTimerCb else (s, [])

/-- `process_record_kb_bt` of a host key that is pressed. `interrupt` says that the timer may expire after the assignment, at `now`,
which is the time at which the timer is set too. -/
def press (key : Fin 3) (interrupt : Bool) (now : Nat) (s : Pairing) : Pairing × List HostCall :=
  if s.transport = .bluetooth then
    let s := { s with hostIdx := hostOf key }
    let (s, calls) := if interrupt then s.expire now else (s, [])
    let s := { s with pairingKeyTimer := some (now + 2000) }
    let (s, connect) := s.bluetoothConnectEx s.hostIdx 0
    (s, calls ++ connect)
  else (s, [])

/-- `process_record_kb_bt` of a host key that is released -/
def release (interrupt : Bool) (now : Nat) (s : Pairing) : Pairing × List HostCall :=
  if s.transport = .bluetooth then
    let s := { s with hostIdx := 0 }
    let (s, calls) := if interrupt then s.expire now else (s, [])
    ({ s with pairingKeyTimer := none }, calls)
  else (s, [])

end Pairing

/-- What happens: host keys, with an interrupt or without; the timer; `set_transport`; and what the battery and the
module change -/
inductive PairingAct where
  | press (key : Fin 3) (interrupt : Bool)
  | release (key : Fin 3) (interrupt : Bool)
  | expire
  | setTransport (transport : Transport)
  | battery (criticalLow : Bool)
  | module (btState : BluetoothState) (hostIndex : UInt8)
  deriving DecidableEq, Repr

/-- With the milliseconds since the last one -/
structure PairingEvent where
  act : PairingAct
  wait : Nat
  deriving DecidableEq, Repr

/-- What happened, when, with which transport and battery, and the calls that were made -/
structure Happened where
  act : PairingAct
  time : Nat
  transport : Transport
  batteryIsCriticalLow : Bool
  calls : List HostCall
  deriving DecidableEq, Repr

/-- The variables, the time, and what happened so far -/
structure PairingWorld where
  state : Pairing
  now : Nat
  past : List Happened

namespace PairingWorld

def initial (transport : Transport) : PairingWorld := ⟨⟨transport, 0, none, false, .initialized, 0, 0⟩, 0, []⟩

/-- The time of the next event -/
def next (x : PairingWorld) (e : PairingEvent) : Nat := x.now + e.wait

/-- The variables after an event, and the calls in it -/
def act (x : PairingWorld) (e : PairingEvent) : Pairing × List HostCall :=
  match e.act with
  | .press key interrupt => x.state.press key interrupt (x.next e)
  | .release _ interrupt => x.state.release interrupt (x.next e)
  | .expire => x.state.expire (x.next e)
  | .setTransport transport => ({ x.state with transport }, [])
  | .battery criticalLow => ({ x.state with batteryIsCriticalLow := criticalLow }, [])
  | .module btState hostIndex => ({ x.state with btState, hostIndex }, [])

def happens (x : PairingWorld) (e : PairingEvent) : Happened := ⟨e.act, x.next e, x.state.transport, x.state.batteryIsCriticalLow, (x.act e).2⟩

def step (x : PairingWorld) (e : PairingEvent) : PairingWorld := ⟨(x.act e).1, x.next e, x.past ++ [x.happens e]⟩

/-- A host key is pressed on Bluetooth. -/
def Presses (key : Fin 3) (h : Happened) : Prop := h.transport = .bluetooth ∧ (h.act = .press key false ∨ h.act = .press key true)

def Releases (key : Fin 3) (act : PairingAct) : Prop := act = .release key false ∨ act = .release key true

/-- Neither the press nor the release of a host key -/
def Quiet (h : Happened) : Prop := ∀ key interrupt, h.act ≠ .press key interrupt ∧ h.act ≠ .release key interrupt

/-- The pairing with the host of a key is started, if the battery allows it. -/
def Starts (key : Fin 3) (h : Happened) : Prop :=
  .bluetoothPairingEx (hostOf key) ∈ h.calls ∧ (h.batteryIsCriticalLow = false → .pairingEx (hostOf key) ∈ h.calls)

/-- Every pairing is with the host of a key that has been held for 2000 ms. -/
def Safe (x : PairingWorld) (e : PairingEvent) : Prop :=
  ∀ host, .bluetoothPairingEx host ∈ (x.act e).2 → ∃ key before start since, host = hostOf key ∧ x.past = before ++ start :: since ∧
    Presses key start ∧ start.time + 2000 ≤ x.next e ∧ ∀ h ∈ since, ¬ Releases key h.act

/-- The pairing was started for a host key that was pressed on Bluetooth more than 2000 ms ago, no host key being touched since. -/
def Live (x : PairingWorld) (e : PairingEvent) : Prop :=
  ∀ key before start since, x.past = before ++ start :: since → Presses key start → (∀ h ∈ since, Quiet h) →
    start.time + 2000 < x.next e → ∃ h ∈ since ++ [x.happens e], Starts key h

/-- The timer of the operating system expires when it is due. -/
def Prompt (x : PairingWorld) (e : PairingEvent) : Prop :=
  ∀ due, x.state.pairingKeyTimer = some due → e.act = .expire ∨ x.next e ≤ due

/-- The release of the key that the timer runs for finds the transport Bluetooth, and the timer does not expire between the assignment of
`host_idx` and the call that sets or resets it. -/
def Kept (x : PairingWorld) (e : PairingEvent) : Prop :=
  (∀ key, Releases key e.act → x.state.pairingKeyTimer ≠ none → x.state.hostIdx = hostOf key → x.state.transport = .bluetooth) ∧
    ∀ key, e.act = .press key true ∨ e.act = .release key true → x.state.transport = .bluetooth →
      ∀ due, x.state.pairingKeyTimer = some due → x.next e < due

/-- The timer runs for a key that has been held since it was set. -/
def Armed (x : PairingWorld) : Prop :=
  ∀ due, x.state.pairingKeyTimer = some due → ∃ key before start since, x.state.hostIdx = hostOf key ∧ x.past = before ++ start :: since ∧
    Presses key start ∧ start.time + 2000 ≤ due ∧ ∀ h ∈ since, ¬ Releases key h.act

/-- For a key that was pressed, no host key being touched since, pairing was started, or the timer runs. -/
def Pending (x : PairingWorld) : Prop :=
  ∀ key before start since, x.past = before ++ start :: since → Presses key start → (∀ h ∈ since, Quiet h) →
    (∃ h ∈ since, Starts key h) ∨ x.state.pairingKeyTimer = some (start.time + 2000) ∧ x.state.hostIdx = hostOf key

end PairingWorld

/-! ## What the functions change -/

namespace Pairing

variable {s : Pairing} {key : Fin 3} {interrupt : Bool} {now : Nat} {host : UInt8}

theorem hostOf_injective : Function.Injective hostOf := by
  intro a b
  revert a b
  decide

theorem connect_keeps (timeout : UInt16) :
    (s.bluetoothConnectEx host timeout).1.pairingKeyTimer = s.pairingKeyTimer ∧
      (s.bluetoothConnectEx host timeout).1.hostIdx = s.hostIdx ∧
      ∀ other, .bluetoothPairingEx other ∉ (s.bluetoothConnectEx host timeout).2 := by
  unfold bluetoothConnectEx
  dsimp only
  split_ifs <;> simp

theorem expire_due {due : Nat} (timer : s.pairingKeyTimer = some due) (le : due ≤ now) : s.expire now = s.pairingKeyTimerCb := by
  unfold expire
  rw [timer]
  exact if_pos (decide_eq_true le)

theorem expire_early (early : ∀ due, s.pairingKeyTimer = some due → now < due) : s.expire now = (s, []) := by
  unfold expire
  cases timer : s.pairingKeyTimer with
  | none => exact if_neg (by simp)
  | some due => exact if_neg (by simpa using early due timer)

theorem callback_keeps : s.pairingKeyTimerCb.1.pairingKeyTimer = none ∧
    ∀ other, .bluetoothPairingEx other ∈ s.pairingKeyTimerCb.2 → other = s.hostIdx := by
  unfold pairingKeyTimerCb bluetoothPairingEx
  dsimp only
  split_ifs <;> simp

theorem callback_starts : .bluetoothPairingEx s.hostIdx ∈ s.pairingKeyTimerCb.2 ∧
    (s.batteryIsCriticalLow = false → .pairingEx s.hostIdx ∈ s.pairingKeyTimerCb.2) := by
  unfold pairingKeyTimerCb bluetoothPairingEx
  dsimp only
  split_ifs with low
  · exact ⟨List.mem_cons_self, fun charged => absurd (low.symm.trans charged) (by decide)⟩
  · simp

theorem expire_hostIdx : (s.expire now).1.hostIdx = s.hostIdx := by
  unfold expire pairingKeyTimerCb bluetoothPairingEx
  dsimp only
  split_ifs <;> rfl

/-- A press on Bluetooth sets the timer. -/
theorem press_sets (bluetooth : s.transport = .bluetooth) :
    (s.press key interrupt now).1.pairingKeyTimer = some (now + 2000) ∧ (s.press key interrupt now).1.hostIdx = hostOf key := by
  unfold press
  rw [if_pos bluetooth]
  dsimp only
  refine ⟨(connect_keeps 0).1, (connect_keeps 0).2.1.trans ?_⟩
  cases interrupt
  · rfl
  · exact expire_hostIdx

theorem press_calls (early : interrupt = true → s.transport = .bluetooth → ∀ due, s.pairingKeyTimer = some due → now < due) :
    .bluetoothPairingEx host ∉ (s.press key interrupt now).2 := by
  unfold press
  split
  case isTrue bluetooth =>
    dsimp only
    rw [List.mem_append, not_or]
    refine ⟨?_, (connect_keeps 0).2.2 host⟩
    cases interrupt
    · exact List.not_mem_nil
    · rw [if_pos rfl, @expire_early { s with hostIdx := hostOf key } now (early rfl bluetooth)]
      exact List.not_mem_nil
  case isFalse => exact List.not_mem_nil

theorem release_calls (early : interrupt = true → s.transport = .bluetooth → ∀ due, s.pairingKeyTimer = some due → now < due) :
    .bluetoothPairingEx host ∉ (s.release interrupt now).2 := by
  unfold release
  split
  case isTrue bluetooth =>
    dsimp only
    cases interrupt
    · exact List.not_mem_nil
    · rw [if_pos rfl, @expire_early { s with hostIdx := 0 } now (early rfl bluetooth)]
      exact List.not_mem_nil
  case isFalse => exact List.not_mem_nil

theorem release_resets (bluetooth : s.transport = .bluetooth) : (s.release interrupt now).1.pairingKeyTimer = none := by
  unfold release
  rw [if_pos bluetooth]

end Pairing

namespace PairingWorld

variable {x : PairingWorld} {e : PairingEvent}

/-- A timer that runs on -/
theorem Armed.extend (h : Armed x) (timer : (x.act e).1.pairingKeyTimer = x.state.pairingKeyTimer)
    (index : (x.act e).1.hostIdx = x.state.hostIdx)
    (held : ∀ key, x.state.pairingKeyTimer ≠ none → x.state.hostIdx = hostOf key → ¬ Releases key e.act) : Armed (x.step e) := by
  intro due runs
  have before := timer.symm.trans runs
  obtain ⟨key, first, start, since, host, past, press, le, kept⟩ := h due before
  refine ⟨key, first, start, since ++ [x.happens e], index.trans host, ?_, press, le, ?_⟩
  · show x.past ++ [x.happens e] = _
    rw [past, List.append_assoc, List.cons_append]
  · intro h mem
    rcases List.mem_append.1 mem with earlier | last
    · exact kept h earlier
    · rw [List.mem_singleton.1 last]
      exact held key (before ▸ Option.some_ne_none due) host

theorem Armed.step (h : Armed x) (kept : Kept x e) : Armed (x.step e) := by
  cases act : e.act with
  | press key interrupt =>
    have next : x.act e = x.state.press key interrupt (x.next e) := by
      unfold PairingWorld.act
      rw [act]
    by_cases bluetooth : x.state.transport = .bluetooth
    · obtain ⟨timer, host⟩ := @Pairing.press_sets x.state key interrupt (x.next e) bluetooth
      intro due runs
      change (x.act e).1.pairingKeyTimer = _ at runs
      rw [next, timer] at runs
      refine ⟨key, x.past, x.happens e, [], (congrArg (·.1.hostIdx) next).trans host, rfl, ⟨bluetooth, ?_⟩, (Option.some.inj runs).le, nofun⟩
      show e.act = _ ∨ e.act = _
      rw [act]
      cases interrupt
      · exact .inl rfl
      · exact .inr rfl
    · have same : x.act e = (x.state, []) := next.trans (if_neg bluetooth)
      refine h.extend (by rw [same]) (by rw [same]) fun other _ _ releases => ?_
      rw [act] at releases
      exact releases.elim (by simp) (by simp)
  | release key interrupt =>
    have next : x.act e = x.state.release interrupt (x.next e) := by
      unfold PairingWorld.act
      rw [act]
    by_cases bluetooth : x.state.transport = .bluetooth
    · intro due runs
      change (x.act e).1.pairingKeyTimer = _ at runs
      rw [next, Pairing.release_resets bluetooth] at runs
      exact absurd runs (by simp)
    · have same : x.act e = (x.state, []) := next.trans (if_neg bluetooth)
      exact h.extend (by rw [same]) (by rw [same]) fun other runs host releases => bluetooth (kept.1 other releases runs host)
  | expire =>
    have next : x.act e = x.state.expire (x.next e) := by
      unfold PairingWorld.act
      rw [act]
    by_cases early : ∀ due, x.state.pairingKeyTimer = some due → x.next e < due
    · have same : x.act e = (x.state, []) := next.trans (Pairing.expire_early early)
      refine h.extend (by rw [same]) (by rw [same]) fun other _ _ releases => ?_
      rw [act] at releases
      exact releases.elim (by simp) (by simp)
    · push Not at early
      obtain ⟨due, timer, le⟩ := early
      intro due' runs
      change (x.act e).1.pairingKeyTimer = _ at runs
      rw [next, Pairing.expire_due timer le, Pairing.callback_keeps.1] at runs
      exact absurd runs (by simp)
  | setTransport transport =>
    have next : x.act e = ({ x.state with transport }, []) := by
      unfold PairingWorld.act
      rw [act]
    refine h.extend (by rw [next]) (by rw [next]) fun other _ _ releases => ?_
    rw [act] at releases
    exact releases.elim (by simp) (by simp)
  | battery criticalLow =>
    have next : x.act e = ({ x.state with batteryIsCriticalLow := criticalLow }, []) := by
      unfold PairingWorld.act
      rw [act]
    refine h.extend (by rw [next]) (by rw [next]) fun other _ _ releases => ?_
    rw [act] at releases
    exact releases.elim (by simp) (by simp)
  | module btState hostIndex =>
    have next : x.act e = ({ x.state with btState, hostIndex }, []) := by
      unfold PairingWorld.act
      rw [act]
    refine h.extend (by rw [next]) (by rw [next]) fun other _ _ releases => ?_
    rw [act] at releases
    exact releases.elim (by simp) (by simp)

theorem Armed.safe (h : Armed x) (kept : Kept x e) : Safe x e := by
  intro host calls
  unfold PairingWorld.act at calls
  cases act : e.act with
  | press key interrupt =>
    rw [act] at calls
    exact absurd calls (Pairing.press_calls fun on => kept.2 key (.inl (by rw [act, on])))
  | release key interrupt =>
    rw [act] at calls
    exact absurd calls (Pairing.release_calls fun on => kept.2 key (.inr (by rw [act, on])))
  | expire =>
    rw [act] at calls
    dsimp only at calls
    by_cases early : ∀ due, x.state.pairingKeyTimer = some due → x.next e < due
    · rw [Pairing.expire_early early] at calls
      exact absurd calls List.not_mem_nil
    · push Not at early
      obtain ⟨due, timer, le⟩ := early
      rw [Pairing.expire_due timer le] at calls
      obtain ⟨key, first, start, since, index, past, press, passed, held⟩ := h due timer
      exact ⟨key, first, start, since, (Pairing.callback_keeps.2 host calls).trans index, past, press, passed.trans le, held⟩
  | _ =>
    rw [act] at calls
    exact absurd calls List.not_mem_nil

/-- The expiry of a timer that is due starts the pairing. -/
theorem starts_of_due {key : Fin 3} {due : Nat} (act : e.act = .expire) (timer : x.state.pairingKeyTimer = some due) (le : due ≤ x.next e)
    (host : x.state.hostIdx = hostOf key) : Starts key (x.happens e) := by
  have next : x.act e = x.state.pairingKeyTimerCb := by
    unfold PairingWorld.act
    rw [act]
    exact Pairing.expire_due timer le
  unfold Starts happens
  dsimp only
  rw [next, ← host]
  exact Pairing.callback_starts

/-- What touches no host key leaves a timer that is not due. -/
theorem quiet_keeps (quiet : Quiet (x.happens e)) : (e.act = .expire ∧ ∃ due ≤ x.next e, x.state.pairingKeyTimer = some due) ∨
    (x.act e).1.pairingKeyTimer = x.state.pairingKeyTimer ∧ (x.act e).1.hostIdx = x.state.hostIdx := by
  unfold PairingWorld.act
  cases act : e.act with
  | press key interrupt => exact absurd act (quiet key interrupt).1
  | release key interrupt => exact absurd act (quiet key interrupt).2
  | expire =>
    dsimp only
    by_cases early : ∀ due, x.state.pairingKeyTimer = some due → x.next e < due
    · rw [Pairing.expire_early early]
      exact .inr ⟨rfl, rfl⟩
    · push Not at early
      obtain ⟨due, timer, le⟩ := early
      exact .inl ⟨rfl, due, le, timer⟩
  | _ => exact .inr ⟨rfl, rfl⟩

/-- A host key that no other touches: the timer runs on or has expired. -/
theorem Pending.step (h : Pending x) : Pending (x.step e) := by
  intro key before start since past press quiet
  change x.past ++ [x.happens e] = before ++ start :: since at past
  rcases List.eq_nil_or_concat since with rfl | ⟨since, last, rfl⟩
  · obtain ⟨-, same⟩ := List.append_inj' past rfl
    obtain rfl := (List.cons.inj same).1
    obtain ⟨bluetooth, act⟩ := press
    have set : (x.act e).1.pairingKeyTimer = some (x.next e + 2000) ∧ (x.act e).1.hostIdx = hostOf key := by
      unfold PairingWorld.act
      rcases act with act | act
      · rw [show e.act = .press key false from act]
        exact Pairing.press_sets bluetooth
      · rw [show e.act = .press key true from act]
        exact Pairing.press_sets bluetooth
    exact .inr set
  · rw [List.concat_eq_append] at past quiet ⊢
    rw [← List.cons_append, ← List.append_assoc] at past
    obtain ⟨earlier, same⟩ := List.append_inj' past rfl
    obtain rfl := (List.cons.inj same).1
    rcases h key before start since earlier press fun h mem => quiet h (List.mem_append_left _ mem) with ⟨h, mem, starts⟩ | ⟨timer, host⟩
    · exact .inl ⟨h, List.mem_append_left _ mem, starts⟩
    · have mem : x.happens e ∈ since ++ [x.happens e] := List.mem_append_right _ (List.mem_singleton_self _)
      rcases quiet_keeps (quiet _ mem) with ⟨act, due, le, runs⟩ | ⟨same, index⟩
      · exact .inl ⟨_, mem, starts_of_due act runs le host⟩
      · exact .inr ⟨same.trans timer, index.trans host⟩

theorem Pending.live (h : Pending x) (prompt : Prompt x e) : Live x e := by
  intro key before start since past press quiet passed
  rcases h key before start since past press quiet with ⟨h, mem, starts⟩ | ⟨timer, host⟩
  · exact ⟨h, List.mem_append_left _ mem, starts⟩
  · rcases prompt _ timer with act | early
    · exact ⟨_, by simp, starts_of_due act timer passed.le host⟩
    · omega

/-- **Pairing by a host key**: as long as the release of the key that the timer runs for finds the transport Bluetooth and the timer does not
expire within the code for a host key, pairing is only with the host of a key held for 2000 ms; and in every run pairing is started for a
host key that is held for so long alone. -/
theorem pairing_held (transport : Transport) (events : List PairingEvent) :
    (Along step Kept (initial transport) events → Along step Safe (initial transport) events) ∧
      (Along step Prompt (initial transport) events → Along step Live (initial transport) events) := by
  constructor
  · exact Along.each Armed (fun _ _ h kept => ⟨h.step kept, h.safe kept⟩) fun _ runs => absurd runs (by simp [initial])
  · refine Along.each Pending (fun _ _ h prompt => ⟨h.step, h.live prompt⟩) ?_
    intro key before start since past
    exact absurd past (by simp [initial])

/-- A key is pressed, and released after the timer has expired. -/
def hold : List PairingEvent := [⟨.press 0 false, 10⟩, ⟨.expire, 2000⟩, ⟨.release 0 false, 5⟩]

/-- Pairing is started 2000 ms after the press. -/
theorem pairing_held_hold : Along step Safe (initial .bluetooth) hold ∧ Along step Live (initial .bluetooth) hold ∧
    (hold.foldl step (initial .bluetooth)).past.map Happened.calls = [[.connectEx 1 0], [.bluetoothPairingEx 1, .pairingEx 1], []] := by
  have kept : Along step Kept (initial .bluetooth) hold := by
    refine ⟨⟨?_, ?_⟩, ⟨?_, ?_⟩, ⟨?_, ?_⟩, trivial⟩
    · exact fun key releases => absurd releases (by simp [Releases])
    · exact fun key acts => absurd acts (by simp)
    · exact fun key releases => absurd releases (by simp [Releases])
    · exact fun key acts => absurd acts (by simp)
    · exact fun key _ _ _ => rfl
    · exact fun key acts => absurd acts (by simp)
  have prompt : Along step Prompt (initial .bluetooth) hold := by
    refine ⟨?_, ?_, ?_, trivial⟩
    · exact fun due timer => absurd timer (by simp [initial])
    · exact fun due _ => .inl rfl
    · intro due timer
      exact absurd timer (by decide +revert)
  exact ⟨(pairing_held .bluetooth hold).1 kept, (pairing_held .bluetooth hold).2 prompt, by decide⟩

/-- The key is released while the transport is USB: pairing is started for it all the same. And a timer that expires within the code for
another key pairs with the host of that key. -/
theorem pairing_not_held :
    ¬ Along step Safe (initial .bluetooth) [⟨.press 0 false, 10⟩, ⟨.setTransport .usb, 100⟩, ⟨.release 0 false, 100⟩, ⟨.expire, 1800⟩] ∧
      ¬ Along step Safe (initial .bluetooth) [⟨.press 0 false, 10⟩, ⟨.press 1 true, 2000⟩] := by
  constructor
  · intro safe
    obtain ⟨key, before, start, since, host, past, ⟨-, press⟩, -, held⟩ := safe.2.2.2.1 1 (by decide)
    obtain rfl : key = 0 := Pairing.hostOf_injective host.symm
    rcases before with _ | ⟨_, _ | ⟨_, _ | ⟨_, before⟩⟩⟩
    · obtain ⟨-, rest⟩ := List.cons.inj past
      have ignored : ∃ h ∈ since, h.act = .release 0 false := by
        rw [← rest]
        exact ⟨_, List.mem_cons_of_mem _ List.mem_cons_self, rfl⟩
      obtain ⟨h, mem, act⟩ := ignored
      exact held h mem (.inl act)
    · obtain ⟨same, -⟩ := List.cons.inj (List.cons.inj past).2
      rw [← same] at press
      exact absurd press (by decide)
    · obtain ⟨same, -⟩ := List.cons.inj (List.cons.inj (List.cons.inj past).2).2
      rw [← same] at press
      exact absurd press (by decide)
    · exact absurd (congrArg List.length past) (by simp [step, initial])
  · intro safe
    obtain ⟨key, before, start, since, host, past, ⟨-, press⟩, -⟩ := safe.2.1 2 (by decide)
    obtain rfl : key = 1 := Pairing.hostOf_injective host.symm
    rcases before with _ | ⟨_, before⟩
    · obtain ⟨same, -⟩ := List.cons.inj past
      rw [← same] at press
      exact absurd press (by decide)
    · exact absurd (congrArg List.length past) (by simp [step, initial])

end PairingWorld

end QmkFirmware.Keychron
