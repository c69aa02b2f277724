import QmkFirmware.Report.Phantom

/-!
# The NKRO preference

While the transport is Bluetooth the choice that the user made on USB is in `nkro.usb`, and
it comes back with USB. The Bluetooth events set the flag whatever the transport is, so the
choice survives as long as those that are handled on USB agree with it.
-/

namespace QmkFirmware.Report
open Lib
open Bluetooth (EventType)

variable {l : Layout} {bluetoothNkro : Bool} {x : World}

/-- An event of the queue that is handled on USB leaves the flag as the user chose it. -/
def AgreesOnUsb (bluetoothNkro : Bool) (x : World) (event : EventType) : Prop :=
  x.state.transport = .usb →
    (event = .connected → x.state.connectedNkro bluetoothNkro = x.chosen) ∧ (event = .pincodeEntry → x.chosen = false) ∧
      (event = .exitPincodeEntry → x.chosen = true)

/-- The conditions of a step: magic keys are pressed on USB, `set_transport` is not called with the choice in
neither place (it never is with `TRANSPORT_NONE`), and events handled on USB agree with the choice. -/
def ChoiceOk (l : Layout) (bluetoothNkro : Bool) (x : World) : Event → Prop
  | .setTransport newTransport =>
    x.state.transport = .none → (newTransport = .usb → x.state.usb = x.chosen) ∧ (newTransport = .bluetooth → x.state.nkro = x.chosen)
  | .eventQueueTask => Along (World.handle l bluetoothNkro) (AgreesOnUsb bluetoothNkro) x.dequeued x.state.queue
  | .magic _ => x.state.transport = .usb
  | _ => True

instance (x : World) (event : EventType) : Decidable (AgreesOnUsb bluetoothNkro x event) :=
  inferInstanceAs (Decidable (_ → _))

instance (x : World) : (event : Event) → Decidable (ChoiceOk l bluetoothNkro x event)
  | .register _ | .unregister _ | .enqueue _ | .setProtocol _ => inferInstanceAs (Decidable True)
  | .setTransport _ => inferInstanceAs (Decidable (_ → _))
  | .eventQueueTask => inferInstanceAs (Decidable (Along _ _ _ _))
  | .magic _ => inferInstanceAs (Decidable (_ = _))

/-- The choice is in the flag on USB, in `nkro.usb` on Bluetooth, and in the EEPROM. -/
structure Kept (x : World) : Prop where
  usb : x.state.transport = .usb → x.state.nkro = x.chosen
  bluetooth : x.state.transport = .bluetooth → x.state.usb = x.chosen
  eeprom : x.state.eeprom = x.chosen

theorem Kept.handle (h : Kept x) {event : EventType} (ok : AgreesOnUsb bluetoothNkro x event) :
    Kept (x.handle l bluetoothNkro event) := by
  cases event with
  | connected =>
    constructor
    · exact fun usb => (ok usb).1 rfl
    · exact h.bluetooth
    · exact h.eeprom
  | pincodeEntry =>
    constructor
    · exact fun usb => ((ok usb).2.1 rfl).symm
    · exact h.bluetooth
    · exact h.eeprom
  | exitPincodeEntry =>
    constructor
    · exact fun usb => ((ok usb).2.2 rfl).symm
    · exact h.bluetooth
    · exact h.eeprom
  | _ => exact ⟨h.usb, h.bluetooth, h.eeprom⟩

theorem Kept.setTransport (h : Kept x) {newTransport : Transport}
    (ok : ChoiceOk l bluetoothNkro x (.setTransport newTransport)) :
    Kept (x.step l bluetoothNkro (.setTransport newTransport)) := by
  change Kept ⟨x.state.setTransport l bluetoothNkro newTransport, _, x.chosen⟩
  unfold State.setTransport
  by_cases same : x.state.transport = newTransport
  · rw [if_pos same]
    exact ⟨h.usb, h.bluetooth, h.eeprom⟩
  · rw [if_neg same]
    cases newTransport with
    | usb =>
      refine ⟨fun _ => ?_, fun on : Transport.usb = .bluetooth => absurd on (by decide), h.eeprom⟩
      change x.state.usb = x.chosen
      cases before : x.state.transport with
      | none => exact (ok before).1 rfl
      | usb => exact absurd before same
      | bluetooth => exact h.bluetooth before
    | bluetooth =>
      refine ⟨fun on : Transport.bluetooth = .usb => absurd on (by decide), fun _ => ?_, h.eeprom⟩
      change x.state.nkro = x.chosen
      cases before : x.state.transport with
      | none => exact (ok before).2 rfl
      | usb => exact h.usb before
      | bluetooth => exact absurd before same
    | none =>
      exact ⟨fun on : Transport.none = .usb => absurd on (by decide), fun on : Transport.none = .bluetooth => absurd on (by decide),
        h.eeprom⟩

theorem Kept.magic (h : Kept x) {key : Magic} (usb : x.state.transport = .usb) :
    Kept (x.step l bluetoothNkro (.magic key)) := by
  have chosen : (x.step l bluetoothNkro (.magic key)).chosen = key.apply x.chosen := if_pos usb
  have nkro : (x.step l bluetoothNkro (.magic key)).state.nkro = key.apply x.state.eeprom := by
    cases key <;> rfl
  have eeprom : (x.step l bluetoothNkro (.magic key)).state.eeprom = key.apply x.state.eeprom := by
    cases key <;> rfl
  have transport : (x.step l bluetoothNkro (.magic key)).state.transport = x.state.transport := by
    cases key <;> rfl
  constructor
  · rw [nkro, chosen, h.eeprom]
    exact fun _ => rfl
  · rw [transport, usb]
    exact fun on => absurd on (by decide)
  · rw [eeprom, chosen, h.eeprom]

theorem Kept.step (h : Kept x) {event : Event} (ok : ChoiceOk l bluetoothNkro x event) :
    Kept (x.step l bluetoothNkro event) := by
  cases event with
  | setTransport newTransport => exact h.setTransport ok
  | eventQueueTask =>
    have dequeued : Kept x.dequeued := ⟨h.usb, h.bluetooth, h.eeprom⟩
    exact Along.invariant Kept (fun _ _ h ok => h.handle ok) dequeued ok
  | magic key => exact h.magic ok
  | _ => exact ⟨h.usb, h.bluetooth, h.eeprom⟩

/-- **The NKRO preference survives Bluetooth, as long as the events that are handled on USB agree with it.** -/
theorem preference_kept {eeprom : Bool} {events : List Event}
    (ok : Along (World.step l bluetoothNkro) (ChoiceOk l bluetoothNkro) (World.initial bluetoothNkro eeprom) events) :
    let x := events.foldl (World.step l bluetoothNkro) (World.initial bluetoothNkro eeprom)
    x.state.transport = .usb → x.state.nkro = x.chosen := by
  have start : Kept (World.initial bluetoothNkro eeprom) := ⟨fun _ => rfl, fun on : Transport.usb = .bluetooth => absurd on (by decide), rfl⟩
  exact (ok.invariant Kept (fun _ _ h ok => h.step ok) start).usb

/-- `SHARED_EPSIZE - 2` bytes, and a report ID in the 6KRO report -/
def sharedEp : Layout := ⟨30, 1, chibios.basic, chibios.bits_le, Nat.le_of_ble_eq_true rfl⟩

/-- NKRO is switched off on USB, and a pin code is entered on Bluetooth. -/
theorem preference_kept_pincode :
    let x := [.magic .nkroOff, .setTransport .bluetooth, .enqueue .pincodeEntry, .enqueue .exitPincodeEntry, .eventQueueTask,
      .setTransport .usb].foldl (World.step sharedEp true) (World.initial true true)
    x.state.transport = .usb → x.state.nkro = x.chosen :=
  preference_kept (by decide)

/-- The end of the pin code entry is handled after the switch back to USB. -/
theorem late_event_overwrites :
    let x := [.magic .nkroOff, .setTransport .bluetooth, .enqueue .pincodeEntry, .eventQueueTask, .enqueue .exitPincodeEntry,
      .setTransport .usb, .eventQueueTask].foldl (World.step sharedEp true) (World.initial true true)
    x.state.transport = .usb ∧ x.chosen = false ∧ x.state.nkro = true := by
  decide

end QmkFirmware.Report
