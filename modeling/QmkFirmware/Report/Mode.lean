import QmkFirmware.Lib.Run
import QmkFirmware.Bluetooth.Receive
import QmkFirmware.Report.Keys

/-!
# The mode of the report

`keymap_config.nkro` and everything that changes it: the transport, the events of the
Bluetooth module, and the magic keys, which read the configuration from the EEPROM first.
-/

namespace QmkFirmware.Report
open Bluetooth (EventType)

/-- `transport_t` -/
inductive Transport where
  | none | usb | bluetooth
  deriving DecidableEq

/-- The report, the transport, the protocol flags, `keymap_config.nkro`, its copy in the EEPROM, the two flags of
`nkro_t`, and the queue of Bluetooth events -/
structure State where
  report : Bytes
  transport : Transport
  keyboardProtocol : Bool
  bluetoothReportProtocol : Bool
  nkro : Bool
  eeprom : Bool
  usb : Bool
  bluetooth : Bool
  queue : List EventType

/-- The magic keys: the three for NKRO, and any other -/
inductive Magic where
  | nkroOn | nkroOff | toggleNkro | other
  deriving DecidableEq

/-- The flag after a magic key, given the one in the EEPROM -/
def Magic.apply : Magic → Bool → Bool
  | .nkroOn, _ => true
  | .nkroOff, _ => false
  | .toggleNkro, nkro => !nkro
  | .other, nkro => nkro

namespace State

/-- The condition that `report.c` tests: the protocol of the transport allows NKRO, and it is on. -/
def nkroMode (s : State) : Bool :=
  ((s.transport == .usb && s.keyboardProtocol) || (s.transport == .bluetooth && s.bluetoothReportProtocol)) && s.nkro

/-- The keys in `clear_keyboard` -/
def clearKeyboard (l : Layout) (s : State) : State := { s with report := clearKeysFromReport l s.nkroMode s.report }

/-- `set_transport`; `bluetoothNkro` says whether `BLUETOOTH_NKRO_ENABLE` is defined. -/
def setTransport (l : Layout) (bluetoothNkro : Bool) (newTransport : Transport) (s : State) : State :=
  if s.transport = newTransport then s
  else
    let s := clearKeyboard l { s with transport := newTransport }
    match newTransport with
    | .usb => { s with bluetooth := if bluetoothNkro then s.nkro else s.bluetooth, nkro := s.usb }
    | .bluetooth => { s with usb := s.nkro, nkro := if bluetoothNkro then s.bluetooth else false }
    | .none => s

/-- The flag in `bluetooth_enter_connected` -/
def connectedNkro (bluetoothNkro : Bool) (s : State) : Bool := if bluetoothNkro then s.bluetooth else false

/-- The `switch` of `bluetooth_event_queue_task`: `bluetooth_enter_connected`, `bluetooth_enter_pin_code_entry`,
`bluetooth_exit_pin_code_entry` and `bluetooth_hid_set_protocol`; the other events do not touch what is modelled. -/
def handle (l : Layout) (bluetoothNkro : Bool) (s : State) : EventType → State
  | .connected => { s.clearKeyboard l with nkro := s.connectedNkro bluetoothNkro }
  | .pincodeEntry => { s with nkro := false }
  | .exitPincodeEntry => { s with nkro := true }
  | .hidSetProtocol => { s with bluetoothReportProtocol := false }
  | _ => s

/-- `bluetooth_event_queue_enqueue`: 15 events fit, and one more pushes the first one out. -/
def enqueue (event : EventType) (s : State) : State :=
  { s with queue := (if s.queue.length = 15 then s.queue.tail else s.queue) ++ [event] }

/-- `process_magic` -/
def processMagic (l : Layout) (key : Magic) (s : State) : State :=
  let s := { s with nkro := s.eeprom }
  let s := if key = .other then s else clearKeyboard l s
  let s := { s with nkro := key.apply s.nkro }
  clearKeyboard l { s with eeprom := s.nkro }

end State

/-- What happens: a key is registered or unregistered, the transport is set, a Bluetooth event comes or the queue is
worked off, a magic key is pressed, or the USB host sets the protocol. -/
inductive Event where
  | register (code : BitVec 8)
  | unregister (code : BitVec 8)
  | setTransport (newTransport : Transport)
  | enqueue (event : EventType)
  | eventQueueTask
  | magic (key : Magic)
  | setProtocol (report : Bool)

/-- The state, the keys that are held, and the NKRO mode that the user chose on USB -/
structure World where
  state : State
  held : Finset (BitVec 8)
  chosen : Bool

namespace World

/-- The start: NKRO as in the EEPROM -/
def initial (bluetoothNkro eeprom : Bool) : World where
  state :=
    { report := fun _ => 0
      transport := .usb
      keyboardProtocol := true
      bluetoothReportProtocol := true
      nkro := eeprom
      eeprom := eeprom
      usb := false
      bluetooth := bluetoothNkro && eeprom
      queue := [] }
  held := ∅
  chosen := eeprom

/-- An event of the queue is handled; a connection clears the keyboard. -/
def handle (l : Layout) (bluetoothNkro : Bool) (x : World) (event : EventType) : World :=
  ⟨x.state.handle l bluetoothNkro event, if event = .connected then ∅ else x.held, x.chosen⟩

/-- The queue is empty. -/
def dequeued (x : World) : World := ⟨{ x.state with queue := [] }, x.held, x.chosen⟩

def step (l : Layout) (bluetoothNkro : Bool) (x : World) : Event → World
  | .register code =>
    ⟨{ x.state with report := registerCode l x.state.nkroMode code x.state.report },
      registered x.state.nkroMode code x.held, x.chosen⟩
  | .unregister code =>
    ⟨{ x.state with report := unregisterCode l x.state.nkroMode code x.state.report }, unregistered code x.held, x.chosen⟩
  | .setTransport newTransport =>
    ⟨x.state.setTransport l bluetoothNkro newTransport, if x.state.transport = newTransport then x.held else ∅, x.chosen⟩
  | .enqueue event => ⟨x.state.enqueue event, x.held, x.chosen⟩
  | .eventQueueTask => x.state.queue.foldl (handle l bluetoothNkro) x.dequeued
  | .magic key =>
    ⟨x.state.processMagic l key, ∅, if x.state.transport = .usb then key.apply x.chosen else x.chosen⟩
  | .setProtocol report => ⟨{ x.state with keyboardProtocol := report }, x.held, x.chosen⟩

end World

end QmkFirmware.Report
