import Mathlib
import QmkFirmware.Lib.Ring

/-!
# MIDI

The sending half of `midi.c`, the packets of `qmk_midi.c` that it goes through, and the
device of `midi_device.c` that queues the bytes of the packets it receives and calls a
handler for each message it makes of them.
-/

namespace QmkFirmware.Midi
open Lib

abbrev Byte := BitVec 8

def MIDI_CC : Byte := 0xB0
def MIDI_NOTEON : Byte := 0x90
def MIDI_NOTEOFF : Byte := 0x80
def MIDI_AFTERTOUCH : Byte := 0xA0
def MIDI_PITCHBEND : Byte := 0xE0
def MIDI_PROGCHANGE : Byte := 0xC0
def MIDI_CHANPRESSURE : Byte := 0xD0
def MIDI_CLOCK : Byte := 0xF8
def MIDI_TICK : Byte := 0xF9
def MIDI_START : Byte := 0xFA
def MIDI_CONTINUE : Byte := 0xFB
def MIDI_STOP : Byte := 0xFC
def MIDI_ACTIVESENSE : Byte := 0xFE
def MIDI_RESET : Byte := 0xFF
def MIDI_TC_QUARTERFRAME : Byte := 0xF1
def MIDI_SONGPOSITION : Byte := 0xF2
def MIDI_SONGSELECT : Byte := 0xF3
def MIDI_TUNEREQUEST : Byte := 0xF6
def SYSEX_BEGIN : Byte := 0xF0
def SYSEX_END : Byte := 0xF7

/-! ## `midi.c` -/

/-- `midi_is_statusbyte` -/
def midiIsStatusbyte (theByte : Byte) : Bool := theByte &&& 0x80 != 0

/-- `midi_is_realtime` -/
def midiIsRealtime (theByte : Byte) : Bool := decide (MIDI_CLOCK ≤ theByte)

/-- `midi_packet_length_t` -/
inductive PacketLength where
  | undefined
  | one
  | two
  | three
  deriving DecidableEq, Repr

/-- `midi_packet_length` -/
def midiPacketLength (status : Byte) : PacketLength :=
  let high := status &&& 0xF0
  if high = MIDI_CC ∨ high = MIDI_NOTEON ∨ high = MIDI_NOTEOFF ∨ high = MIDI_AFTERTOUCH ∨ high = MIDI_PITCHBEND then .three
  else if high = MIDI_PROGCHANGE ∨ high = MIDI_CHANPRESSURE ∨ high = MIDI_SONGSELECT then .two
  else if high = 0xF0 then
    if status = MIDI_CLOCK ∨ status = MIDI_TICK ∨ status = MIDI_START ∨ status = MIDI_CONTINUE ∨ status = MIDI_STOP ∨
        status = MIDI_ACTIVESENSE ∨ status = MIDI_RESET ∨ status = MIDI_TUNEREQUEST then .one
    else if status = MIDI_SONGPOSITION then .three
    else if status = MIDI_TC_QUARTERFRAME ∨ status = MIDI_SONGSELECT then .two
    else .undefined
  else .undefined

/-- The arguments of `send_func` -/
structure Sent where
  cnt : Nat
  byte0 : Byte
  byte1 : Byte
  byte2 : Byte
  deriving DecidableEq, Repr

/-- The data bytes have seven bits. -/
def low7 (value : Byte) : Byte := value &&& 0x7F

/-- `midi_send_cc`, `midi_send_noteon`, `midi_send_noteoff` and `midi_send_aftertouch`, of the status -/
def sendThree (status chan byte1 byte2 : Byte) : Sent := ⟨3, status ||| (chan &&& 0x0F), low7 byte1, low7 byte2⟩

def midiSendCc (chan num val : Byte) : Sent := sendThree MIDI_CC chan num val
def midiSendNoteon (chan num vel : Byte) : Sent := sendThree MIDI_NOTEON chan num vel
def midiSendNoteoff (chan num vel : Byte) : Sent := sendThree MIDI_NOTEOFF chan num vel
def midiSendAftertouch (chan noteNum amt : Byte) : Sent := sendThree MIDI_AFTERTOUCH chan noteNum amt

/-- The low and the high seven bits -/
def split14 (value : BitVec 16) : Byte × Byte := ((value &&& 0x7F).setWidth 8, ((value >>> 7) &&& 0x7F).setWidth 8)

/-- `uAmt` of `midi_send_pitchbend` -/
def pitchbendAmount (amt : Int) : BitVec 16 :=
  if 0x1fff < amt then 0x3FFF else if amt < -0x2000 then 0 else BitVec.ofInt 16 (amt + 0x2000)

/-- `midi_send_pitchbend` -/
def midiSendPitchbend (chan : Byte) (amt : Int) : Sent :=
  let bytes := split14 (pitchbendAmount amt)
  ⟨3, MIDI_PITCHBEND ||| (chan &&& 0x0F), bytes.1, bytes.2⟩

/-- `midi_send_programchange` and `midi_send_channelpressure`, of the status -/
def sendTwo (status chan byte1 : Byte) : Sent := ⟨2, status ||| (chan &&& 0x0F), low7 byte1, 0⟩

def midiSendProgramchange (chan num : Byte) : Sent := sendTwo MIDI_PROGCHANGE chan num
def midiSendChannelpressure (chan amt : Byte) : Sent := sendTwo MIDI_CHANPRESSURE chan amt

/-- `midi_send_byte`, and the messages that are one byte -/
def midiSendByte (b : Byte) : Sent := ⟨1, b, 0, 0⟩

def midiSendClock : Sent := midiSendByte MIDI_CLOCK
def midiSendTick : Sent := midiSendByte MIDI_TICK
def midiSendStart : Sent := midiSendByte MIDI_START
def midiSendContinue : Sent := midiSendByte MIDI_CONTINUE
def midiSendStop : Sent := midiSendByte MIDI_STOP
def midiSendActivesense : Sent := midiSendByte MIDI_ACTIVESENSE
def midiSendReset : Sent := midiSendByte MIDI_RESET
def midiSendTunerequest : Sent := midiSendByte MIDI_TUNEREQUEST

/-- `midi_send_tcquarterframe` -/
def midiSendTcquarterframe (time : Byte) : Sent := ⟨2, MIDI_TC_QUARTERFRAME, low7 time, 0⟩

/-- `midi_send_songposition` -/
def midiSendSongposition (pos : BitVec 16) : Sent :=
  let bytes := split14 pos
  ⟨3, MIDI_SONGPOSITION, bytes.1, bytes.2⟩

/-- `midi_send_songselect` -/
def midiSendSongselect (song : Byte) : Sent := ⟨2, MIDI_SONGSELECT, low7 song, 0⟩

/-- `midi_send_data` -/
def midiSendData (count : Nat) (byte0 byte1 byte2 : Byte) : Sent := ⟨count, byte0, byte1, byte2⟩

/-- `midi_send_array`: three bytes at a time -/
def midiSendArray : List Byte → List Sent
  | a :: b :: c :: rest => midiSendData 3 a b c :: midiSendArray rest
  | [a, b] => [midiSendData 2 a b 0]
  | [a] => [midiSendData 1 a 0 0]
  | [] => []

/-! ## `qmk_midi.c` -/

/-- `MIDI_EventPacket_t` -/
structure EventPacket where
  event : Byte
  data1 : Byte
  data2 : Byte
  data3 : Byte
  deriving DecidableEq, Repr

def SYSEX_START_OR_CONT : Byte := 0x40
def SYSEX_ENDS_IN_1 : Byte := 0x50
def SYSEX_ENDS_IN_2 : Byte := 0x60
def SYSEX_ENDS_IN_3 : Byte := 0x70
def SYS_COMMON_2 : Byte := 0x20
def SYS_COMMON_3 : Byte := 0x30

section Usb

-- `MIDI_EVENT` of the USB stack for cable 0
variable (midiEvent : Byte → Byte)

/-- `event.Event` of a message that `midi_packet_length` has no length for, nothing for an invalid count -/
def sysexEvent (sent : Sent) : Option Byte :=
  match sent.cnt with
  | 3 => some (midiEvent (if sent.byte2 = SYSEX_END then SYSEX_ENDS_IN_3 else SYSEX_START_OR_CONT))
  | 2 => some (midiEvent (if sent.byte1 = SYSEX_END then SYSEX_ENDS_IN_2 else SYSEX_START_OR_CONT))
  | 1 => some (midiEvent (if sent.byte0 = SYSEX_END then SYSEX_ENDS_IN_1 else SYSEX_START_OR_CONT))
  | _ => none

/-- `usb_send_func` -/
def usbSendFunc (sent : Sent) : Option EventPacket :=
  let event :=
    if midiPacketLength sent.byte0 = .undefined then sysexEvent midiEvent sent
    else if sent.byte0 &&& 0xF0 = MIDI_SONGPOSITION then some (midiEvent SYS_COMMON_3)
    else if sent.byte0 &&& 0xF0 = MIDI_SONGSELECT ∨ sent.byte0 &&& 0xF0 = MIDI_TC_QUARTERFRAME then some (midiEvent SYS_COMMON_2)
    else some (midiEvent sent.byte0)
  event.map fun event => ⟨event, sent.byte0, sent.byte1, sent.byte2⟩

/-- The bytes of a packet that `usb_get_midi` passes to `midi_device_input` -/
def packetBytes (packet : EventPacket) : List Byte :=
  let input := [packet.data1, packet.data2, packet.data3]
  match midiPacketLength packet.data1 with
  | .one => input.take 1
  | .two => input.take 2
  | .three => input
  | .undefined =>
    if packet.event = midiEvent SYSEX_START_OR_CONT ∨ packet.event = midiEvent SYSEX_ENDS_IN_3 then input
    else if packet.event = midiEvent SYSEX_ENDS_IN_2 then input.take 2
    else if packet.event = midiEvent SYSEX_ENDS_IN_1 then input.take 1
    else []

end Usb

/-! ## `midi_device.c` -/

/-- `input_state_t` -/
inductive InputState where
  | idle
  | oneByteMessage
  | twoByteMessage
  | threeByteMessage
  | sysexMessage
  deriving DecidableEq, Repr

/-- The callbacks that a device may have -/
inductive Handler where
  | cc | noteon | noteoff | aftertouch | pitchbend | songposition
  | progchange | chanpressure | songselect | tcQuarterframe
  | realtime | tunerequest
  deriving DecidableEq, Repr

/-- A call of a callback with its arguments -/
inductive Call where
  | three (handler : Handler) (byte0 byte1 byte2 : Byte)
  | two (handler : Handler) (byte0 byte1 : Byte)
  | one (handler : Handler) (byte0 : Byte)
  | sysex (start length : Nat) (data : List Byte)
  | fallthrough (cnt : Nat) (byte0 byte1 byte2 : Byte)
  | catchall (cnt : Nat) (byte0 byte1 byte2 : Byte)
  deriving DecidableEq, Repr

/-- The callbacks that are not `NULL` -/
structure Callbacks where
  handler : Handler → Bool
  sysex : Bool
  fallthrough : Bool
  catchall : Bool

scoped instance neZero_buffer : NeZero 3 := ⟨by decide⟩

/-- `input_buffer`, `input_state` and `input_count` -/
structure Device where
  buffer : Fin 3 → Byte
  state : InputState
  count : BitVec 16

/-- The callback of a message of three bytes -/
def threeHandler (byte0 : Byte) : Option Handler :=
  let high := byte0 &&& 0xF0
  if high = MIDI_CC then some .cc
  else if high = MIDI_NOTEON then some .noteon
  else if high = MIDI_NOTEOFF then some .noteoff
  else if high = MIDI_AFTERTOUCH then some .aftertouch
  else if high = MIDI_PITCHBEND then some .pitchbend
  else if high = 0xF0 ∧ byte0 = MIDI_SONGPOSITION then some .songposition
  else none

/-- The callback of a message of two bytes -/
def twoHandler (byte0 : Byte) : Option Handler :=
  let high := byte0 &&& 0xF0
  if high = MIDI_PROGCHANGE then some .progchange
  else if high = MIDI_CHANPRESSURE then some .chanpressure
  else if high = 0xF0 ∧ byte0 = MIDI_SONGSELECT then some .songselect
  else if high = 0xF0 ∧ byte0 = MIDI_TC_QUARTERFRAME then some .tcQuarterframe
  else none

/-- The callback of a message of one byte -/
def oneHandler (byte0 : Byte) : Option Handler :=
  if midiIsRealtime byte0 then some .realtime else if byte0 = MIDI_TUNEREQUEST then some .tunerequest else none

section Input

variable (registered : Callbacks)

/-- The specific callback that `midi_input_callbacks` calls, and `cnt` after it -/
def specificCall (state : InputState) (cnt : Nat) (byte0 byte1 byte2 : Byte) : Option Call × Nat :=
  if state = .sysexMessage then
    let start := (cnt - 1) / 3 * 3
    (if registered.sysex then some (.sysex start (cnt - start) [byte0, byte1, byte2]) else none, cnt)
  else
    match cnt with
    | 3 => (((threeHandler byte0).filter registered.handler).map fun handler =>
        .three handler (if byte0 = MIDI_SONGPOSITION then byte0 else byte0 &&& 0x0F) byte1 byte2, 3)
    | 2 => (((twoHandler byte0).filter registered.handler).map fun handler =>
        .two handler (if byte0 = MIDI_SONGSELECT ∨ byte0 = MIDI_TC_QUARTERFRAME then byte0 else byte0 &&& 0x0F) byte1, 2)
    | 1 => (((oneHandler byte0).filter registered.handler).map fun handler => .one handler byte0, 1)
    | cnt => (none, if 3 < cnt then 0 else cnt)

/-- `midi_input_callbacks` -/
def midiInputCallbacks (state : InputState) (cnt : Nat) (byte0 byte1 byte2 : Byte) : List Call :=
  let specific := specificCall registered state cnt byte0 byte1 byte2
  specific.1.toList ++
    (if specific.1.isNone ∧ registered.fallthrough then [.fallthrough specific.2 byte0 byte1 byte2] else []) ++
      if registered.catchall then [.catchall specific.2 byte0 byte1 byte2] else []

/-- `input_buffer[input_count % 3] = input` and `input_count += 1` -/
def Device.store (d : Device) (input : Byte) : Device :=
  { d with buffer := Function.update d.buffer (Fin.ofNat 3 d.count.toNat) input, count := d.count + 1 }

/-- The callbacks for what is in the buffer -/
def Device.callbacks (d : Device) (byte2 : Byte) : List Call :=
  midiInputCallbacks registered d.state d.count.toNat (d.buffer 0) (d.buffer 1) byte2

/-- A status byte that is not of a message in real time -/
def statusByte (d : Device) (input : Byte) : Device × List Call :=
  let d := if d.state = .sysexMessage then d else { d with buffer := Function.update d.buffer 0 input, count := 1 }
  match midiPacketLength input with
  | .one => ({ d with state := .idle }, midiInputCallbacks registered .oneByteMessage 1 input 0 0)
  | .two => ({ d with state := .twoByteMessage }, [])
  | .three => ({ d with state := .threeByteMessage }, [])
  | .undefined =>
    if input = SYSEX_BEGIN then
      ({ buffer := Function.update d.buffer 0 input, state := .sysexMessage, count := 1 }, [])
    else if input = SYSEX_END then
      let d := d.store input
      ({ d with state := .idle }, d.callbacks registered (d.buffer 2))
    else ({ d with state := .idle, count := 0 }, [])

/-- A data byte of a message that has begun: the call is made when the last slot it needs is filled. -/
def dataByte (d : Device) (input : Byte) : Device × List Call :=
  let prev := d.count.toNat
  let d := d.store input
  let running := if d.state = .sysexMessage then d else { d with count := 1 }
  match prev % 3 with
  | 2 => (running, d.callbacks registered (d.buffer 2))
  | 1 => if d.state = .twoByteMessage then (running, d.callbacks registered 0) else (d, [])
  | _ => (d, [])

/-- `midi_process_byte` -/
def midiProcessByte (d : Device) (input : Byte) : Device × List Call :=
  if midiIsRealtime input then (d, midiInputCallbacks registered .oneByteMessage 1 input 0 0)
  else if midiIsStatusbyte input then statusByte registered d input
  else if d.state ≠ .idle then dataByte registered d input
  else (d, [])

/-- The bytes one after the other, and the calls they make -/
def processBytes (d : Device) : List Byte → Device × List Call
  | [] => (d, [])
  | input :: rest =>
    let step := midiProcessByte registered d input
    let after := processBytes step.1 rest
    (after.1, step.2 ++ after.2)

/-- `MIDI_INPUT_QUEUE_LENGTH` -/
def MIDI_INPUT_QUEUE_LENGTH : Nat := 192

/-- `input_queue`, of `bytequeue.c` -/
abbrev ByteQueue := Ring MIDI_INPUT_QUEUE_LENGTH Byte

/-- `midi_device_input`: a byte that finds the queue full is lost. -/
def midiDeviceInput (queue : ByteQueue) (input : List Byte) : ByteQueue :=
  input.foldl (fun queue byte => (queue.enqueue byte).getD queue) queue

/-- The loop of `midi_device_process` -/
def drain (d : Device) (queue : ByteQueue) : Nat → Device × ByteQueue × List Call
  | 0 => (d, queue, [])
  | n + 1 =>
    let step := midiProcessByte registered d (queue.slots queue.tail)
    let after := drain step.1 queue.popped n
    (after.1, after.2.1, step.2 ++ after.2.2)

/-- `midi_device_process`, of the packets that `usb_get_midi` receives -/
def midiDeviceProcess (midiEvent : Byte → Byte) (d : Device) (queue : ByteQueue) (packets : List EventPacket) :
    Device × ByteQueue × List Call :=
  let queue := packets.foldl (fun queue packet => midiDeviceInput queue (packetBytes midiEvent packet)) queue
  drain registered d queue queue.count

end Input

end QmkFirmware.Midi
