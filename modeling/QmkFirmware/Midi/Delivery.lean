import Mathlib
import QmkFirmware.Lib.Interleave
import QmkFirmware.Midi.Code

/-!
# A message arrives

What one device sends with the functions of `midi.c` another one hands to its callbacks:
each message once, with its channel and its values, in order, wherever messages in real
time come between the packets of the others and however the packets are spread over the
calls of `midi_device_process`, as long as the queue has room for each of them.
-/

namespace QmkFirmware.Midi
open Lib

/-! ## Messages -/

/-- A byte of system exclusive data -/
def dataByteOf (value : BitVec 7) : Byte := value.setWidth 8

/-- What a sender sends beside the messages in real time -/
inductive Message where
  | cc (chan num val : Byte)
  | noteon (chan num vel : Byte)
  | noteoff (chan num vel : Byte)
  | aftertouch (chan noteNum amt : Byte)
  | pitchbend (chan : Byte) (amt : Int)
  | programchange (chan num : Byte)
  | channelpressure (chan amt : Byte)
  | tcquarterframe (time : Byte)
  | songposition (pos : BitVec 16)
  | songselect (song : Byte)
  | tunerequest
  | sysex (data : List (BitVec 7)) (fits : data.length + 2 < 2 ^ 16)

/-- The array of a system exclusive message -/
def sysexArray (data : List (BitVec 7)) : List Byte := SYSEX_BEGIN :: (data.map dataByteOf ++ [SYSEX_END])

/-- The calls of `send_func` -/
def Message.sends : Message → List Sent
  | .cc chan num val => [midiSendCc chan num val]
  | .noteon chan num vel => [midiSendNoteon chan num vel]
  | .noteoff chan num vel => [midiSendNoteoff chan num vel]
  | .aftertouch chan noteNum amt => [midiSendAftertouch chan noteNum amt]
  | .pitchbend chan amt => [midiSendPitchbend chan amt]
  | .programchange chan num => [midiSendProgramchange chan num]
  | .channelpressure chan amt => [midiSendChannelpressure chan amt]
  | .tcquarterframe time => [midiSendTcquarterframe time]
  | .songposition pos => [midiSendSongposition pos]
  | .songselect song => [midiSendSongselect song]
  | .tunerequest => [midiSendTunerequest]
  | .sysex data _ => midiSendArray (sysexArray data)

/-- The bytes of a call of `send_func` -/
def Sent.bytes (s : Sent) : List Byte := [s.byte0, s.byte1, s.byte2].take s.cnt

/-- The bytes of a message -/
def Message.bytes (m : Message) : List Byte := m.sends.flatMap Sent.bytes

/-- The array cut into threes, each with the place where it starts -/
def threes : Nat → List Byte → List (Nat × List Byte)
  | start, a :: b :: c :: rest => (start, [a, b, c]) :: threes (start + 3) rest
  | start, [a, b] => [(start, [a, b])]
  | start, [a] => [(start, [a])]
  | _, [] => []

/-- The threes are the whole array. -/
theorem flatMap_threes (start : Nat) (bytes : List Byte) : (threes start bytes).flatMap Prod.snd = bytes := by
  fun_induction threes start bytes with
  | case1 start a b c rest ih => simp [ih]
  | case2 => rfl
  | case3 => rfl
  | case4 => rfl

theorem threes_short {start : Nat} {bytes : List Byte} (some : bytes ≠ []) (short : bytes.length ≤ 3) :
    threes start bytes = [(start, bytes)] := by
  match bytes with
  | [] => exact absurd rfl some
  | [a] => rfl
  | [a, b] => rfl
  | [a, b, c] => rfl
  | a :: b :: c :: d :: rest =>
    simp only [List.length_cons] at short
    omega

theorem threes_full {start : Nat} {first rest : List Byte} (full : first.length = 3) :
    threes start (first ++ rest) = (start, first) :: threes (start + 3) rest := by
  match first with
  | [a, b, c] => rfl

section Handing

variable (registered : Callbacks)

/-- The calls for a message whose specific callback is known -/
def handed (handler : Handler) (call : Call) (cnt : Nat) (byte0 byte1 byte2 : Byte) : List Call :=
  (if registered.handler handler then [call]
    else if registered.fallthrough then [.fallthrough cnt byte0 byte1 byte2] else []) ++
    if registered.catchall then [.catchall cnt byte0 byte1 byte2] else []

/-- The part of a system exclusive message that a call hands over -/
def Call.sysexPart : Call → Option (Nat × List Byte)
  | .sysex start length data => some (start, data.take length)
  | _ => none

/-- The call is of no callback for a whole message. -/
def Call.general : Call → Bool
  | .sysex .. | .fallthrough .. | .catchall .. => true
  | _ => false

/-- The calls hand the message over. -/
def Delivers : Message → List Call → Prop
  | .cc chan num val, calls =>
    calls = handed registered .cc (.three .cc (chan &&& 0x0F) (low7 num) (low7 val)) 3
      (MIDI_CC ||| (chan &&& 0x0F)) (low7 num) (low7 val)
  | .noteon chan num vel, calls =>
    calls = handed registered .noteon (.three .noteon (chan &&& 0x0F) (low7 num) (low7 vel)) 3
      (MIDI_NOTEON ||| (chan &&& 0x0F)) (low7 num) (low7 vel)
  | .noteoff chan num vel, calls =>
    calls = handed registered .noteoff (.three .noteoff (chan &&& 0x0F) (low7 num) (low7 vel)) 3
      (MIDI_NOTEOFF ||| (chan &&& 0x0F)) (low7 num) (low7 vel)
  | .aftertouch chan noteNum amt, calls =>
    calls = handed registered .aftertouch (.three .aftertouch (chan &&& 0x0F) (low7 noteNum) (low7 amt)) 3
      (MIDI_AFTERTOUCH ||| (chan &&& 0x0F)) (low7 noteNum) (low7 amt)
  | .pitchbend chan amt, calls =>
    let bytes := split14 (pitchbendAmount amt)
    calls = handed registered .pitchbend (.three .pitchbend (chan &&& 0x0F) bytes.1 bytes.2) 3
      (MIDI_PITCHBEND ||| (chan &&& 0x0F)) bytes.1 bytes.2
  | .programchange chan num, calls =>
    calls = handed registered .progchange (.two .progchange (chan &&& 0x0F) (low7 num)) 2
      (MIDI_PROGCHANGE ||| (chan &&& 0x0F)) (low7 num) 0
  | .channelpressure chan amt, calls =>
    calls = handed registered .chanpressure (.two .chanpressure (chan &&& 0x0F) (low7 amt)) 2
      (MIDI_CHANPRESSURE ||| (chan &&& 0x0F)) (low7 amt) 0
  | .tcquarterframe time, calls =>
    calls = handed registered .tcQuarterframe (.two .tcQuarterframe MIDI_TC_QUARTERFRAME (low7 time)) 2
      MIDI_TC_QUARTERFRAME (low7 time) 0
  | .songposition pos, calls =>
    let bytes := split14 pos
    calls = handed registered .songposition (.three .songposition MIDI_SONGPOSITION bytes.1 bytes.2) 3
      MIDI_SONGPOSITION bytes.1 bytes.2
  | .songselect song, calls =>
    calls = handed registered .songselect (.two .songselect MIDI_SONGSELECT (low7 song)) 2 MIDI_SONGSELECT (low7 song) 0
  | .tunerequest, calls =>
    calls = handed registered .tunerequest (.one .tunerequest MIDI_TUNEREQUEST) 1 MIDI_TUNEREQUEST 0 0
  | .sysex data _, calls =>
    calls.filterMap Call.sysexPart = (if registered.sysex then threes 0 (sysexArray data) else []) ∧
      ∀ call ∈ calls, call.general = true

/-- The calls for a message in real time -/
def realtimeCalls (byte : Byte) : List Call := handed registered .realtime (.one .realtime byte) 1 byte 0 0

end Handing

/-! ## The bytes of a message -/

section Bytes

/-- A status byte of a message of three bytes -/
structure ThreeBytes (handler : Handler) (byte0 : Byte) : Prop where
  timed : midiIsRealtime byte0 = false
  isStatus : midiIsStatusbyte byte0 = true
  length : midiPacketLength byte0 = .three
  found : threeHandler byte0 = some handler

/-- A status byte of a message of two bytes -/
structure TwoBytes (handler : Handler) (byte0 : Byte) : Prop where
  timed : midiIsRealtime byte0 = false
  isStatus : midiIsStatusbyte byte0 = true
  length : midiPacketLength byte0 = .two
  found : twoHandler byte0 = some handler

/-- A byte that is no status byte -/
structure IsData (byte : Byte) : Prop where
  timed : midiIsRealtime byte = false
  data : midiIsStatusbyte byte = false
  length : midiPacketLength byte = .undefined

theorem isData_low7 (value : Byte) : IsData (low7 value) := by
  have all : ∀ value : Byte, midiIsRealtime (low7 value) = false ∧ midiIsStatusbyte (low7 value) = false ∧
      midiPacketLength (low7 value) = .undefined := by decide
  exact ⟨(all value).1, (all value).2.1, (all value).2.2⟩

theorem isData_dataByteOf (value : BitVec 7) : IsData (dataByteOf value) := by
  have all : ∀ value : BitVec 7, midiIsRealtime (dataByteOf value) = false ∧ midiIsStatusbyte (dataByteOf value) = false ∧
      midiPacketLength (dataByteOf value) = .undefined := by decide
  exact ⟨(all value).1, (all value).2.1, (all value).2.2⟩

theorem low7_seven (value : BitVec 16) : (((value &&& 0x7F).setWidth 8 : Byte)) = low7 (value.setWidth 8) := by
  unfold low7
  ext i
  simp

theorem isData_split14 (value : BitVec 16) : IsData (split14 value).1 ∧ IsData (split14 value).2 := by
  unfold split14
  dsimp only
  rw [low7_seven, low7_seven]
  exact ⟨isData_low7 _, isData_low7 _⟩

/-- The channel is one of sixteen. -/
theorem channel_cases {p : Byte → Prop} (all : ∀ n : BitVec 4, p (n.setWidth 8)) (chan : Byte) : p (chan &&& 0x0F) := by
  have low : ∀ chan : Byte, chan &&& 0x0F = (chan.setWidth 4).setWidth 8 := by decide
  rw [low]
  exact all _

/-- The channel is in the low half of the status byte, the message in the high half. -/
theorem threeBytes_channel (chan : Byte) :
    ThreeBytes .cc (MIDI_CC ||| (chan &&& 0x0F)) ∧ ThreeBytes .noteon (MIDI_NOTEON ||| (chan &&& 0x0F)) ∧
      ThreeBytes .noteoff (MIDI_NOTEOFF ||| (chan &&& 0x0F)) ∧ ThreeBytes .aftertouch (MIDI_AFTERTOUCH ||| (chan &&& 0x0F)) ∧
      ThreeBytes .pitchbend (MIDI_PITCHBEND ||| (chan &&& 0x0F)) := by
  have of : ∀ handler status, (handler, status) ∈ [(Handler.cc, MIDI_CC), (.noteon, MIDI_NOTEON), (.noteoff, MIDI_NOTEOFF),
      (.aftertouch, MIDI_AFTERTOUCH), (.pitchbend, MIDI_PITCHBEND)] → ThreeBytes handler (status ||| (chan &&& 0x0F)) := by
    intro handler status mem
    obtain ⟨timed, isStatus, length, handler⟩ := channel_cases (p := fun low =>
      ∀ status ∈ [(Handler.cc, MIDI_CC), (.noteon, MIDI_NOTEON), (.noteoff, MIDI_NOTEOFF), (.aftertouch, MIDI_AFTERTOUCH),
        (.pitchbend, MIDI_PITCHBEND)], midiIsRealtime (status.2 ||| low) = false ∧ midiIsStatusbyte (status.2 ||| low) = true ∧
          midiPacketLength (status.2 ||| low) = .three ∧ threeHandler (status.2 ||| low) = some status.1)
      (by decide) chan (handler, status) mem
    exact ⟨timed, isStatus, length, handler⟩
  exact ⟨of _ _ (by decide), of _ _ (by decide), of _ _ (by decide), of _ _ (by decide), of _ _ (by decide)⟩

theorem twoBytes_channel (chan : Byte) :
    TwoBytes .progchange (MIDI_PROGCHANGE ||| (chan &&& 0x0F)) ∧ TwoBytes .chanpressure (MIDI_CHANPRESSURE ||| (chan &&& 0x0F)) := by
  have of : ∀ handler status, (handler, status) ∈ [(Handler.progchange, MIDI_PROGCHANGE), (.chanpressure, MIDI_CHANPRESSURE)] →
      TwoBytes handler (status ||| (chan &&& 0x0F)) := by
    intro handler status mem
    obtain ⟨timed, isStatus, length, handler⟩ := channel_cases (p := fun low =>
      ∀ status ∈ [(Handler.progchange, MIDI_PROGCHANGE), (.chanpressure, MIDI_CHANPRESSURE)],
        midiIsRealtime (status.2 ||| low) = false ∧ midiIsStatusbyte (status.2 ||| low) = true ∧
          midiPacketLength (status.2 ||| low) = .two ∧ twoHandler (status.2 ||| low) = some status.1)
      (by decide) chan (handler, status) mem
    exact ⟨timed, isStatus, length, handler⟩
  exact ⟨of _ _ (by decide), of _ _ (by decide)⟩

theorem threeBytes_songposition : ThreeBytes .songposition MIDI_SONGPOSITION := ⟨by decide, by decide, by decide, by decide⟩

theorem twoBytes_songselect : TwoBytes .songselect MIDI_SONGSELECT := ⟨by decide, by decide, by decide, by decide⟩

theorem twoBytes_tcquarterframe : TwoBytes .tcQuarterframe MIDI_TC_QUARTERFRAME := ⟨by decide, by decide, by decide, by decide⟩

/-- What a callback gets for the status byte: the channel. -/
theorem channel_of (chan : Byte) : ∀ status ∈ [MIDI_CC, MIDI_NOTEON, MIDI_NOTEOFF, MIDI_AFTERTOUCH, MIDI_PITCHBEND, MIDI_PROGCHANGE,
    MIDI_CHANPRESSURE], (status ||| (chan &&& 0x0F)) &&& 0x0F = chan &&& 0x0F ∧ status ||| (chan &&& 0x0F) ≠ MIDI_SONGPOSITION ∧
      status ||| (chan &&& 0x0F) ≠ MIDI_SONGSELECT ∧ status ||| (chan &&& 0x0F) ≠ MIDI_TC_QUARTERFRAME :=
  channel_cases (p := fun low => ∀ status ∈ [MIDI_CC, MIDI_NOTEON, MIDI_NOTEOFF, MIDI_AFTERTOUCH, MIDI_PITCHBEND, MIDI_PROGCHANGE,
    MIDI_CHANPRESSURE], (status ||| low) &&& 0x0F = low ∧ status ||| low ≠ MIDI_SONGPOSITION ∧
      status ||| low ≠ MIDI_SONGSELECT ∧ status ||| low ≠ MIDI_TC_QUARTERFRAME) (by decide) chan

end Bytes

/-! ## What the device makes of them -/

section Process

variable (registered : Callbacks) {d : Device}

@[simp] theorem processBytes_nil : processBytes registered d [] = (d, []) := rfl

theorem processBytes_cons (input : Byte) (rest : List Byte) : processBytes registered d (input :: rest) =
    ((processBytes registered (midiProcessByte registered d input).1 rest).1,
      (midiProcessByte registered d input).2 ++ (processBytes registered (midiProcessByte registered d input).1 rest).2) := rfl

theorem processBytes_append (a b : List Byte) : processBytes registered d (a ++ b) =
    ((processBytes registered (processBytes registered d a).1 b).1,
      (processBytes registered d a).2 ++ (processBytes registered (processBytes registered d a).1 b).2) := by
  induction a generalizing d with
  | nil => rfl
  | cons input rest ih => rw [List.cons_append, processBytes_cons, processBytes_cons, ih, List.append_assoc]

/-- The calls where the specific callback is known -/
theorem midiInputCallbacks_found {state : InputState} {cnt : Nat} {byte0 byte1 byte2 : Byte} {handler : Handler} {call : Call}
    (h : specificCall registered state cnt byte0 byte1 byte2 = (((some handler).filter registered.handler).map fun _ => call, cnt)) :
    midiInputCallbacks registered state cnt byte0 byte1 byte2 = handed registered handler call cnt byte0 byte1 byte2 := by
  unfold midiInputCallbacks handed
  rw [h]
  cases here : registered.handler handler <;> simp [Option.filter, here]

/-- A byte in real time is handed over at once, and the device stays as it is. -/
theorem process_realtime {input : Byte} (timed : midiIsRealtime input = true) :
    midiProcessByte registered d input = (d, realtimeCalls registered input) := by
  unfold midiProcessByte realtimeCalls
  rw [if_pos timed, midiInputCallbacks_found registered]
  unfold specificCall oneHandler
  rw [if_neg (by decide), if_pos timed]
  cases here : registered.handler .realtime <;> simp [Option.filter, here]

theorem process_status {input : Byte} (timed : midiIsRealtime input = false) (isStatus : midiIsStatusbyte input = true) :
    midiProcessByte registered d input = statusByte registered d input := by
  unfold midiProcessByte
  rw [timed, isStatus, if_neg Bool.false_ne_true, if_pos rfl]

theorem process_data {input : Byte} (data : IsData input) (busy : d.state ≠ .idle) :
    midiProcessByte registered d input = dataByte registered d input := by
  unfold midiProcessByte
  rw [data.timed, data.data, if_neg Bool.false_ne_true, if_neg Bool.false_ne_true, if_pos busy]

/-- A message of three bytes -/
theorem process_three {handler : Handler} {byte0 byte1 byte2 : Byte} (status : ThreeBytes handler byte0) (data1 : IsData byte1)
    (data2 : IsData byte2) (ready : d.state ≠ .sysexMessage) :
    let after := processBytes registered d [byte0, byte1, byte2]
    after.1.state ≠ .sysexMessage ∧
      after.2 = handed registered handler (.three handler (if byte0 = MIDI_SONGPOSITION then byte0 else byte0 &&& 0x0F) byte1 byte2)
        3 byte0 byte1 byte2 := by
  have first : midiProcessByte registered d byte0 =
      (⟨Function.update d.buffer 0 byte0, .threeByteMessage, 1⟩, []) := by
    rw [process_status registered status.timed status.isStatus]
    unfold statusByte
    rw [if_neg ready, status.length]
  have second : midiProcessByte registered ⟨Function.update d.buffer 0 byte0, .threeByteMessage, 1⟩ byte1 =
      (⟨Function.update (Function.update d.buffer 0 byte0) 1 byte1, .threeByteMessage, 2⟩, []) := by
    rw [process_data registered data1 (by simp)]
    rfl
  have third : ∀ buffer : Fin 3 → Byte, midiProcessByte registered ⟨buffer, .threeByteMessage, 2⟩ byte2 =
      (⟨Function.update buffer 2 byte2, .threeByteMessage, 1⟩,
        midiInputCallbacks registered .threeByteMessage 3 (buffer 0) (buffer 1) byte2) := by
    intro buffer
    rw [process_data registered data2 (by simp)]
    rfl
  have calls : midiInputCallbacks registered .threeByteMessage 3 byte0 byte1 byte2 = handed registered handler
      (.three handler (if byte0 = MIDI_SONGPOSITION then byte0 else byte0 &&& 0x0F) byte1 byte2) 3 byte0 byte1 byte2 := by
    apply midiInputCallbacks_found
    unfold specificCall
    rw [if_neg (by decide), status.found]
    cases here : registered.handler handler <;> simp [Option.filter, here]
  dsimp only
  rw [processBytes_cons, first, processBytes_cons, second, processBytes_cons, third, processBytes_nil]
  refine ⟨by simp, ?_⟩
  rw [List.nil_append, List.nil_append, List.append_nil, ← calls]
  rfl

/-- A message of two bytes -/
theorem process_two {handler : Handler} {byte0 byte1 : Byte} (status : TwoBytes handler byte0) (data1 : IsData byte1)
    (ready : d.state ≠ .sysexMessage) :
    let after := processBytes registered d [byte0, byte1]
    after.1.state ≠ .sysexMessage ∧
      after.2 = handed registered handler
        (.two handler (if byte0 = MIDI_SONGSELECT ∨ byte0 = MIDI_TC_QUARTERFRAME then byte0 else byte0 &&& 0x0F) byte1)
        2 byte0 byte1 0 := by
  have first : midiProcessByte registered d byte0 = (⟨Function.update d.buffer 0 byte0, .twoByteMessage, 1⟩, []) := by
    rw [process_status registered status.timed status.isStatus]
    unfold statusByte
    rw [if_neg ready, status.length]
  have second : ∀ buffer : Fin 3 → Byte, midiProcessByte registered ⟨buffer, .twoByteMessage, 1⟩ byte1 =
      (⟨Function.update buffer 1 byte1, .twoByteMessage, 1⟩,
        midiInputCallbacks registered .twoByteMessage 2 (buffer 0) byte1 0) := by
    intro buffer
    rw [process_data registered data1 (by simp)]
    rfl
  have calls : midiInputCallbacks registered .twoByteMessage 2 byte0 byte1 0 = handed registered handler
      (.two handler (if byte0 = MIDI_SONGSELECT ∨ byte0 = MIDI_TC_QUARTERFRAME then byte0 else byte0 &&& 0x0F) byte1)
        2 byte0 byte1 0 := by
    apply midiInputCallbacks_found
    unfold specificCall
    rw [if_neg (by decide), status.found]
    cases here : registered.handler handler <;> simp [Option.filter, here]
  dsimp only
  rw [processBytes_cons, first, processBytes_cons, second, processBytes_nil]
  refine ⟨by simp, ?_⟩
  rw [List.nil_append, List.append_nil, ← calls]
  rfl

/-- The message that is one byte -/
theorem process_tunerequest (ready : d.state ≠ .sysexMessage) :
    let after := processBytes registered d [MIDI_TUNEREQUEST]
    after.1.state ≠ .sysexMessage ∧
      after.2 = handed registered .tunerequest (.one .tunerequest MIDI_TUNEREQUEST) 1 MIDI_TUNEREQUEST 0 0 := by
  have only : midiProcessByte registered d MIDI_TUNEREQUEST =
      (⟨Function.update d.buffer 0 MIDI_TUNEREQUEST, .idle, 1⟩,
        midiInputCallbacks registered .oneByteMessage 1 MIDI_TUNEREQUEST 0 0) := by
    rw [process_status registered (by decide) (by decide)]
    unfold statusByte
    rw [if_neg ready]
    rfl
  dsimp only
  rw [processBytes_cons, only, processBytes_nil]
  refine ⟨by simp, ?_⟩
  rw [List.append_nil]
  apply midiInputCallbacks_found
  have found : oneHandler MIDI_TUNEREQUEST = some .tunerequest := by decide
  unfold specificCall
  rw [if_neg (by decide), found]
  cases here : registered.handler .tunerequest <;> simp [Option.filter, here]

/-! A system exclusive message is handed over in threes. -/

/-- The first bytes of the buffer -/
def Device.pending (d : Device) (n : Nat) : List Byte := [d.buffer 0, d.buffer 1, d.buffer 2].take n

/-- The calls for the part of a system exclusive message that is in the buffer -/
theorem sysexCalls (sysex : d.state = .sysexMessage) (pos : 0 < d.count.toNat) :
    (d.callbacks registered (d.buffer 2)).filterMap Call.sysexPart =
        (if registered.sysex then [((d.count.toNat - 1) / 3 * 3, d.pending ((d.count.toNat - 1) % 3 + 1))] else []) ∧
      ∀ call ∈ d.callbacks registered (d.buffer 2), call.general = true := by
  have length : d.count.toNat - (d.count.toNat - 1) / 3 * 3 = (d.count.toNat - 1) % 3 + 1 := by omega
  unfold Device.callbacks midiInputCallbacks specificCall Device.pending
  rw [if_pos sysex]
  dsimp only
  rw [length]
  cases registered.sysex <;> cases registered.fallthrough <;> cases registered.catchall <;>
    simp [Call.sysexPart, Call.general]

/-- The device with one byte more -/
theorem process_sysexData {input : Byte} (sysex : d.state = .sysexMessage) (data : IsData input) :
    midiProcessByte registered d input =
      (d.store input, if d.count.toNat % 3 = 2 then (d.store input).callbacks registered ((d.store input).buffer 2) else []) := by
  have stays : (d.store input).state = .sysexMessage := sysex
  rw [process_data registered data (by rw [sysex]; simp)]
  unfold dataByte
  dsimp only
  rw [if_pos stays, stays]
  have three : d.count.toNat % 3 = 0 ∨ d.count.toNat % 3 = 1 ∨ d.count.toNat % 3 = 2 := by omega
  rcases three with here | here | here <;> rw [here] <;> simp

theorem process_sysexEnd (sysex : d.state = .sysexMessage) : midiProcessByte registered d SYSEX_END =
    ({ d.store SYSEX_END with state := .idle }, (d.store SYSEX_END).callbacks registered ((d.store SYSEX_END).buffer 2)) := by
  rw [process_status registered (by decide) (by decide)]
  unfold statusByte
  rw [if_pos sysex]
  rfl

/-- Storing a byte puts it behind those that are pending. -/
theorem pending_store (d : Device) (input : Byte) :
    (d.store input).pending (d.count.toNat % 3 + 1) = d.pending (d.count.toNat % 3) ++ [input] := by
  unfold Device.pending Device.store
  have three : d.count.toNat % 3 = 0 ∨ d.count.toNat % 3 = 1 ∨ d.count.toNat % 3 = 2 := by omega
  rcases three with here | here | here
  · have slot : Fin.ofNat 3 d.count.toNat = 0 := Fin.ext here
    rw [slot, here]
    simp
  · have slot : Fin.ofNat 3 d.count.toNat = 1 := Fin.ext here
    rw [slot, here]
    simp
  · have slot : Fin.ofNat 3 d.count.toNat = 2 := Fin.ext here
    rw [slot, here]
    simp

theorem length_pending (d : Device) {n : Nat} (le : n ≤ 3) : (d.pending n).length = n := by
  unfold Device.pending
  rw [List.length_take]
  exact Nat.min_eq_left le

theorem count_store (d : Device) (input : Byte) (fits : d.count.toNat + 1 < 2 ^ 16) :
    (d.store input).count.toNat = d.count.toNat + 1 := by
  unfold Device.store
  dsimp only
  rw [BitVec.toNat_add]
  exact Nat.mod_eq_of_lt fits

/-- What is pending and what is still to come is handed over in threes. -/
theorem process_sysexRest (data : List (BitVec 7)) (d : Device) (sysex : d.state = .sysexMessage)
    (fits : d.count.toNat + data.length + 1 < 2 ^ 16) :
    let after := processBytes registered d (data.map dataByteOf ++ [SYSEX_END])
    after.1.state ≠ .sysexMessage ∧
      after.2.filterMap Call.sysexPart = (if registered.sysex then
        threes (d.count.toNat / 3 * 3) (d.pending (d.count.toNat % 3) ++ (data.map dataByteOf ++ [SYSEX_END])) else []) ∧
      ∀ call ∈ after.2, call.general = true := by
  induction data generalizing d with
  | nil =>
    have one := count_store d SYSEX_END (by omega)
    obtain ⟨parts, general⟩ := sysexCalls registered (show (d.store SYSEX_END).state = _ from sysex) (by omega)
    have short : (d.pending (d.count.toNat % 3) ++ [SYSEX_END]).length ≤ 3 := by
      rw [List.length_append, length_pending _ (by omega), List.length_singleton]
      omega
    dsimp only
    rw [List.map_nil, List.nil_append, processBytes_cons, process_sysexEnd registered sysex, processBytes_nil, List.append_nil]
    refine ⟨by simp, parts.trans ?_, general⟩
    rw [one, Nat.add_sub_cancel, pending_store, threes_short (by simp) short]
  | cons value data ih =>
    rw [List.length_cons] at fits
    have one := count_store d (dataByteOf value) (by omega)
    have stays : (d.store (dataByteOf value)).state = .sysexMessage := sysex
    obtain ⟨parts, general⟩ := sysexCalls registered stays (by omega)
    obtain ⟨ready, later, laterGeneral⟩ := ih (d.store (dataByteOf value)) stays (by omega)
    rw [one, Nat.add_sub_cancel, pending_store] at parts
    dsimp only
    rw [List.map_cons, List.cons_append, processBytes_cons, process_sysexData registered sysex (isData_dataByteOf value)]
    dsimp only
    refine ⟨ready, ?_, ?_⟩
    · rw [List.filterMap_append, later]
      by_cases full : d.count.toNat % 3 = 2
      · have start : (d.store (dataByteOf value)).count.toNat / 3 * 3 = d.count.toNat / 3 * 3 + 3 := by omega
        have clear : (d.store (dataByteOf value)).count.toNat % 3 = 0 := by omega
        have three : (d.pending (d.count.toNat % 3) ++ [dataByteOf value]).length = 3 := by
          rw [List.length_append, length_pending _ (by omega), List.length_singleton, full]
        have joined : d.pending (d.count.toNat % 3) ++ dataByteOf value :: (data.map dataByteOf ++ [SYSEX_END]) =
            (d.pending (d.count.toNat % 3) ++ [dataByteOf value]) ++ (data.map dataByteOf ++ [SYSEX_END]) := by simp
        rw [if_pos full, parts, start, clear]
        cases registered.sysex
        · rfl
        · rw [if_pos rfl, if_pos rfl, if_pos rfl, joined, threes_full three]
          rfl
      · have start : (d.store (dataByteOf value)).count.toNat / 3 * 3 = d.count.toNat / 3 * 3 := by omega
        have next : (d.store (dataByteOf value)).count.toNat % 3 = d.count.toNat % 3 + 1 := by omega
        rw [if_neg full, start, next, pending_store, List.filterMap_nil, List.nil_append, List.append_assoc]
        rfl
    · intro call mem
      rcases List.mem_append.1 mem with here | there
      · split at here
        · exact general call here
        · exact absurd here List.not_mem_nil
      · exact laterGeneral call there

/-- The whole of a system exclusive message -/
theorem process_sysex (data : List (BitVec 7)) (fits : data.length + 2 < 2 ^ 16) :
    let after := processBytes registered d (sysexArray data)
    after.1.state ≠ .sysexMessage ∧ Delivers registered (.sysex data fits) after.2 := by
  have first : ∃ buffer : Fin 3 → Byte, buffer 0 = SYSEX_BEGIN ∧
      midiProcessByte registered d SYSEX_BEGIN = (⟨buffer, .sysexMessage, 1⟩, []) := by
    rw [process_status registered (by decide) (by decide)]
    unfold statusByte
    exact ⟨_, Function.update_self .., rfl⟩
  obtain ⟨buffer, begun, first⟩ := first
  have pending : (⟨buffer, .sysexMessage, 1⟩ : Device).pending 1 = [SYSEX_BEGIN] := congrArg (fun byte => [byte]) begun
  have rest := process_sysexRest registered data ⟨buffer, .sysexMessage, 1⟩ rfl (show 1 + data.length + 1 < 2 ^ 16 by omega)
  dsimp only at rest ⊢
  unfold sysexArray
  rw [processBytes_cons, first, List.nil_append]
  refine ⟨rest.1, rest.2.1.trans ?_, rest.2.2⟩
  exact congrArg (fun pending => if registered.sysex then threes 0 (pending ++ (data.map dataByteOf ++ [SYSEX_END])) else []) pending

/-- A message of three bytes with a channel -/
theorem process_channelThree {handler : Handler} {status chan byte1 byte2 : Byte}
    (three : ThreeBytes handler (status ||| (chan &&& 0x0F)))
    (mem : status ∈ [MIDI_CC, MIDI_NOTEON, MIDI_NOTEOFF, MIDI_AFTERTOUCH, MIDI_PITCHBEND, MIDI_PROGCHANGE, MIDI_CHANPRESSURE])
    (data1 : IsData byte1) (data2 : IsData byte2) (ready : d.state ≠ .sysexMessage) :
    let after := processBytes registered d [status ||| (chan &&& 0x0F), byte1, byte2]
    after.1.state ≠ .sysexMessage ∧ after.2 =
      handed registered handler (.three handler (chan &&& 0x0F) byte1 byte2) 3 (status ||| (chan &&& 0x0F)) byte1 byte2 := by
  obtain ⟨channel, position, -⟩ := channel_of chan status mem
  have after := process_three registered three data1 data2 ready
  rwa [if_neg position, channel] at after

/-- A message of two bytes with a channel -/
theorem process_channelTwo {handler : Handler} {status chan byte1 : Byte} (two : TwoBytes handler (status ||| (chan &&& 0x0F)))
    (mem : status ∈ [MIDI_CC, MIDI_NOTEON, MIDI_NOTEOFF, MIDI_AFTERTOUCH, MIDI_PITCHBEND, MIDI_PROGCHANGE, MIDI_CHANPRESSURE])
    (data1 : IsData byte1) (ready : d.state ≠ .sysexMessage) :
    let after := processBytes registered d [status ||| (chan &&& 0x0F), byte1]
    after.1.state ≠ .sysexMessage ∧ after.2 =
      handed registered handler (.two handler (chan &&& 0x0F) byte1) 2 (status ||| (chan &&& 0x0F)) byte1 0 := by
  obtain ⟨channel, -, select, quarter⟩ := channel_of chan status mem
  have after := process_two registered two data1 ready
  rwa [if_neg (not_or.2 ⟨select, quarter⟩), channel] at after

/-- The array of a system exclusive message is sent whole. -/
theorem flatMap_midiSendArray (array : List Byte) : (midiSendArray array).flatMap Sent.bytes = array := by
  fun_induction midiSendArray array with
  | case1 a b c rest ih =>
    rw [List.flatMap_cons, ih]
    rfl
  | case2 => rfl
  | case3 => rfl
  | case4 => rfl

/-- **A message is handed over**: its bytes leave the device ready for the next message. -/
theorem process_message (ready : d.state ≠ .sysexMessage) (m : Message) :
    let after := processBytes registered d m.bytes
    after.1.state ≠ .sysexMessage ∧ Delivers registered m after.2 := by
  cases m with
  | cc chan num val =>
    exact process_channelThree registered (threeBytes_channel chan).1 (by decide) (isData_low7 num) (isData_low7 val) ready
  | noteon chan num vel =>
    exact process_channelThree registered (threeBytes_channel chan).2.1 (by decide) (isData_low7 num) (isData_low7 vel) ready
  | noteoff chan num vel =>
    exact process_channelThree registered (threeBytes_channel chan).2.2.1 (by decide) (isData_low7 num) (isData_low7 vel) ready
  | aftertouch chan noteNum amt =>
    exact process_channelThree registered (threeBytes_channel chan).2.2.2.1 (by decide) (isData_low7 noteNum) (isData_low7 amt) ready
  | pitchbend chan amt =>
    obtain ⟨first, second⟩ := isData_split14 (pitchbendAmount amt)
    exact process_channelThree registered (threeBytes_channel chan).2.2.2.2 (by decide) first second ready
  | programchange chan num =>
    exact process_channelTwo registered (twoBytes_channel chan).1 (by decide) (isData_low7 num) ready
  | channelpressure chan amt =>
    exact process_channelTwo registered (twoBytes_channel chan).2 (by decide) (isData_low7 amt) ready
  | tcquarterframe time =>
    exact process_two registered twoBytes_tcquarterframe (isData_low7 time) ready
  | songposition pos =>
    obtain ⟨first, second⟩ := isData_split14 pos
    exact process_three registered threeBytes_songposition first second ready
  | songselect song =>
    exact process_two registered twoBytes_songselect (isData_low7 song) ready
  | tunerequest => exact process_tunerequest registered ready
  | sysex data fits =>
    have bytes : (Message.sysex data fits).bytes = sysexArray data := flatMap_midiSendArray _
    rw [bytes]
    exact process_sysex registered data fits

/-- The handlers' calls that the bytes of each call of `send_func` make -/
def processSends (d : Device) : List Sent → List (List Call)
  | [] => []
  | sent :: rest =>
    let step := processBytes registered d sent.bytes
    step.2 :: processSends step.1 rest

theorem processSends_cons (sent : Sent) (rest : List Sent) : processSends registered d (sent :: rest) =
    (processBytes registered d sent.bytes).2 :: processSends registered (processBytes registered d sent.bytes).1 rest := rfl

theorem length_processSends (sends : List Sent) : (processSends registered d sends).length = sends.length := by
  induction sends generalizing d with
  | nil => rfl
  | cons sent rest ih => rw [processSends_cons, List.length_cons, List.length_cons, ih]

theorem flatten_processSends (sends : List Sent) :
    (processSends registered d sends).flatten = (processBytes registered d (sends.flatMap Sent.bytes)).2 := by
  induction sends generalizing d with
  | nil => rfl
  | cons sent rest ih => rw [processSends_cons, List.flatMap_cons, processBytes_append, List.flatten_cons, ih]

theorem processSends_append (a b : List Sent) : processSends registered d (a ++ b) =
    processSends registered d a ++ processSends registered (processBytes registered d (a.flatMap Sent.bytes)).1 b := by
  induction a generalizing d with
  | nil => rfl
  | cons sent rest ih =>
    rw [List.cons_append, processSends_cons, processSends_cons, ih, List.flatMap_cons, processBytes_append, List.cons_append]

/-- The packets of a message deliver it. -/
def DeliversEach (m : Message) (calls : List (List Call)) : Prop :=
  calls.length = m.sends.length ∧ Delivers registered m calls.flatten

/-- The messages one after the other -/
theorem process_messages (ready : d.state ≠ .sysexMessage) (ms : List Message) :
    ∃ parts, List.Forall₂ (DeliversEach registered) ms parts ∧
      processSends registered d (ms.flatMap Message.sends) = parts.flatten := by
  induction ms generalizing d with
  | nil => exact ⟨[], .nil, rfl⟩
  | cons m ms ih =>
    obtain ⟨next, delivered⟩ := process_message registered ready m
    obtain ⟨parts, each, calls⟩ := ih next
    refine ⟨processSends registered d m.sends :: parts, .cons ⟨length_processSends registered _, ?_⟩ each, ?_⟩
    · rw [flatten_processSends]
      exact delivered
    · rw [List.flatMap_cons, processSends_append, List.flatten_cons]
      exact congrArg _ calls

/-- The calls of `send_func` for the messages in real time -/
def realtimeSends : List Sent :=
  [midiSendClock, midiSendTick, midiSendStart, midiSendContinue, midiSendStop, midiSendActivesense, midiSendReset]

theorem realtimeSends_byte : ∀ sent ∈ realtimeSends, midiIsRealtime sent.byte0 = true ∧ sent = midiSendByte sent.byte0 := by
  decide

/-- Messages in real time between the packets of the others are handed over where they are, and nothing else changes. -/
theorem process_interleaved {sends others timed : List Sent} (h : Interleaved sends others timed)
    (real : ∀ sent ∈ timed, sent ∈ realtimeSends) :
    Interleaved (sends.zip (processSends registered d sends)) (others.zip (processSends registered d others))
      (timed.map fun sent => (sent, realtimeCalls registered sent.byte0)) := by
  induction h generalizing d with
  | nil => exact .nil
  | @left sent _ _ _ _ ih => exact .left (ih real)
  | @right sent _ _ _ _ ih =>
    obtain ⟨byte, one⟩ := realtimeSends_byte sent (real sent List.mem_cons_self)
    have bytes : sent.bytes = [sent.byte0] := by
      rw [one]
      rfl
    have step : processBytes registered d sent.bytes = (d, realtimeCalls registered sent.byte0) := by
      rw [bytes, processBytes_cons, process_realtime registered byte]
      simp [processBytes]
    rw [processSends_cons, step]
    exact .right (ih fun sent mem => real sent (List.mem_cons_of_mem _ mem))

end Process

/-! ## Through the packets and the queue -/

section Packets

variable {midiEvent : Byte → Byte}

/-- The packet of a call of `send_func` has its bytes. -/
def Carried (midiEvent : Byte → Byte) (sent : Sent) : Prop :=
  ∃ packet, usbSendFunc midiEvent sent = some packet ∧ packetBytes midiEvent packet = sent.bytes

/-- A call with as many bytes as its status byte says -/
theorem carried_status {sent : Sent}
    (length : (midiPacketLength sent.byte0, sent.cnt) ∈ [(PacketLength.one, 1), (.two, 2), (.three, 3)]) :
    Carried midiEvent sent := by
  obtain ⟨cnt, byte0, byte1, byte2⟩ := sent
  have known : midiPacketLength byte0 ≠ .undefined := by
    intro undefined
    dsimp only at length
    rw [undefined] at length
    simp at length
  have packet : ∃ event, usbSendFunc midiEvent ⟨cnt, byte0, byte1, byte2⟩ = some ⟨event, byte0, byte1, byte2⟩ := by
    unfold usbSendFunc
    dsimp only
    rw [if_neg known]
    split
    · exact ⟨_, rfl⟩
    · split
      · exact ⟨_, rfl⟩
      · exact ⟨_, rfl⟩
  obtain ⟨event, packet⟩ := packet
  refine ⟨_, packet, ?_⟩
  unfold packetBytes Sent.bytes
  simp only [List.mem_cons, Prod.mk.injEq, List.not_mem_nil, or_false] at length
  rcases length with ⟨one, rfl⟩ | ⟨two, rfl⟩ | ⟨three, rfl⟩
  · rw [one]
  · rw [two]
  · rw [three]
    rfl

/-- `MIDI_EVENT` keeps commands apart that differ in the high half. -/
def KeepsApart (midiEvent : Byte → Byte) : Prop := ∀ a b, midiEvent a = midiEvent b → a &&& 0xF0 = b &&& 0xF0

variable (apart : KeepsApart midiEvent)

include apart

/-- A part of a system exclusive message: three bytes, or fewer at its end -/
theorem carried_sysex {sent : Sent} (undefined : midiPacketLength sent.byte0 = .undefined)
    (whole : sent.cnt = 3 ∨ sent.cnt = 2 ∧ sent.byte1 = SYSEX_END ∨ sent.cnt = 1 ∧ sent.byte0 = SYSEX_END) :
    Carried midiEvent sent := by
  obtain ⟨cnt, byte0, byte1, byte2⟩ := sent
  dsimp only at undefined whole
  have sent : ∀ event, sysexEvent midiEvent ⟨cnt, byte0, byte1, byte2⟩ = some event →
      usbSendFunc midiEvent ⟨cnt, byte0, byte1, byte2⟩ = some ⟨event, byte0, byte1, byte2⟩ := by
    intro event h
    unfold usbSendFunc
    dsimp only
    rw [if_pos undefined, h]
    rfl
  have differs : ∀ a b : Byte, a &&& 0xF0 ≠ b &&& 0xF0 → midiEvent a ≠ midiEvent b := fun a b ne same => ne (apart a b same)
  rcases whole with rfl | ⟨rfl, final⟩ | ⟨rfl, final⟩
  · refine ⟨_, sent _ rfl, ?_⟩
    unfold packetBytes
    dsimp only
    rw [undefined]
    dsimp only
    rw [if_pos]
    · rfl
    · split
      · exact Or.inr rfl
      · exact Or.inl rfl
  · refine ⟨_, sent _ rfl, ?_⟩
    unfold packetBytes
    dsimp only
    rw [undefined, if_pos final]
    dsimp only
    rw [if_neg (not_or.2 ⟨differs _ _ (by decide), differs _ _ (by decide)⟩), if_pos rfl]
    rfl
  · refine ⟨_, sent _ rfl, ?_⟩
    unfold packetBytes
    dsimp only
    rw [undefined, if_pos final]
    dsimp only
    rw [if_neg (not_or.2 ⟨differs _ _ (by decide), differs _ _ (by decide)⟩), if_neg (differs _ _ (by decide)), if_pos rfl]
    rfl

/-- The parts of an array that ends as a system exclusive message does -/
theorem carried_midiSendArray (array : List Byte) (undefined : ∀ byte ∈ array, midiPacketLength byte = .undefined)
    (final : ∀ last ∈ array.getLast?, last = SYSEX_END) : ∀ sent ∈ midiSendArray array, Carried midiEvent sent := by
  fun_induction midiSendArray array with
  | case1 a b c rest ih =>
    have ended : ∀ last ∈ rest.getLast?, last = SYSEX_END := by
      intro last mem
      apply final last
      cases rest with
      | nil => cases mem
      | cons d rest => simpa using mem
    have later := ih (fun byte mem => undefined byte (by simp [mem])) ended
    intro sent mem
    rcases List.mem_cons.1 mem with rfl | there
    · exact carried_sysex apart (undefined a (by simp)) (Or.inl rfl)
    · exact later sent there
  | case2 a b =>
    intro sent mem
    rw [List.mem_singleton.1 mem]
    exact carried_sysex apart (undefined a (by simp)) (Or.inr (Or.inl ⟨rfl, final b (by simp)⟩))
  | case3 a =>
    intro sent mem
    rw [List.mem_singleton.1 mem]
    exact carried_sysex apart (undefined a (by simp)) (Or.inr (Or.inr ⟨rfl, final a (by simp)⟩))
  | case4 => exact fun _ mem => absurd mem List.not_mem_nil

/-- Every call of `send_func` for a message has a packet with its bytes. -/
theorem carried_message (m : Message) : ∀ sent ∈ m.sends, Carried midiEvent sent := by
  have status : ∀ sent : Sent, (midiPacketLength sent.byte0, sent.cnt) ∈ [(PacketLength.one, 1), (.two, 2), (.three, 3)] →
      ∀ other ∈ [sent], Carried midiEvent other := by
    intro sent length other mem
    rw [List.mem_singleton.1 mem]
    exact carried_status length
  have three : ∀ {handler status} {sent : Sent}, ThreeBytes handler status → sent.byte0 = status → sent.cnt = 3 →
      (midiPacketLength sent.byte0, sent.cnt) ∈ [(PacketLength.one, 1), (.two, 2), (.three, 3)] := by
    intro handler status sent of first cnt
    rw [first, of.length, cnt]
    decide
  have two : ∀ {handler status} {sent : Sent}, TwoBytes handler status → sent.byte0 = status → sent.cnt = 2 →
      (midiPacketLength sent.byte0, sent.cnt) ∈ [(PacketLength.one, 1), (.two, 2), (.three, 3)] := by
    intro handler status sent of first cnt
    rw [first, of.length, cnt]
    decide
  cases m with
  | cc chan => exact status _ (three (threeBytes_channel chan).1 rfl rfl)
  | noteon chan => exact status _ (three (threeBytes_channel chan).2.1 rfl rfl)
  | noteoff chan => exact status _ (three (threeBytes_channel chan).2.2.1 rfl rfl)
  | aftertouch chan => exact status _ (three (threeBytes_channel chan).2.2.2.1 rfl rfl)
  | pitchbend chan => exact status _ (three (threeBytes_channel chan).2.2.2.2 rfl rfl)
  | programchange chan => exact status _ (two (twoBytes_channel chan).1 rfl rfl)
  | channelpressure chan => exact status _ (two (twoBytes_channel chan).2 rfl rfl)
  | tcquarterframe => exact status _ (two twoBytes_tcquarterframe rfl rfl)
  | songposition => exact status _ (three threeBytes_songposition rfl rfl)
  | songselect => exact status _ (two twoBytes_songselect rfl rfl)
  | tunerequest => exact status _ (by decide)
  | sysex data =>
    refine carried_midiSendArray apart _ (fun byte mem => ?_) fun last mem => ?_
    · unfold sysexArray at mem
      rcases List.mem_cons.1 mem with rfl | mem
      · decide
      · rcases List.mem_append.1 mem with mem | mem
        · obtain ⟨value, -, rfl⟩ := List.mem_map.1 mem
          exact (isData_dataByteOf value).length
        · rw [List.mem_singleton.1 mem]
          decide
    · unfold sysexArray at mem
      simpa [List.getLast?_cons] using mem.symm

omit apart

/-- The packets of calls that are carried have their bytes. -/
theorem packets_bytes {sends : List Sent} (carried : ∀ sent ∈ sends, Carried midiEvent sent) :
    (sends.filterMap (usbSendFunc midiEvent)).flatMap (packetBytes midiEvent) = sends.flatMap Sent.bytes := by
  induction sends with
  | nil => rfl
  | cons sent sends ih =>
    obtain ⟨packet, some, bytes⟩ := carried sent List.mem_cons_self
    rw [List.filterMap_cons_some some, List.flatMap_cons, List.flatMap_cons, bytes,
      ih fun sent mem => carried sent (List.mem_cons_of_mem _ mem)]

end Packets

section Queue

variable (registered : Callbacks) {midiEvent : Byte → Byte}

/-- A queue with room takes the bytes in order. -/
theorem contents_midiDeviceInput {queue : ByteQueue} {input : List Byte}
    (room : queue.contents.length + input.length < MIDI_INPUT_QUEUE_LENGTH) :
    (midiDeviceInput queue input).contents = queue.contents ++ input := by
  unfold midiDeviceInput
  induction input generalizing queue with
  | nil => exact (List.append_nil _).symm
  | cons byte input ih =>
    rw [List.length_cons] at room
    cases taken : queue.enqueue byte with
    | none =>
      have full := Ring.enqueue_eq_none.1 taken
      omega
    | some next =>
      have more := Ring.contents_enqueue taken
      rw [List.foldl_cons, taken, Option.getD_some, ih (by rw [more, List.length_append, List.length_singleton]; omega), more,
        List.append_assoc, List.singleton_append]

theorem contents_packets {queue : ByteQueue} {packets : List EventPacket}
    (room : queue.contents.length + (packets.flatMap (packetBytes midiEvent)).length < MIDI_INPUT_QUEUE_LENGTH) :
    (packets.foldl (fun queue packet => midiDeviceInput queue (packetBytes midiEvent packet)) queue).contents =
      queue.contents ++ packets.flatMap (packetBytes midiEvent) := by
  induction packets generalizing queue with
  | nil => exact (List.append_nil _).symm
  | cons packet packets ih =>
    rw [List.flatMap_cons, List.length_append] at room
    have more := contents_midiDeviceInput (show queue.contents.length + (packetBytes midiEvent packet).length < _ by omega)
    rw [List.foldl_cons, ih (by rw [more, List.length_append]; omega), more, List.flatMap_cons, List.append_assoc]

/-- The loop takes everything from the queue. -/
theorem drain_eq (d : Device) (queue : ByteQueue) {n : Nat} (count : queue.count = n) :
    (drain registered d queue n).1 = (processBytes registered d queue.contents).1 ∧
      (drain registered d queue n).2.1.contents = [] ∧
      (drain registered d queue n).2.2 = (processBytes registered d queue.contents).2 := by
  induction n generalizing d queue with
  | zero =>
    have none : queue.contents = [] := by
      rw [← List.length_eq_zero_iff, Ring.contents_length, count]
    rw [none]
    exact ⟨rfl, none, rfl⟩
  | succ n ih =>
    have filled : queue.head ≠ queue.tail := by
      intro same
      have empty : queue.contents = [] := Ring.contents_eq_nil.2 (decide_eq_true same)
      rw [← Ring.contents_length, empty, List.length_nil] at count
      omega
    have taken : queue.dequeue = some (queue.slots queue.tail, queue.popped) := by
      unfold Ring.dequeue
      rw [if_neg filled]
    have contents := Ring.contents_dequeue taken
    have rest : queue.popped.count = n := by
      rw [← Ring.contents_length, contents, List.length_cons] at count
      rw [← Ring.contents_length]
      omega
    obtain ⟨device, empty, calls⟩ := ih (midiProcessByte registered d (queue.slots queue.tail)).1 queue.popped rest
    rw [contents, processBytes_cons]
    exact ⟨device, empty, congrArg _ calls⟩

/-- `midi_device_process` again and again, and the calls it makes -/
def processBatches (midiEvent : Byte → Byte) (d : Device) (queue : ByteQueue) : List (List EventPacket) → List Call
  | [] => []
  | packets :: rest =>
    let after := midiDeviceProcess registered midiEvent d queue packets
    after.2.2 ++ processBatches midiEvent after.1 after.2.1 rest

/-- As long as the queue has room for the packets of each call, nothing depends on how they are spread. -/
theorem processBatches_eq {d : Device} {queue : ByteQueue} (empty : queue.contents = []) {batches : List (List EventPacket)}
    (room : ∀ packets ∈ batches, (packets.flatMap (packetBytes midiEvent)).length < MIDI_INPUT_QUEUE_LENGTH) :
    processBatches registered midiEvent d queue batches =
      (processBytes registered d (batches.flatten.flatMap (packetBytes midiEvent))).2 := by
  induction batches generalizing d queue with
  | nil => rfl
  | cons packets batches ih =>
    have filled := contents_packets
      (show queue.contents.length + (packets.flatMap (packetBytes midiEvent)).length < MIDI_INPUT_QUEUE_LENGTH by
        rw [empty, List.length_nil, Nat.zero_add]
        exact room packets List.mem_cons_self)
    rw [empty, List.nil_append] at filled
    obtain ⟨device, drained, calls⟩ := drain_eq registered d
      (packets.foldl (fun queue packet => midiDeviceInput queue (packetBytes midiEvent packet)) queue) rfl
    rw [filled] at device calls
    unfold processBatches
    dsimp only
    rw [ih (by exact drained) fun packets mem => room packets (List.mem_cons_of_mem _ mem), List.flatten_cons, List.flatMap_append,
      processBytes_append]
    unfold midiDeviceProcess
    dsimp only
    rw [calls, device]

end Queue

/-- **Messages arrive**: of any messages that are sent, with messages in real time between their packets, each one is handed over
once and whole, in order. The calls are listed by the packet that makes them, and one in real time makes its own call, between
those of the packets before it and of those behind it. -/
theorem messages_arrive {midiEvent : Byte → Byte} (apart : KeepsApart midiEvent) (registered : Callbacks) {d : Device}
    {queue : ByteQueue} (ready : d.state ≠ .sysexMessage) (empty : queue.contents = []) {ms : List Message} {sends timed : List Sent}
    (mixed : Interleaved sends (ms.flatMap Message.sends) timed) (real : ∀ sent ∈ timed, sent ∈ realtimeSends)
    {batches : List (List EventPacket)} (packets : batches.flatten = sends.filterMap (usbSendFunc midiEvent))
    (room : ∀ packets ∈ batches, (packets.flatMap (packetBytes midiEvent)).length < MIDI_INPUT_QUEUE_LENGTH) :
    ∃ calls parts, processBatches registered midiEvent d queue batches = calls.flatten ∧ calls.length = sends.length ∧
      List.Forall₂ (DeliversEach registered) ms parts ∧
      Interleaved (sends.zip calls) ((ms.flatMap Message.sends).zip parts.flatten)
        (timed.map fun sent => (sent, realtimeCalls registered sent.byte0)) := by
  have carried : ∀ sent ∈ sends, Carried midiEvent sent := by
    intro sent mem
    rcases mixed.mem mem with message | time
    · obtain ⟨m, -, here⟩ := List.mem_flatMap.1 message
      exact carried_message apart m sent here
    · have lengths : ∀ sent ∈ realtimeSends,
          (midiPacketLength sent.byte0, sent.cnt) ∈ [(PacketLength.one, 1), (.two, 2), (.three, 3)] := by decide
      exact carried_status (lengths sent (real sent time))
  obtain ⟨parts, each, calls⟩ := process_messages registered ready ms
  refine ⟨processSends registered d sends, parts, ?_, length_processSends registered sends, each, ?_⟩
  · rw [processBatches_eq registered empty room, packets, packets_bytes carried, flatten_processSends]
  · rw [← calls]
    exact process_interleaved registered mixed real

/-- The command in the low half, as the USB stack has it -/
theorem keepsApart_shift : KeepsApart fun command => command >>> 4 := by
  have high : ∀ command : Byte, command &&& (0xF0 : Byte) = ((command >>> 4) <<< 4 : Byte) := by decide
  intro a b same
  rw [high, high]
  exact congrArg (fun half : Byte => half <<< 4) same

/-- A note, and a clock message between the two packets of a system exclusive message -/
theorem messages_arrive_note :
    ∃ calls parts, processBatches ⟨fun _ => true, true, false, false⟩ (fun command => command >>> 4) ⟨fun _ => 0, .idle, 0⟩
          (Ring.empty (by decide) 0)
          [[⟨9, 0x91, 60, 100⟩, ⟨4, 0xF0, 5, 6⟩], [⟨0xF, 0xF8, 0, 0⟩, ⟨5, 0xF7, 0, 0⟩]] = calls.flatten ∧ calls.length = 4 ∧
      List.Forall₂ (DeliversEach ⟨fun _ => true, true, false, false⟩) [.noteon 1 60 100, .sysex [5, 6] (by decide)] parts ∧
      Interleaved ([midiSendNoteon 1 60 100, ⟨3, 0xF0, 5, 6⟩, midiSendClock, ⟨1, 0xF7, 0, 0⟩].zip calls)
        ([midiSendNoteon 1 60 100, ⟨3, 0xF0, 5, 6⟩, ⟨1, 0xF7, 0, 0⟩].zip parts.flatten)
        ([midiSendClock].map fun sent => (sent, realtimeCalls ⟨fun _ => true, true, false, false⟩ sent.byte0)) :=
  messages_arrive keepsApart_shift _ (by decide) (Ring.contents_empty ..)
    (show Interleaved [midiSendNoteon 1 60 100, ⟨3, 0xF0, 5, 6⟩, midiSendClock, ⟨1, 0xF7, 0, 0⟩] _ _ from
      .left (.left (.right (.left .nil)))) (by decide) (by decide) (by decide)

end QmkFirmware.Midi
