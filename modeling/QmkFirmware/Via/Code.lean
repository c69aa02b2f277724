import QmkFirmware.Lib.Audited

/-!
# The VIA commands

`raw_hid_receive` of `via.c`, and the functions of `dynamic_keymap.c` that it calls, with
every access to the packet, to the EEPROM and to the matrix noted. The functions that a
keyboard may override are parameters.
-/

namespace QmkFirmware.Via
open Lib Audited

/-- What a keyboard is compiled with. `matrix.h` allows one to 32 columns, and the layout options have
at most four bytes. -/
structure Config where
  matrixRows : Nat
  matrixCols : Nat
  layerCount : Nat
  numEncoders : Nat
  macroCount : UInt8
  keymapAddr : Nat
  encoderAddr : Nat
  macroAddr : Nat
  macroSize : Nat
  magicAddr : Nat
  layoutOptionsAddr : Nat
  layoutOptionsSize : Nat
  layoutOptionsDefault : UInt32
  magic : Nat → UInt8
  firmwareVersion : UInt32
  encoderMap : Bool
  allowReset : Bool
  keymapLayerCount : Nat
  keymaps : Nat → Nat → Nat → UInt16
  encodermapLayerCount : Nat
  encodermaps : Nat → Nat → Bool → UInt16
  cols_pos : 0 < matrixCols
  cols_le : matrixCols ≤ 32
  layoutOptionsSize_le : layoutOptionsSize ≤ 4

/-- The parts of the EEPROM -/
inductive Part where
  | magic | layoutOptions | keymap | encoders | macros
  deriving DecidableEq

inductive Access where
  | packet (index : Nat)
  | eeprom (part : Part) (address : Nat)
  | matrix (row : Nat)
  deriving DecidableEq

/-- The packet, with what lies behind it, and the EEPROM -/
structure State where
  data : Nat → UInt8
  eeprom : Nat → UInt8

def get (i : Nat) (s : State) : Audited Access UInt8 := note (.packet i) (s.data i)

def put (i : Nat) (value : UInt8) (s : State) : Audited Access State :=
  note (.packet i) { s with data := Function.update s.data i value }

def eepromReadByte (part : Part) (address : Nat) (s : State) : Audited Access UInt8 :=
  note (.eeprom part address) (s.eeprom address)

def eepromUpdateByte (part : Part) (address : Nat) (value : UInt8) (s : State) : Audited Access State :=
  note (.eeprom part address) { s with eeprom := Function.update s.eeprom address value }

variable (c : Config)

/-! ## The layout options and the magic number -/

/-- `via_get_layout_options` -/
def viaGetLayoutOptions (s : State) : Audited Access UInt32 :=
  loop (fun i value => do
    pure (value <<< 8 ||| (← eepromReadByte .layoutOptions (c.layoutOptionsAddr + i) s).toUInt32)) c.layoutOptionsSize 0

/-- `via_set_layout_options`; the target goes down. -/
def viaSetLayoutOptions (value : UInt32) (s : State) : Audited Access State := do
  let (s, _) ← loop (fun i (s, value) => do
    let s ← eepromUpdateByte .layoutOptions (c.layoutOptionsAddr + c.layoutOptionsSize - 1 - i) value.toUInt8 s
    pure (s, value >>> 8)) c.layoutOptionsSize (s, value)
  pure s

/-- `via_eeprom_set_valid` -/
def viaEepromSetValid (valid : Bool) (s : State) : Audited Access State := do
  let s ← eepromUpdateByte .magic c.magicAddr (if valid then c.magic 0 else 0xFF) s
  let s ← eepromUpdateByte .magic (c.magicAddr + 1) (if valid then c.magic 1 else 0xFF) s
  eepromUpdateByte .magic (c.magicAddr + 2) (if valid then c.magic 2 else 0xFF) s

/-! ## The keymap -/

/-- `dynamic_keymap_key_to_eeprom_address` -/
def keyToEepromAddress (layer row column : Nat) : Nat :=
  c.keymapAddr + layer * c.matrixRows * c.matrixCols * 2 + row * c.matrixCols * 2 + column * 2

/-- `dynamic_keymap_get_keycode` -/
def dynamicKeymapGetKeycode (layer row column : UInt8) (s : State) : Audited Access UInt16 :=
  if c.layerCount ≤ layer.toNat ∨ c.matrixRows ≤ row.toNat ∨ c.matrixCols ≤ column.toNat then pure 0
  else do
    let address := keyToEepromAddress c layer.toNat row.toNat column.toNat
    let high ← eepromReadByte .keymap address s
    let low ← eepromReadByte .keymap (address + 1) s
    pure (high.toUInt16 <<< 8 ||| low.toUInt16)

/-- `dynamic_keymap_set_keycode` -/
def dynamicKeymapSetKeycode (layer row column : UInt8) (keycode : UInt16) (s : State) : Audited Access State :=
  if c.layerCount ≤ layer.toNat ∨ c.matrixRows ≤ row.toNat ∨ c.matrixCols ≤ column.toNat then pure s
  else do
    let address := keyToEepromAddress c layer.toNat row.toNat column.toNat
    let s ← eepromUpdateByte .keymap address (keycode >>> 8).toUInt8 s
    eepromUpdateByte .keymap (address + 1) keycode.toUInt8 s

/-- `dynamic_keymap_encoder_to_eeprom_address` -/
def encoderToEepromAddress (layer encoder : Nat) : Nat :=
  c.encoderAddr + layer * c.numEncoders * 2 * 2 + encoder * 2 * 2

/-- `dynamic_keymap_get_encoder` -/
def dynamicKeymapGetEncoder (layer encoder : UInt8) (clockwise : Bool) (s : State) : Audited Access UInt16 :=
  if c.layerCount ≤ layer.toNat ∨ c.numEncoders ≤ encoder.toNat then pure 0
  else do
    let address := encoderToEepromAddress c layer.toNat encoder.toNat + if clockwise then 0 else 2
    let high ← eepromReadByte .encoders address s
    let low ← eepromReadByte .encoders (address + 1) s
    pure (high.toUInt16 <<< 8 ||| low.toUInt16)

/-- `dynamic_keymap_set_encoder` -/
def dynamicKeymapSetEncoder (layer encoder : UInt8) (clockwise : Bool) (keycode : UInt16) (s : State) :
    Audited Access State :=
  if c.layerCount ≤ layer.toNat ∨ c.numEncoders ≤ encoder.toNat then pure s
  else do
    let address := encoderToEepromAddress c layer.toNat encoder.toNat + if clockwise then 0 else 2
    let s ← eepromUpdateByte .encoders address (keycode >>> 8).toUInt8 s
    eepromUpdateByte .encoders (address + 1) keycode.toUInt8 s

/-- `KC_TRANSPARENT` -/
def kcTransparent : UInt16 := 0x0001

/-- The encoders of a layer in `dynamic_keymap_reset` -/
def resetEncoders (layer : Nat) (s : State) : Audited Access State :=
  loop (fun encoder s =>
    if layer < c.encodermapLayerCount then do
      let s ← dynamicKeymapSetEncoder c (.ofNat layer) (.ofNat encoder) true (c.encodermaps layer encoder true) s
      dynamicKeymapSetEncoder c (.ofNat layer) (.ofNat encoder) false (c.encodermaps layer encoder false) s
    else do
      let s ← dynamicKeymapSetEncoder c (.ofNat layer) (.ofNat encoder) true kcTransparent s
      dynamicKeymapSetEncoder c (.ofNat layer) (.ofNat encoder) false kcTransparent s) c.numEncoders s

/-- `dynamic_keymap_reset` -/
def dynamicKeymapReset (s : State) : Audited Access State :=
  loop (fun layer s => do
    let s ← loop (fun row s =>
      loop (fun column s =>
        dynamicKeymapSetKeycode c (.ofNat layer) (.ofNat row) (.ofNat column)
          (if layer < c.keymapLayerCount then c.keymaps layer row column else kcTransparent) s) c.matrixCols s) c.matrixRows s
    if c.encoderMap then resetEncoders c layer s else pure s) c.layerCount s

/-! ## The buffers -/

/-- The loop of the two functions that read a buffer: the bytes behind the end of the part are zero. -/
def getBuffer (part : Part) (start eepromSize : Nat) (offset size : UInt16) (target : Nat) (s : State) :
    Audited Access State :=
  loop (fun i s =>
    if offset.toNat + i < eepromSize then do put (target + i) (← eepromReadByte part (start + offset.toNat + i) s) s
    else put (target + i) 0x00 s) size.toNat s

/-- The loop of the two functions that write a buffer -/
def setBuffer (part : Part) (start eepromSize : Nat) (offset size : UInt16) (source : Nat) (s : State) :
    Audited Access State :=
  loop (fun i s =>
    if offset.toNat + i < eepromSize then do
      eepromUpdateByte part (start + offset.toNat + i) (← get (source + i) s) s
    else pure s) size.toNat s

/-- `dynamic_keymap_eeprom_size`, a `uint16_t` -/
def dynamicKeymapEepromSize : Nat := c.layerCount * c.matrixRows * c.matrixCols * 2 % 2 ^ 16

/-- `dynamic_keymap_get_buffer` -/
def dynamicKeymapGetBuffer (offset size : UInt16) (data : Nat) (s : State) : Audited Access State :=
  getBuffer .keymap c.keymapAddr (dynamicKeymapEepromSize c) offset size data s

/-- `dynamic_keymap_set_buffer` -/
def dynamicKeymapSetBuffer (offset size : UInt16) (data : Nat) (s : State) : Audited Access State :=
  setBuffer .keymap c.keymapAddr (dynamicKeymapEepromSize c) offset size data s

/-- `dynamic_keymap_macro_get_buffer` -/
def dynamicKeymapMacroGetBuffer (offset size : UInt16) (data : Nat) (s : State) : Audited Access State :=
  getBuffer .macros c.macroAddr c.macroSize offset size data s

/-- `dynamic_keymap_macro_set_buffer` -/
def dynamicKeymapMacroSetBuffer (offset size : UInt16) (data : Nat) (s : State) : Audited Access State :=
  setBuffer .macros c.macroAddr c.macroSize offset size data s

/-- `dynamic_keymap_macro_reset` -/
def dynamicKeymapMacroReset (s : State) : Audited Access State :=
  loop (fun i s => eepromUpdateByte .macros (c.macroAddr + i) 0 s) c.macroSize s

/-- `eeconfig_init_via` -/
def eeconfigInitVia (s : State) : Audited Access State := do
  let s ← viaEepromSetValid c false s
  let s ← viaSetLayoutOptions c c.layoutOptionsDefault s
  let s ← dynamicKeymapReset c s
  let s ← dynamicKeymapMacroReset c s
  viaEepromSetValid c true s

/-! ## The commands -/

/-- `via_command_id` -/
inductive CommandId where
  | getProtocolVersion | getKeyboardValue | setKeyboardValue | dynamicKeymapGetKeycode | dynamicKeymapSetKeycode
  | dynamicKeymapReset | customSetValue | customGetValue | customSave | eepromReset | bootloaderJump
  | dynamicKeymapMacroGetCount | dynamicKeymapMacroGetBufferSize | dynamicKeymapMacroGetBuffer
  | dynamicKeymapMacroSetBuffer | dynamicKeymapMacroReset | dynamicKeymapGetLayerCount | dynamicKeymapGetBuffer
  | dynamicKeymapSetBuffer | dynamicKeymapGetEncoder | dynamicKeymapSetEncoder
  deriving DecidableEq

def CommandId.ofByte (byte : UInt8) : Option CommandId :=
  match byte.toNat with
  | 0x01 => some .getProtocolVersion
  | 0x02 => some .getKeyboardValue
  | 0x03 => some .setKeyboardValue
  | 0x04 => some .dynamicKeymapGetKeycode
  | 0x05 => some .dynamicKeymapSetKeycode
  | 0x06 => some .dynamicKeymapReset
  | 0x07 => some .customSetValue
  | 0x08 => some .customGetValue
  | 0x09 => some .customSave
  | 0x0A => some .eepromReset
  | 0x0B => some .bootloaderJump
  | 0x0C => some .dynamicKeymapMacroGetCount
  | 0x0D => some .dynamicKeymapMacroGetBufferSize
  | 0x0E => some .dynamicKeymapMacroGetBuffer
  | 0x0F => some .dynamicKeymapMacroSetBuffer
  | 0x10 => some .dynamicKeymapMacroReset
  | 0x11 => some .dynamicKeymapGetLayerCount
  | 0x12 => some .dynamicKeymapGetBuffer
  | 0x13 => some .dynamicKeymapSetBuffer
  | 0x14 => some .dynamicKeymapGetEncoder
  | 0x15 => some .dynamicKeymapSetEncoder
  | _ => none

/-- What a keyboard may override, and what the rest of the firmware says -/
structure Env where
  viaCommandKb : State → State × Bool
  viaCustomValueCommand : State → State
  timerRead32 : UInt32
  matrixGetRow : Nat → UInt32

variable (env : Env)

/-- `*command_id = id_unhandled` -/
def unhandled (s : State) : Audited Access State := put 0 0xFF s

/-- Two bytes of the packet, the most significant one first -/
def putWord (i : Nat) (value : UInt16) (s : State) : Audited Access State := do
  let s ← put i (value >>> 8).toUInt8 s
  put (i + 1) value.toUInt8 s

/-- Four bytes of the packet, the most significant one first -/
def putLong (i : Nat) (value : UInt32) (s : State) : Audited Access State := do
  let s ← put i (value >>> 24).toUInt8 s
  let s ← put (i + 1) (value >>> 16).toUInt8 s
  let s ← put (i + 2) (value >>> 8).toUInt8 s
  put (i + 3) value.toUInt8 s

/-- `(command_data[i] << 8) | command_data[i + 1]` -/
def getWord (i : Nat) (s : State) : Audited Access UInt16 := do
  let high ← get i s
  let low ← get (i + 1) s
  pure (high.toUInt16 <<< 8 ||| low.toUInt16)

/-- `command_data[i++] = value & 0xFF`, where the columns ask for the byte -/
def putByte (wanted : Bool) (value : UInt32) (s : State × Nat) : Audited Access (State × Nat) :=
  if wanted then do pure (← put (1 + s.2) value.toUInt8 s.1, s.2 + 1) else pure s

/-- A row of `id_switch_matrix_state` -/
def putRow (offset : UInt8) (row : Nat) (s : State × Nat) : Audited Access (State × Nat) := do
  let value ← note (.matrix (row + offset.toNat)) (env.matrixGetRow (row + offset.toNat))
  let s ← putByte (24 < c.matrixCols) (value >>> 24) s
  let s ← putByte (16 < c.matrixCols) (value >>> 16) s
  let s ← putByte (8 < c.matrixCols) (value >>> 8) s
  putByte true value s

/-- `id_switch_matrix_state`: the rows that fit, up to the last one -/
def switchMatrixState (s : State) : Audited Access State := do
  let offset ← get 2 s
  let rows := 28 / ((c.matrixCols + 7) / 8)
  let (s, _) ← loop (putRow c env offset) (min rows (c.matrixRows - offset.toNat)) (s, 2)
  pure s

/-- `id_get_keyboard_value` -/
def getKeyboardValue (s : State) : Audited Access State := do
  let value ← get 1 s
  if value = 0x01 then putLong 2 env.timerRead32 s
  else if value = 0x02 then putLong 2 (← viaGetLayoutOptions c s) s
  else if value = 0x03 then switchMatrixState c env s
  else if value = 0x04 then putLong 2 c.firmwareVersion s
  else unhandled s

/-- `id_set_keyboard_value` -/
def setKeyboardValue (s : State) : Audited Access State := do
  let value ← get 1 s
  if value = 0x02 then
    let high ← getWord 2 s
    let low ← getWord 4 s
    viaSetLayoutOptions c (high.toUInt32 <<< 16 ||| low.toUInt32) s
  else if value = 0x05 then
    let _ ← get 2 s
    pure s
  else unhandled s

/-- The `switch` of `raw_hid_receive` -/
def command (s : State) : Option CommandId → Audited Access State
  | some .getProtocolVersion => putWord 1 0x000C s
  | some .getKeyboardValue => getKeyboardValue c env s
  | some .setKeyboardValue => setKeyboardValue c s
  | some .dynamicKeymapGetKeycode => do
    putWord 4 (← dynamicKeymapGetKeycode c (← get 1 s) (← get 2 s) (← get 3 s) s) s
  | some .dynamicKeymapSetKeycode => do
    dynamicKeymapSetKeycode c (← get 1 s) (← get 2 s) (← get 3 s) (← getWord 4 s) s
  | some .dynamicKeymapReset => dynamicKeymapReset c s
  | some .customSetValue | some .customGetValue | some .customSave => pure (env.viaCustomValueCommand s)
  | some .eepromReset =>
    if c.allowReset then do
      let s ← viaEepromSetValid c false s
      eeconfigInitVia c s
    else unhandled s
  | some .dynamicKeymapMacroGetCount => put 1 c.macroCount s
  | some .dynamicKeymapMacroGetBufferSize => putWord 1 (.ofNat c.macroSize) s
  | some .dynamicKeymapMacroGetBuffer => do
    dynamicKeymapMacroGetBuffer c (← getWord 1 s) (← get 3 s).toUInt16 4 s
  | some .dynamicKeymapMacroSetBuffer => do
    dynamicKeymapMacroSetBuffer c (← getWord 1 s) (← get 3 s).toUInt16 4 s
  | some .dynamicKeymapMacroReset => dynamicKeymapMacroReset c s
  | some .dynamicKeymapGetLayerCount => put 1 (.ofNat c.layerCount) s
  | some .dynamicKeymapGetBuffer => do
    dynamicKeymapGetBuffer c (← getWord 1 s) (← get 3 s).toUInt16 4 s
  | some .dynamicKeymapSetBuffer => do
    dynamicKeymapSetBuffer c (← getWord 1 s) (← get 3 s).toUInt16 4 s
  | some .dynamicKeymapGetEncoder =>
    if c.encoderMap then do
      putWord 4 (← dynamicKeymapGetEncoder c (← get 1 s) (← get 2 s) ((← get 3 s) != 0) s) s
    else unhandled s
  | some .dynamicKeymapSetEncoder =>
    if c.encoderMap then do
      dynamicKeymapSetEncoder c (← get 1 s) (← get 2 s) ((← get 3 s) != 0) (← getWord 4 s) s
    else unhandled s
  | some .bootloaderJump | none => unhandled s

/-- `raw_hid_send` of the packet -/
def rawHidSend (s : State) : Audited Access (List UInt8) :=
  loop (fun i bytes => do pure (bytes ++ [← get i s])) 32 []

/-- `raw_hid_receive` of a packet of 32 bytes: the state after it, and what it sends -/
def rawHidReceive (s : State) : Audited Access (State × List UInt8) :=
  let (s, handled) := env.viaCommandKb s
  if handled then pure (s, [])
  else do
    let s ← command c env s (CommandId.ofByte (← get 0 s))
    let sent ← rawHidSend s
    pure (s, sent)

end QmkFirmware.Via
