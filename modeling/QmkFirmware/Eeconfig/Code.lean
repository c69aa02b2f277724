import QmkFirmware.Lib.Writes

/-!
# The settings in the EEPROM

`eeconfig.c`, and what `via.c` and `dynamic_keymap.c` write for it: `eeconfig_init` as the list
of the bytes that it writes, one after the other, and the two markers by which the next boot
tells whether the settings are valid. An update that finds the value there already writes
nothing; in a list of writes that makes no difference.
-/

namespace QmkFirmware.Eeconfig
open Lib

/-- A byte that is written to the EEPROM -/
abbrev Write := Nat × BitVec 8

/-! ## The configuration -/

/-- `eeprom_driver_erase`: how many bytes there are and what they are afterwards, which is not the low byte of the magic number -/
structure Driver where
  size : Nat
  blank : BitVec 8
  blank_ne : blank ≠ 0xE7

/-- The encoder map of `ENCODER_MAP_ENABLE`: `NUM_ENCODERS`, `encodermap_layer_count` and `keycode_at_encodermap_location_raw` -/
structure EncoderMap where
  numEncoders : Nat
  encodermapLayerCount : Nat
  keycode : Nat → Nat → Bool → BitVec 16

/-- What is configured with `VIA_ENABLE`. `QMK_BUILDDATE` is a date such as 2019-11-05-11:29:54. -/
structure Via where
  buildDate : Nat → BitVec 8
  digits : ∀ i ∈ [2, 3, 5, 6, 8, 9], 0x30 ≤ (buildDate i).toNat ∧ (buildDate i).toNat ≤ 0x39
  layoutOptionsSize : Nat
  layoutOptionsDefault : BitVec 32
  customConfigSize : Nat
  layerCount : Nat
  matrixRows : Nat
  matrixCols : Nat
  keymapLayerCount : Nat
  keymap : Nat → Nat → Nat → BitVec 16
  encoderMap : Option EncoderMap
  macroEepromSize : Nat

/-- `EEPROM_DRIVER`, the value that `haptic_reset` saves with `HAPTIC_ENABLE`, the sizes and versions of the data blocks, and
`VIA_ENABLE` -/
structure Config where
  driver : Option Driver
  hapticReset : Option (BitVec 32)
  kbDataSize : Nat
  kbDataVersion : BitVec 32
  userDataSize : Nat
  userDataVersion : BitVec 32
  via : Option Via

/-! ## Writing -/

/-- `eeprom_update_byte` -/
def eepromUpdateByte (a : Nat) (value : BitVec 8) : List Write := block a [value]

/-- `eeprom_update_word`, the low byte first -/
def eepromUpdateWord (a : Nat) (value : BitVec 16) : List Write := block a [value.setWidth 8, (value >>> 8).setWidth 8]

/-- `eeprom_update_dword`, the low byte first -/
def eepromUpdateDword (a : Nat) (value : BitVec 32) : List Write :=
  block a [value.setWidth 8, (value >>> 8).setWidth 8, (value >>> 16).setWidth 8, (value >>> 24).setWidth 8]

/-- `eeprom_driver_erase`, the lowest address first -/
def Driver.erase (d : Driver) : List Write := block 0 (List.replicate d.size d.blank)

namespace Config

variable (cfg : Config)

/-- `EECONFIG_SIZE` -/
def eeconfigSize : Nat := 34 + cfg.kbDataSize + cfg.userDataSize

/-! ## VIA -/

/-- `VIA_EEPROM_MAGIC_ADDR` -/
def viaMagicAddr : Nat := cfg.eeconfigSize
/-- `VIA_EEPROM_LAYOUT_OPTIONS_ADDR` -/
def viaLayoutOptionsAddr : Nat := cfg.viaMagicAddr + 3

end Config

/-- A byte of the magic number of VIA: two digits of the date -/
def Via.magic (v : Via) (i : Nat) : BitVec 8 := (v.buildDate (3 * i + 2) &&& 0x0F) <<< 4 ||| (v.buildDate (3 * i + 3) &&& 0x0F)

namespace Config

variable (cfg : Config) (v : Via)

/-- `VIA_EEPROM_CONFIG_END`, where the keymaps start -/
def keymapAddr : Nat := cfg.viaLayoutOptionsAddr + v.layoutOptionsSize + v.customConfigSize
/-- `DYNAMIC_KEYMAP_ENCODER_EEPROM_ADDR` -/
def encoderAddr : Nat := cfg.keymapAddr v + v.layerCount * v.matrixRows * v.matrixCols * 2
/-- `DYNAMIC_KEYMAP_MACRO_EEPROM_ADDR` -/
def macroAddr : Nat := cfg.encoderAddr v + match v.encoderMap with
  | none => 0
  | some e => v.layerCount * e.numEncoders * 2 * 2

/-- `via_eeprom_is_valid` -/
def viaEepromIsValid (m : Nat → BitVec 8) : Bool :=
  m (cfg.viaMagicAddr + 0) = v.magic 0 ∧ m (cfg.viaMagicAddr + 1) = v.magic 1 ∧ m (cfg.viaMagicAddr + 2) = v.magic 2

/-- `via_eeprom_set_valid` -/
def viaEepromSetValid (valid : Bool) : List Write :=
  eepromUpdateByte (cfg.viaMagicAddr + 0) (if valid then v.magic 0 else 0xFF) ++
    eepromUpdateByte (cfg.viaMagicAddr + 1) (if valid then v.magic 1 else 0xFF) ++
    eepromUpdateByte (cfg.viaMagicAddr + 2) (if valid then v.magic 2 else 0xFF)

/-- `via_set_layout_options`, the least significant byte first, which has the highest address -/
def viaSetLayoutOptions (value : BitVec 32) : List Write :=
  (List.range v.layoutOptionsSize).flatMap fun i =>
    eepromUpdateByte (cfg.viaLayoutOptionsAddr + (v.layoutOptionsSize - 1 - i)) ((value >>> (8 * i)).setWidth 8)

/-- Two bytes, the high one first -/
def updateKeycode (a : Nat) (keycode : BitVec 16) : List Write :=
  eepromUpdateByte a ((keycode >>> 8).setWidth 8) ++ eepromUpdateByte (a + 1) (keycode.setWidth 8)

/-- `dynamic_keymap_set_keycode` -/
def dynamicKeymapSetKeycode (layer row column : Nat) (keycode : BitVec 16) : List Write :=
  if v.layerCount ≤ layer ∨ v.matrixRows ≤ row ∨ v.matrixCols ≤ column then []
  else updateKeycode (cfg.keymapAddr v + layer * v.matrixRows * v.matrixCols * 2 + row * v.matrixCols * 2 + column * 2) keycode

/-- `dynamic_keymap_set_encoder` -/
def dynamicKeymapSetEncoder (e : EncoderMap) (layer encoder : Nat) (clockwise : Bool) (keycode : BitVec 16) : List Write :=
  if v.layerCount ≤ layer ∨ e.numEncoders ≤ encoder then []
  else
    let address := cfg.encoderAddr v + layer * e.numEncoders * 2 * 2 + encoder * 2 * 2
    updateKeycode (address + if clockwise then 0 else 2) keycode

/-- `dynamic_keymap_reset`; layers that are not in flash are `KC_TRANSPARENT`. -/
def dynamicKeymapReset : List Write :=
  (List.range v.layerCount).flatMap fun layer =>
    ((List.range v.matrixRows).flatMap fun row => (List.range v.matrixCols).flatMap fun column =>
      cfg.dynamicKeymapSetKeycode v layer row column (if layer < v.keymapLayerCount then v.keymap layer row column else 1)) ++
    match v.encoderMap with
    | none => []
    | some e => (List.range e.numEncoders).flatMap fun encoder =>
      let keycode := fun clockwise => if layer < e.encodermapLayerCount then e.keycode layer encoder clockwise else 1
      cfg.dynamicKeymapSetEncoder v e layer encoder true (keycode true) ++
        cfg.dynamicKeymapSetEncoder v e layer encoder false (keycode false)

/-- `dynamic_keymap_macro_reset` -/
def dynamicKeymapMacroReset : List Write := block (cfg.macroAddr v) (List.replicate v.macroEepromSize 0)

/-- What `eeconfig_init_via` writes between the two changes of its marker -/
def viaSettings : List Write :=
  cfg.viaSetLayoutOptions v v.layoutOptionsDefault ++ cfg.dynamicKeymapReset v ++ cfg.dynamicKeymapMacroReset v

/-- `eeconfig_init_via` -/
def eeconfigInitVia : List Write := cfg.viaEepromSetValid v false ++ cfg.viaSettings v ++ cfg.viaEepromSetValid v true

/-! ## The core -/

/-- `eeconfig_update_kb_datablock` with a block of zeros -/
def eeconfigInitKbDatablock : List Write :=
  eepromUpdateDword 15 cfg.kbDataVersion ++ block 34 (List.replicate cfg.kbDataSize 0)

/-- `eeconfig_update_user_datablock` with a block of zeros -/
def eeconfigInitUserDatablock : List Write :=
  eepromUpdateDword 19 cfg.userDataVersion ++ block (34 + cfg.kbDataSize) (List.replicate cfg.userDataSize 0)

/-- The settings of fixed size, the magic number first and the haptic feedback twice -/
def fixedSettings : List Write :=
  eepromUpdateWord 0 0xFEE7 ++ eepromUpdateByte 2 0 ++ eepromUpdateByte 3 0 ++ eepromUpdateWord 4 0x1400 ++
    eepromUpdateByte 6 0 ++ eepromUpdateByte 7 0xFF ++ eepromUpdateDword 8 0 ++ eepromUpdateByte 13 0 ++ eepromUpdateDword 24 0 ++
    eepromUpdateByte 23 0 ++ eepromUpdateDword 28 0 ++ eepromUpdateWord 32 0 ++ eepromUpdateDword 24 (cfg.hapticReset.getD 0)

/-- `eeconfig_init_quantum` before VIA -/
def coreSettings : List Write :=
  cfg.fixedSettings ++ (if 0 < cfg.kbDataSize then cfg.eeconfigInitKbDatablock else []) ++
    if 0 < cfg.userDataSize then cfg.eeconfigInitUserDatablock else []

/-- `eeconfig_init_quantum` for VIA -/
def viaPart : List Write := match cfg.via with
  | none => []
  | some v => cfg.viaEepromSetValid v false ++ cfg.eeconfigInitVia v

/-- `eeconfig_init_kb` with `eeconfig_init_user` -/
def eeconfigInitKb : List Write :=
  (if cfg.kbDataSize = 0 then eepromUpdateDword 15 0 else []) ++ if cfg.userDataSize = 0 then eepromUpdateDword 19 0 else []

/-- What `eeconfig_init` writes after the EEPROM has been erased -/
def settings : List Write := cfg.coreSettings ++ cfg.viaPart ++ cfg.eeconfigInitKb

/-- The erasing that `eeconfig_init` starts with -/
def erasing : List Write := match cfg.driver with
  | none => []
  | some d => d.erase

/-- `eeconfig_init` -/
def eeconfigInit : List Write := cfg.erasing ++ cfg.settings

/-- `eeconfig_is_enabled` -/
def eeconfigIsEnabled (m : Nat → BitVec 8) : Bool :=
  (m 0 = 0xE7 ∧ m 1 = 0xFE) && match cfg.via with
    | none => true
    | some v => cfg.viaEepromIsValid v m

/-- The defaults, as a whole run of `eeconfig_init` leaves them -/
def defaults : Nat → BitVec 8 := store (fun _ => 0) cfg.settings

end Config

end QmkFirmware.Eeconfig
