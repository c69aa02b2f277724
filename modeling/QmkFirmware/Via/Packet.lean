import QmkFirmware.Via.Code

/-!
# Packets that stay inside

Every access of a command is to the 32 bytes of the packet or to the part of the EEPROM
that the command is about, except that the four buffer commands go through the packet as
far as the size in it says.
-/

namespace QmkFirmware.Via
open Lib Audited

variable {c : Config} {env : Env} {s : State}

/-- Where a part of the EEPROM begins, and its size -/
def region (c : Config) : Part → Nat × Nat
  | .magic => (c.magicAddr, 3)
  | .layoutOptions => (c.layoutOptionsAddr, c.layoutOptionsSize)
  | .keymap => (c.keymapAddr, c.layerCount * c.matrixRows * c.matrixCols * 2)
  | .encoders => (c.encoderAddr, c.layerCount * c.numEncoders * 2 * 2)
  | .macros => (c.macroAddr, c.macroSize)

/-- An access is to the packet, to the part of the EEPROM that it is meant for, or to a row of the matrix. -/
def Access.Inside (c : Config) : Access → Prop
  | .packet i => i < 32
  | .eeprom part address => (region c part).1 ≤ address ∧ address < (region c part).1 + (region c part).2
  | .matrix row => row < c.matrixRows

instance (c : Config) : DecidablePred (Access.Inside c)
  | .packet i => inferInstanceAs (Decidable (i < 32))
  | .eeprom _ _ => inferInstanceAs (Decidable (_ ∧ _))
  | .matrix row => inferInstanceAs (Decidable (row < c.matrixRows))

@[simp] theorem safe_get (i : Nat) : (get i s).Safe (Access.Inside c) ↔ i < 32 := safe_note _ _

@[simp] theorem safe_put (i : Nat) (value : UInt8) : (put i value s).Safe (Access.Inside c) ↔ i < 32 := safe_note _ _

@[simp] theorem safe_eepromReadByte (part : Part) (address : Nat) :
    (eepromReadByte part address s).Safe (Access.Inside c) ↔ Access.Inside c (.eeprom part address) := safe_note _ _

@[simp] theorem safe_eepromUpdateByte (part : Part) (address : Nat) (value : UInt8) :
    (eepromUpdateByte part address value s).Safe (Access.Inside c) ↔ Access.Inside c (.eeprom part address) := safe_note _ _

theorem putWord_safe {i : Nat} {value : UInt16} (fits : i + 1 < 32) : (putWord i value s).Safe (Access.Inside c) := by
  unfold putWord
  rw [safe_bind, safe_put, safe_put]
  constructor <;> omega

theorem putLong_safe {i : Nat} {value : UInt32} (fits : i + 3 < 32) : (putLong i value s).Safe (Access.Inside c) := by
  unfold putLong
  simp only [safe_bind, safe_put]
  omega

theorem getWord_safe {i : Nat} (fits : i + 1 < 32) : (getWord i s).Safe (Access.Inside c) := by
  unfold getWord
  simp only [safe_bind, safe_get, safe_pure, and_true]
  omega

theorem unhandled_safe : (unhandled s).Safe (Access.Inside c) := (safe_put 0 _).mpr (by decide)

/-! ## The parts of the EEPROM -/

theorem viaGetLayoutOptions_safe : (viaGetLayoutOptions c s).Safe (Access.Inside c) := by
  unfold viaGetLayoutOptions
  rw [safe_loop]
  intro i hi
  simp only [safe_bind, safe_eepromReadByte, safe_pure, and_true]
  exact ⟨Nat.le_add_right _ _, Nat.add_lt_add_left hi _⟩

theorem viaSetLayoutOptions_safe {value : UInt32} : (viaSetLayoutOptions c value s).Safe (Access.Inside c) := by
  unfold viaSetLayoutOptions
  simp only [safe_bind, safe_loop, safe_eepromUpdateByte, safe_pure, and_true]
  intro i hi
  constructor
  · change c.layoutOptionsAddr ≤ _
    omega
  · change _ < c.layoutOptionsAddr + c.layoutOptionsSize
    omega

theorem viaEepromSetValid_safe {valid : Bool} : (viaEepromSetValid c valid s).Safe (Access.Inside c) := by
  unfold viaEepromSetValid
  simp only [safe_bind, safe_eepromUpdateByte]
  unfold Access.Inside region
  dsimp only
  omega

/-- The address of a key and the one behind it are in the keymap. -/
theorem keyToEepromAddress_inside {layer row column k : Nat} (hl : layer < c.layerCount) (hr : row < c.matrixRows)
    (hc : column < c.matrixCols) (hk : k < 2) : Access.Inside c (.eeprom .keymap (keyToEepromAddress c layer row column + k)) := by
  have rows : row * c.matrixCols + c.matrixCols ≤ c.matrixRows * c.matrixCols :=
    (Nat.succ_mul row c.matrixCols).symm.trans_le (Nat.mul_le_mul_right _ hr)
  have layers : layer * (c.matrixRows * c.matrixCols) + c.matrixRows * c.matrixCols ≤
      c.layerCount * (c.matrixRows * c.matrixCols) :=
    (Nat.succ_mul layer _).symm.trans_le (Nat.mul_le_mul_right _ hl)
  constructor
  · change c.keymapAddr ≤ _
    unfold keyToEepromAddress
    omega
  · change _ < c.keymapAddr + c.layerCount * c.matrixRows * c.matrixCols * 2
    unfold keyToEepromAddress
    rw [Nat.mul_assoc layer, Nat.mul_assoc c.layerCount]
    omega

theorem dynamicKeymapGetKeycode_safe {layer row column : UInt8} :
    (dynamicKeymapGetKeycode c layer row column s).Safe (Access.Inside c) := by
  unfold dynamicKeymapGetKeycode
  split
  · exact safe_pure _
  next valid =>
    simp only [not_or, Nat.not_le] at valid
    obtain ⟨hl, hr, hc⟩ := valid
    simp only [safe_bind, safe_eepromReadByte, safe_pure, and_true]
    exact ⟨@keyToEepromAddress_inside c _ _ _ 0 hl hr hc (by decide), keyToEepromAddress_inside hl hr hc (by decide)⟩

theorem dynamicKeymapSetKeycode_safe {layer row column : UInt8} {keycode : UInt16} :
    (dynamicKeymapSetKeycode c layer row column keycode s).Safe (Access.Inside c) := by
  unfold dynamicKeymapSetKeycode
  split
  · exact safe_pure _
  next valid =>
    simp only [not_or, Nat.not_le] at valid
    obtain ⟨hl, hr, hc⟩ := valid
    simp only [safe_bind, safe_eepromUpdateByte]
    exact ⟨@keyToEepromAddress_inside c _ _ _ 0 hl hr hc (by decide), keyToEepromAddress_inside hl hr hc (by decide)⟩

/-- The addresses of an encoder are in their part. -/
theorem encoderToEepromAddress_inside {layer encoder k : Nat} (hl : layer < c.layerCount) (he : encoder < c.numEncoders)
    (hk : k < 4) : Access.Inside c (.eeprom .encoders (encoderToEepromAddress c layer encoder + k)) := by
  have layers : layer * c.numEncoders + c.numEncoders ≤ c.layerCount * c.numEncoders :=
    (Nat.succ_mul layer _).symm.trans_le (Nat.mul_le_mul_right _ hl)
  constructor
  · change c.encoderAddr ≤ _
    unfold encoderToEepromAddress
    omega
  · change _ < c.encoderAddr + c.layerCount * c.numEncoders * 2 * 2
    unfold encoderToEepromAddress
    omega

theorem dynamicKeymapGetEncoder_safe {layer encoder : UInt8} {clockwise : Bool} :
    (dynamicKeymapGetEncoder c layer encoder clockwise s).Safe (Access.Inside c) := by
  unfold dynamicKeymapGetEncoder
  split
  · exact safe_pure _
  next valid =>
    simp only [not_or, Nat.not_le] at valid
    simp only [safe_bind, safe_eepromReadByte, safe_pure, and_true, Nat.add_assoc]
    constructor
    · exact encoderToEepromAddress_inside valid.1 valid.2 (by cases clockwise <;> decide)
    · exact encoderToEepromAddress_inside valid.1 valid.2 (by cases clockwise <;> decide)

theorem dynamicKeymapSetEncoder_safe {layer encoder : UInt8} {clockwise : Bool} {keycode : UInt16} :
    (dynamicKeymapSetEncoder c layer encoder clockwise keycode s).Safe (Access.Inside c) := by
  unfold dynamicKeymapSetEncoder
  split
  · exact safe_pure _
  next valid =>
    simp only [not_or, Nat.not_le] at valid
    simp only [safe_bind, safe_eepromUpdateByte, Nat.add_assoc]
    constructor
    · exact encoderToEepromAddress_inside valid.1 valid.2 (by cases clockwise <;> decide)
    · exact encoderToEepromAddress_inside valid.1 valid.2 (by cases clockwise <;> decide)

theorem resetEncoders_safe {layer : Nat} : (resetEncoders c layer s).Safe (Access.Inside c) := by
  unfold resetEncoders
  rw [safe_loop]
  intro i _
  split
  · rw [safe_bind]
    exact ⟨dynamicKeymapSetEncoder_safe, dynamicKeymapSetEncoder_safe⟩
  · rw [safe_bind]
    exact ⟨dynamicKeymapSetEncoder_safe, dynamicKeymapSetEncoder_safe⟩

theorem dynamicKeymapReset_safe : (dynamicKeymapReset c s).Safe (Access.Inside c) := by
  unfold dynamicKeymapReset
  simp only [safe_loop, safe_bind]
  intro layer _
  constructor
  · exact fun row _ column _ => dynamicKeymapSetKeycode_safe
  · split
    · exact resetEncoders_safe
    · exact safe_pure _

theorem dynamicKeymapMacroReset_safe : (dynamicKeymapMacroReset c s).Safe (Access.Inside c) := by
  unfold dynamicKeymapMacroReset
  simp only [safe_loop, safe_eepromUpdateByte]
  exact fun i hi => ⟨Nat.le_add_right _ _, Nat.add_lt_add_left hi _⟩

theorem eeconfigInitVia_safe : (eeconfigInitVia c s).Safe (Access.Inside c) := by
  unfold eeconfigInitVia
  simp only [safe_bind]
  exact ⟨viaEepromSetValid_safe, viaSetLayoutOptions_safe, dynamicKeymapReset_safe, dynamicKeymapMacroReset_safe,
    viaEepromSetValid_safe⟩

/-! ## The buffers -/

section

variable {part : Part} {start eepromSize i : Nat} {offset size : UInt16}

theorem eeprom_inside (at_start : (region c part).1 = start) (room : eepromSize ≤ (region c part).2)
    (inside : offset.toNat + i < eepromSize) : Access.Inside c (.eeprom part (start + offset.toNat + i)) := by
  constructor
  · omega
  · omega

/-- A buffer is read safely if and only if it fits behind the target. -/
theorem getBuffer_safe (at_start : (region c part).1 = start) (room : eepromSize ≤ (region c part).2) {target : Nat} :
    (getBuffer part start eepromSize offset size target s).Safe (Access.Inside c) ↔ ∀ i < size.toNat, target + i < 32 := by
  unfold getBuffer
  rw [safe_loop]
  refine forall₂_congr fun i _ => ?_
  split
  next inside =>
    simp only [safe_bind, safe_eepromReadByte, safe_put]
    exact and_iff_right (eeprom_inside at_start room inside)
  next => exact safe_put _ _

/-- A buffer is written safely if and only if the bytes that go into the part are in the packet. -/
theorem setBuffer_safe (at_start : (region c part).1 = start) (room : eepromSize ≤ (region c part).2) {source : Nat} :
    (setBuffer part start eepromSize offset size source s).Safe (Access.Inside c) ↔
      ∀ i < size.toNat, offset.toNat + i < eepromSize → source + i < 32 := by
  unfold setBuffer
  rw [safe_loop]
  refine forall₂_congr fun i _ => ?_
  split
  next inside =>
    simp only [safe_bind, safe_eepromUpdateByte, safe_get]
    rw [and_iff_left (eeprom_inside at_start room inside)]
    exact ⟨fun fits _ => fits, fun fits => fits inside⟩
  next outside => exact ⟨fun _ inside => absurd inside outside, fun _ => safe_pure _⟩

end

/-! ## The matrix -/

theorem putByte_index {wanted : Bool} {value : UInt32} {x : State × Nat} :
    (putByte wanted value x).value.2 = x.2 + if wanted then 1 else 0 := by
  unfold putByte
  split <;> rfl

theorem putByte_safe {wanted : Bool} {value : UInt32} {x : State × Nat} (fits : wanted = true → 1 + x.2 < 32) :
    (putByte wanted value x).Safe (Access.Inside c) := by
  unfold putByte
  split
  next on =>
    simp only [safe_bind, safe_put, safe_pure, and_true]
    exact fits on
  next => exact safe_pure _

/-- A row takes one byte for eight columns. -/
theorem putRow_index {offset : UInt8} {row : Nat} {x : State × Nat} :
    (putRow c env offset row x).value.2 = x.2 + (c.matrixCols + 7) / 8 := by
  have pos := c.cols_pos
  have le := c.cols_le
  unfold putRow
  simp only [value_bind, putByte_index, if_true, decide_eq_true_eq]
  split_ifs <;> omega

theorem putRow_safe {offset : UInt8} {row : Nat} {x : State × Nat} (last : row + offset.toNat < c.matrixRows)
    (fits : x.2 + (c.matrixCols + 7) / 8 < 32) : (putRow c env offset row x).Safe (Access.Inside c) := by
  have pos := c.cols_pos
  have le := c.cols_le
  unfold putRow
  simp only [safe_bind]
  refine ⟨(safe_note _ _).mpr last, putByte_safe ?_, putByte_safe ?_, putByte_safe ?_, putByte_safe ?_⟩
  · simp only [decide_eq_true_eq]
    omega
  · simp only [decide_eq_true_eq, putByte_index]
    split_ifs <;> omega
  · simp only [decide_eq_true_eq, putByte_index]
    split_ifs <;> omega
  · simp only [decide_eq_true_eq, putByte_index]
    split_ifs <;> omega

theorem putRows_index {offset : UInt8} {rows : Nat} :
    (loop (putRow c env offset) rows (s, 2)).value.2 = 2 + rows * ((c.matrixCols + 7) / 8) := by
  induction rows with
  | zero => rw [value_loop_zero, Nat.zero_mul]
  | succ rows ih => rw [value_loop_succ, putRow_index, ih, Nat.succ_mul, Nat.add_assoc]

/-- The rows of the matrix fit into the packet. -/
theorem switchMatrixState_safe : (switchMatrixState c env s).Safe (Access.Inside c) := by
  unfold switchMatrixState
  simp only [safe_bind, safe_get, safe_loop, safe_pure, and_true]
  refine ⟨by decide, fun row bound => ?_⟩
  have fits : (row + 1) * ((c.matrixCols + 7) / 8) ≤ 28 :=
    (Nat.mul_le_mul_right _ (Nat.succ_le_of_lt (lt_of_lt_of_le bound (Nat.min_le_left _ _)))).trans (Nat.div_mul_le_self _ _)
  apply putRow_safe
  · have := lt_of_lt_of_le bound (Nat.min_le_right _ _)
    omega
  · rw [putRows_index, Nat.add_assoc, ← Nat.succ_mul, Nat.succ_eq_add_one]
    omega

/-! ## The commands -/

theorem getKeyboardValue_safe : (getKeyboardValue c env s).Safe (Access.Inside c) := by
  unfold getKeyboardValue
  simp only [safe_bind, safe_get]
  refine ⟨by decide, ?_⟩
  split_ifs
  · exact putLong_safe (by decide)
  · rw [safe_bind]
    exact ⟨viaGetLayoutOptions_safe, putLong_safe (by decide)⟩
  · exact switchMatrixState_safe
  · exact putLong_safe (by decide)
  · exact unhandled_safe

theorem setKeyboardValue_safe : (setKeyboardValue c s).Safe (Access.Inside c) := by
  unfold setKeyboardValue
  simp only [safe_bind, safe_get]
  refine ⟨by decide, ?_⟩
  split_ifs
  · simp only [safe_bind]
    exact ⟨getWord_safe (by decide), getWord_safe (by decide), viaSetLayoutOptions_safe⟩
  · simp only [safe_bind, safe_get, safe_pure, and_true]
    decide
  · exact unhandled_safe

theorem rawHidSend_safe : (rawHidSend s).Safe (Access.Inside c) := by
  unfold rawHidSend
  simp only [safe_loop, safe_bind, safe_get, safe_pure, and_true]
  exact fun _ bound => bound

/-- The offset in a packet -/
def bufferOffset (s : State) : Nat := ((s.data 1).toUInt16 <<< 8 ||| (s.data 2).toUInt16).toNat

/-- The size in the packet of a buffer command is at most 28, as its comment says; when the part is written, bytes
behind its end do not count. -/
def Fits (c : Config) (s : State) : Prop :=
  match CommandId.ofByte (s.data 0) with
  | some .dynamicKeymapGetBuffer | some .dynamicKeymapMacroGetBuffer => (s.data 3).toNat ≤ 28
  | some .dynamicKeymapSetBuffer => (s.data 3).toNat ≤ 28 ∨ dynamicKeymapEepromSize c ≤ bufferOffset s + 28
  | some .dynamicKeymapMacroSetBuffer => (s.data 3).toNat ≤ 28 ∨ c.macroSize ≤ bufferOffset s + 28
  | _ => True

/-- The size of the keymap is not more than its part, however it is cut to 16 bits. -/
theorem dynamicKeymapEepromSize_le : dynamicKeymapEepromSize c ≤ (region c .keymap).2 := Nat.mod_le _ _

theorem bounded_iff {size : UInt8} : (∀ i < size.toUInt16.toNat, 4 + i < 32) ↔ size.toNat ≤ 28 := by
  rw [UInt8.toNat_toUInt16]
  constructor
  · intro fits
    by_contra long
    have := fits 28 (by omega)
    omega
  · intro short i bound
    omega

theorem bounded_inside_iff {size : UInt8} {offset eepromSize : Nat} :
    (∀ i < size.toUInt16.toNat, offset + i < eepromSize → 4 + i < 32) ↔ size.toNat ≤ 28 ∨ eepromSize ≤ offset + 28 := by
  rw [UInt8.toNat_toUInt16]
  constructor
  · intro fits
    by_contra long
    rw [not_or] at long
    have := fits 28 (by omega) (by omega)
    omega
  · rintro short i bound inside
    omega

theorem command_safe :
    (command c env s (CommandId.ofByte (s.data 0))).Safe (Access.Inside c) ↔ Fits c s := by
  unfold Fits
  cases CommandId.ofByte (s.data 0) with
  | none => exact iff_of_true unhandled_safe trivial
  | some id =>
    cases id with
    | getProtocolVersion => exact iff_of_true (putWord_safe (by decide)) trivial
    | getKeyboardValue => exact iff_of_true getKeyboardValue_safe trivial
    | setKeyboardValue => exact iff_of_true setKeyboardValue_safe trivial
    | dynamicKeymapGetKeycode =>
      apply iff_of_true _ trivial
      unfold command
      simp only [safe_bind, safe_get]
      exact ⟨by decide, by decide, by decide, dynamicKeymapGetKeycode_safe, putWord_safe (by decide)⟩
    | dynamicKeymapSetKeycode =>
      apply iff_of_true _ trivial
      unfold command
      simp only [safe_bind, safe_get]
      exact ⟨by decide, by decide, by decide, getWord_safe (by decide), dynamicKeymapSetKeycode_safe⟩
    | dynamicKeymapReset => exact iff_of_true dynamicKeymapReset_safe trivial
    | customSetValue => exact iff_of_true (safe_pure _) trivial
    | customGetValue => exact iff_of_true (safe_pure _) trivial
    | customSave => exact iff_of_true (safe_pure _) trivial
    | eepromReset =>
      apply iff_of_true _ trivial
      unfold command
      dsimp only
      split
      · rw [safe_bind]
        exact ⟨viaEepromSetValid_safe, eeconfigInitVia_safe⟩
      · exact unhandled_safe
    | bootloaderJump => exact iff_of_true unhandled_safe trivial
    | dynamicKeymapMacroGetCount => exact iff_of_true ((safe_put 1 _).mpr (by decide)) trivial
    | dynamicKeymapMacroGetBufferSize => exact iff_of_true (putWord_safe (by decide)) trivial
    | dynamicKeymapMacroGetBuffer =>
      unfold command dynamicKeymapMacroGetBuffer
      simp only [safe_bind, safe_get]
      rw [and_iff_right (getWord_safe (by decide)), and_iff_right (by decide)]
      exact (getBuffer_safe rfl (le_refl _)).trans bounded_iff
    | dynamicKeymapMacroSetBuffer =>
      unfold command dynamicKeymapMacroSetBuffer
      simp only [safe_bind, safe_get]
      rw [and_iff_right (getWord_safe (by decide)), and_iff_right (by decide)]
      exact (setBuffer_safe rfl (le_refl _)).trans bounded_inside_iff
    | dynamicKeymapMacroReset => exact iff_of_true dynamicKeymapMacroReset_safe trivial
    | dynamicKeymapGetLayerCount => exact iff_of_true ((safe_put 1 _).mpr (by decide)) trivial
    | dynamicKeymapGetBuffer =>
      unfold command dynamicKeymapGetBuffer
      simp only [safe_bind, safe_get]
      rw [and_iff_right (getWord_safe (by decide)), and_iff_right (by decide)]
      exact (getBuffer_safe rfl dynamicKeymapEepromSize_le).trans bounded_iff
    | dynamicKeymapSetBuffer =>
      unfold command dynamicKeymapSetBuffer
      simp only [safe_bind, safe_get]
      rw [and_iff_right (getWord_safe (by decide)), and_iff_right (by decide)]
      exact (setBuffer_safe rfl dynamicKeymapEepromSize_le).trans bounded_inside_iff
    | dynamicKeymapGetEncoder =>
      apply iff_of_true _ trivial
      unfold command
      dsimp only
      split
      · simp only [safe_bind, safe_get]
        exact ⟨by decide, by decide, by decide, dynamicKeymapGetEncoder_safe, putWord_safe (by decide)⟩
      · exact unhandled_safe
    | dynamicKeymapSetEncoder =>
      apply iff_of_true _ trivial
      unfold command
      dsimp only
      split
      · simp only [safe_bind, safe_get]
        exact ⟨by decide, by decide, by decide, getWord_safe (by decide), dynamicKeymapSetEncoder_safe⟩
      · exact unhandled_safe

/-- **A packet is handled inside if and only if** `via_command_kb` handles it or the size in it is not too large. -/
theorem packet_safe_iff (c : Config) (env : Env) (s : State) :
    (rawHidReceive c env s).Safe (Access.Inside c) ↔
      (env.viaCommandKb s).2 = true ∨ Fits c (env.viaCommandKb s).1 := by
  unfold rawHidReceive
  dsimp only
  split
  next handled => exact iff_of_true (safe_pure _) (.inl handled)
  next unhandled =>
    simp only [safe_bind, safe_get, safe_pure, and_true]
    rw [and_iff_right (by decide), and_iff_left rawHidSend_safe, or_iff_right unhandled]
    exact command_safe

/-- A keyboard of 6 rows and 16 columns, with nothing overridden -/
def keyboard : Config where
  matrixRows := 6
  matrixCols := 16
  layerCount := 4
  numEncoders := 0
  macroCount := 16
  keymapAddr := 41
  encoderAddr := 809
  macroAddr := 809
  macroSize := 1239
  magicAddr := 37
  layoutOptionsAddr := 40
  layoutOptionsSize := 1
  layoutOptionsDefault := 0
  magic _ := 0
  firmwareVersion := 0
  encoderMap := false
  allowReset := false
  keymapLayerCount := 4
  keymaps _ _ _ := 0
  encodermapLayerCount := 0
  encodermaps _ _ _ := 0
  cols_pos := Nat.zero_lt_succ _
  cols_le := Nat.le_of_ble_eq_true rfl
  layoutOptionsSize_le := Nat.le_of_ble_eq_true rfl

/-- The first four bytes of a packet -/
def packet (command high low size : UInt8) : Nat → UInt8
  | 0 => command
  | 1 => high
  | 2 => low
  | 3 => size
  | _ => 0

/-- The host asks for 255 bytes of the keymap. -/
theorem long_buffer_overruns :
    ¬ (rawHidReceive keyboard ⟨fun s => (s, false), id, 0, fun _ => 0⟩ ⟨packet 0x12 0 0 255, fun _ => 0⟩).Safe
      (Access.Inside keyboard) := by
  unfold rawHidReceive
  simp only [safe_bind, Bool.false_eq_true, if_false]
  rintro ⟨-, handled, -⟩
  have fits : (255 : Nat) ≤ 28 := command_safe.mp handled
  omega

end QmkFirmware.Via
