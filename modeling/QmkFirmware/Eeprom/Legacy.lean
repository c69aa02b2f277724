import QmkFirmware.Eeprom.Sound

/-!
# The legacy driver

`eeprom_legacy_emulated_flash.c`: the flash is programmed in half-words. A log
entry is one half-word for a byte below 0x80 or for an aligned word that is 0 or
1, and two half-words for any other word from 0x80 on.
-/

namespace QmkFirmware.Eeprom.Legacy
open Lib

/-- A layout for half-words. -/
structure Config extends Layout where
  unit_eq : unit = 2

theorem smallConfig_base : 0 < 64 := by decide

theorem smallConfig_pages : 2 < 2 ^ 16 := by decide

/-- Two pages of four half-words, one for the data and one for the log. -/
def smallConfig : Config where
  unit := 2
  pageSize := 8
  pageCount := 2
  densityBytes := 8
  writeLogBytes := 8
  pageBaseAddress := 64
  unit_pos := by decide
  fits := by decide
  density_le := by decide
  density_mod := by decide
  log_mod := by decide
  base_mod := by decide
  base_pos := smallConfig_base
  area_le := by decide
  page_count_lt := smallConfig_pages
  unit_eq := rfl

/-- `FEE_WORD_ENCODING` -/
def wordEncoding : Nat := 0x8000

/-- `FEE_VALUE_NEXT` -/
def valueNext : Nat := 0x6000

/-- `FEE_VALUE_RESERVED` -/
def valueReserved : Nat := 0x4000

/-- `FEE_VALUE_ENCODED` -/
def valueEncoded : Nat := 0x2000

/-- `FEE_BYTE_RANGE` -/
def byteRange : Nat := 0x80

/-- `FEE_EMPTY_WORD` -/
def emptyWord : Nat := 0xFFFF

section Code

variable (c : Config)

/-! ## Startup -/

/-- The checked store of a word entry. -/
def wordStores (address wvalue : Nat) : List (Patch UInt8) :=
  if address < c.densityBytes then [⟨address, toBytes 2 wvalue⟩] else []

/-- The body of the replay loop behind the test for the empty word: the stores
it makes and where `log_addr` goes on. -/
def replayEntry (flash : Nat → UInt8) (logAddr : Nat) : List (Patch UInt8) × Nat :=
  let address := ofBytes (slice flash logAddr 2)
  if address &&& wordEncoding = 0 then ([⟨address >>> 8, toBytes 1 address⟩], logAddr + 2)
  else if address &&& valueNext = valueNext then
    -- the `break` leaves `log_addr` at the end, where the loop ends as well
    if c.writeLogLast ≤ logAddr + 2 then ([], logAddr + 2)
    else
      let wvalue := 0xFFFF - ofBytes (slice flash (logAddr + 2) 2)
      -- possibly incomplete write, ignore and continue
      if wvalue = 0 then ([], logAddr + 4)
      else (wordStores c (((address &&& 0x1FFF) <<< 1) + byteRange) wvalue, logAddr + 4)
  else if address &&& valueReserved ≠ 0 then ([], logAddr + 2)
  else (wordStores c ((address &&& 0x1FFF) <<< 1) ((address &&& valueEncoded) >>> 13), logAddr + 2)

/-- The loop that replays the write log, with the stores made so far. -/
def replayLoop (flash : Nat → UInt8) : Nat → List (Patch UInt8) → Nat → List (Patch UInt8) × Nat
  | 0, stores, logAddr => (stores, logAddr)
  | fuel + 1, stores, logAddr =>
    if c.writeLogLast ≤ logAddr then (stores, logAddr)
    else if ofBytes (slice flash logAddr 2) = emptyWord then (stores, logAddr)
    else
      match replayEntry c flash logAddr with
      | (more, logAddr) => replayLoop flash fuel (stores ++ more) logAddr

/-- `EEPROM_Init` -/
def eepromInit (s : State) : Nat × State :=
  match replayLoop c s.flash (c.writeLogBytes / 2) (loadCompacted c.toLayout 2 s.flash) c.writeLogBase with
  | (stores, logAddr) =>
    (c.densityBytes, { s with dataBuf := replay s.dataBuf stores, emptySlot := logAddr })

/-- `EEPROM_Erase` -/
def eepromErase (s : State) : State := (eepromInit c (eepromClear c.toLayout s)).2

/-! ## Writing -/

/-- Programs the half-word at `empty_slot++`. -/
def programSlot (s : State) (value : Nat) : State :=
  { s.issue c.toLayout (.program s.emptySlot (toBytes 2 value)) with emptySlot := s.emptySlot + 2 }

/-- `eeprom_write_log_word_entry` -/
def eepromWriteLogWordEntry (s : State) (address : Nat) : Option FlashStatus × State :=
  let value := ofBytes (slice s.dataBuf address 2)
  let encoding := if value ≤ 1 then wordEncoding ||| (value <<< 13) else wordEncoding ||| valueNext
  let entrySize := if value ≤ 1 then 2 else 4
  let address := if value ≤ 1 then address else (address + 2 ^ 16 - byteRange) % 2 ^ 16
  if c.writeLogLast - entrySize < s.emptySlot then eepromCompact c.toLayout s
  else
    let s := programSlot c s ((address >>> 1) ||| encoding)
    (some .complete, if encoding = wordEncoding ||| valueNext then programSlot c s (0xFFFF - value) else s)

/-- `eeprom_write_log_byte_entry` -/
def eepromWriteLogByteEntry (s : State) (address : Nat) : Option FlashStatus × State :=
  if c.writeLogLast ≤ s.emptySlot then eepromCompact c.toLayout s
  else (some .complete, programSlot c s ((address <<< 8) ||| (s.dataBuf address).toNat))

/-- `EEPROM_WriteDataByte` -/
def eepromWriteDataByte (s : State) (address : Nat) (dataByte : UInt8) : Option FlashStatus × State :=
  if c.densityBytes ≤ address then (some .badAddress, s)
  else if s.dataBuf address = dataByte then (none, s)
  else
    match eepromWriteDirectEntry c.toLayout
      { s with dataBuf := patch s.dataBuf address [dataByte] } address with
    | (none, s) =>
      if address < byteRange then eepromWriteLogByteEntry c s address
      else eepromWriteLogWordEntry c s (c.cell address)
    | result => result

/-- The fallback of `EEPROM_WriteDataWord` to byte entries: only a byte that has
changed is written. -/
def writeLogBytes (s : State) (address oldValue dataWord : Nat) : Option FlashStatus × State :=
  match (if oldValue % 256 ≠ dataWord % 256 then eepromWriteLogByteEntry c s address
    else (some .complete, s)) with
  | (finalStatus, s) =>
    match (if oldValue >>> 8 ≠ dataWord >>> 8 then eepromWriteLogByteEntry c s (address + 1)
      else (some .complete, s)) with
    | (status, s) => (if status ≠ some .complete then status else finalStatus, s)

/-- `EEPROM_WriteDataWord` -/
def eepromWriteDataWord (s : State) (address dataWord : Nat) : Option FlashStatus × State :=
  if c.densityBytes ≤ address then (some .badAddress, s)
  else if address % 2 ≠ 0 then
    match eepromWriteDataByte c s address (UInt8.ofNat dataWord) with
    | (finalStatus, s) =>
      match eepromWriteDataByte c s ((address + 1) % 2 ^ 16) (UInt8.ofNat (dataWord >>> 8)) with
      | (status, s) => (if status ≠ some .complete then status else finalStatus, s)
  else
    let oldValue := ofBytes (slice s.dataBuf address 2)
    if oldValue = dataWord then (none, s)
    else
      match eepromWriteDirectEntry c.toLayout
        { s with dataBuf := patch s.dataBuf address (toBytes 2 dataWord) } address with
      | (none, s) =>
        if address < byteRange then writeLogBytes c s address oldValue dataWord
        else eepromWriteLogWordEntry c s address
      | result => result

/-- The words and the last byte of `eeprom_write_block`. The address parameter of
the functions it calls is a `uint16_t`. -/
def writeWords : Nat → State → Nat → List UInt8 → State
  | 0, s, _, _ => s
  | fuel + 1, s, dest, src =>
    if 1 < src.length then
      writeWords fuel (eepromWriteDataWord c s (dest % 2 ^ 16) (ofBytes (src.take 2))).2 (dest + 2)
        (src.drop 2)
    else if src.length = 1 then (eepromWriteDataByte c s (dest % 2 ^ 16) (src.getD 0 0)).2
    else s

/-- `eeprom_write_block` -/
def eepromWriteBlock (s : State) (dest : Nat) (src : List UInt8) : State :=
  if src.length ≠ 0 ∧ dest % 2 ≠ 0 then
    writeWords c src.length (eepromWriteDataByte c s (dest % 2 ^ 16) (src.getD 0 0)).2 (dest + 1) (src.drop 1)
  else writeWords c src.length s dest src

/-! ## Reading -/

/-- `EEPROM_ReadDataByte` -/
def eepromReadDataByte (s : State) (address : Nat) : UInt8 :=
  if address < c.densityBytes then s.dataBuf address else 0xFF

/-- `EEPROM_ReadDataWord` -/
def eepromReadDataWord (s : State) (address : Nat) : Nat :=
  if address < c.densityBytes - 1 then
    if address % 2 ≠ 0 then (s.dataBuf address).toNat ||| ((s.dataBuf (address + 1)).toNat <<< 8)
    else ofBytes (slice s.dataBuf address 2)
  else 0xFFFF

/-- The words and the last byte of `eeprom_read_block`. -/
def readWords : Nat → State → Nat → Nat → List UInt8
  | 0, _, _, _ => []
  | fuel + 1, s, src, len =>
    if 1 < len then
      toBytes 2 (eepromReadDataWord c s (src % 2 ^ 16)) ++ readWords fuel s (src + 2) (len - 2)
    else if len = 1 then [eepromReadDataByte c s (src % 2 ^ 16)]
    else []

/-- `eeprom_read_block` -/
def eepromReadBlock (s : State) (src len : Nat) : List UInt8 :=
  if len ≠ 0 ∧ src % 2 ≠ 0 then
    eepromReadDataByte c s (src % 2 ^ 16) :: readWords c len s (src + 1) (len - 1)
  else readWords c len s src len

end Code

/-! ## The log format -/

section Format

variable {c : Config}

theorem replayEntry_end (c : Config) (flash : Nat → UInt8) (a : Nat) :
    (replayEntry c flash a).2 = a + 2 ∨ (replayEntry c flash a).2 = a + 4 := by
  simp only [replayEntry]
  split_ifs <;> simp

theorem replayEntry_congr {m m' : Nat → UInt8} {a : Nat}
    (agree : ∀ i, a ≤ i → i < (replayEntry c m a).2 → m' i = m i) :
    replayEntry c m' a = replayEntry c m a := by
  have first : slice m' a 2 = slice m a 2 := by
    refine slice_congr fun i lo hi => agree i lo ?_
    rcases replayEntry_end c m a with h | h <;> omega
  by_cases h : (replayEntry c m a).2 = a + 4
  · have second : slice m' (a + 2) 2 = slice m (a + 2) 2 :=
      slice_congr fun i lo hi => agree i (by omega) (by omega)
    simp only [replayEntry, first, second]
  · -- the second half-word is not looked at
    simp only [replayEntry] at h ⊢
    rw [first]
    split_ifs at h ⊢ <;> first | rfl | exact absurd rfl h

/-- The driver's log: entries of one or two half-words up to the first empty one. -/
def format (c : Config) : LogFormat c.toLayout where
  next m a :=
    if c.writeLogLast ≤ a then none
    else if ofBytes (slice m a 2) = emptyWord then none
    else some (replayEntry c m a)
  lt_of_next {m a ps b} h := by
    split_ifs at h
    have e := replayEntry_end c m a
    rw [Option.some.inj h] at e
    simp only at e
    omega
  next_congr {m m' a ps b} h agree := by
    split_ifs at h with h1 h2
    have h := Option.some.inj h
    have e := replayEntry_end c m a
    rw [h] at e
    have lo : slice m' a 2 = slice m a 2 :=
      slice_congr fun i lo hi => agree i lo (by simp only at e; omega)
    rw [if_neg h1, lo, if_neg h2, replayEntry_congr (by rw [h]; exact agree), h]
  stops {m a} h := by
    rcases h with h | h
    · rw [if_pos h]
    · rw [c.unit_eq] at h
      have empty : ofBytes (slice m a 2) = emptyWord := ofBytes_eq_empty.2 h
      rw [if_pos empty, ite_self]

theorem replayLoop_scan {m : Nat → UInt8} {a z : Nat} {log : List (Patch UInt8)}
    (h : Scan (format c).toLogScanner m a log z) : ∀ (fuel : Nat) (stores : List (Patch UInt8)),
    c.writeLogLast ≤ a + 2 * fuel → replayLoop c m fuel stores a = (stores ++ log, z) := by
  induction h with
  | stop here =>
    intro fuel stores hf
    cases fuel with
    | zero => simp [replayLoop]
    | succ fuel =>
      simp only [format] at here
      rw [replayLoop]
      split_ifs at here ⊢ <;> simp
  | @entry a b z ps log here rest ih =>
    intro fuel stores hf
    have e := replayEntry_end c m a
    simp only [format] at here
    split_ifs at here with h1 h2
    have here := Option.some.inj here
    rw [here] at e
    simp only at e
    cases fuel with
    | zero => omega
    | succ fuel =>
      rw [replayLoop, if_neg h1, if_neg h2, here]
      simp only
      rw [ih fuel (stores ++ ps) (by omega), List.append_assoc]

/-- Initialisation rebuilds the data the flash stands for, whatever the RAM held. -/
theorem eepromInit_spec {s : State} {slot : Nat} {data : Nat → UInt8}
    (h : Sound c.toLayout (format c) s.flash slot data) :
    (eepromInit c s).2.flash = s.flash ∧ (eepromInit c s).2.trace = s.trace ∧
      (eepromInit c s).2.emptySlot = slot ∧
      ∀ i, i < c.densityBytes → (eepromInit c s).2.dataBuf i = data i := by
  obtain ⟨log, scan, view, -⟩ := h.log
  have two : c.densityBytes % 2 = 0 := by
    have := c.density_mod
    rwa [c.unit_eq] at this
  have log2 := c.log_mod
  rw [c.unit_eq] at log2
  have e := replayLoop_scan scan (c.writeLogBytes / 2) (loadCompacted c.toLayout 2 s.flash)
    (by simp only [Layout.writeLogLast]; omega)
  simp only [eepromInit, e, true_and]
  intro i hi
  rw [replay_append, replay_loadCompacted two, view i hi]
  exact replay_congr (patch_slice_of (by omega) (by omega))

end Format

end QmkFirmware.Eeprom.Legacy
