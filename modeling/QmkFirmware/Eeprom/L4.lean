import QmkFirmware.Eeprom.Sound

/-!
# The STM32L4 driver

`eeprom_stm32_l4.c`: the flash is programmed in double words, and every log entry
is one. A double word of which ECC cannot correct the bits raises an NMI when it
is read; the handler sets `eccd`, and `EEPROM_Init` looks at it.
-/

namespace QmkFirmware.Eeprom.L4
open Lib

/-- A layout for double words. -/
structure Config extends Layout where
  unit_eq : unit = 8

/-- Two pages of four double words. -/
def smallConfig : Config where
  unit := 8
  pageSize := 32
  pageCount := 2
  densityBytes := 16
  writeLogBytes := 48
  pageBaseAddress := 64
  unit_pos := by decide
  fits := by decide
  density_le := by decide
  density_mod := by decide
  log_mod := by decide
  base_mod := by decide
  base_pos := by decide
  area_le := by decide
  page_count_lt := by decide
  unit_eq := rfl

/-- `FEE_BYTE_FLAG` -/
def byteFlag : Nat := 0x00010000

/-- `FEE_WORD_FLAG` -/
def wordFlag : Nat := 0x00020000

/-- `FEE_DWORD_FLAG` -/
def dwordFlag : Nat := 0x00040000

/-- `FEE_EMPTY_WORD` -/
def emptyWord : Nat := 0xFFFFFFFF

/-! ## Startup -/

/-- The locals of `EEPROM_Init` with the flag the NMI handler sets, the words it
has read and the stores to `DataBuf` it has made. -/
structure Startup where
  eccd : Bool
  reads : List Nat
  stores : List (Patch UInt8)
  logAddr : Nat

section Init

variable (c : Config) (broken : Nat → Bool) (flash : Nat → UInt8)

/-- Reads a `uint32_t`; `broken` tells the double words that raise the NMI. -/
def readWord (u : Startup) (address : Nat) : Nat × Startup :=
  (ofBytes (slice flash address 4),
    { u with eccd := u.eccd || broken (address - address % 8), reads := u.reads ++ [address] })

/-- One iteration of the loop that loads the compacted area. -/
def loadStep (u : Startup) (k : Nat) : Startup :=
  match readWord broken flash u (c.pageBaseAddress + 4 * k) with
  | (src, u) => { u with stores := u.stores ++ [⟨4 * k, toBytes 4 (256 ^ 4 - 1 - src)⟩] }

/-- The store to `DataBuf` that a log entry makes. -/
def entryStores (address data : Nat) : List (Patch UInt8) :=
  if address &&& byteFlag = byteFlag then [⟨address % 2 ^ 16, toBytes 1 (data &&& 0xFF)⟩]
  else if address &&& wordFlag = wordFlag then [⟨address % 2 ^ 16, toBytes 2 (data &&& 0xFFFF)⟩]
  else if address &&& dwordFlag = dwordFlag then [⟨address % 2 ^ 16, toBytes 4 data⟩]
  else []

/-- The loop that replays the write log. -/
def replayLoop : Nat → Startup → Startup
  | 0, u => u
  | fuel + 1, u =>
    if c.writeLogLast ≤ u.logAddr then u
    else
      match readWord broken flash u u.logAddr with
      | (address, u) =>
        match readWord broken flash u (u.logAddr + 4) with
        | (word, u) =>
          -- break loop if ECC error is detected
          if u.eccd then u
          else if address = emptyWord then u
          else
            replayLoop fuel
              { u with
                stores := u.stores ++ entryStores address (256 ^ 4 - 1 - word)
                logAddr := u.logAddr + 8 }

/-- The two loops of `EEPROM_Init`. -/
def startup : Startup :=
  replayLoop c broken flash (c.writeLogBytes / 8)
    ((List.range (c.densityBytes / 4)).foldl (loadStep c broken flash) ⟨false, [], [], c.writeLogBase⟩)

end Init

/-- `EEPROM_Init` -/
def eepromInit (c : Config) (broken : Nat → Bool) (s : State) : Nat × State :=
  let u := startup c broken s.flash
  (if u.eccd then 0 else c.densityBytes,
    { s with dataBuf := replay s.dataBuf u.stores, emptySlot := u.logAddr })

section Code

variable (c : Config)

/-- `EEPROM_Erase` -/
def eepromErase (broken : Nat → Bool) (s : State) : State :=
  (eepromInit c broken (eepromClear c.toLayout s)).2

/-- `blank_check` -/
def blankCheck (s : State) (address : Nat) : State :=
  let address := address - address % 8
  if ofBytes (slice s.flash address 8) ≠ 256 ^ 8 - 1 then
    if address &&& (c.pageSize - 1) = 0 then s.issue c.toLayout (.erasePage address)
    else (eepromCompact c.toLayout s).2
  else s

/-- What the three `eeprom_write_log_*_entry` functions do for data of `n` bytes. -/
def writeLogEntry (flag n : Nat) (s : State) (address : Nat) : Option FlashStatus × State :=
  if c.writeLogLast ≤ s.emptySlot then eepromCompact c.toLayout s
  else
    let s := blankCheck c s s.emptySlot
    let value := ((256 ^ 4 - 1 - ofBytes (slice s.dataBuf address n)) <<< 32) ||| flag ||| address
    (some .complete,
      { s.issue c.toLayout (.program s.emptySlot (toBytes 8 value)) with emptySlot := s.emptySlot + 8 })

/-- `eeprom_write_log_byte_entry` -/
def eepromWriteLogByteEntry := writeLogEntry c byteFlag 1

/-- `eeprom_write_log_word_entry` -/
def eepromWriteLogWordEntry := writeLogEntry c wordFlag 2

/-- `eeprom_write_log_dword_entry` -/
def eepromWriteLogDwordEntry := writeLogEntry c dwordFlag 4

/-- What the three `EEPROM_WriteData*` functions do for data of `n` bytes. -/
def writeData (n : Nat) (writeLog : State → Nat → Option FlashStatus × State) (s : State)
    (address value : Nat) : Option FlashStatus × State :=
  if c.densityBytes - (n - 1) ≤ address then (some .badAddress, s)
  else if ofBytes (slice s.dataBuf address n) = value then (none, s)
  else
    match eepromWriteDirectEntry c.toLayout
      { s with dataBuf := patch s.dataBuf address (toBytes n value) } address with
    | (none, s) => writeLog s address
    | result => result

/-- `EEPROM_WriteDataByte` -/
def eepromWriteDataByte := writeData c 1 (eepromWriteLogByteEntry c)

/-- `EEPROM_WriteDataWord` -/
def eepromWriteDataWord := writeData c 2 (eepromWriteLogWordEntry c)

/-- `EEPROM_WriteDataDWord` -/
def eepromWriteDataDWord := writeData c 4 (eepromWriteLogDwordEntry c)

/-- `EEPROM_ReadDataByte` -/
def eepromReadDataByte (s : State) (address : Nat) : UInt8 :=
  if address < c.densityBytes then s.dataBuf address else 0xFF

/-- The loop of `eeprom_write_block`. The address parameter of the functions it
calls is a `uint16_t`. -/
def writeBlockLoop : Nat → State → Nat → List UInt8 → State
  | 0, s, _, _ => s
  | fuel + 1, s, dest, src =>
    if src.length = 0 then s
    else if dest % 4 = 0 ∧ 4 ≤ src.length then
      writeBlockLoop fuel (eepromWriteDataDWord c s (dest % 2 ^ 16) (ofBytes (src.take 4))).2 (dest + 4)
        (src.drop 4)
    else if dest % 2 = 0 ∧ 2 ≤ src.length then
      writeBlockLoop fuel (eepromWriteDataWord c s (dest % 2 ^ 16) (ofBytes (src.take 2))).2 (dest + 2)
        (src.drop 2)
    else
      writeBlockLoop fuel (eepromWriteDataByte c s (dest % 2 ^ 16) (ofBytes (src.take 1))).2 (dest + 1)
        (src.drop 1)

/-- `eeprom_write_block` -/
def eepromWriteBlock (s : State) (dest : Nat) (src : List UInt8) : State :=
  writeBlockLoop c src.length s dest src

end Code

/-! ## The log format -/

section Format

variable {c : Config}

/-- The driver's log: entries of eight bytes up to the first empty word. -/
def format (c : Config) : LogFormat c.toLayout where
  next m a :=
    if c.writeLogLast ≤ a then none
    else if ofBytes (slice m a 4) = emptyWord then none
    else some (entryStores (ofBytes (slice m a 4)) (256 ^ 4 - 1 - ofBytes (slice m (a + 4) 4)), a + 8)
  lt_of_next {m a ps b} h := by
    split_ifs at h
    simp only [Option.some.injEq, Prod.mk.injEq] at h
    omega
  next_congr {m m' a ps b} h agree := by
    split_ifs at h with h1 h2
    simp only [Option.some.injEq, Prod.mk.injEq] at h
    have lo : slice m' a 4 = slice m a 4 := slice_congr fun i lo hi => agree i lo (by omega)
    have hi : slice m' (a + 4) 4 = slice m (a + 4) 4 :=
      slice_congr fun i lo hi => agree i (by omega) (by omega)
    rw [if_neg h1, lo, hi, if_neg h2, h.1, h.2]
  stops {m a} h := by
    rcases h with h | h
    · rw [if_pos h]
    · rw [c.unit_eq] at h
      have empty : ofBytes (slice m a 4) = emptyWord :=
        ofBytes_eq_empty.2 (h.sub (Nat.le_refl _) (by omega))
      rw [if_pos empty, ite_self]

theorem load_spec (c : Config) (broken : Nat → Bool) (flash : Nat → UInt8) :
    let u := (List.range (c.densityBytes / 4)).foldl (loadStep c broken flash)
      ⟨false, [], [], c.writeLogBase⟩
    u.stores = loadCompacted c.toLayout 4 flash ∧ u.logAddr = c.writeLogBase ∧
      u.reads = (List.range (c.densityBytes / 4)).map (fun k => c.pageBaseAddress + 4 * k) ∧
      (u.eccd = true ↔ ∃ k, k < c.densityBytes / 4 ∧
        broken (c.pageBaseAddress + 4 * k - (c.pageBaseAddress + 4 * k) % 8) = true) := by
  rw [loadCompacted]
  induction c.densityBytes / 4 with
  | zero => simp
  | succ n ih =>
    simp only [List.range_succ, List.foldl_append, List.foldl_cons, List.foldl_nil, List.map_append,
      List.map_singleton, loadStep, readWord]
    obtain ⟨st, la, rd, ec⟩ := ih
    refine ⟨by rw [st], la, by rw [rd], ?_⟩
    rw [Bool.or_eq_true, ec]
    constructor
    · rintro (⟨k, hk, h⟩ | h)
      · exact ⟨k, by omega, h⟩
      · exact ⟨n, by omega, h⟩
    · rintro ⟨k, hk, h⟩
      rcases Nat.eq_or_lt_of_le (Nat.le_of_lt_succ hk) with rfl | hk
      · exact Or.inr h
      · exact Or.inl ⟨k, hk, h⟩

end Format

end QmkFirmware.Eeprom.L4
