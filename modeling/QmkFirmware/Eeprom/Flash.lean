import QmkFirmware.Lib.LittleEndian
import QmkFirmware.Lib.LogScan

/-!
# EEPROM emulation in flash

What the two drivers `eeprom_stm32_l4.c` and `eeprom_legacy_emulated_flash.c` have
in common: an area of flash pages that starts with a snapshot of the data, in
one's complement, and goes on with a log of the changes; the erase, compaction
and direct-write routines, which differ in the size of the programming unit
only. Every flash operation a driver issues is kept in a trace.
-/

namespace QmkFirmware.Eeprom
open Lib

/-- The `FEE_*` sizes as the preprocessor checks let them through, and the bytes
of the programming unit. The page base is a page address, and pages are counted
by a `uint16_t`. -/
structure Layout where
  unit : Nat
  pageSize : Nat
  pageCount : Nat
  densityBytes : Nat
  writeLogBytes : Nat
  pageBaseAddress : Nat
  unit_pos : 0 < unit
  fits : densityBytes + writeLogBytes ≤ pageCount * pageSize
  density_le : densityBytes ≤ 0x4000
  density_mod : densityBytes % unit = 0
  log_mod : writeLogBytes % unit = 0
  base_mod : pageBaseAddress % unit = 0
  base_pos : 0 < pageBaseAddress
  area_le : pageBaseAddress + pageCount * pageSize ≤ 2 ^ 32
  page_count_lt : pageCount < 2 ^ 16

namespace Layout

variable (L : Layout)

/-- `FEE_WRITE_LOG_BASE_ADDRESS`, which is `FEE_COMPACTED_LAST_ADDRESS` -/
def writeLogBase : Nat := L.pageBaseAddress + L.densityBytes

/-- `FEE_WRITE_LOG_LAST_ADDRESS` -/
def writeLogLast : Nat := L.writeLogBase + L.writeLogBytes

/-- The unit that holds byte `i`, as `Address & 0xFFF8` and `Address & 0xFFFE` find it. -/
def cell (i : Nat) : Nat := i - i % L.unit

end Layout

/-- The `FLASH_Status` values the drivers return; the number 0 is `none`. -/
inductive FlashStatus where
  | complete | badAddress
  deriving DecidableEq, Repr

/-- A flash operation. -/
inductive FlashOp where
  | erasePage (address : Nat)
  | program (address : Nat) (data : List UInt8)
  deriving DecidableEq, Repr

/-- Erasing sets a page to 0xFF; programming stores its data. -/
def FlashOp.apply (L : Layout) : FlashOp → (Nat → UInt8) → Nat → UInt8
  | .erasePage address, m => patch m address (List.replicate L.pageSize 0xFF)
  | .program address data, m => patch m address data

/-- The flash after a sequence of operations. -/
def applyOps (L : Layout) (m : Nat → UInt8) (ops : List FlashOp) : Nat → UInt8 :=
  ops.foldl (fun m op => op.apply L m) m

/-- The `n` bytes from `a` on are erased. -/
def Blank (m : Nat → UInt8) (a n : Nat) : Prop := ∀ i, a ≤ i → i < a + n → m i = 0xFF

/-- The flash, the static variables `DataBuf` and `empty_slot` (0 is `NULL`), and
the flash operations issued. -/
structure State where
  flash : Nat → UInt8
  dataBuf : Nat → UInt8
  emptySlot : Nat
  trace : List FlashOp

/-- Static storage is zero when the program starts. -/
def State.start (flash : Nat → UInt8) : State := ⟨flash, fun _ => 0, 0, []⟩

/-- Issues a flash operation, which succeeds. -/
def State.issue (L : Layout) (s : State) (op : FlashOp) : State :=
  { s with flash := op.apply L s.flash, trace := s.trace ++ [op] }

section Code

variable (L : Layout)

/-- The stores of the loop of `EEPROM_Init` that loads the compacted area, `w`
bytes at a time. -/
def loadCompacted (w : Nat) (flash : Nat → UInt8) : List (Patch UInt8) :=
  (List.range (L.densityBytes / w)).map fun k =>
    ⟨w * k, toBytes w (256 ^ w - 1 - ofBytes (slice flash (L.pageBaseAddress + w * k) w))⟩

/-- `eeprom_clear` -/
def eepromClear (s : State) : State :=
  { (List.range L.pageCount).foldl
      (fun s pageNum => s.issue L (.erasePage (L.pageBaseAddress + pageNum * L.pageSize))) s with
    emptySlot := L.writeLogBase }

/-- One iteration of the loop of `eeprom_compact`. -/
def compactCell (s : State) (k : Nat) : State :=
  let value := ofBytes (slice s.dataBuf (L.unit * k) L.unit)
  if value ≠ 0 then
    s.issue L (.program (L.pageBaseAddress + L.unit * k) (toBytes L.unit (256 ^ L.unit - 1 - value)))
  else s

/-- `eeprom_compact` -/
def eepromCompact (s : State) : Option FlashStatus × State :=
  (some .complete, (List.range (L.densityBytes / L.unit)).foldl (compactCell L) (eepromClear L s))

/-- `eeprom_write_direct_entry` -/
def eepromWriteDirectEntry (s : State) (address : Nat) : Option FlashStatus × State :=
  let directAddress := L.pageBaseAddress + L.cell address
  if ofBytes (slice s.flash directAddress L.unit) = 256 ^ L.unit - 1 then
    let value := 256 ^ L.unit - 1 - ofBytes (slice s.dataBuf (L.cell address) L.unit)
    -- early exit if a write isn't needed
    if value = 256 ^ L.unit - 1 then (some .complete, s)
    else (some .complete, s.issue L (.program directAddress (toBytes L.unit value)))
  else (none, s)

end Code

/-! ## Blank cells -/

theorem Blank.sub {m : Nat → UInt8} {a n b k : Nat} (h : Blank m a n) (lo : a ≤ b)
    (hi : b + k ≤ a + n) : Blank m b k :=
  fun i hb hk => h i (by omega) (by omega)

theorem Blank.patch {m : Nat → UInt8} {a n b : Nat} {l : List UInt8} (h : Blank m a n)
    (out : a + n ≤ b ∨ b + l.length ≤ a) : Blank (patch m b l) a n :=
  fun i lo hi => by rw [patch_outside (by omega), h i lo hi]

theorem Blank.congr {m m' : Nat → UInt8} {a n : Nat} (h : Blank m a n)
    (agree : ∀ i, a ≤ i → i < a + n → m' i = m i) : Blank m' a n :=
  fun i lo hi => (agree i lo hi).trans (h i lo hi)

/-- A word reads as the empty word if and only if its bytes are erased. -/
theorem ofBytes_eq_empty {m : Nat → UInt8} {a n : Nat} :
    ofBytes (slice m a n) = 256 ^ n - 1 ↔ Blank m a n := by
  have lt := ofBytes_lt (slice m a n)
  have compl := toBytes_compl (slice m a n)
  rw [length_slice] at lt compl
  have zero : 256 ^ n - 1 - ofBytes (slice m a n) = 0 ↔
      ∀ b ∈ (slice m a n).map fun b => ~~~b, b = 0 := by
    rw [← compl, ← ofBytes_eq_zero, ofBytes_toBytes (by omega)]
  have bytes : (∀ b ∈ (slice m a n).map fun b => ~~~b, b = 0) ↔ Blank m a n := by
    simp only [List.forall_mem_map]
    constructor
    · intro h i lo hi
      have mem : m i ∈ slice m a n := by
        have := List.getElem_mem (l := slice m a n) (n := i - a) (by simp; omega)
        rwa [getElem_slice, show a + (i - a) = i by omega] at this
      have twice : ~~~(~~~m i) = m i := UInt8.not_not
      rw [← twice, h _ mem]
      rfl
    · intro h b hb
      obtain ⟨k, hk, rfl⟩ := List.getElem_of_mem hb
      simp only [length_slice] at hk
      rw [getElem_slice, h _ (by omega) (by omega)]
      rfl
  rw [← bytes, ← zero]
  omega

/-! ## Cells -/

namespace Layout

variable {L : Layout}

theorem cell_le (i : Nat) : L.cell i ≤ i := Nat.sub_le _ _

theorem lt_cell_add (i : Nat) : i < L.cell i + L.unit := by
  have := Nat.mod_lt i L.unit_pos
  simp only [cell]
  omega

theorem cell_mod (i : Nat) : L.cell i % L.unit = 0 := by
  rw [cell]
  exact Nat.sub_mod_eq_zero_of_mod_eq (Nat.mod_mod _ _).symm

theorem cell_mul (k r : Nat) (h : r < L.unit) : L.cell (L.unit * k + r) = L.unit * k := by
  rw [cell, Nat.mul_add_mod, Nat.mod_eq_of_lt h]
  omega

/-- The bytes of a cell are the bytes it is the cell of. -/
theorem cell_eq_iff {i j : Nat} : L.cell i = L.cell j ↔ L.cell j ≤ i ∧ i < L.cell j + L.unit := by
  constructor
  · intro h
    rw [← h]
    exact ⟨cell_le i, lt_cell_add i⟩
  · rintro ⟨lo, hi⟩
    obtain ⟨k, hk⟩ := Nat.dvd_of_mod_eq_zero (cell_mod (L := L) j)
    rw [hk] at lo hi ⊢
    have := cell_mul (L := L) k (i - L.unit * k) (by omega)
    rwa [show L.unit * k + (i - L.unit * k) = i by omega] at this

/-- A cell that starts below an aligned bound ends below it. -/
theorem cell_add_le {i n : Nat} (h : i < n) (hn : n % L.unit = 0) : L.cell i + L.unit ≤ n := by
  obtain ⟨k, hk⟩ := Nat.dvd_of_mod_eq_zero (cell_mod (L := L) i)
  obtain ⟨l, rfl⟩ := Nat.dvd_of_mod_eq_zero hn
  have lt : L.unit * k < L.unit * l := by rw [← hk]; exact Nat.lt_of_le_of_lt (cell_le i) h
  have : k < l := Nat.lt_of_mul_lt_mul_left lt
  rw [hk]
  calc L.unit * k + L.unit = L.unit * (k + 1) := by ring
    _ ≤ L.unit * l := Nat.mul_le_mul_left _ this

end Layout

/-! ## Loading the compacted area -/

/-- The data that the compacted area holds. -/
def snapshot (L : Layout) (flash : Nat → UInt8) : Nat → UInt8 :=
  fun i => ~~~flash (L.pageBaseAddress + i)

theorem replay_range_stores (f : Nat → UInt8) (m : Nat → UInt8) (w n : Nat) :
    replay m ((List.range n).map fun k => ⟨w * k, slice f (w * k) w⟩) = patch m 0 (slice f 0 (w * n)) := by
  induction n with
  | zero =>
    rw [Nat.mul_zero, slice_zero, patch_nil]
    rfl
  | succ n ih =>
    rw [List.range_succ, List.map_append, List.map_singleton, replay_snoc, ih, Nat.mul_succ, slice_add,
      patch_append, length_slice, Nat.zero_add]
    rfl

/-- A word's complement is what the snapshot holds there. -/
theorem toBytes_compl_slice (L : Layout) (flash : Nat → UInt8) (i w : Nat) :
    toBytes w (256 ^ w - 1 - ofBytes (slice flash (L.pageBaseAddress + i) w)) =
      slice (snapshot L flash) i w := by
  have h := toBytes_compl (slice flash (L.pageBaseAddress + i) w)
  rw [length_slice] at h
  rw [h]
  refine List.ext_getElem (by simp) fun k _ _ => ?_
  simp [snapshot, Nat.add_assoc]

theorem replay_loadCompacted {L : Layout} {w : Nat} (hw : L.densityBytes % w = 0)
    (flash m : Nat → UInt8) :
    replay m (loadCompacted L w flash) = patch m 0 (slice (snapshot L flash) 0 L.densityBytes) := by
  have stores := replay_range_stores (snapshot L flash) m w (L.densityBytes / w)
  rw [Nat.mul_div_cancel' (Nat.dvd_of_mod_eq_zero hw)] at stores
  rw [← stores, loadCompacted]
  simp only [toBytes_compl_slice]

end QmkFirmware.Eeprom
