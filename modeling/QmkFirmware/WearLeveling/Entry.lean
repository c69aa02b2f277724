import QmkFirmware.Lib.Memory

/-!
# Write log entries

`write_log_entry_t` and the `LOG_ENTRY_*` macros of `wear_leveling_internal.h`.
The union is its eight bytes `raw8`; `raw16`, `raw32` and `raw64` are slices of
them, and a `backing_store_int_t` is the list of its bytes in memory order, so
no byte order enters. An entry is also what the reader assembles on its stack
word by word, hence a function on all byte numbers: what is not read yet keeps
whatever the stack held.
-/

namespace QmkFirmware.WearLeveling
open Lib

/-- `BACKING_STORE_WRITE_SIZE`, one of the three the header accepts. -/
inductive WriteSize where
  | two | four | eight
  deriving DecidableEq, Repr

/-- The write size in bytes. -/
@[simp] def WriteSize.bytes : WriteSize → Nat
  | .two => 2
  | .four => 4
  | .eight => 8

/-- `backing_store_int_t`: the bytes of one backing store word. -/
abbrev Word := List UInt8

/-- `write_log_entry_t`, by its `raw8` view. -/
abbrev LogEntry := Nat → UInt8

/-- `LOG_ENTRY_TYPE_*`. -/
inductive LogEntryType where
  | multibyte | optimized64 | word01
  deriving DecidableEq, Repr

/-- The discriminator's numeric value. -/
def LogEntryType.code : LogEntryType → Nat
  | .multibyte => 0
  | .optimized64 => 1
  | .word01 => 2

/-- `BITMASK_FOR_BITCOUNT` -/
def bitmaskForBitcount (n : Nat) : Nat := (1 <<< n) - 1

namespace LogEntry

/-- `raw16[k]` -/
def raw16 (e : LogEntry) (k : Nat) : Word := slice e (2 * k) 2

/-- `raw32[k]` -/
def raw32 (e : LogEntry) (k : Nat) : Word := slice e (4 * k) 4

/-- `raw64` -/
def raw64 (e : LogEntry) : Word := slice e 0 8

@[simp] theorem length_raw16 (e : LogEntry) (k : Nat) : (e.raw16 k).length = 2 := length_slice e _ _

@[simp] theorem length_raw32 (e : LogEntry) (k : Nat) : (e.raw32 k).length = 4 := length_slice e _ _

@[simp] theorem length_raw64 (e : LogEntry) : e.raw64.length = 8 := length_slice e _ _

/-- `LOG_ENTRY_GET_TYPE`; the fourth value names no entry type. -/
def getType (e : LogEntry) : Option LogEntryType :=
  match ((e 0).toNat >>> 6) &&& bitmaskForBitcount 2 with
  | 0 => some .multibyte
  | 1 => some .optimized64
  | 2 => some .word01
  | _ => none

/-- `LOG_ENTRY_MULTIBYTE_MAX_BYTES` -/
def multibyteMaxBytes : Nat := 5

/-- `LOG_ENTRY_MULTIBYTE_GET_ADDRESS` -/
def multibyteGetAddress (e : LogEntry) : Nat :=
  (((e 0).toNat &&& bitmaskForBitcount 3) <<< 16) ||| ((e 1).toNat <<< 8) ||| (e 2).toNat

/-- `LOG_ENTRY_MULTIBYTE_GET_LENGTH` -/
def multibyteGetLength (e : LogEntry) : Nat := ((e 0).toNat >>> 3) &&& bitmaskForBitcount 3

/-- `LOG_ENTRY_MAKE_MULTIBYTE` -/
def makeMultibyte (address length : Nat) : LogEntry
  | 0 => UInt8.ofNat
      (((LogEntryType.multibyte.code &&& bitmaskForBitcount 2) <<< 6) |||
        ((length &&& bitmaskForBitcount 3) <<< 3) |||
        ((address >>> 16) &&& bitmaskForBitcount 3))
  | 1 => UInt8.ofNat ((address >>> 8) &&& bitmaskForBitcount 8)
  | 2 => UInt8.ofNat (address &&& bitmaskForBitcount 8)
  | _ => 0

/-- `LOG_ENTRY_OPTIMIZED_64_GET_ADDRESS` -/
def optimized64GetAddress (e : LogEntry) : Nat := (e 0).toNat &&& bitmaskForBitcount 6

/-- `LOG_ENTRY_OPTIMIZED_64_GET_VALUE` -/
def optimized64GetValue (e : LogEntry) : UInt8 := e 1

/-- `LOG_ENTRY_MAKE_OPTIMIZED_64` -/
def makeOptimized64 (address : Nat) (value : UInt8) : LogEntry
  | 0 => UInt8.ofNat
      (((LogEntryType.optimized64.code &&& bitmaskForBitcount 2) <<< 6) |||
        (address &&& bitmaskForBitcount 6))
  | 1 => value
  | _ => 0

/-- `LOG_ENTRY_WORD_01_GET_ADDRESS` -/
def word01GetAddress (e : LogEntry) : Nat :=
  (((e 0).toNat &&& bitmaskForBitcount 5) <<< 9) ||| ((e 1).toNat <<< 1)

/-- `LOG_ENTRY_WORD_01_GET_VALUE` -/
def word01GetValue (e : LogEntry) : UInt8 :=
  UInt8.ofNat (((e 0).toNat >>> 5) &&& bitmaskForBitcount 1)

/-- `LOG_ENTRY_MAKE_WORD_01` -/
def makeWord01 (address value : Nat) : LogEntry
  | 0 => UInt8.ofNat
      (((LogEntryType.word01.code &&& bitmaskForBitcount 2) <<< 6) |||
        (((if value ≠ 0 then 1 else 0) &&& bitmaskForBitcount 1) <<< 5) |||
        ((address >>> 9) &&& bitmaskForBitcount 5))
  | 1 => UInt8.ofNat (address >>> 1)
  | _ => 0

/-! ## The getters invert the makers

Each header byte is a sum of disjoint bit fields, so its fields are recovered by
division; the small fields are checked value by value. -/

theorem and_bitmask (n k : Nat) : n &&& bitmaskForBitcount k = n % 2 ^ k := by
  rw [bitmaskForBitcount, Nat.one_shiftLeft, Nat.and_two_pow_sub_one_eq_mod]

/-- The first byte of a multi-byte header, field by field. -/
theorem multibyte_byte0 (length top : Nat) (hl : length < 8) (ht : top < 8) :
    (UInt8.ofNat (((LogEntryType.multibyte.code &&& bitmaskForBitcount 2) <<< 6) |||
      ((length &&& bitmaskForBitcount 3) <<< 3) ||| (top &&& bitmaskForBitcount 3))).toNat =
    length * 8 + top := by
  interval_cases length <;> interval_cases top <;> rfl

theorem optimized64_byte0 (address : Nat) (ha : address < 64) :
    (UInt8.ofNat (((LogEntryType.optimized64.code &&& bitmaskForBitcount 2) <<< 6) |||
      (address &&& bitmaskForBitcount 6))).toNat = 64 + address := by
  interval_cases address <;> rfl

theorem word01_byte0 (value top : Nat) (hv : value < 2) (ht : top < 32) :
    (UInt8.ofNat (((LogEntryType.word01.code &&& bitmaskForBitcount 2) <<< 6) |||
      (((if value ≠ 0 then 1 else 0) &&& bitmaskForBitcount 1) <<< 5) |||
      (top &&& bitmaskForBitcount 5))).toNat = 128 + value * 32 + top := by
  interval_cases value <;> interval_cases top <;> rfl

/-- An entry that starts with a multi-byte header is read back as one. -/
theorem multibyte_header {e : LogEntry} {address length : Nat}
    (h : ∀ i, i < 3 → e i = makeMultibyte address length i)
    (ha : address < 2 ^ 19) (hl : length < 8) :
    (e 0).toNat = length * 8 + address / 2 ^ 16 ∧ e.getType = some .multibyte ∧
      e.multibyteGetAddress = address ∧ e.multibyteGetLength = length := by
  have e0 : (e 0).toNat = length * 8 + address / 2 ^ 16 := by
    rw [h 0 (by omega), makeMultibyte, Nat.shiftRight_eq_div_pow]
    exact multibyte_byte0 length (address / 2 ^ 16) hl (by omega)
  have e1 : (e 1).toNat = address / 2 ^ 8 % 256 := by
    rw [h 1 (by omega), makeMultibyte, and_bitmask, Nat.shiftRight_eq_div_pow]
    simp
  have e2 : (e 2).toNat = address % 256 := by
    rw [h 2 (by omega), makeMultibyte, and_bitmask]
    simp
  refine ⟨e0, ?_, ?_, ?_⟩
  · rw [getType, e0, and_bitmask, Nat.shiftRight_eq_div_pow]
    rw [show (length * 8 + address / 2 ^ 16) / 2 ^ 6 % 2 ^ 2 = 0 by omega]
    rfl
  · rw [multibyteGetAddress, e0, e1, e2, and_bitmask]
    rw [Nat.or_assoc, ← Nat.shiftLeft_add_eq_or_of_lt (by omega : address % 256 < 2 ^ 8),
      ← Nat.shiftLeft_add_eq_or_of_lt (by simp only [Nat.shiftLeft_eq]; omega),
      Nat.shiftLeft_eq, Nat.shiftLeft_eq]
    omega
  · rw [multibyteGetLength, e0, and_bitmask, Nat.shiftRight_eq_div_pow]
    omega

/-- An entry that starts with an optimised byte entry is read back as one. -/
theorem optimized64_header {e : LogEntry} {address : Nat} (value : UInt8)
    (h : ∀ i, i < 2 → e i = makeOptimized64 address value i) (ha : address < 64) :
    (e 0).toNat = 64 + address ∧ e.getType = some .optimized64 ∧
      e.optimized64GetAddress = address ∧ e.optimized64GetValue = value := by
  have e0 : (e 0).toNat = 64 + address := by
    rw [h 0 (by omega), makeOptimized64]
    exact optimized64_byte0 address ha
  refine ⟨e0, ?_, ?_, ?_⟩
  · rw [getType, e0, and_bitmask, Nat.shiftRight_eq_div_pow]
    rw [show (64 + address) / 2 ^ 6 % 2 ^ 2 = 1 by omega]
    rfl
  · rw [optimized64GetAddress, e0, and_bitmask]
    omega
  · exact h 1 (by omega)

/-- An entry that starts with a 0/1 word entry is read back as one. -/
theorem word01_header {e : LogEntry} {address value : Nat}
    (h : ∀ i, i < 2 → e i = makeWord01 address value i)
    (ha : address < 16384) (even : address % 2 = 0) (hv : value < 2) :
    (e 0).toNat = 128 + value * 32 + address / 2 ^ 9 ∧ e.getType = some .word01 ∧
      e.word01GetAddress = address ∧ e.word01GetValue = UInt8.ofNat value := by
  have e0 : (e 0).toNat = 128 + value * 32 + address / 2 ^ 9 := by
    rw [h 0 (by omega), makeWord01, Nat.shiftRight_eq_div_pow]
    exact word01_byte0 value (address / 2 ^ 9) hv (by omega)
  have e1 : (e 1).toNat = address / 2 % 256 := by
    rw [h 1 (by omega), makeWord01, Nat.shiftRight_eq_div_pow]
    simp
  refine ⟨e0, ?_, ?_, ?_⟩
  · rw [getType, e0, and_bitmask, Nat.shiftRight_eq_div_pow]
    rw [show (128 + value * 32 + address / 2 ^ 9) / 2 ^ 6 % 2 ^ 2 = 2 by omega]
    rfl
  · rw [word01GetAddress, e0, e1, and_bitmask,
      ← Nat.shiftLeft_add_eq_or_of_lt (by simp only [Nat.shiftLeft_eq]; omega),
      Nat.shiftLeft_eq, Nat.shiftLeft_eq]
    omega
  · rw [word01GetValue, e0, and_bitmask, Nat.shiftRight_eq_div_pow]
    rw [show (128 + value * 32 + address / 2 ^ 9) / 2 ^ 5 % 2 ^ 1 = value by omega]

/-- An entry that starts with one of the three headers is not an empty slot. -/
theorem byte0_ne_zero {e : LogEntry} (h : 0 < (e 0).toNat) : e 0 ≠ 0 := by
  intro h0
  simp [h0] at h

end LogEntry

end QmkFirmware.WearLeveling
