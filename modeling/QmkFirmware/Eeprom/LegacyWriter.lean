import QmkFirmware.Eeprom.Legacy

/-!
# The writes of the legacy driver

Every write leaves flash that stands for `DataBuf`, with one exception: an
aligned word write of 0 below 0x80 that changes both bytes and finds the log
full. Its first byte entry compacts, which leaves the cell of the word blank, and
its second byte entry is then logged over the blank cell.
-/

namespace QmkFirmware.Eeprom.Legacy
open Lib

variable {c : Config}

/-! ## Entries are read back as they were written -/

theorem replayEntry_byte {m : Nat → UInt8} {a address : Nat} {v : UInt8}
    (word : ofBytes (slice m a 2) = (address <<< 8) ||| v.toNat) (ha : address < byteRange) :
    replayEntry c m a = ([⟨address, [v]⟩], a + 2) := by
  have hv := v.toNat_lt
  simp only [byteRange] at ha
  rw [← Nat.shiftLeft_add_eq_or_of_lt (by omega), Nat.shiftLeft_eq] at word
  have top := and_high (n := 15) 0 1 (by omega : address * 2 ^ 8 + v.toNat < 2 ^ 15)
  have low : UInt8.ofNat (address * 2 ^ 8 + v.toNat) = v := by
    apply UInt8.toNat_inj.1
    rw [UInt8.toNat_ofNat']
    omega
  rw [replayEntry, word, if_pos (by simpa [wordEncoding] using top), Nat.shiftRight_eq_div_pow, toBytes,
    toBytes, low, show (address * 2 ^ 8 + v.toNat) / 2 ^ 8 = address by omega]

/-- The high three bits of a word entry and its 13 low bits. -/
theorem wordEntry_fields {k x : Nat} (hx : x < 2 ^ 13) :
    (2 ^ 13 * k + x) &&& wordEncoding = 2 ^ 13 * (k &&& 4) ∧
      (2 ^ 13 * k + x) &&& valueNext = 2 ^ 13 * (k &&& 3) ∧
      (2 ^ 13 * k + x) &&& valueReserved = 2 ^ 13 * (k &&& 2) ∧
      (2 ^ 13 * k + x) &&& valueEncoded = 2 ^ 13 * (k &&& 1) ∧
      (2 ^ 13 * k + x) &&& 0x1FFF = x := by
  refine ⟨and_high k 4 hx, and_high k 3 hx, and_high k 2 hx, and_high k 1 hx, ?_⟩
  rw [show 0x1FFF = 2 ^ 13 - 1 from rfl, Nat.and_two_pow_sub_one_eq_mod]
  omega

theorem replayEntry_small {m : Nat → UInt8} {a address value : Nat} (small : value ≤ 1)
    (word : ofBytes (slice m a 2) = 2 ^ 13 * (4 + value) + address / 2) (even : address % 2 = 0)
    (ha : address < c.densityBytes) :
    replayEntry c m a = ([⟨address, toBytes 2 value⟩], a + 2) := by
  have hd := c.density_le
  obtain ⟨enc, next, res, val, low⟩ := wordEntry_fields (k := 4 + value)
    (by omega : address / 2 < 2 ^ 13)
  have bits : (4 + value) &&& 4 = 4 ∧ (4 + value) &&& 3 = value ∧ (4 + value) &&& 2 = 0 ∧
      (4 + value) &&& 1 = value := by
    rcases (by omega : value = 0 ∨ value = 1) with rfl | rfl <;> decide
  rw [bits.1] at enc
  rw [bits.2.1] at next
  rw [bits.2.2.1] at res
  rw [bits.2.2.2] at val
  rw [replayEntry, word]
  simp only [enc, next, res, val, low]
  rw [if_neg (by omega), if_neg (by simp only [valueNext]; omega), if_neg (by omega), wordStores,
    Nat.shiftLeft_eq, Nat.shiftRight_eq_div_pow, show address / 2 * 2 ^ 1 = address by omega, if_pos ha,
    show 2 ^ 13 * value / 2 ^ 13 = value by omega]

theorem replayEntry_next {m : Nat → UInt8} {a address value : Nat} (large : 1 < value)
    (hv : value < 2 ^ 16) (word : ofBytes (slice m a 2) = 2 ^ 13 * 7 + (address - byteRange) / 2)
    (second : ofBytes (slice m (a + 2) 2) = 0xFFFF - value) (room : a + 2 < c.writeLogLast)
    (even : address % 2 = 0) (ge : byteRange ≤ address) (ha : address < c.densityBytes) :
    replayEntry c m a = ([⟨address, toBytes 2 value⟩], a + 4) := by
  have hd := c.density_le
  simp only [byteRange] at word ge
  obtain ⟨enc, next, -, -, low⟩ := wordEntry_fields (k := 7)
    (by omega : (address - 0x80) / 2 < 2 ^ 13)
  rw [replayEntry, word]
  simp only [enc, next, low, second]
  rw [if_neg (by decide), if_pos (by decide), if_neg (by omega), if_neg (by omega), wordStores,
    Nat.shiftLeft_eq, byteRange, show (address - 0x80) / 2 * 2 ^ 1 + 0x80 = address by omega, if_pos ha,
    show 0xFFFF - (0xFFFF - value) = value by omega]

/-- Without its second half-word the entry is passed over. -/
theorem replayEntry_torn {m : Nat → UInt8} {a address : Nat}
    (word : ofBytes (slice m a 2) = 2 ^ 13 * 7 + (address - byteRange) / 2) (blank : Blank m (a + 2) 2)
    (room : a + 2 < c.writeLogLast) (ge : byteRange ≤ address) (ha : address < c.densityBytes) :
    replayEntry c m a = ([], a + 4) := by
  have hd := c.density_le
  simp only [byteRange] at word ge
  obtain ⟨enc, next, -, -, -⟩ := wordEntry_fields (k := 7)
    (by omega : (address - 0x80) / 2 < 2 ^ 13)
  rw [replayEntry, word]
  simp only [enc, next, ofBytes_eq_empty.2 blank]
  rw [if_neg (by decide), if_pos (by decide), if_neg (by omega), if_pos (by decide)]

/-! ## Programming log slots -/

/-- What a running driver keeps: the flash stands for the buffer. -/
def Running (c : Config) (s : State) : Prop :=
  Sound c.toLayout (format c) s.flash s.emptySlot s.dataBuf

theorem programSlot_history {s : State} {value : Nat} (mod : s.emptySlot % 2 = 0)
    (lo : c.writeLogBase ≤ s.emptySlot) (hi : s.emptySlot + 2 ≤ c.writeLogLast)
    (blank : Blank s.flash s.emptySlot 2)
    (cut : Recoverable c.toLayout (format c) (programSlot c s value).flash) {m₀ : Nat → UInt8}
    (h : History c.toLayout (format c) m₀ s) :
    History c.toLayout (format c) m₀ (programSlot c s value) := by
  have hu := c.unit_eq
  simp only [Layout.writeLogBase] at lo
  have issued := h.issue (.program s.emptySlot (toBytes 2 value))
    ⟨by rw [hu]; exact mod, by omega, by rw [hu]; exact hi, by simp [hu], by rw [hu]; exact blank⟩
    fun _ => cut
  exact issued.congr rfl rfl

/-- A half-word appended to the log, as an entry of its own. -/
theorem programSlot_spec {s : State} {data : Nat → UInt8}
    (h : Sound c.toLayout (format c) s.flash s.emptySlot data) (room : s.emptySlot < c.writeLogLast)
    (value : Nat) {p : Patch UInt8} (fits : value < emptyWord)
    (next : replayEntry c (patch s.flash s.emptySlot (toBytes 2 value)) s.emptySlot =
      ([p], s.emptySlot + 2))
    (cover : ∀ i, p.Covers i →
      i < c.densityBytes ∧ ¬ Blank s.flash (c.pageBaseAddress + c.cell i) c.unit) :
    Sound c.toLayout (format c) (programSlot c s value).flash (programSlot c s value).emptySlot
      (p.apply data) ∧
      ∀ m₀, History c.toLayout (format c) m₀ s → History c.toLayout (format c) m₀ (programSlot c s value) := by
  have hu := c.unit_eq
  have mod := h.slot_mod
  have last := c.writeLogLast_mod
  rw [hu] at mod last
  obtain ⟨log, scan, -⟩ := h.log
  have self := slice_patch_self s.flash s.emptySlot (toBytes 2 value)
  rw [length_toBytes] at self
  have here : (format c).next (patch s.flash s.emptySlot (toBytes 2 value)) s.emptySlot =
      some ([p], s.emptySlot + 2) := by
    simp only [emptyWord] at fits
    simp only [format]
    rw [if_neg (by omega), self, ofBytes_toBytes (by omega),
      if_neg (by simp only [emptyWord]; omega), next]
  have sound := h.append (toBytes 2 value) (by simp) (by omega) (by rw [hu]) here
    (fun q hq => by rw [List.mem_singleton.1 hq]; exact cover) (fun i _ => rfl)
  exact ⟨sound, fun m₀ hist => programSlot_history mod scan.le (by omega)
    (h.fresh.sub (Nat.le_refl _) (by omega)) (recoverable_iff.2 ⟨_, _, sound⟩) hist⟩

/-- What a byte entry does: it is appended, or there is no room and the area is
compacted. -/
theorem eepromWriteLogByteEntry_spec {s : State} {data : Nat → UInt8}
    (h : Sound c.toLayout (format c) s.flash s.emptySlot data) {address : Nat}
    (ha : address < c.densityBytes) (low : address < byteRange)
    (used : s.emptySlot < c.writeLogLast →
      ¬ Blank s.flash (c.pageBaseAddress + c.cell address) c.unit) :
    (eepromWriteLogByteEntry c s address).2.dataBuf = s.dataBuf ∧
      (∀ m₀, History c.toLayout (format c) m₀ s →
        History c.toLayout (format c) m₀ (eepromWriteLogByteEntry c s address).2) ∧
      (s.emptySlot < c.writeLogLast ∧
          Sound c.toLayout (format c) (eepromWriteLogByteEntry c s address).2.flash
            (eepromWriteLogByteEntry c s address).2.emptySlot (patch data address [s.dataBuf address]) ∧
          (∀ i, i < c.writeLogBase → (eepromWriteLogByteEntry c s address).2.flash i = s.flash i) ∨
        c.writeLogLast ≤ s.emptySlot ∧ Running c (eepromWriteLogByteEntry c s address).2 ∧
          (eepromWriteLogByteEntry c s address).2.emptySlot = c.writeLogBase) := by
  rw [eepromWriteLogByteEntry]
  split
  case isTrue full =>
    obtain ⟨-, hb, hs, sound, -, hist⟩ := eepromCompact_spec (format c) s
    exact ⟨hb, hist, Or.inr ⟨full, by rw [Running, hb, hs]; exact sound, hs⟩⟩
  case isFalse room =>
    have room : s.emptySlot < c.writeLogLast := by omega
    have hv := (s.dataBuf address).toNat_lt
    have value : (address <<< 8) ||| (s.dataBuf address).toNat = address * 256 + (s.dataBuf address).toNat := by
      rw [← Nat.shiftLeft_add_eq_or_of_lt (by omega), Nat.shiftLeft_eq]
    simp only [byteRange] at low
    have self := slice_patch_self s.flash s.emptySlot
      (toBytes 2 ((address <<< 8) ||| (s.dataBuf address).toNat))
    rw [length_toBytes] at self
    obtain ⟨sound, hist⟩ := programSlot_spec h room
      ((address <<< 8) ||| (s.dataBuf address).toNat) (p := ⟨address, [s.dataBuf address]⟩)
      (by rw [value, emptyWord]; omega)
      (replayEntry_byte (by rw [self, ofBytes_toBytes (by rw [value]; omega)]) low)
      (fun i hc => by
        simp only [Patch.Covers, List.length_singleton] at hc
        rw [show i = address by omega]
        exact ⟨ha, used room⟩)
    obtain ⟨log, scan, -⟩ := h.log
    have base := scan.le
    exact ⟨rfl, hist, Or.inl ⟨room, sound, fun i hi => patch_below (by omega)⟩⟩

/-- A word entry brings the log up to the buffer, or there is no room and the area
is compacted. -/
theorem eepromWriteLogWordEntry_spec {s : State} {data : Nat → UInt8}
    (h : Sound c.toLayout (format c) s.flash s.emptySlot data) (address : Nat)
    (ha : address < c.densityBytes) (high : byteRange ≤ address) (even : address % 2 = 0)
    (used : ¬ Blank s.flash (c.pageBaseAddress + c.cell address) c.unit)
    (same : ∀ j, j < c.densityBytes → c.cell j ≠ address → s.dataBuf j = data j) :
    (eepromWriteLogWordEntry c s address).2.dataBuf = s.dataBuf ∧
      Running c (eepromWriteLogWordEntry c s address).2 ∧
      ∀ m₀, History c.toLayout (format c) m₀ s →
        History c.toLayout (format c) m₀ (eepromWriteLogWordEntry c s address).2 := by
  have hu := c.unit_eq
  have hd := c.density_le
  obtain ⟨value, stored⟩ : ∃ v, v = ofBytes (slice s.dataBuf address 2) := ⟨_, rfl⟩
  have hv := ofBytes_lt (slice s.dataBuf address 2)
  have bytes := toBytes_ofBytes (slice s.dataBuf address 2)
  rw [length_slice, ← stored] at hv bytes
  have compacted : (eepromCompact c.toLayout s).2.dataBuf = s.dataBuf ∧
      Running c (eepromCompact c.toLayout s).2 ∧
      ∀ m₀, History c.toLayout (format c) m₀ s → History c.toLayout (format c) m₀ (eepromCompact c.toLayout s).2 := by
    obtain ⟨-, hb, hs, sound, -, hist⟩ := eepromCompact_spec (format c) s
    exact ⟨hb, by rw [Running, hb, hs]; exact sound, hist⟩
  -- the entry makes the data the buffer
  have view : ∀ i, i < c.densityBytes → s.dataBuf i = patch data address (toBytes 2 value) i := by
    intro i hi
    rw [bytes]
    by_cases inside : address ≤ i ∧ i < address + 2
    · exact (patch_slice_of inside.1 inside.2).symm
    · rw [patch_outside (by simp; omega)]
      refine same i hi fun e => inside ?_
      simp only [Layout.cell, hu] at e
      omega
  have cover : ∀ i, (Patch.mk address (toBytes 2 value)).Covers i →
      i < c.densityBytes ∧ ¬ Blank s.flash (c.pageBaseAddress + c.cell i) c.unit := by
    intro i hc
    simp only [Patch.Covers, length_toBytes] at hc
    have cell : c.cell i = c.cell address := by
      simp only [Layout.cell, hu]
      omega
    have density := c.density_mod
    rw [hu] at density
    rw [cell]
    exact ⟨by omega, used⟩
  have mod := h.slot_mod
  have last := c.writeLogLast_mod
  rw [hu] at mod last
  obtain ⟨log, scan, -⟩ := h.log
  have base := scan.le
  have lastGe : 4 ≤ c.writeLogLast := by
    simp only [byteRange] at high
    simp only [Layout.writeLogLast, Layout.writeLogBase]
    omega
  rcases Nat.lt_or_ge 1 value with large | small
  · rw [eepromWriteLogWordEntry, ← stored]
    simp only [if_neg (Nat.not_le.2 large)]
    split
    case isTrue => exact compacted
    case isFalse room =>
      rw [if_pos trivial]
      have field : ((address + 2 ^ 16 - byteRange) % 2 ^ 16) >>> 1 ||| (wordEncoding ||| valueNext) =
          2 ^ 13 * 7 + (address - byteRange) / 2 := by
        simp only [byteRange] at high ⊢
        rw [show (address + 2 ^ 16 - 0x80) % 2 ^ 16 = address - 0x80 by omega, Nat.shiftRight_eq_div_pow,
          Nat.or_comm]
        exact or_low 7 (by omega : (address - 0x80) / 2 ^ 1 < 2 ^ 13)
      rw [field]
      obtain ⟨first, hfirst⟩ : ∃ x, x = 2 ^ 13 * 7 + (address - byteRange) / 2 := ⟨_, rfl⟩
      have firstLt : first < 0xFFFF := by
        simp only [byteRange] at hfirst
        omega
      rw [← hfirst]
      -- the two half-words as one patch of the log
      have joined := patch_append s.flash s.emptySlot (toBytes 2 first) (toBytes 2 (0xFFFF - value))
      rw [length_toBytes] at joined
      have all := slice_patch_self s.flash s.emptySlot (toBytes 2 first ++ toBytes 2 (0xFFFF - value))
      rw [List.length_append, length_toBytes, length_toBytes, slice_add] at all
      obtain ⟨h₁, h₂⟩ := List.append_inj all (by simp)
      have here : (format c).next (patch s.flash s.emptySlot (toBytes 2 first ++ toBytes 2 (0xFFFF - value)))
          s.emptySlot = some ([⟨address, toBytes 2 value⟩], s.emptySlot + 4) := by
        simp only [format]
        rw [if_neg (by omega), h₁, ofBytes_toBytes (by omega), if_neg (by simp only [emptyWord]; omega),
          replayEntry_next large hv (by rw [h₁, ofBytes_toBytes (by omega), hfirst])
            (by rw [h₂, ofBytes_toBytes (by omega)]) (by omega) even high ha]
      have sound := h.append (toBytes 2 first ++ toBytes 2 (0xFFFF - value))
        (by simp) (by omega) (by rw [hu]) here
        (fun q hq => by rw [List.mem_singleton.1 hq]; exact cover) (fun i _ => rfl)
      rw [joined] at sound
      -- after the first of them the reader finds an incomplete write
      have blank₂ : Blank (patch s.flash s.emptySlot (toBytes 2 first)) (s.emptySlot + 2) 2 :=
        (h.fresh.sub (b := s.emptySlot + 2) (k := 2) (by omega) (by omega)).patch (Or.inr (by simp))
      have self := slice_patch_self s.flash s.emptySlot (toBytes 2 first)
      rw [length_toBytes] at self
      have torn : (format c).next (patch s.flash s.emptySlot (toBytes 2 first)) s.emptySlot =
          some ([], s.emptySlot + 4) := by
        simp only [format]
        rw [if_neg (by omega), self, ofBytes_toBytes (by omega), if_neg (by simp only [emptyWord]; omega),
          replayEntry_torn (by rw [self, ofBytes_toBytes (by omega), hfirst]) blank₂ (by omega) high ha]
      have cut := h.append (toBytes 2 first) (by simp) (by omega) (by rw [hu]) torn (by simp)
        (fun i _ => rfl)
      refine ⟨rfl, sound.congr view, fun m₀ hist => ?_⟩
      refine programSlot_history (s := programSlot c s first) (by simp only [programSlot]; omega)
        (by simp only [programSlot]; omega) (by simp only [programSlot]; omega) blank₂
        (recoverable_iff.2 ⟨_, _, sound⟩) ?_
      exact programSlot_history mod base (by omega) (h.fresh.sub (Nat.le_refl _) (by omega))
        (recoverable_iff.2 ⟨_, _, cut⟩) hist
  · rw [eepromWriteLogWordEntry, ← stored]
    simp only [if_pos small]
    split
    case isTrue => exact compacted
    case isFalse room =>
      have encoding : wordEncoding ||| value <<< 13 = 2 ^ 13 * (4 + value) := by
        rcases (by omega : value = 0 ∨ value = 1) with e | e <;> rw [e] <;> rfl
      have field : address >>> 1 ||| (wordEncoding ||| value <<< 13) = 2 ^ 13 * (4 + value) + address / 2 := by
        rw [encoding, Nat.shiftRight_eq_div_pow, Nat.or_comm]
        exact or_low (4 + value) (by omega : address / 2 ^ 1 < 2 ^ 13)
      rw [field, if_neg (by rw [encoding, show wordEncoding ||| valueNext = 2 ^ 13 * 7 from rfl]; omega)]
      have self := slice_patch_self s.flash s.emptySlot (toBytes 2 (2 ^ 13 * (4 + value) + address / 2))
      rw [length_toBytes] at self
      obtain ⟨sound, hist⟩ := programSlot_spec h (by omega)
        (2 ^ 13 * (4 + value) + address / 2) (by simp only [emptyWord]; omega)
        (replayEntry_small small (by rw [self, ofBytes_toBytes (by omega)]) even ha) cover
      exact ⟨rfl, sound.congr view, hist⟩

/-! ## Bytes and words -/

/-- A byte write. -/
theorem eepromWriteDataByte_spec {s : State} (h : Running c s) {address : Nat} (dataByte : UInt8)
    (ha : address < c.densityBytes) :
    Running c (eepromWriteDataByte c s address dataByte).2 ∧
      (eepromWriteDataByte c s address dataByte).2.dataBuf = patch s.dataBuf address [dataByte] ∧
      ∀ m₀, History c.toLayout (format c) m₀ s →
        History c.toLayout (format c) m₀ (eepromWriteDataByte c s address dataByte).2 := by
  have hu := c.unit_eq
  rw [eepromWriteDataByte, if_neg (by omega)]
  split
  case isTrue same =>
    have : patch s.dataBuf address [dataByte] = s.dataBuf := by
      rw [← same]
      exact patch_slice s.dataBuf address 1
    exact ⟨h, this.symm, fun _ h => h⟩
  case isFalse =>
    have outside : ∀ j, j < c.densityBytes → c.cell j ≠ c.cell address →
        patch s.dataBuf address [dataByte] j = s.dataBuf j := by
      intro j _ ne
      refine patch_outside ?_
      by_contra inside
      simp only [List.length_singleton] at inside
      rw [show j = address by omega] at ne
      exact ne rfl
    rcases eepromWriteDirectEntry_spec (F := format c)
        (s := { s with dataBuf := patch s.dataBuf address [dataByte] }) h ha outside with
      ⟨s', e, hb, sound, hist⟩ | ⟨e, used⟩
    · rw [e]
      exact ⟨by rw [Running, hb]; exact sound, hb, fun m₀ hh => hist m₀ (hh.congr rfl rfl)⟩
    · rw [e]
      simp only
      split
      case isTrue low =>
        obtain ⟨hb, hist, run⟩ := eepromWriteLogByteEntry_spec
          (s := { s with dataBuf := patch s.dataBuf address [dataByte] }) h ha low fun _ => used
        refine ⟨?_, hb, fun m₀ hh => hist m₀ (hh.congr rfl rfl)⟩
        rcases run with ⟨-, sound, -⟩ | ⟨-, run, -⟩
        · have self : patch s.dataBuf address [dataByte] address = dataByte := by
            rw [patch_inside (Nat.le_refl _) (by simp)]
            simp
          simp only [self] at sound
          rw [Running, hb]
          exact sound
        · exact run
      case isFalse high =>
        have low := c.cell_le address
        have cell : c.cell (c.cell address) = c.cell address := Layout.cell_cell address
        have mod := c.cell_mod address
        rw [hu] at mod
        obtain ⟨hb, run, hist⟩ := eepromWriteLogWordEntry_spec
          (s := { s with dataBuf := patch s.dataBuf address [dataByte] }) h (c.cell address) (by omega)
          (by simp only [byteRange, Layout.cell, hu] at high ⊢; omega) mod (by rwa [cell]) outside
        exact ⟨run, hb, fun m₀ hh => hist m₀ (hh.congr rfl rfl)⟩

/-- An entry for a byte if it has changed. -/
theorem logChangedByte_spec {s : State} {data : Nat → UInt8}
    (h : Sound c.toLayout (format c) s.flash s.emptySlot data) {address : Nat}
    (ha : address < c.densityBytes) (low : address < byteRange) (changed : Prop) [Decidable changed]
    (used : changed → s.emptySlot < c.writeLogLast →
      ¬ Blank s.flash (c.pageBaseAddress + c.cell address) c.unit)
    (unchanged : ¬ changed → s.dataBuf address = data address) {t : State}
    (ht : t = (if changed then eepromWriteLogByteEntry c s address else (some .complete, s)).2) :
    t.dataBuf = s.dataBuf ∧ (∀ m₀, History c.toLayout (format c) m₀ s → History c.toLayout (format c) m₀ t) ∧
      (Sound c.toLayout (format c) t.flash t.emptySlot (patch data address [s.dataBuf address]) ∧
          (∀ i, i < c.writeLogBase → t.flash i = s.flash i) ∨
        changed ∧ c.writeLogLast ≤ s.emptySlot ∧ Running c t ∧ t.emptySlot = c.writeLogBase) := by
  subst ht
  by_cases hc : changed
  · rw [if_pos hc]
    obtain ⟨hb, hist, run⟩ := eepromWriteLogByteEntry_spec h ha low (used hc)
    refine ⟨hb, hist, run.imp (fun ⟨_, sound, frame⟩ => ⟨sound, frame⟩) fun ⟨full, run, slot⟩ => ?_⟩
    exact ⟨hc, full, run, slot⟩
  · rw [if_neg hc]
    refine ⟨rfl, fun _ h => h, Or.inl ⟨?_, fun _ _ => rfl⟩⟩
    have : patch data address [s.dataBuf address] = data := by
      rw [unchanged hc]
      exact patch_slice data address 1
    rwa [this]

/-- The write that leaves a log entry over a blank cell: its first byte entry
compacts a buffer in which the word is 0, and its second one is appended. -/
def SplitsZero (c : Config) (s : State) (address dataWord : Nat) : Prop :=
  address % 2 = 0 ∧ address < byteRange ∧ dataWord = 0 ∧ s.dataBuf address ≠ 0 ∧
    s.dataBuf (address + 1) ≠ 0 ∧ c.writeLogLast ≤ s.emptySlot ∧ 0 < c.writeLogBytes

instance (c : Config) (s : State) (address dataWord : Nat) :
    Decidable (SplitsZero c s address dataWord) := inferInstanceAs (Decidable (_ ∧ _))

/-- The two byte entries of a word write below 0x80. -/
theorem writeLogBytes_spec {s : State} {data : Nat → UInt8} {address dataWord : Nat}
    (h : Sound c.toLayout (format c) s.flash s.emptySlot data) (ha : address + 1 < c.densityBytes)
    (low : address < byteRange) (even : address % 2 = 0) (hv : dataWord < 2 ^ 16)
    (used : ¬ Blank s.flash (c.pageBaseAddress + c.cell address) c.unit)
    (buf : s.dataBuf = patch data address (toBytes 2 dataWord))
    (spared : ¬ SplitsZero c { s with dataBuf := data } address dataWord) :
    Running c (writeLogBytes c s address (ofBytes (slice data address 2)) dataWord).2 ∧
      (writeLogBytes c s address (ofBytes (slice data address 2)) dataWord).2.dataBuf = s.dataBuf ∧
      ∀ m₀, History c.toLayout (format c) m₀ s → History c.toLayout (format c) m₀
        (writeLogBytes c s address (ofBytes (slice data address 2)) dataWord).2 := by
  have hu := c.unit_eq
  have old : ofBytes (slice data address 2) = (data address).toNat + 256 * (data (address + 1)).toNat := by
    simp [slice, List.range_succ, ofBytes]
  have hl := (data address).toNat_lt
  have hh := (data (address + 1)).toNat_lt
  -- the bytes of the buffer
  have b₀ : s.dataBuf address = UInt8.ofNat dataWord := by
    rw [buf, patch_inside (Nat.le_refl _) (by simp)]
    simp [toBytes]
  have b₁ : s.dataBuf (address + 1) = UInt8.ofNat (dataWord / 256) := by
    rw [buf, patch_inside (by omega) (by simp)]
    simp [toBytes]
  have same₀ : ¬ ofBytes (slice data address 2) % 256 ≠ dataWord % 256 →
      s.dataBuf address = data address := by
    intro e
    rw [b₀]
    apply UInt8.toNat_inj.1
    rw [UInt8.toNat_ofNat']
    omega
  have same₁ : ¬ ofBytes (slice data address 2) >>> 8 ≠ dataWord >>> 8 →
      s.dataBuf (address + 1) = data (address + 1) := by
    intro e
    simp only [Nat.shiftRight_eq_div_pow] at e
    rw [b₁]
    apply UInt8.toNat_inj.1
    rw [UInt8.toNat_ofNat']
    omega
  have split : patch (patch data address [s.dataBuf address]) (address + 1) [s.dataBuf (address + 1)] =
      s.dataBuf := by
    rw [b₀, b₁, buf]
    exact (patch_append data address [UInt8.ofNat dataWord] [UInt8.ofNat (dataWord / 256)]).symm
  have cell : c.cell (address + 1) = c.cell address := by
    simp only [Layout.cell, hu]
    omega
  have area := c.cell_end_le ha
  rw [cell] at area
  obtain ⟨t, ht⟩ : ∃ t, t = (if ofBytes (slice data address 2) % 256 ≠ dataWord % 256 then
    eepromWriteLogByteEntry c s address else (some .complete, s)).2 := ⟨_, rfl⟩
  obtain ⟨hb, hist, first⟩ := logChangedByte_spec h (by omega) low _ (fun _ _ => used) same₀ ht
  have second : ∀ {data'}, Sound c.toLayout (format c) t.flash t.emptySlot data' →
      (ofBytes (slice data address 2) >>> 8 ≠ dataWord >>> 8 → t.emptySlot < c.writeLogLast →
        ¬ Blank t.flash (c.pageBaseAddress + c.cell (address + 1)) c.unit) →
      (¬ ofBytes (slice data address 2) >>> 8 ≠ dataWord >>> 8 →
        t.dataBuf (address + 1) = data' (address + 1)) →
      patch data' (address + 1) [t.dataBuf (address + 1)] = t.dataBuf →
      Running c (writeLogBytes c s address (ofBytes (slice data address 2)) dataWord).2 ∧
        (writeLogBytes c s address (ofBytes (slice data address 2)) dataWord).2.dataBuf = s.dataBuf ∧
        ∀ m₀, History c.toLayout (format c) m₀ s → History c.toLayout (format c) m₀
          (writeLogBytes c s address (ofBytes (slice data address 2)) dataWord).2 := by
    intro data' sound used' unchanged view
    have code : (writeLogBytes c s address (ofBytes (slice data address 2)) dataWord).2 =
        (if ofBytes (slice data address 2) >>> 8 ≠ dataWord >>> 8 then
          eepromWriteLogByteEntry c t (address + 1) else (some .complete, t)).2 := by
      rw [ht]
      rfl
    rw [code]
    obtain ⟨hb', hist', run⟩ := logChangedByte_spec sound ha
      (by simp only [byteRange] at low ⊢; omega) _ used' unchanged rfl
    refine ⟨?_, hb'.trans hb, fun m₀ hh => hist' m₀ (hist m₀ hh)⟩
    rcases run with ⟨sound, -⟩ | ⟨-, -, run, -⟩
    · rw [view] at sound
      rw [Running, hb']
      exact sound
    · exact run
  rcases first with ⟨sound, frame⟩ | ⟨changed, full, run, slot⟩
  · refine second sound (fun _ _ => ?_) (fun e => ?_) (by rw [hb]; exact split)
    · rw [cell]
      exact fun again => used (again.congr fun i _ hi => (frame i (by omega)).symm)
    · rw [hb, same₁ e, patch_above (by simp)]
  · refine second run (fun changed' room blank => ?_) (fun _ => rfl) (patch_slice t.dataBuf (address + 1) 1)
    -- a cell that the compaction left blank holds the word 0
    have zero₁ := run.zero_of_blank ha blank
    have zero₀ := run.zero_of_blank (i := address) (by omega) (by rwa [← cell])
    rw [hb] at zero₀ zero₁
    have zero : dataWord = 0 := by
      rw [b₀] at zero₀
      rw [b₁] at zero₁
      have z₀ := congrArg UInt8.toNat zero₀
      have z₁ := congrArg UInt8.toNat zero₁
      rw [UInt8.toNat_ofNat'] at z₀ z₁
      simp only [UInt8.toNat_zero] at z₀ z₁
      omega
    refine spared ⟨even, low, zero, fun e => changed ?_, fun e => changed' ?_, full, ?_⟩
    · simp only at e
      rw [old, zero, e]
      simp
    · simp only at e
      rw [old, zero, e, Nat.shiftRight_eq_div_pow]
      simp only [UInt8.toNat_zero]
      omega
    · rw [slot, Layout.writeLogLast] at room
      omega

/-- A word write, aligned or not. -/
theorem eepromWriteDataWord_spec {s : State} (h : Running c s) {address dataWord : Nat}
    (range : address + 2 ≤ c.densityBytes) (hv : dataWord < 2 ^ 16)
    (spared : ¬ SplitsZero c s address dataWord) :
    Running c (eepromWriteDataWord c s address dataWord).2 ∧
      (eepromWriteDataWord c s address dataWord).2.dataBuf = patch s.dataBuf address (toBytes 2 dataWord) ∧
      ∀ m₀, History c.toLayout (format c) m₀ s →
        History c.toLayout (format c) m₀ (eepromWriteDataWord c s address dataWord).2 := by
  have hu := c.unit_eq
  have hd := c.density_le
  have two : toBytes 2 dataWord = [UInt8.ofNat dataWord] ++ [UInt8.ofNat (dataWord >>> 8)] := by
    rw [Nat.shiftRight_eq_div_pow]
    rfl
  rw [eepromWriteDataWord, if_neg (by omega)]
  split
  case isTrue odd =>
    obtain ⟨run, hb, hist⟩ := eepromWriteDataByte_spec h (UInt8.ofNat dataWord)
      (by omega : address < c.densityBytes)
    obtain ⟨run', hb', hist'⟩ := eepromWriteDataByte_spec run (UInt8.ofNat (dataWord >>> 8))
      (by omega : address + 1 < c.densityBytes)
    rw [Nat.mod_eq_of_lt (by omega : address + 1 < 2 ^ 16)]
    refine ⟨run', ?_, fun m₀ hh => hist' m₀ (hist m₀ hh)⟩
    rw [two, patch_append]
    rw [hb] at hb'
    exact hb'
  case isFalse even =>
    by_cases same : ofBytes (slice s.dataBuf address 2) = dataWord
    · have bytes := toBytes_ofBytes (slice s.dataBuf address 2)
      rw [length_slice] at bytes
      simp only [if_pos same]
      rw [← same, bytes, patch_slice]
      exact ⟨h, rfl, fun _ h => h⟩
    · simp only [if_neg same]
      have cell : c.cell address = address := by
        simp only [Layout.cell, hu]
        omega
      have outside : ∀ j, j < c.densityBytes → c.cell j ≠ c.cell address →
          patch s.dataBuf address (toBytes 2 dataWord) j = s.dataBuf j := by
        intro j _ ne
        refine patch_outside ?_
        by_contra inside
        apply ne
        simp only [length_toBytes] at inside
        simp only [Layout.cell, hu]
        omega
      rcases eepromWriteDirectEntry_spec (F := format c)
          (s := { s with dataBuf := patch s.dataBuf address (toBytes 2 dataWord) }) h
          (by omega : address < c.densityBytes) outside with ⟨s', e, hb, sound, hist⟩ | ⟨e, used⟩
      · rw [e]
        exact ⟨by rw [Running, hb]; exact sound, hb, fun m₀ hh => hist m₀ (hh.congr rfl rfl)⟩
      · rw [e]
        simp only
        split
        case isTrue low =>
          obtain ⟨run, hb, hist⟩ := writeLogBytes_spec
            (s := { s with dataBuf := patch s.dataBuf address (toBytes 2 dataWord) }) h (by omega) low
            (by omega) hv used rfl spared
          exact ⟨run, hb, fun m₀ hh => hist m₀ (hh.congr rfl rfl)⟩
        case isFalse high =>
          rw [cell] at outside
          obtain ⟨hb, run, hist⟩ := eepromWriteLogWordEntry_spec
            (s := { s with dataBuf := patch s.dataBuf address (toBytes 2 dataWord) }) h address
            (by omega : address < c.densityBytes) (by omega) (by omega) used outside
          exact ⟨run, hb, fun m₀ hh => hist m₀ (hh.congr rfl rfl)⟩

/-! ## Blocks -/

/-- No word of the block is a zero that its write splits. -/
def WordsSpared (c : Config) : Nat → State → Nat → List UInt8 → Prop
  | 0, _, _, _ => True
  | fuel + 1, s, dest, src =>
    if 1 < src.length then
      ¬ SplitsZero c s dest (ofBytes (src.take 2)) ∧
        WordsSpared c fuel (eepromWriteDataWord c s dest (ofBytes (src.take 2))).2 (dest + 2) (src.drop 2)
    else True

/-- The same for the whole of `eeprom_write_block`. -/
def BlockSpared (c : Config) (s : State) (dest : Nat) (src : List UInt8) : Prop :=
  if src.length ≠ 0 ∧ dest % 2 ≠ 0 then
    WordsSpared c src.length (eepromWriteDataByte c s dest (src.getD 0 0)).2 (dest + 1) (src.drop 1)
  else WordsSpared c src.length s dest src

instance decidableWordsSpared (c : Config) : ∀ (fuel : Nat) (s : State) (dest : Nat) (src : List UInt8),
    Decidable (WordsSpared c fuel s dest src)
  | 0, _, _, _ => isTrue trivial
  | fuel + 1, s, dest, src =>
    have := decidableWordsSpared c fuel (eepromWriteDataWord c s dest (ofBytes (src.take 2))).2 (dest + 2)
      (src.drop 2)
    inferInstanceAs (Decidable (if 1 < src.length then ¬ SplitsZero c s dest (ofBytes (src.take 2)) ∧
      WordsSpared c fuel (eepromWriteDataWord c s dest (ofBytes (src.take 2))).2 (dest + 2) (src.drop 2)
    else True))

instance (c : Config) (s : State) (dest : Nat) (src : List UInt8) : Decidable (BlockSpared c s dest src) :=
  inferInstanceAs (Decidable (if src.length ≠ 0 ∧ dest % 2 ≠ 0 then
      WordsSpared c src.length (eepromWriteDataByte c s dest (src.getD 0 0)).2 (dest + 1) (src.drop 1)
    else WordsSpared c src.length s dest src))

theorem writeWords_spec (fuel : Nat) : ∀ {s : State} {dest : Nat} {src : List UInt8}, Running c s →
    src.length ≤ fuel → dest + src.length ≤ c.densityBytes → WordsSpared c fuel s dest src →
    Running c (writeWords c fuel s dest src) ∧
      (writeWords c fuel s dest src).dataBuf = patch s.dataBuf dest src ∧
      ∀ m₀, History c.toLayout (format c) m₀ s → History c.toLayout (format c) m₀ (writeWords c fuel s dest src) := by
  have hd := c.density_le
  induction fuel with
  | zero =>
    intro s dest src h hf _ _
    have : src = [] := List.length_eq_zero_iff.1 (by omega)
    subst this
    exact ⟨h, by simp [writeWords], fun _ h => h⟩
  | succ fuel ih =>
    intro s dest src h hf range spared
    rw [writeWords]
    rw [WordsSpared] at spared
    split
    case isTrue len =>
      rw [if_pos len] at spared
      rw [Nat.mod_eq_of_lt (by omega : dest < 2 ^ 16)]
      have taken : (src.take 2).length = 2 := by rw [List.length_take]; omega
      have lt := ofBytes_lt (src.take 2)
      have bytes := toBytes_ofBytes (src.take 2)
      rw [taken] at lt bytes
      obtain ⟨run, hb, hist⟩ := eepromWriteDataWord_spec h (by omega) lt spared.1
      obtain ⟨run', hb', hist'⟩ := @ih _ (dest + 2) (src.drop 2) run
        (by rw [List.length_drop]; omega) (by rw [List.length_drop]; omega) spared.2
      refine ⟨run', ?_, fun m₀ hh => hist' m₀ (hist m₀ hh)⟩
      have split := patch_append s.dataBuf dest (src.take 2) (src.drop 2)
      rw [List.take_append_drop, taken] at split
      rw [hb', hb, bytes, split]
    case isFalse short =>
      split
      case isTrue one =>
        obtain ⟨b, rfl⟩ := List.length_eq_one_iff.1 one
        rw [Nat.mod_eq_of_lt (by simp at range; omega : dest < 2 ^ 16)]
        exact eepromWriteDataByte_spec h b (by simpa using range)
      case isFalse =>
        have : src = [] := List.length_eq_zero_iff.1 (by omega)
        subst this
        exact ⟨h, by simp, fun _ h => h⟩

theorem eepromWriteBlock_spec {s : State} (h : Running c s) {dest : Nat} {src : List UInt8}
    (range : dest + src.length ≤ c.densityBytes) (spared : BlockSpared c s dest src) :
    Running c (eepromWriteBlock c s dest src) ∧
      (eepromWriteBlock c s dest src).dataBuf = patch s.dataBuf dest src ∧
      ∀ m₀, History c.toLayout (format c) m₀ s → History c.toLayout (format c) m₀ (eepromWriteBlock c s dest src) := by
  have hd := c.density_le
  rw [eepromWriteBlock]
  rw [BlockSpared] at spared
  split
  case isTrue odd =>
    rw [if_pos odd] at spared
    rw [Nat.mod_eq_of_lt (by omega : dest < 2 ^ 16)]
    cases src with
    | nil => exact absurd rfl odd.1
    | cons b src =>
      rw [List.length_cons] at range
      simp only [List.getD_cons_zero, List.drop_succ_cons, List.drop_zero] at spared ⊢
      obtain ⟨run, hb, hist⟩ := eepromWriteDataByte_spec h b (by omega : dest < c.densityBytes)
      obtain ⟨run', hb', hist'⟩ := writeWords_spec (b :: src).length run (by simp) (by omega) spared
      refine ⟨run', ?_, fun m₀ hh => hist' m₀ (hist m₀ hh)⟩
      rw [hb', hb]
      exact (patch_append s.dataBuf dest [b] src).symm
  case isFalse even =>
    rw [if_neg even] at spared
    exact writeWords_spec src.length h (Nat.le_refl _) range spared

end QmkFirmware.Eeprom.Legacy
