import QmkFirmware.Eeprom.L4

/-!
# The STM32L4 driver over whole runs

Every write leaves flash that stands for `DataBuf`, and every operation it issued
was legal. In normal operation the log slots behind `empty_slot` are blank, so
`blank_check` never acts.
-/

namespace QmkFirmware.Eeprom.L4
open Lib

/-! ## Entries are read back as they were written -/

/-- The flag and the size of the three kinds of entry. -/
def EntryKind (flag n : Nat) : Prop :=
  flag = byteFlag ∧ n = 1 ∨ flag = wordFlag ∧ n = 2 ∨ flag = dwordFlag ∧ n = 4

theorem entryStores_written {flag n address value : Nat} (kind : EntryKind flag n)
    (ha : address < 2 ^ 16) (hv : value < 256 ^ n) :
    entryStores (flag + address) value = [⟨address, toBytes n value⟩] := by
  rcases kind with ⟨rfl, rfl⟩ | ⟨rfl, rfl⟩ | ⟨rfl, rfl⟩
  · have b := and_high 1 1 ha
    rw [entryStores, if_pos (by simpa [byteFlag] using b)]
    rw [show 0xFF = 2 ^ 8 - 1 from rfl, Nat.and_two_pow_sub_one_eq_mod,
      Nat.mod_eq_of_lt (by omega : value < 2 ^ 8), byteFlag, show (0x10000 + address) % 2 ^ 16 = address by omega]
  · have b := and_high 2 1 ha
    have w := and_high 2 2 ha
    rw [entryStores, if_neg (by simp [wordFlag, byteFlag] at b ⊢; omega),
      if_pos (by simpa [wordFlag] using w)]
    rw [show 0xFFFF = 2 ^ 16 - 1 from rfl, Nat.and_two_pow_sub_one_eq_mod,
      Nat.mod_eq_of_lt (by omega : value < 2 ^ 16), wordFlag, show (0x20000 + address) % 2 ^ 16 = address by omega]
  · have b := and_high 4 1 ha
    have w := and_high 4 2 ha
    have d := and_high 4 4 ha
    rw [entryStores, if_neg (by simp [dwordFlag, byteFlag] at b ⊢; omega),
      if_neg (by simp [dwordFlag, wordFlag] at w ⊢; omega), if_pos (by simpa [dwordFlag] using d)]
    rw [dwordFlag, show (0x40000 + address) % 2 ^ 16 = address by omega]

/-- The double word of an entry: its flag and address, then the complement. -/
theorem entry_value {flag n address x : Nat} (kind : EntryKind flag n) (ha : address < 2 ^ 16) :
    (x <<< 32) ||| flag ||| address = flag + address + 256 ^ 4 * x := by
  obtain ⟨f, hf, rfl⟩ : ∃ f, f < 2 ^ 16 ∧ flag = f <<< 16 := by
    rcases kind with ⟨rfl, -⟩ | ⟨rfl, -⟩ | ⟨rfl, -⟩
    · exact ⟨1, by omega, rfl⟩
    · exact ⟨2, by omega, rfl⟩
    · exact ⟨4, by omega, rfl⟩
  have hi : (x <<< 32) ||| (f <<< 16) = (x <<< 16 + f) <<< 16 := by
    rw [← Nat.shiftLeft_add_eq_or_of_lt (by rw [Nat.shiftLeft_eq]; omega)]
    simp only [Nat.shiftLeft_eq]
    omega
  rw [hi, ← Nat.shiftLeft_add_eq_or_of_lt ha]
  simp only [Nat.shiftLeft_eq]
  omega

variable {c : Config}

/-- The reader finds an entry where the writer put one. -/
theorem format_next_written {m : Nat → UInt8} {slot flag n address value : Nat}
    (kind : EntryKind flag n) (room : slot < c.writeLogLast) (ha : address < 2 ^ 16)
    (hv : value < 256 ^ n) :
    (format c).next (patch m slot (toBytes 8 (flag + address + 256 ^ 4 * (256 ^ 4 - 1 - value)))) slot =
      some ([⟨address, toBytes n value⟩], slot + 8) := by
  have low : flag + address < 256 ^ 4 - 1 := by
    rcases kind with ⟨rfl, -⟩ | ⟨rfl, -⟩ | ⟨rfl, -⟩ <;> simp only [byteFlag, wordFlag, dwordFlag] <;> omega
  have small : value ≤ 256 ^ 4 - 1 := by
    rcases kind with ⟨-, rfl⟩ | ⟨-, rfl⟩ | ⟨-, rfl⟩ <;> omega
  have bytes : toBytes 8 (flag + address + 256 ^ 4 * (256 ^ 4 - 1 - value)) =
      toBytes 4 (flag + address) ++ toBytes 4 (256 ^ 4 - 1 - value) := by
    rw [show 8 = 4 + 4 from rfl, toBytes_add, toBytes_add_mul]
    congr 2
    omega
  rw [bytes]
  have all := slice_patch_self m slot (toBytes 4 (flag + address) ++ toBytes 4 (256 ^ 4 - 1 - value))
  rw [List.length_append, length_toBytes, length_toBytes, slice_add] at all
  obtain ⟨h₁, h₂⟩ := List.append_inj all (by simp)
  simp only [format]
  rw [if_neg (by omega), h₁, h₂, ofBytes_toBytes (by omega), ofBytes_toBytes (by omega),
    if_neg (by simp only [emptyWord]; omega), show 256 ^ 4 - 1 - (256 ^ 4 - 1 - value) = value by omega,
    entryStores_written kind ha hv]

/-! ## Initialisation -/

/-- No double word raises the NMI. -/
def noEcc : Nat → Bool := fun _ => false

theorem replayLoop_scan {m : Nat → UInt8} {a z : Nat} {log : List (Patch UInt8)}
    (h : Scan (format c).toLogScanner m a log z) : ∀ (fuel : Nat) (u : Startup), u.logAddr = a →
    u.eccd = false → a + 8 * fuel = c.writeLogLast →
    (replayLoop c noEcc m fuel u).stores = u.stores ++ log ∧
      (replayLoop c noEcc m fuel u).logAddr = z ∧ (replayLoop c noEcc m fuel u).eccd = false := by
  induction h with
  | stop here =>
    intro fuel u ha he hf
    cases fuel with
    | zero => exact ⟨by simp [replayLoop], by rw [replayLoop, ha], he⟩
    | succ fuel =>
      subst ha
      simp only [format] at here
      rw [if_neg (by omega)] at here
      have empty : ofBytes (slice m u.logAddr 4) = emptyWord := by
        by_contra ne
        rw [if_neg ne] at here
        cases here
      rw [replayLoop, if_neg (by omega)]
      simp [readWord, noEcc, he, empty]
  | entry here rest ih =>
    intro fuel u ha he hf
    cases fuel with
    | zero =>
      simp only [format] at here
      rw [if_pos (by omega)] at here
      cases here
    | succ fuel =>
      subst ha
      simp only [format] at here
      rw [if_neg (by omega)] at here
      split_ifs at here with ne
      simp only [Option.some.injEq, Prod.mk.injEq] at here
      obtain ⟨rfl, rfl⟩ := here
      rw [replayLoop, if_neg (by omega)]
      simp only [readWord, noEcc, he, Bool.or_self, Bool.false_eq_true, if_false, if_neg ne]
      obtain ⟨st, la, ec⟩ := ih fuel
        ⟨false, u.reads ++ [u.logAddr] ++ [u.logAddr + 4],
          u.stores ++ entryStores (ofBytes (slice m u.logAddr 4))
            (256 ^ 4 - 1 - ofBytes (slice m (u.logAddr + 4) 4)), u.logAddr + 8⟩ rfl rfl (by omega)
      exact ⟨by rw [← List.append_assoc, ← st], la, ec⟩

theorem writeLogBytes_div (c : Config) : c.writeLogBase + 8 * (c.writeLogBytes / 8) = c.writeLogLast := by
  have h := c.log_mod
  rw [c.unit_eq] at h
  simp only [Layout.writeLogLast]
  omega

/-- Initialisation rebuilds the data the flash stands for, whatever the RAM held. -/
theorem eepromInit_spec {s : State} {slot : Nat} {data : Nat → UInt8}
    (h : Sound c.toLayout (format c) s.flash slot data) :
    (eepromInit c noEcc s).1 = c.densityBytes ∧ (eepromInit c noEcc s).2.flash = s.flash ∧
      (eepromInit c noEcc s).2.trace = s.trace ∧ (eepromInit c noEcc s).2.emptySlot = slot ∧
      ∀ i, i < c.densityBytes → (eepromInit c noEcc s).2.dataBuf i = data i := by
  obtain ⟨log, scan, view, -⟩ := h.log
  obtain ⟨st, la, -, ec⟩ := load_spec c noEcc s.flash
  have ec : ((List.range (c.densityBytes / 4)).foldl (loadStep c noEcc s.flash)
      ⟨false, [], [], c.writeLogBase⟩).eccd = false := by
    rw [← Bool.not_eq_true, ec]
    simp [noEcc]
  obtain ⟨st', la', ec'⟩ := replayLoop_scan scan (c.writeLogBytes / 8) _ la ec (writeLogBytes_div c)
  have four : c.densityBytes % 4 = 0 := by
    have := c.density_mod
    rw [c.unit_eq] at this
    omega
  refine ⟨?_, rfl, rfl, la', fun i hi => ?_⟩
  · simp only [eepromInit, startup, ec']
    rfl
  · simp only [eepromInit, startup]
    rw [st', st, replay_append, replay_loadCompacted four, view i hi]
    exact replay_congr (patch_slice_of (by omega) (by omega))

/-! ## Writing -/

/-- What a running driver keeps: the flash stands for the buffer. -/
def Running (c : Config) (s : State) : Prop :=
  Sound c.toLayout (format c) s.flash s.emptySlot s.dataBuf

theorem blankCheck_of_fresh {s : State} (blank : Blank s.flash s.emptySlot 8)
    (aligned : s.emptySlot % 8 = 0) : blankCheck c s s.emptySlot = s := by
  rw [blankCheck, aligned]
  exact if_neg (not_not.2 (ofBytes_eq_empty.2 blank))

/-- Logging a change of a programmed cell. -/
theorem writeLogEntry_spec {flag n : Nat} (kind : EntryKind flag n) {s : State} {data : Nat → UInt8}
    (h : Sound c.toLayout (format c) s.flash s.emptySlot data) {address value : Nat}
    (hv : value < 256 ^ n) (range : address + n ≤ c.densityBytes) (aligned : address % n = 0)
    (used : ¬ Blank s.flash (c.pageBaseAddress + c.cell address) c.unit)
    (buf : s.dataBuf = patch data address (toBytes n value)) :
    Running c (writeLogEntry c flag n s address).2 ∧
      (writeLogEntry c flag n s address).2.dataBuf = s.dataBuf ∧
      ∀ m₀, History c.toLayout (format c) m₀ s → History c.toLayout (format c) m₀ (writeLogEntry c flag n s address).2 := by
  have hu := c.unit_eq
  have hd := c.density_le
  unfold writeLogEntry
  split
  case isTrue =>
    obtain ⟨-, hb, hs, sound, -, hist⟩ := eepromCompact_spec (format c) s
    exact ⟨by rw [Running, hb, hs]; exact sound, hb, hist⟩
  case isFalse room =>
    have slot8 := h.slot_mod
    rw [hu] at slot8
    have last8 := c.writeLogLast_mod
    rw [hu] at last8
    have fits : s.emptySlot + 8 ≤ c.writeLogLast := by omega
    have blank : Blank s.flash s.emptySlot 8 := h.fresh.sub (Nat.le_refl _) (by omega)
    have stored : ofBytes (slice s.dataBuf address n) = value := by
      have self := slice_patch_self data address (toBytes n value)
      rw [length_toBytes] at self
      rw [buf, self, ofBytes_toBytes hv]
    simp only [blankCheck_of_fresh blank slot8]
    rw [stored, entry_value kind (by omega)]
    have next := format_next_written (c := c) (m := s.flash) kind (by omega : s.emptySlot < _)
      (by omega : address < 2 ^ 16) hv
    have sound := h.append (toBytes 8 (flag + address + 256 ^ 4 * (256 ^ 4 - 1 - value)))
      (by simp) fits (by rw [hu]) next (fun p hp i hc => ?_) (fun i _ => congrFun buf i)
    · refine ⟨sound, rfl, fun m₀ hist => ?_⟩
      have issued := hist.issue
        (.program s.emptySlot (toBytes 8 (flag + address + 256 ^ 4 * (256 ^ 4 - 1 - value))))
        ⟨by rw [hu]; exact slot8, by
          obtain ⟨log, scan, -⟩ := h.log
          have := scan.le
          simp only [Layout.writeLogBase] at this
          omega, by omega, by simp [hu], by rw [hu]; exact blank⟩
        fun _ => recoverable_iff.2 ⟨_, _, sound⟩
      exact issued.congr rfl rfl
    · -- the bytes of an aligned entry share a cell
      rw [List.mem_singleton.1 hp] at hc
      simp only [Patch.Covers, length_toBytes] at hc
      have same : c.cell i = c.cell address := by
        simp only [Layout.cell, hu]
        rcases kind with ⟨-, rfl⟩ | ⟨-, rfl⟩ | ⟨-, rfl⟩ <;> omega
      exact ⟨by omega, by rw [same]; exact used⟩

/-- A write of one, two or four aligned bytes. -/
theorem writeData_spec {flag n : Nat} (kind : EntryKind flag n) {s : State} (h : Running c s)
    {address value : Nat} (hv : value < 256 ^ n) (range : address + n ≤ c.densityBytes)
    (aligned : address % n = 0) :
    Running c (writeData c n (writeLogEntry c flag n) s address value).2 ∧
      (writeData c n (writeLogEntry c flag n) s address value).2.dataBuf =
        patch s.dataBuf address (toBytes n value) ∧
      ∀ m₀, History c.toLayout (format c) m₀ s →
        History c.toLayout (format c) m₀ (writeData c n (writeLogEntry c flag n) s address value).2 := by
  have hn : 0 < n := by rcases kind with ⟨-, rfl⟩ | ⟨-, rfl⟩ | ⟨-, rfl⟩ <;> omega
  rw [writeData, if_neg (by omega)]
  split
  case isTrue same =>
    have bytes := toBytes_ofBytes (slice s.dataBuf address n)
    rw [length_slice] at bytes
    rw [← same, bytes, patch_slice]
    exact ⟨h, rfl, fun _ h => h⟩
  case isFalse =>
    have outside : ∀ j, j < c.densityBytes → c.cell j ≠ c.cell address →
        patch s.dataBuf address (toBytes n value) j = s.dataBuf j := by
      intro j _ ne
      refine patch_outside ?_
      by_contra inside
      apply ne
      simp only [length_toBytes] at inside
      simp only [Layout.cell, c.unit_eq]
      rcases kind with ⟨-, rfl⟩ | ⟨-, rfl⟩ | ⟨-, rfl⟩ <;> omega
    rcases eepromWriteDirectEntry_spec (F := format c)
        (s := { s with dataBuf := patch s.dataBuf address (toBytes n value) }) h
        (by omega : address < c.densityBytes) outside with ⟨s', e, hb, sound, hist⟩ | ⟨e, used⟩
    · rw [e]
      refine ⟨by rw [Running, hb]; exact sound, hb, fun m₀ hh => hist m₀ (hh.congr rfl rfl)⟩
    · rw [e]
      obtain ⟨run, hb, hist⟩ := writeLogEntry_spec kind
        (s := { s with dataBuf := patch s.dataBuf address (toBytes n value) }) h hv range aligned used rfl
      exact ⟨run, hb, fun m₀ hh => hist m₀ (hh.congr rfl rfl)⟩

/-- One write of `eeprom_write_block`: the next one, two or four bytes. -/
theorem writeChunk_spec {flag n : Nat} (kind : EntryKind flag n) {s : State} (h : Running c s)
    {dest : Nat} {src : List UInt8} (range : dest + src.length ≤ c.densityBytes) (len : n ≤ src.length)
    (aligned : dest % n = 0) :
    Running c (writeData c n (writeLogEntry c flag n) s (dest % 2 ^ 16) (ofBytes (src.take n))).2 ∧
      (writeData c n (writeLogEntry c flag n) s (dest % 2 ^ 16) (ofBytes (src.take n))).2.dataBuf =
        patch s.dataBuf dest (src.take n) ∧
      ∀ m₀, History c.toLayout (format c) m₀ s → History c.toLayout (format c) m₀
        (writeData c n (writeLogEntry c flag n) s (dest % 2 ^ 16) (ofBytes (src.take n))).2 := by
  have hd := c.density_le
  have hn : 0 < n := by rcases kind with ⟨-, rfl⟩ | ⟨-, rfl⟩ | ⟨-, rfl⟩ <;> omega
  have taken : (src.take n).length = n := by simp [len]
  have lt := ofBytes_lt (src.take n)
  have bytes := toBytes_ofBytes (src.take n)
  rw [taken] at lt bytes
  rw [Nat.mod_eq_of_lt (by omega : dest < 2 ^ 16)]
  have spec := writeData_spec kind h lt (by omega) aligned
  rwa [bytes] at spec

theorem writeBlockLoop_spec (fuel : Nat) : ∀ {s : State} {dest : Nat} {src : List UInt8}, Running c s →
    src.length ≤ fuel → dest + src.length ≤ c.densityBytes →
    Running c (writeBlockLoop c fuel s dest src) ∧
      (writeBlockLoop c fuel s dest src).dataBuf = patch s.dataBuf dest src ∧
      ∀ m₀, History c.toLayout (format c) m₀ s →
        History c.toLayout (format c) m₀ (writeBlockLoop c fuel s dest src) := by
  induction fuel with
  | zero =>
    intro s dest src h hf _
    have : src = [] := List.length_eq_zero_iff.1 (by omega)
    subst this
    exact ⟨h, by simp [writeBlockLoop], fun _ h => h⟩
  | succ fuel ih =>
    intro s dest src h hf range
    rw [writeBlockLoop]
    by_cases hp : src.length = 0
    · have : src = [] := List.length_eq_zero_iff.1 hp
      subst this
      exact ⟨h, by simp, fun _ h => h⟩
    rw [if_neg hp]
    -- whatever the size of the next write, the rest follows by induction
    have chunk : ∀ {flag n}, EntryKind flag n → n ≤ src.length → dest % n = 0 →
        Running c (writeBlockLoop c fuel (writeData c n (writeLogEntry c flag n) s (dest % 2 ^ 16)
            (ofBytes (src.take n))).2 (dest + n) (src.drop n)) ∧
          (writeBlockLoop c fuel (writeData c n (writeLogEntry c flag n) s (dest % 2 ^ 16)
            (ofBytes (src.take n))).2 (dest + n) (src.drop n)).dataBuf = patch s.dataBuf dest src ∧
          ∀ m₀, History c.toLayout (format c) m₀ s → History c.toLayout (format c) m₀
            (writeBlockLoop c fuel (writeData c n (writeLogEntry c flag n) s (dest % 2 ^ 16)
              (ofBytes (src.take n))).2 (dest + n) (src.drop n)) := by
      intro flag n kind len aligned
      have hn : 0 < n := by rcases kind with ⟨-, rfl⟩ | ⟨-, rfl⟩ | ⟨-, rfl⟩ <;> omega
      obtain ⟨run, hb, hist⟩ := writeChunk_spec kind h range len aligned
      obtain ⟨run', hb', hist'⟩ := @ih _ (dest + n) (src.drop n) run (by simp; omega)
        (by simp; omega)
      refine ⟨run', ?_, fun m₀ hh => hist' m₀ (hist m₀ hh)⟩
      have split := patch_append s.dataBuf dest (src.take n) (src.drop n)
      rw [List.take_append_drop, List.length_take, Nat.min_eq_left len] at split
      rw [hb', hb, split]
    split_ifs with h4 h2
    · exact chunk (Or.inr (Or.inr ⟨rfl, rfl⟩)) h4.2 h4.1
    · exact chunk (Or.inr (Or.inl ⟨rfl, rfl⟩)) h2.2 h2.1
    · exact chunk (Or.inl ⟨rfl, rfl⟩) (by omega) (Nat.mod_one _)

theorem eepromWriteBlock_spec {s : State} (h : Running c s) {dest : Nat} {src : List UInt8}
    (range : dest + src.length ≤ c.densityBytes) :
    Running c (eepromWriteBlock c s dest src) ∧
      (eepromWriteBlock c s dest src).dataBuf = patch s.dataBuf dest src ∧
      ∀ m₀, History c.toLayout (format c) m₀ s → History c.toLayout (format c) m₀ (eepromWriteBlock c s dest src) :=
  writeBlockLoop_spec src.length h (Nat.le_refl _) range

/-! ## Runs -/

/-- A call of the driver. -/
inductive Op where
  | init
  | erase
  | writeBlock (dest : Nat) (src : List UInt8)
  deriving DecidableEq, Repr

namespace Op

/-- The arguments stay inside the emulated EEPROM. -/
def InRange (c : Config) : Op → Prop
  | .init => True
  | .erase => True
  | .writeBlock dest src => dest + src.length ≤ c.densityBytes

instance (c : Config) : DecidablePred (InRange c)
  | .init => isTrue trivial
  | .erase => isTrue trivial
  | .writeBlock _ _ => inferInstanceAs (Decidable (_ ≤ _))

/-- The state a call leaves. -/
def step (c : Config) (s : State) : Op → State
  | .init => (eepromInit c noEcc s).2
  | .erase => eepromErase c noEcc s
  | .writeBlock dest src => eepromWriteBlock c s dest src

/-- What a call does to the data. -/
def logical (a : Nat → UInt8) : Op → Nat → UInt8
  | .init => a
  | .erase => fun _ => 0
  | .writeBlock dest src => patch a dest src

end Op

def run (c : Config) (s : State) (ops : List Op) : State := ops.foldl (Op.step c) s

/-- The data after a sequence of calls, from all zeros. -/
def logicalData (ops : List Op) : Nat → UInt8 := ops.foldl Op.logical fun _ => 0

/-- The first call initialises or erases. -/
def InitialisedFirst : List Op → Prop
  | .writeBlock _ _ :: _ => False
  | _ => True

instance : DecidablePred InitialisedFirst
  | [] => isTrue trivial
  | .init :: _ => isTrue trivial
  | .erase :: _ => isTrue trivial
  | .writeBlock _ _ :: _ => isFalse id

/-- Buffer and flash both hold the data `a`, and all operations were legal. -/
structure Synced (c : Config) (m₀ : Nat → UInt8) (a : Nat → UInt8) (s : State) : Prop where
  running : Running c s
  data : ∀ i, i < c.densityBytes → s.dataBuf i = a i
  history : History c.toLayout (format c) m₀ s

/-- Erased flash stands for zeros. -/
theorem sound_of_erased {m : Nat → UInt8}
    (erased : Blank m c.pageBaseAddress (c.pageCount * c.pageSize)) :
    Sound c.toLayout (format c) m c.writeLogBase fun _ => 0 := by
  have fits := c.fits
  refine Sound.of_blank_log (erased.sub (by simp [Layout.writeLogBase])
    (by simp only [Layout.writeLogBase]; omega)) fun i hi => ?_
  rw [snapshot, erased _ (by omega) (by omega)]
  rfl

theorem synced_init {m₀ a : Nat → UInt8} {s : State} {slot : Nat}
    (h : Sound c.toLayout (format c) s.flash slot a) (hist : History c.toLayout (format c) m₀ s) :
    Synced c m₀ a (eepromInit c noEcc s).2 := by
  obtain ⟨-, hf, ht, hs, hb⟩ := eepromInit_spec h
  refine ⟨?_, hb, hist.congr hf ht⟩
  rw [Running, hf, hs]
  exact h.congr hb

theorem synced_erase {m₀ : Nat → UInt8} {s : State} (hist : History c.toLayout (format c) m₀ s) :
    Synced c m₀ (fun _ => 0) (eepromErase c noEcc s) := by
  obtain ⟨-, -, blank, hist'⟩ := eepromClear_spec (format c) s
  exact synced_init (sound_of_erased blank) (hist' m₀ hist)

theorem synced_step {m₀ a : Nat → UInt8} {s : State} (h : Synced c m₀ a s) {op : Op}
    (range : op.InRange c) : Synced c m₀ (op.logical a) (op.step c s) := by
  cases op with
  | init => exact synced_init (h.running.congr fun i hi => (h.data i hi).symm) h.history
  | erase => exact synced_erase h.history
  | writeBlock dest src =>
    obtain ⟨run, hb, hist⟩ := eepromWriteBlock_spec h.running range
    refine ⟨run, fun i hi => ?_, hist m₀ h.history⟩
    simp only [Op.step, Op.logical]
    rw [hb]
    exact patch_congr (h.data i hi) dest src

theorem synced_run {m₀ : Nat → UInt8} (ops : List Op) : ∀ {a : Nat → UInt8} {s : State},
    Synced c m₀ a s → (∀ op ∈ ops, op.InRange c) →
    Synced c m₀ (ops.foldl Op.logical a) (run c s ops) := by
  induction ops with
  | nil => exact fun h _ => h
  | cons op ops ih =>
    intro a s h range
    exact ih (synced_step h (range op List.mem_cons_self)) fun o ho => range o (List.mem_cons_of_mem _ ho)

/-- A run that starts with an initialisation or an erase, from flash that stands for `a`. -/
theorem synced_of_first {m₀ a : Nat → UInt8} {slot : Nat}
    (h : Sound c.toLayout (format c) m₀ slot a) {ops : List Op} (range : ∀ op ∈ ops, op.InRange c)
    (first : InitialisedFirst ops) :
    ops = [] ∨ Synced c m₀ (ops.foldl Op.logical a) (run c (State.start m₀) ops) := by
  have start : History c.toLayout (format c) m₀ (State.start m₀) :=
    History.start (recoverable_iff.2 ⟨_, _, h⟩)
  cases ops with
  | nil => exact Or.inl rfl
  | cons op ops =>
    have rest : ∀ o ∈ ops, o.InRange c := fun o ho => range o (List.mem_cons_of_mem _ ho)
    cases op with
    | init => exact Or.inr (synced_run ops (synced_init (s := State.start m₀) h start) rest)
    | erase => exact Or.inr (synced_run ops (synced_erase start) rest)
    | writeBlock dest src => exact first.elim

/-- From erased flash on, after every run that starts with an initialisation or an
erase, reads return the data, an initialisation rebuilds the buffer from the
flash, and every flash operation issued was legal: each double word programmed
was erased, aligned and inside the area. -/
theorem reads_reload_and_legal {m₀ : Nat → UInt8}
    (erased : Blank m₀ c.pageBaseAddress (c.pageCount * c.pageSize)) (ops : List Op)
    (range : ∀ op ∈ ops, op.InRange c) (first : InitialisedFirst ops) :
    (∀ i, i < c.densityBytes →
      eepromReadDataByte c (run c (State.start m₀) ops) i = logicalData ops i) ∧
    (∀ ram : State, ram.flash = (run c (State.start m₀) ops).flash → ∀ i, i < c.densityBytes →
      (eepromInit c noEcc ram).2.dataBuf i = (run c (State.start m₀) ops).dataBuf i) ∧
    (run c (State.start m₀) ops).flash =
      applyOps c.toLayout m₀ (run c (State.start m₀) ops).trace ∧
    LegalTrace c.toLayout m₀ (run c (State.start m₀) ops).trace := by
  have zeros := sound_of_erased (c := c) erased
  have result : (∃ slot, Sound c.toLayout (format c) (run c (State.start m₀) ops).flash slot
        (run c (State.start m₀) ops).dataBuf) ∧
      (∀ i, i < c.densityBytes → (run c (State.start m₀) ops).dataBuf i = logicalData ops i) ∧
      History c.toLayout (format c) m₀ (run c (State.start m₀) ops) := by
    rcases synced_of_first zeros range first with rfl | synced
    · exact ⟨⟨_, zeros⟩, fun _ _ => rfl, History.start (recoverable_iff.2 ⟨_, _, zeros⟩)⟩
    · exact ⟨⟨_, synced.running⟩, synced.data, synced.history⟩
  obtain ⟨⟨slot, sound⟩, data, hist⟩ := result
  refine ⟨fun i hi => ?_, fun ram same i hi => ?_, hist.flash, hist.legal⟩
  · rw [eepromReadDataByte, if_pos hi, data i hi]
  · rw [← same] at sound
    obtain ⟨-, -, -, -, hb⟩ := eepromInit_spec sound
    exact hb i hi

theorem small_reads :
    eepromReadDataByte smallConfig (run smallConfig (State.start fun _ => 0xFF)
      [.init, .writeBlock 3 [1, 2, 3, 4, 5, 6], .writeBlock 4 [7]]) 4 = 7 := by
  have h := (@reads_reload_and_legal smallConfig (fun _ => 0xFF) (fun _ _ _ => rfl)
    [.init, .writeBlock 3 [1, 2, 3, 4, 5, 6], .writeBlock 4 [7]] (by decide) trivial).1 4 (by decide)
  exact h.trans (by decide)

/-- Before the first initialisation `empty_slot` is `NULL`: the second write of a
byte erases and programs the flash at address 0, outside of the area, and is lost
at the next start. -/
theorem write_before_init_outside :
    (FlashOp.program 0 [0, 0, 1, 0, 0xFD, 0xFF, 0xFF, 0xFF] ∈
      (run smallConfig (State.start fun i => if i < 64 then 0 else 0xFF)
        [.writeBlock 0 [1], .writeBlock 0 [2]]).trace) ∧
    eepromReadDataByte smallConfig (run smallConfig (State.start fun i => if i < 64 then 0 else 0xFF)
      [.writeBlock 0 [1], .writeBlock 0 [2]]) 0 = 2 ∧
    (eepromInit smallConfig noEcc (run smallConfig (State.start fun i => if i < 64 then 0 else 0xFF)
      [.writeBlock 0 [1], .writeBlock 0 [2]])).2.dataBuf 0 = 1 := by
  decide +kernel

end QmkFirmware.Eeprom.L4
