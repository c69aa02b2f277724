import QmkFirmware.Eeprom.LegacyWriter

/-!
# The legacy driver over whole runs

As long as no write splits a zero, the flash stands for `DataBuf` after every
call, so reads, a new start and the programmed half-words are as they should be.
-/

namespace QmkFirmware.Eeprom.Legacy
open Lib

variable {c : Config}

/-! ## Reading -/

theorem eepromReadDataWord_spec {s : State} {address : Nat} (range : address + 2 ≤ c.densityBytes) :
    eepromReadDataWord c s address = ofBytes (slice s.dataBuf address 2) := by
  rw [eepromReadDataWord, if_pos (by omega)]
  split
  case isTrue =>
    have lt := (s.dataBuf address).toNat_lt
    have bytes : ofBytes (slice s.dataBuf address 2) =
        2 ^ 8 * (s.dataBuf (address + 1)).toNat + (s.dataBuf address).toNat := by
      simp only [slice, List.range_succ, List.range_zero, List.nil_append, List.cons_append, List.map_cons,
        List.map_nil, ofBytes, Nat.add_zero]
      omega
    rw [bytes, Nat.or_comm, Nat.shiftLeft_eq, Nat.mul_comm, or_low _ lt]
  case isFalse => rfl

theorem readWords_spec (fuel : Nat) : ∀ {s : State} {src len : Nat}, len ≤ fuel →
    src + len ≤ c.densityBytes → readWords c fuel s src len = slice s.dataBuf src len := by
  have hd := c.density_le
  induction fuel with
  | zero =>
    intro s src len hf _
    rw [Nat.le_zero.1 hf]
    rfl
  | succ fuel ih =>
    intro s src len hf range
    rw [readWords]
    split_ifs with more one
    · have bytes := toBytes_ofBytes (slice s.dataBuf src 2)
      rw [length_slice] at bytes
      rw [Nat.mod_eq_of_lt (by omega), eepromReadDataWord_spec (by omega), bytes, ih (by omega) (by omega),
        ← slice_add, show 2 + (len - 2) = len by omega]
    · rw [one, Nat.mod_eq_of_lt (by omega), eepromReadDataByte, if_pos (by omega)]
      rfl
    · rw [show len = 0 by omega]
      rfl

theorem eepromReadBlock_spec {s : State} {src len : Nat} (range : src + len ≤ c.densityBytes) :
    eepromReadBlock c s src len = slice s.dataBuf src len := by
  have hd := c.density_le
  rw [eepromReadBlock]
  split_ifs with odd
  · have first := slice_succ s.dataBuf src (len - 1)
    rw [show len - 1 + 1 = len by omega] at first
    rw [first, readWords_spec len (by omega) (by omega), Nat.mod_eq_of_lt (by omega), eepromReadDataByte,
      if_pos (by omega)]
  · exact readWords_spec len (Nat.le_refl _) range

/-! ## Runs -/

/-- A call of the driver; reads leave the state alone. -/
inductive Op where
  | init
  | erase
  | writeByte (address : Nat) (dataByte : UInt8)
  | writeWord (address dataWord : Nat)
  | writeBlock (dest : Nat) (src : List UInt8)
  deriving DecidableEq, Repr

namespace Op

/-- The arguments stay inside the emulated EEPROM, and a word is a `uint16_t`. -/
def InRange (c : Config) : Op → Prop
  | .init => True
  | .erase => True
  | .writeByte address _ => address < c.densityBytes
  | .writeWord address dataWord => address + 2 ≤ c.densityBytes ∧ dataWord < 2 ^ 16
  | .writeBlock dest src => dest + src.length ≤ c.densityBytes

instance (c : Config) : DecidablePred (InRange c)
  | .init => isTrue trivial
  | .erase => isTrue trivial
  | .writeByte _ _ => inferInstanceAs (Decidable (_ < _))
  | .writeWord _ _ => inferInstanceAs (Decidable (_ ∧ _))
  | .writeBlock _ _ => inferInstanceAs (Decidable (_ ≤ _))

/-- The state a call leaves. -/
def step (c : Config) (s : State) : Op → State
  | .init => (eepromInit c s).2
  | .erase => eepromErase c s
  | .writeByte address dataByte => (eepromWriteDataByte c s address dataByte).2
  | .writeWord address dataWord => (eepromWriteDataWord c s address dataWord).2
  | .writeBlock dest src => eepromWriteBlock c s dest src

/-- What a call does to the data. -/
def logical (a : Nat → UInt8) : Op → Nat → UInt8
  | .init => a
  | .erase => fun _ => 0
  | .writeByte address dataByte => patch a address [dataByte]
  | .writeWord address dataWord => patch a address (toBytes 2 dataWord)
  | .writeBlock dest src => patch a dest src

/-- No word that the call writes is a zero that is split. -/
def Spared (c : Config) (s : State) : Op → Prop
  | .writeWord address dataWord => ¬ SplitsZero c s address dataWord
  | .writeBlock dest src => BlockSpared c s dest src
  | _ => True

instance (c : Config) (s : State) : DecidablePred (Spared c s)
  | .init => isTrue trivial
  | .erase => isTrue trivial
  | .writeByte _ _ => isTrue trivial
  | .writeWord _ _ => inferInstanceAs (Decidable (¬ _))
  | .writeBlock dest src => inferInstanceAs (Decidable (BlockSpared c s dest src))

end Op

def run (c : Config) (s : State) (ops : List Op) : State := ops.foldl (Op.step c) s

/-- The data after a sequence of calls, from all zeros. -/
def logicalData (ops : List Op) : Nat → UInt8 := ops.foldl Op.logical fun _ => 0

/-- Every call of the run is spared, in the state it starts in. -/
def RunSpared (c : Config) : State → List Op → Prop
  | _, [] => True
  | s, op :: ops => op.Spared c s ∧ RunSpared c (op.step c s) ops

instance decidableRunSpared (c : Config) : ∀ (s : State) (ops : List Op), Decidable (RunSpared c s ops)
  | _, [] => isTrue trivial
  | s, op :: ops =>
    have := decidableRunSpared c (op.step c s) ops
    inferInstanceAs (Decidable (op.Spared c s ∧ RunSpared c (op.step c s) ops))

/-- The first call initialises or erases. -/
def InitialisedFirst : List Op → Prop
  | [] => True
  | .init :: _ => True
  | .erase :: _ => True
  | _ => False

/-- Buffer and flash both hold the data `a`, and all operations were legal. -/
structure Synced (c : Config) (m₀ : Nat → UInt8) (a : Nat → UInt8) (s : State) : Prop where
  running : Running c s
  data : ∀ i, i < c.densityBytes → s.dataBuf i = a i
  history : History c.toLayout (format c) m₀ s

/-- Erased flash stands for zeros. -/
theorem sound_of_erased {m : Nat → UInt8}
    (erased : Blank m c.pageBaseAddress (c.pageCount * c.pageSize)) :
    Sound c.toLayout (format c) m c.writeLogBase fun _ => 0 := by
  have fits := c.fits
  refine Sound.of_blank_log (erased.sub (by simp [Layout.writeLogBase])
    (by simp only [Layout.writeLogBase]; omega)) fun i hi => ?_
  rw [snapshot, erased _ (by omega) (by omega)]
  rfl

theorem synced_init {m₀ a : Nat → UInt8} {s : State} {slot : Nat}
    (h : Sound c.toLayout (format c) s.flash slot a) (hist : History c.toLayout (format c) m₀ s) :
    Synced c m₀ a (eepromInit c s).2 := by
  obtain ⟨hf, ht, hs, hb⟩ := eepromInit_spec h
  refine ⟨?_, hb, hist.congr hf ht⟩
  rw [Running, hf, hs]
  exact h.congr hb

theorem synced_erase {m₀ : Nat → UInt8} {s : State} (hist : History c.toLayout (format c) m₀ s) :
    Synced c m₀ (fun _ => 0) (eepromErase c s) := by
  obtain ⟨-, -, blank, hist'⟩ := eepromClear_spec (format c) s
  exact synced_init (sound_of_erased blank) (hist' m₀ hist)

/-- One write, from what it does to the buffer. -/
theorem Synced.write {m₀ a : Nat → UInt8} {s t : State} (h : Synced c m₀ a s) {dest : Nat}
    {src : List UInt8} (spec : Running c t ∧ t.dataBuf = patch s.dataBuf dest src ∧
      ∀ m₀, History c.toLayout (format c) m₀ s → History c.toLayout (format c) m₀ t) : Synced c m₀ (patch a dest src) t := by
  obtain ⟨run, hb, hist⟩ := spec
  refine ⟨run, fun i hi => ?_, hist m₀ h.history⟩
  rw [hb]
  exact patch_congr (h.data i hi) dest src

theorem synced_step {m₀ a : Nat → UInt8} {s : State} (h : Synced c m₀ a s) {op : Op}
    (range : op.InRange c) (spared : op.Spared c s) : Synced c m₀ (op.logical a) (op.step c s) := by
  cases op with
  | init => exact synced_init (h.running.congr fun i hi => (h.data i hi).symm) h.history
  | erase => exact synced_erase h.history
  | writeByte address dataByte => exact h.write (eepromWriteDataByte_spec h.running dataByte range)
  | writeWord address dataWord =>
    exact h.write (eepromWriteDataWord_spec h.running range.1 range.2 spared)
  | writeBlock dest src => exact h.write (eepromWriteBlock_spec h.running range spared)

theorem synced_run {m₀ : Nat → UInt8} (ops : List Op) : ∀ {a : Nat → UInt8} {s : State},
    Synced c m₀ a s → (∀ op ∈ ops, op.InRange c) → RunSpared c s ops →
    Synced c m₀ (ops.foldl Op.logical a) (run c s ops) := by
  induction ops with
  | nil => exact fun h _ _ => h
  | cons op ops ih =>
    intro a s h range spared
    exact ih (synced_step h (range op List.mem_cons_self) spared.1)
      (fun o ho => range o (List.mem_cons_of_mem _ ho)) spared.2

/-- A run that starts with an initialisation or an erase, from flash that stands for `a`. -/
theorem synced_of_first {m₀ a : Nat → UInt8} {slot : Nat}
    (h : Sound c.toLayout (format c) m₀ slot a) {ops : List Op} (range : ∀ op ∈ ops, op.InRange c)
    (first : InitialisedFirst ops) (spared : RunSpared c (State.start m₀) ops) :
    ops = [] ∨ Synced c m₀ (ops.foldl Op.logical a) (run c (State.start m₀) ops) := by
  have start : History c.toLayout (format c) m₀ (State.start m₀) :=
    History.start (recoverable_iff.2 ⟨_, _, h⟩)
  cases ops with
  | nil => exact Or.inl rfl
  | cons op ops =>
    have rest : ∀ o ∈ ops, o.InRange c := fun o ho => range o (List.mem_cons_of_mem _ ho)
    cases op with
    | init => exact Or.inr (synced_run ops (synced_init (s := State.start m₀) h start) rest spared.2)
    | erase => exact Or.inr (synced_run ops (synced_erase start) rest spared.2)
    | writeByte address dataByte => exact first.elim
    | writeWord address dataWord => exact first.elim
    | writeBlock dest src => exact first.elim

/-- From erased flash on, after every run that starts with an initialisation or an
erase and splits no zero: byte, word and block reads return the data, an
initialisation rebuilds the buffer from the flash, and every half-word programmed
was erased and inside the area. -/
theorem words_reload_and_legal {m₀ : Nat → UInt8}
    (erased : Blank m₀ c.pageBaseAddress (c.pageCount * c.pageSize)) (ops : List Op)
    (range : ∀ op ∈ ops, op.InRange c) (first : InitialisedFirst ops)
    (spared : RunSpared c (State.start m₀) ops) :
    (∀ i, i < c.densityBytes →
      eepromReadDataByte c (run c (State.start m₀) ops) i = logicalData ops i) ∧
    (∀ i, i + 2 ≤ c.densityBytes →
      eepromReadDataWord c (run c (State.start m₀) ops) i = ofBytes (slice (logicalData ops) i 2)) ∧
    (∀ i len, i + len ≤ c.densityBytes →
      eepromReadBlock c (run c (State.start m₀) ops) i len = slice (logicalData ops) i len) ∧
    (∀ ram : State, ram.flash = (run c (State.start m₀) ops).flash → ∀ i, i < c.densityBytes →
      (eepromInit c ram).2.dataBuf i = (run c (State.start m₀) ops).dataBuf i) ∧
    (run c (State.start m₀) ops).flash =
      applyOps c.toLayout m₀ (run c (State.start m₀) ops).trace ∧
    LegalTrace c.toLayout m₀ (run c (State.start m₀) ops).trace := by
  have zeros := sound_of_erased (c := c) erased
  have result : (∃ slot, Sound c.toLayout (format c) (run c (State.start m₀) ops).flash slot
        (run c (State.start m₀) ops).dataBuf) ∧
      (∀ i, i < c.densityBytes → (run c (State.start m₀) ops).dataBuf i = logicalData ops i) ∧
      History c.toLayout (format c) m₀ (run c (State.start m₀) ops) := by
    rcases synced_of_first zeros range first spared with rfl | synced
    · exact ⟨⟨_, zeros⟩, fun _ _ => rfl, History.start (recoverable_iff.2 ⟨_, _, zeros⟩)⟩
    · exact ⟨⟨_, synced.running⟩, synced.data, synced.history⟩
  obtain ⟨⟨slot, sound⟩, data, hist⟩ := result
  have view : ∀ i len, i + len ≤ c.densityBytes →
      slice (run c (State.start m₀) ops).dataBuf i len = slice (logicalData ops) i len :=
    fun i len range => slice_congr fun k _ hk => data k (by omega)
  refine ⟨fun i hi => ?_, fun i hi => ?_, fun i len hi => ?_, fun ram same i hi => ?_, hist.flash, hist.legal⟩
  · rw [eepromReadDataByte, if_pos hi, data i hi]
  · rw [eepromReadDataWord_spec hi, view i 2 hi]
  · rw [eepromReadBlock_spec hi, view i len hi]
  · rw [← same] at sound
    obtain ⟨-, -, -, hb⟩ := eepromInit_spec sound
    exact hb i hi

theorem small_words :
    eepromReadDataByte smallConfig (run smallConfig (State.start fun _ => 0xFF)
      [.init, .writeWord 0 0x0102, .writeByte 0 3, .writeWord 0 0, .writeBlock 1 [4, 5, 6]]) 1 = 4 := by
  have h := (@words_reload_and_legal smallConfig (fun _ => 0xFF) (fun _ _ _ => rfl)
    [.init, .writeWord 0 0x0102, .writeByte 0 3, .writeWord 0 0, .writeBlock 1 [4, 5, 6]] (by decide)
    trivial (by decide +kernel)).1 1 (by decide)
  exact h.trans (by decide)

/-- Four log entries fill the log; then the word at 0 is set to 0, which splits it,
and to 0x0505. The next start undoes half of it. -/
theorem split_zero_lost :
    eepromReadDataWord smallConfig (run smallConfig (State.start fun _ => 0xFF)
      [.init, .writeByte 0 1, .writeByte 0 2, .writeByte 0 3, .writeByte 0 4, .writeByte 1 1,
        .writeWord 0 0, .writeWord 0 0x0505]) 0 = 0x0505 ∧
    eepromReadDataWord smallConfig (eepromInit smallConfig (run smallConfig (State.start fun _ => 0xFF)
      [.init, .writeByte 0 1, .writeByte 0 2, .writeByte 0 3, .writeByte 0 4, .writeByte 1 1,
        .writeWord 0 0, .writeWord 0 0x0505])).2 0 = 0x0005 := by
  decide +kernel

end QmkFirmware.Eeprom.Legacy
