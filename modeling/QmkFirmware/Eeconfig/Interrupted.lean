import QmkFirmware.Eeconfig.Code

/-!
# A reset that is interrupted

When the power fails between two writes of `eeconfig_init`, the reset is done again at the next
boot unless both markers are valid. The magic number is written first; only the marker of VIA
is kept invalid while settings are written, and not while all of them are.
-/

namespace QmkFirmware.Eeconfig
open Lib

namespace Config

variable {cfg : Config} {v : Via} {w w' : Write} {m : Nat → BitVec 8} {a j k : Nat}

/-! ## Which cells are written -/

theorem mem_eepromUpdateByte {value : BitVec 8} : w ∈ eepromUpdateByte a value ↔ w = (a, value) := List.mem_singleton

theorem mem_eepromUpdateDword {value : BitVec 32} (mem : w ∈ eepromUpdateDword a value) : a ≤ w.1 ∧ w.1 < a + 4 := mem_block mem

/-- Two writes to one cell are the same, or the first one writes 0. -/
def Apart (w w' : Write) : Prop := w.1 = w'.1 → w.2 = 0

theorem apart_block {l : List (BitVec 8)} : (block a l).Pairwise Apart :=
  block_increasing.imp fun less same => absurd same (Nat.ne_of_lt less)

theorem fixedSettings_cells (mem : w ∈ cfg.fixedSettings) : w.1 < 15 ∨ 23 ≤ w.1 ∧ w.1 < 34 := by
  have all : ∀ a ∈ cells cfg.fixedSettings, a < 15 ∨ 23 ≤ a ∧ a < 34 := by
    change ∀ a ∈ [0, 1, 2, 3, 4, 5, 6, 7, 8, 9, 10, 11, 13, 24, 25, 26, 27, 23, 28, 29, 30, 31, 32, 33, 24, 25, 26, 27], _
    decide
  exact all w.1 (List.mem_map_of_mem mem)

theorem kbDatablock_cells (mem : w ∈ if 0 < cfg.kbDataSize then cfg.eeconfigInitKbDatablock else []) :
    0 < cfg.kbDataSize ∧ (15 ≤ w.1 ∧ w.1 < 19 ∨ 34 ≤ w.1 ∧ w.1 < 34 + cfg.kbDataSize) := by
  split at mem
  next used =>
    refine ⟨used, ?_⟩
    rcases List.mem_append.1 mem with version | data
    · exact Or.inl (mem_eepromUpdateDword version)
    · have := mem_block data
      rw [List.length_replicate] at this
      exact Or.inr this
  next => contradiction

theorem userDatablock_cells (mem : w ∈ if 0 < cfg.userDataSize then cfg.eeconfigInitUserDatablock else []) :
    0 < cfg.userDataSize ∧ (19 ≤ w.1 ∧ w.1 < 23 ∨ 34 + cfg.kbDataSize ≤ w.1 ∧ w.1 < cfg.eeconfigSize) := by
  split at mem
  next used =>
    refine ⟨used, ?_⟩
    rcases List.mem_append.1 mem with version | data
    · exact Or.inl (mem_eepromUpdateDword version)
    · have := mem_block data
      rw [List.length_replicate] at this
      exact Or.inr this
  next => contradiction

theorem eeconfigInitKb_cells (mem : w ∈ cfg.eeconfigInitKb) :
    cfg.kbDataSize = 0 ∧ 15 ≤ w.1 ∧ w.1 < 19 ∨ cfg.userDataSize = 0 ∧ 19 ≤ w.1 ∧ w.1 < 23 := by
  rcases List.mem_append.1 mem with kb | user
  · split at kb
    next unused => exact Or.inl ⟨unused, mem_eepromUpdateDword kb⟩
    next => contradiction
  · split at user
    next unused => exact Or.inr ⟨unused, mem_eepromUpdateDword user⟩
    next => contradiction

theorem coreSettings_lt (mem : w ∈ cfg.coreSettings) : w.1 < cfg.eeconfigSize := by
  unfold eeconfigSize
  rcases List.mem_append.1 mem with front | user
  · rcases List.mem_append.1 front with fixed | kb
    · have := fixedSettings_cells fixed
      omega
    · have := kbDatablock_cells kb
      omega
  · have := userDatablock_cells user
    unfold eeconfigSize at this
    omega

theorem updateKeycode_le {keycode : BitVec 16} (mem : w ∈ updateKeycode a keycode) : a ≤ w.1 := by
  rcases List.mem_append.1 mem with high | low
  · rw [mem_eepromUpdateByte.1 high]
  · rw [mem_eepromUpdateByte.1 low]
    exact Nat.le_succ a

theorem keymapAddr_le_encoderAddr : cfg.keymapAddr v ≤ cfg.encoderAddr v := Nat.le_add_right _ _

theorem dynamicKeymapReset_le (mem : w ∈ cfg.dynamicKeymapReset v) : cfg.keymapAddr v ≤ w.1 := by
  have encoders : cfg.keymapAddr v ≤ cfg.encoderAddr v := keymapAddr_le_encoderAddr
  obtain ⟨layer, -, mem⟩ := List.mem_flatMap.1 mem
  rcases List.mem_append.1 mem with key | encoder
  · obtain ⟨row, -, key⟩ := List.mem_flatMap.1 key
    obtain ⟨column, -, key⟩ := List.mem_flatMap.1 key
    unfold dynamicKeymapSetKeycode at key
    split at key
    next => contradiction
    next =>
      have := updateKeycode_le key
      omega
  · split at encoder
    next => contradiction
    next e _ =>
      have each : ∀ {layer encoder clockwise keycode}, w ∈ cfg.dynamicKeymapSetEncoder v e layer encoder clockwise keycode →
          cfg.keymapAddr v ≤ w.1 := by
        intro layer encoder clockwise keycode mem
        unfold dynamicKeymapSetEncoder at mem
        split at mem
        next => contradiction
        next =>
          have := updateKeycode_le mem
          omega
      obtain ⟨encoder, -, mem⟩ := List.mem_flatMap.1 encoder
      rcases List.mem_append.1 mem with cw | ccw
      · exact each cw
      · exact each ccw

/-- The settings of VIA lie behind its marker. -/
theorem viaSettings_le (mem : w ∈ cfg.viaSettings v) : cfg.viaMagicAddr + 3 ≤ w.1 := by
  have keymap : cfg.viaMagicAddr + 3 ≤ cfg.keymapAddr v := by
    unfold keymapAddr viaLayoutOptionsAddr
    omega
  rcases List.mem_append.1 mem with front | macros
  · rcases List.mem_append.1 front with options | keys
    · obtain ⟨i, -, option⟩ := List.mem_flatMap.1 options
      rw [mem_eepromUpdateByte.1 option]
      exact Nat.le_add_right _ _
    · exact keymap.trans (dynamicKeymapReset_le keys)
  · have first := (mem_block macros).1
    have encoders : cfg.keymapAddr v ≤ cfg.encoderAddr v := keymapAddr_le_encoderAddr
    unfold macroAddr at first
    omega

theorem viaEepromSetValid_cells {valid : Bool} (mem : w ∈ cfg.viaEepromSetValid v valid) :
    cfg.viaMagicAddr ≤ w.1 ∧ w.1 < cfg.viaMagicAddr + 3 := by
  rcases List.mem_append.1 mem with front | third
  · rcases List.mem_append.1 front with first | second
    · rw [mem_eepromUpdateByte.1 first]
      exact ⟨Nat.le_refl _, by omega⟩
    · rw [mem_eepromUpdateByte.1 second]
      exact ⟨by omega, by omega⟩
  · rw [mem_eepromUpdateByte.1 third]
    exact ⟨by omega, by omega⟩

theorem viaPart_le (mem : w ∈ cfg.viaPart) : cfg.eeconfigSize ≤ w.1 := by
  unfold viaPart at mem
  split at mem
  next => contradiction
  next v _ =>
    rcases List.mem_append.1 mem with invalid | rest
    · exact (viaEepromSetValid_cells invalid).1
    · rcases List.mem_append.1 rest with front | valid
      · rcases List.mem_append.1 front with invalid | settings
        · exact (viaEepromSetValid_cells invalid).1
        · exact (Nat.le_add_right _ 3).trans (viaSettings_le settings)
      · exact (viaEepromSetValid_cells valid).1

/-! ## Which cells are written twice -/

theorem pairwise_append {l l' : List Write} (h : l.Pairwise Apart) (h' : l'.Pairwise Apart)
    (apart : ∀ w ∈ l, ∀ w' ∈ l', w.1 ≠ w'.1) : (l ++ l').Pairwise Apart :=
  List.pairwise_append.2 ⟨h, h', fun w mem w' mem' same => absurd same (apart w mem w' mem')⟩

/-- Only the haptic feedback is written twice, and is 0 at first. -/
theorem fixedSettings_apart : cfg.fixedSettings.Pairwise Apart := by
  refine List.pairwise_append.2 ⟨?_, apart_block, ?_⟩
  · have once : (cells (eepromUpdateWord 0 0xFEE7 ++ eepromUpdateByte 2 0 ++ eepromUpdateByte 3 0 ++ eepromUpdateWord 4 0x1400 ++
        eepromUpdateByte 6 0 ++ eepromUpdateByte 7 0xFF ++ eepromUpdateDword 8 0 ++ eepromUpdateByte 13 0 ++
        eepromUpdateDword 24 0 ++ eepromUpdateByte 23 0 ++ eepromUpdateDword 28 0 ++ eepromUpdateWord 32 0)).Nodup := by
      decide
    exact (List.pairwise_map.1 once).imp fun differ same => absurd same differ
  · intro w mem w' haptic same
    have inside := mem_eepromUpdateDword haptic
    rw [← same] at inside
    clear same haptic w'
    revert w
    decide

theorem core_kb_apart : (cfg.coreSettings ++ cfg.eeconfigInitKb).Pairwise Apart := by
  have kbBlock : (if 0 < cfg.kbDataSize then cfg.eeconfigInitKbDatablock else []).Pairwise Apart := by
    split
    next =>
      apply pairwise_append apart_block apart_block
      intro w version w' data
      have := mem_eepromUpdateDword version
      have := mem_block data
      omega
    next => exact List.Pairwise.nil
  have userBlock : (if 0 < cfg.userDataSize then cfg.eeconfigInitUserDatablock else []).Pairwise Apart := by
    split
    next =>
      apply pairwise_append apart_block apart_block
      intro w version w' data
      have := mem_eepromUpdateDword version
      have := mem_block data
      omega
    next => exact List.Pairwise.nil
  have core : cfg.coreSettings.Pairwise Apart := by
    apply pairwise_append (pairwise_append fixedSettings_apart kbBlock _) userBlock
    · intro w front w' user
      have := userDatablock_cells user
      rcases List.mem_append.1 front with fixed | kb
      · have := fixedSettings_cells fixed
        omega
      · have := kbDatablock_cells kb
        omega
    · intro w fixed w' kb
      have := fixedSettings_cells fixed
      have := kbDatablock_cells kb
      omega
  have tail : cfg.eeconfigInitKb.Pairwise Apart := by
    apply pairwise_append
    · split
      next => exact apart_block
      next => exact List.Pairwise.nil
    · split
      next => exact apart_block
      next => exact List.Pairwise.nil
    · intro w kb w' user
      split at kb
      next =>
        split at user
        next =>
          have := mem_eepromUpdateDword kb
          have := mem_eepromUpdateDword user
          omega
        next => contradiction
      next => contradiction
  apply pairwise_append core tail
  intro w front w' last
  have := eeconfigInitKb_cells last
  rcases List.mem_append.1 front with front | user
  · rcases List.mem_append.1 front with fixed | kb
    · have := fixedSettings_cells fixed
      omega
    · have := kbDatablock_cells kb
      omega
  · have := userDatablock_cells user
    omega

/-! ## The marker of VIA -/

theorem magic_bits (x y : BitVec 8) :
    ((x &&& 0x0F) <<< 4 ||| (y &&& 0x0F)).getLsbD 7 = x.getLsbD 3 ∧ ((x &&& 0x0F) <<< 4 ||| (y &&& 0x0F)).getLsbD 6 = x.getLsbD 2 := by
  constructor
  · simp
  · simp

/-- A byte of two decimal digits is not 0xFF. -/
theorem magic_ne {i : Nat} (tens : 3 * i + 2 ∈ [2, 3, 5, 6, 8, 9]) : v.magic i ≠ 0xFF := by
  obtain ⟨low, high⟩ := v.digits _ tens
  intro same
  obtain ⟨top, next⟩ := magic_bits (v.buildDate (3 * i + 2)) (v.buildDate (3 * i + 3))
  unfold Via.magic at same
  rw [same] at top next
  have digit : ∀ x : BitVec 8, 0x30 ≤ x.toNat → x.toNat ≤ 0x39 → ¬ (x.getLsbD 3 = true ∧ x.getLsbD 2 = true) := by
    decide
  exact digit _ low high ⟨top.symm, next.symm⟩

/-- The marker is valid once its three bytes have been written last. -/
theorem valid_of_setValid : cfg.viaEepromIsValid v (store m (cfg.viaEepromSetValid v true)) = true := by
  unfold viaEepromIsValid viaEepromSetValid eepromUpdateByte
  simp [block]

theorem viaEepromIsValid_congr {m' : Nat → BitVec 8}
    (same : ∀ a, cfg.viaMagicAddr ≤ a → a < cfg.viaMagicAddr + 3 → m a = m' a) :
    cfg.viaEepromIsValid v m = cfg.viaEepromIsValid v m' := by
  unfold viaEepromIsValid
  rw [same _ (by omega) (by omega), same _ (by omega) (by omega), same _ (by omega) (by omega)]

theorem invalid_of_first (first : m cfg.viaMagicAddr = 0xFF) : cfg.viaEepromIsValid v m = false := by
  have ne := magic_ne (v := v) (i := 0) (by decide)
  apply decide_eq_false
  rintro ⟨same, -, -⟩
  rw [Nat.add_zero, first] at same
  exact ne same.symm

theorem invalid_of_third (third : m (cfg.viaMagicAddr + 2) = 0xFF) : cfg.viaEepromIsValid v m = false := by
  have ne := magic_ne (v := v) (i := 2) (by decide)
  apply decide_eq_false
  rintro ⟨-, -, same⟩
  rw [third] at same
  exact ne same.symm

/-! ## The two markers after a part of the settings -/

theorem settings_eq (cfg : Config) :
    cfg.settings = (0, 0xE7) :: (1, 0xFE) :: (cfg.settings.drop 2) := rfl

theorem settings_from_two (mem : w ∈ cfg.settings.drop 2) : 2 ≤ w.1 := by
  have fixed : ∀ a ∈ cells (cfg.fixedSettings.drop 2), 2 ≤ a := by
    change ∀ a ∈ [2, 3, 4, 5, 6, 7, 8, 9, 10, 11, 13, 24, 25, 26, 27, 23, 28, 29, 30, 31, 32, 33, 24, 25, 26, 27], _
    decide
  have size : 34 ≤ cfg.eeconfigSize := by
    unfold eeconfigSize
    omega
  have split : cfg.settings.drop 2 = cfg.fixedSettings.drop 2 ++
      (if 0 < cfg.kbDataSize then cfg.eeconfigInitKbDatablock else []) ++
      (if 0 < cfg.userDataSize then cfg.eeconfigInitUserDatablock else []) ++ cfg.viaPart ++ cfg.eeconfigInitKb := rfl
  rw [split] at mem
  rcases List.mem_append.1 mem with front | kb
  · rcases List.mem_append.1 front with front | via
    · rcases List.mem_append.1 front with front | user
      · rcases List.mem_append.1 front with front | kb
        · exact fixed w.1 (List.mem_map_of_mem front)
        · have := kbDatablock_cells kb
          omega
      · have := userDatablock_cells user
        omega
    · have := viaPart_le via
      omega
  · have := eeconfigInitKb_cells kb
    omega

/-- The magic number after `j` bytes of the settings -/
theorem magic_taken :
    (store m (cfg.settings.take j) 0 = 0xE7 ↔ (j = 0 → m 0 = 0xE7)) ∧
      (store m (cfg.settings.take j) 1 = 0xFE ↔ (j ≤ 1 → m 1 = 0xFE)) := by
  have free : ∀ n : Nat, ∀ a < 2, a ∉ cells ((cfg.settings.drop 2).take n) := by
    intro n a small mem
    obtain ⟨w, mem, same⟩ := mem_cells.1 mem
    have := settings_from_two (List.mem_of_mem_take mem)
    omega
  rw [settings_eq]
  match j with
  | 0 => simp
  | 1 => simp
  | j + 2 =>
    rw [List.take_succ_cons, List.take_succ_cons, store_cons, store_cons, store_of_not_mem (free j 0 (by decide)),
      store_of_not_mem (free j 1 (by decide))]
    simp

theorem viaPart_of (used : cfg.via = some v) :
    cfg.viaPart = (cfg.viaEepromSetValid v false ++ (cfg.viaEepromSetValid v false ++ cfg.viaSettings v)) ++
      cfg.viaEepromSetValid v true := by
  unfold viaPart eeconfigInitVia
  rw [used]
  simp only [List.append_assoc]

theorem false_writes_ff (mem : w ∈ cfg.viaEepromSetValid v false) : w.2 = 0xFF := by
  rcases List.mem_append.1 mem with front | third
  · rcases List.mem_append.1 front with first | second
    · rw [mem_eepromUpdateByte.1 first]
      rfl
    · rw [mem_eepromUpdateByte.1 second]
      rfl
  · rw [mem_eepromUpdateByte.1 third]
    rfl

/-- Between the first byte that invalidates the marker and the last one that makes it valid it is not valid. -/
theorem invalid_within (used : cfg.via = some v) {i : Nat} (begun : 0 < i) (short : i < cfg.viaPart.length) :
    cfg.viaEepromIsValid v (store m (cfg.viaPart.take i)) = false := by
  rw [viaPart_of used] at short ⊢
  generalize front : cfg.viaEepromSetValid v false ++ (cfg.viaEepromSetValid v false ++ cfg.viaSettings v) = invalid at short ⊢
  have ff : ∀ w ∈ invalid, w.1 < cfg.viaMagicAddr + 3 → w.2 = 0xFF := by
    intro w mem inside
    rw [← front] at mem
    rcases List.mem_append.1 mem with mem | mem
    · exact false_writes_ff mem
    · rcases List.mem_append.1 mem with mem | mem
      · exact false_writes_ff mem
      · have := viaSettings_le mem
        omega
  by_cases within : i ≤ invalid.length
  · apply invalid_of_first
    rw [List.take_append_of_le_length within]
    apply store_const
    · rw [← front]
      obtain ⟨i, rfl⟩ := Nat.exists_eq_succ_of_ne_zero (Nat.ne_of_gt begun)
      exact List.mem_cons_self
    · intro w mem same
      exact ff w (List.mem_of_mem_take mem) (by omega)
  · -- the third byte of the marker is still what it was made before
    apply invalid_of_third
    rw [List.take_append, List.take_of_length_le (by omega), store_append]
    apply store_keep
    · apply store_const
      · rw [← front]
        exact mem_cells.2 ⟨(cfg.viaMagicAddr + 2, 0xFF), by simp [viaEepromSetValid, eepromUpdateByte, block], rfl⟩
      · intro w mem same
        exact ff w mem (by omega)
    · intro w mem same
      have few : i - invalid.length ≤ 2 := by
        rw [List.length_append] at short
        have three : (cfg.viaEepromSetValid v true).length = 3 := rfl
        omega
      have two : w ∈ (cfg.viaEepromSetValid v true).take 2 := (List.take_subset_take_left _ few) mem
      have either : w = (cfg.viaMagicAddr + 0, v.magic 0) ∨ w = (cfg.viaMagicAddr + 1, v.magic 1) := by
        simpa [viaEepromSetValid, eepromUpdateByte, block] using two
      rcases either with rfl | rfl
      · simp at same
      · simp at same

/-- Writes below the marker leave it as it is. -/
theorem viaEepromIsValid_store {l : List Write} (below : ∀ w ∈ l, w.1 < cfg.eeconfigSize) :
    cfg.viaEepromIsValid v (store m l) = cfg.viaEepromIsValid v m := by
  apply viaEepromIsValid_congr
  intro a low _
  apply store_of_not_mem
  intro mem
  obtain ⟨w, mem, same⟩ := mem_cells.1 mem
  have := below w mem
  unfold viaMagicAddr at low
  omega

theorem eeconfigInitKb_lt (mem : w ∈ cfg.eeconfigInitKb) : w.1 < cfg.eeconfigSize := by
  have := eeconfigInitKb_cells mem
  unfold eeconfigSize
  omega

/-- The marker of VIA after `j` bytes of the settings -/
theorem via_taken (used : cfg.via = some v) :
    cfg.viaEepromIsValid v (store m (cfg.settings.take j)) = true ↔
      j ≤ cfg.coreSettings.length ∧ cfg.viaEepromIsValid v m = true ∨ cfg.coreSettings.length + cfg.viaPart.length ≤ j := by
  have nonempty : 0 < cfg.viaPart.length := by
    rw [viaPart_of used, List.length_append, List.length_append]
    exact Nat.add_pos_left (Nat.add_pos_left (Nat.zero_lt_succ 2) _) _
  unfold settings
  rw [List.append_assoc]
  rcases Nat.lt_or_ge cfg.coreSettings.length j with late | early
  swap
  · rw [List.take_append_of_le_length early, viaEepromIsValid_store fun w mem => coreSettings_lt (List.mem_of_mem_take mem)]
    have not : ¬ cfg.coreSettings.length + cfg.viaPart.length ≤ j := by omega
    simp only [early, not, true_and, or_false]
  have past : ¬ j ≤ cfg.coreSettings.length := Nat.not_le.2 late
  rw [List.take_append, List.take_of_length_le late.le, store_append]
  simp only [past, false_and, false_or]
  rcases Nat.lt_or_ge (j - cfg.coreSettings.length) cfg.viaPart.length with within | after
  · rw [List.take_append_of_le_length within.le, invalid_within used (by omega) within]
    simp only [Bool.false_eq_true, false_iff]
    omega
  · refine iff_of_true ?_ (by omega)
    rw [List.take_append, List.take_of_length_le after, store_append,
      viaEepromIsValid_store fun w mem => eeconfigInitKb_lt (List.mem_of_mem_take mem), viaPart_of used, store_append]
    exact valid_of_setValid

/-- Outside the part for VIA, a cell that is written before and after a cut holds 0. -/
theorem zero_between (outside : j ≤ cfg.coreSettings.length ∨ cfg.coreSettings.length + cfg.viaPart.length ≤ j)
    (done : w ∈ cfg.settings.take j) (later : w' ∈ cfg.settings.drop j) : Apart w w' := by
  unfold settings at done later
  rw [List.append_assoc] at done later
  rcases outside with early | late
  · rw [List.take_append_of_le_length early] at done
    rw [List.drop_append_of_le_length early] at later
    have apart : (cfg.coreSettings ++ cfg.eeconfigInitKb).Pairwise Apart := core_kb_apart
    rw [← List.take_append_drop j cfg.coreSettings, List.append_assoc, List.pairwise_append] at apart
    rcases List.mem_append.1 later with core | rest
    · exact apart.2.2 w done w' (List.mem_append_left _ core)
    · rcases List.mem_append.1 rest with via | kb
      · intro same
        have := coreSettings_lt (List.mem_of_mem_take done)
        have := viaPart_le via
        omega
      · exact apart.2.2 w done w' (List.mem_append_right _ kb)
  · rw [List.take_append, List.take_of_length_le (by omega), List.take_append, List.take_of_length_le (by omega)] at done
    rw [List.drop_append, List.drop_of_length_le (by omega), List.drop_append, List.drop_of_length_le (by omega)] at later
    rw [List.nil_append, List.nil_append] at later
    have apart : (cfg.coreSettings ++ cfg.eeconfigInitKb).Pairwise Apart := core_kb_apart
    rw [← List.take_append_drop (j - cfg.coreSettings.length - cfg.viaPart.length) cfg.eeconfigInitKb, ← List.append_assoc,
      List.pairwise_append] at apart
    rcases List.mem_append.1 done with core | rest
    · exact apart.2.2 w (List.mem_append_left _ core) w' later
    · rcases List.mem_append.1 rest with via | kb
      · intro same
        have := viaPart_le via
        have := eeconfigInitKb_lt (List.mem_of_mem_drop later)
        omega
      · exact apart.2.2 w (List.mem_append_right _ kb) w' later

end Config

/-! ## The cut -/

/-- What the EEPROM holds when the first of the settings is written, or when the power fails before that -/
def contents (cfg : Config) (m : Nat → BitVec 8) (k : Nat) : Nat → BitVec 8 :=
  if k < cfg.erasing.length then m else store m cfg.erasing

/-- How many bytes of the settings are written -/
def written (cfg : Config) (k : Nat) : Nat := k - cfg.erasing.length

/-- After `k` writes the reset is run again at the next boot, or all settings have their defaults. -/
def Redone (cfg : Config) (m : Nat → BitVec 8) (k : Nat) : Prop :=
  cfg.eeconfigIsEnabled (store m (cfg.eeconfigInit.take k)) = false ∨
    ∀ a ∈ cells cfg.settings, store m (cfg.eeconfigInit.take k) a = cfg.defaults a

instance (cfg : Config) (m : Nat → BitVec 8) (k : Nat) : Decidable (Redone cfg m k) := inferInstanceAs (Decidable (_ ∨ _))

/-- The power fails where no marker protects the settings: not while the EEPROM is being erased, not before the magic number is
complete (unless it was there before), and with VIA before its marker is made invalid (if it was valid), or after it is valid. -/
def Exposed (cfg : Config) (m : Nat → BitVec 8) (k : Nat) : Prop :=
  (k < cfg.erasing.length → k = 0) ∧
  (written cfg k = 0 → contents cfg m k 0 = 0xE7) ∧ (written cfg k ≤ 1 → contents cfg m k 1 = 0xFE) ∧
  ∀ v ∈ cfg.via, written cfg k ≤ cfg.coreSettings.length ∧ cfg.viaEepromIsValid v (contents cfg m k) = true ∨
    cfg.coreSettings.length + cfg.viaPart.length ≤ written cfg k

/-- What is still to be written has its default already: in what the EEPROM held before, or, where it has been written once, 0. -/
def Settled (cfg : Config) (m : Nat → BitVec 8) (k : Nat) : Prop :=
  ∀ a ∈ cells (cfg.settings.drop (written cfg k)),
    if a ∈ cells (cfg.settings.take (written cfg k)) then cfg.defaults a = 0 else contents cfg m k a = cfg.defaults a

section Cut

variable {cfg : Config} {m c : Nat → BitVec 8} {a j k : Nat}

theorem taken (whole : k < cfg.erasing.length → k = 0) :
    store m (cfg.eeconfigInit.take k) = store (contents cfg m k) (cfg.settings.take (written cfg k)) := by
  unfold contents written Config.eeconfigInit
  split
  next early =>
    rw [whole early, Nat.zero_sub]
    rfl
  next late =>
    rw [List.take_append, List.take_of_length_le (Nat.le_of_not_lt late), store_append]

/-- While the EEPROM is being erased, the magic number is gone. -/
theorem disabled_erasing (begun : 0 < k) (short : k < cfg.erasing.length) :
    cfg.eeconfigIsEnabled (store m (cfg.eeconfigInit.take k)) = false := by
  unfold Config.eeconfigInit
  rw [List.take_append_of_le_length short.le]
  unfold Config.erasing at short ⊢
  split at short
  next => contradiction
  next d _ =>
    have gone : store m (d.erase.take k) 0 = d.blank := by
      obtain ⟨k, rfl⟩ := Nat.exists_eq_succ_of_ne_zero (Nat.ne_of_gt begun)
      have all : ∀ n a, ∀ w ∈ block a (List.replicate n d.blank), w.2 = d.blank := by
        intro n
        induction n with
        | zero => exact fun a w mem => absurd mem (List.not_mem_nil)
        | succ n ih =>
          intro a w mem
          rcases List.mem_cons.1 mem with rfl | later
          · rfl
          · exact ih (a + 1) w later
      apply store_const
      · unfold Driver.erase at short ⊢
        rw [length_block, List.length_replicate] at short
        obtain ⟨n, size⟩ := Nat.exists_eq_succ_of_ne_zero (Nat.ne_of_gt (Nat.zero_lt_of_lt short))
        rw [size]
        exact List.mem_cons_self
      · exact fun w mem _ => all d.size 0 w (List.mem_of_mem_take mem)
    unfold Config.eeconfigIsEnabled
    rw [gone, decide_eq_false fun both => d.blank_ne both.1, Bool.false_and]

/-- Both markers are valid at the next boot exactly after a cut that is exposed. -/
theorem enabled_iff_exposed (cfg : Config) (m : Nat → BitVec 8) (k : Nat) :
    cfg.eeconfigIsEnabled (store m (cfg.eeconfigInit.take k)) = true ↔ Exposed cfg m k := by
  unfold Exposed
  by_cases whole : k < cfg.erasing.length → k = 0
  swap
  · obtain ⟨short, begun⟩ := Classical.not_imp.1 whole
    rw [disabled_erasing (Nat.pos_of_ne_zero begun) short]
    simp only [Bool.false_eq_true, whole, false_and]
  rw [taken whole]
  obtain ⟨low, high⟩ := @Config.magic_taken cfg (contents cfg m k) (written cfg k)
  unfold Config.eeconfigIsEnabled
  rw [Bool.and_eq_true, decide_eq_true_iff, low, high, and_assoc]
  refine Iff.trans ?_ (and_iff_right whole).symm
  refine and_congr_right fun _ => and_congr_right fun _ => ?_
  split
  next none =>
    rw [none]
    exact iff_of_true rfl fun v mem => nomatch mem
  next v used =>
    rw [Config.via_taken used, used]
    simp only [Option.mem_some_iff, forall_eq']

/-- Unless the cut is in the part for VIA, the settings have their defaults after it exactly if what is left has them already. -/
theorem settled_iff (outside : written cfg k ≤ cfg.coreSettings.length ∨
      cfg.coreSettings.length + cfg.viaPart.length ≤ written cfg k) :
    Settled cfg m k ↔ ∀ a ∈ cells cfg.settings, store (contents cfg m k) (cfg.settings.take (written cfg k)) a = cfg.defaults a := by
  have parts : cfg.settings = cfg.settings.take (written cfg k) ++ cfg.settings.drop (written cfg k) :=
    (List.take_append_drop _ _).symm
  have twice : ∀ {a}, a ∈ cells (cfg.settings.take (written cfg k)) → a ∈ cells (cfg.settings.drop (written cfg k)) →
      store (contents cfg m k) (cfg.settings.take (written cfg k)) a = 0 := by
    intro a done later
    obtain ⟨w', mem', rfl⟩ := mem_cells.1 later
    exact store_const done fun w mem same => Config.zero_between outside mem mem' same
  constructor
  · intro settled a mem
    by_cases later : a ∈ cells (cfg.settings.drop (written cfg k))
    · have known := settled a later
      split at known
      next done => rw [twice done later, known]
      next fresh => rw [store_of_not_mem fresh, known]
    · have done : a ∈ cells (cfg.settings.take (written cfg k)) := by
        rw [parts, cells_append] at mem
        exact (List.mem_append.1 mem).resolve_right later
      unfold Config.defaults
      rw [parts, store_append, store_of_not_mem later, ← parts]
      exact store_of_mem done
  · intro all a later
    have same := all a (by
      rw [parts, cells_append]
      exact List.mem_append_right _ later)
    split
    next done => rw [← same, twice done later]
    next fresh => rw [← same, store_of_not_mem fresh]

/-- An interrupted reset is redone, or complete, exactly after a cut at which a marker is invalid or what is left to write has its
default already. -/
theorem redone_iff (cfg : Config) (m : Nat → BitVec 8) (k : Nat) : Redone cfg m k ↔ ¬ Exposed cfg m k ∨ Settled cfg m k := by
  unfold Redone
  by_cases exposed : Exposed cfg m k
  · have enabled := (enabled_iff_exposed cfg m k).2 exposed
    have outside : written cfg k ≤ cfg.coreSettings.length ∨ cfg.coreSettings.length + cfg.viaPart.length ≤ written cfg k := by
      cases used : cfg.via with
      | none =>
        have none : cfg.viaPart = [] := by
          unfold Config.viaPart
          rw [used]
        rw [none]
        exact Nat.le_total _ _
      | some v => exact (exposed.2.2.2 v used).imp And.left id
    rw [enabled, settled_iff outside, ← taken exposed.1]
    simp only [Bool.true_eq_false, false_or, exposed, not_true_eq_false]
  · have disabled : cfg.eeconfigIsEnabled (store m (cfg.eeconfigInit.take k)) = false := by
      rw [Bool.eq_false_iff]
      exact fun enabled => exposed ((enabled_iff_exposed cfg m k).1 enabled)
    exact iff_of_true (Or.inl disabled) (Or.inl exposed)

/-- With VIA, only the data of the keyboard and the user are written without protection once its marker has been erased. -/
theorem redone_before_valid {v : Via} (used : cfg.via = some v) (gone : cfg.viaEepromIsValid v (store m cfg.erasing) = false)
    (begun : 0 < k) (before : k < cfg.erasing.length + cfg.coreSettings.length + cfg.viaPart.length) : Redone cfg m k := by
  apply (redone_iff cfg m k).2
  apply Or.inl
  intro exposed
  have late : ¬ k < cfg.erasing.length := fun early => Nat.ne_of_gt begun (exposed.1 early)
  have marker := exposed.2.2.2 v used
  unfold contents written at marker
  rw [if_neg late, gone] at marker
  rcases marker with ⟨-, valid⟩ | after
  · exact Bool.false_ne_true valid
  · omega

end Cut

/-! ## Resets that are not redone -/

/-- No VIA, no driver and no data blocks -/
def plain : Config := ⟨none, none, 0, 0, 0, 0, none⟩

/-- VIA with one layer of one key, built on 2024-05-17 -/
def oneKey : Via where
  buildDate i := [0x32, 0x30, 0x32, 0x34, 0x2D, 0x30, 0x35, 0x2D, 0x31, 0x37].getD i 0
  digits := by decide
  layoutOptionsSize := 1
  layoutOptionsDefault := 0
  customConfigSize := 0
  layerCount := 1
  matrixRows := 1
  matrixCols := 1
  keymapLayerCount := 1
  keymap _ _ _ := 0x29
  encoderMap := none
  macroEepromSize := 1

/-- VIA on a flash, whose erased bytes are 0xFF -/
def onFlash : Config := { plain with driver := some ⟨48, 0xFF, by decide⟩, via := some oneKey }

/-- The power fails after the magic number on a blank EEPROM; after it while a keyboard with VIA is reset; and after the marker of
VIA has become valid, before the data of the keyboard are written. -/
theorem reset_not_redone :
    ¬ Redone plain (fun _ => 0xFF) 2 ∧
      ¬ Redone { plain with via := some oneKey }
        (fun a => if a = 0 then 0xE7 else if a = 1 then 0xFE else if a = 34 then 0x24 else if a = 35 then 0x05
          else if a = 36 then 0x17 else 0x01) 2 ∧
      ¬ Redone onFlash (fun _ => 0) (48 + 28 + 13) := by
  decide +kernel

end QmkFirmware.Eeconfig
