import Mathlib

/-!
# The keyboard report

`report_keyboard_t` is a union: the six keys of the 6KRO report are bytes of the bitmap of
the NKRO report. The functions of `report.c` (without the ring buffer) on these bytes, and
what it means that a report holds some keys in either mode.
-/

namespace QmkFirmware.Report

/-- `KEYBOARD_REPORT_BITS`, and the byte of the bitmap that is `keys[0]`. Every basic keycode has a bit. -/
structure Layout where
  bits : Nat
  offset : Nat
  basic : 21 ≤ bits
  bits_le : bits ≤ 32
  fits : offset + 6 ≤ bits

/-- The bytes of the bitmap -/
abbrev Bytes := Nat → BitVec 8

/-- `IS_BASIC_KEYCODE` -/
def isBasicKeycode (code : BitVec 8) : Bool := 0x04 ≤ code.toNat && code.toNat ≤ 0xA4

section Code

variable (l : Layout)

/-- `is_key_pressed`; `nkro` is the mode. -/
def isKeyPressed (nkro : Bool) (r : Bytes) (key : BitVec 8) : Bool :=
  if key = 0 then false
  else if nkro then (if key.toNat / 8 < l.bits then (r (key.toNat / 8)).getLsbD (key.toNat % 8) else false)
  else decide (∃ i : Fin 6, r (l.offset + i) = key)

/-- `add_key_byte` -/
def addKeyByte (code : BitVec 8) (r : Bytes) : Bytes :=
  if ∃ i : Fin 6, r (l.offset + i) = code then r
  else match (List.finRange 6).find? fun i : Fin 6 => r (l.offset + i) == 0 with
    | some empty => Function.update r (l.offset + empty) code
    | none => r

/-- `del_key_byte` -/
def delKeyByte (code : BitVec 8) (r : Bytes) : Bytes :=
  fun j => if l.offset ≤ j ∧ j < l.offset + 6 ∧ r j = code then 0 else r j

/-- `add_key_bit` -/
def addKeyBit (code : BitVec 8) (r : Bytes) : Bytes :=
  if code.toNat / 8 < l.bits then
    Function.update r (code.toNat / 8) (r (code.toNat / 8) ||| 1#8 <<< (code.toNat % 8))
  else r

/-- `del_key_bit` -/
def delKeyBit (code : BitVec 8) (r : Bytes) : Bytes :=
  if code.toNat / 8 < l.bits then
    Function.update r (code.toNat / 8) (r (code.toNat / 8) &&& ~~~(1#8 <<< (code.toNat % 8)))
  else r

/-- `add_key_to_report` -/
def addKeyToReport (nkro : Bool) (key : BitVec 8) (r : Bytes) : Bytes :=
  if nkro then addKeyBit l key r else addKeyByte l key r

/-- `del_key_from_report` -/
def delKeyFromReport (nkro : Bool) (key : BitVec 8) (r : Bytes) : Bytes :=
  if nkro then delKeyBit l key r else delKeyByte l key r

/-- `clear_keys_from_report` -/
def clearKeysFromReport (nkro : Bool) (r : Bytes) : Bytes :=
  fun j => if (if nkro then j < l.bits else l.offset ≤ j ∧ j < l.offset + 6) then 0 else r j

/-- What `register_code` does to the keys: a key that is pressed already is pressed anew. -/
def registerCode (nkro : Bool) (code : BitVec 8) (r : Bytes) : Bytes :=
  if isBasicKeycode code then
    addKeyToReport l nkro code (if isKeyPressed l nkro r code then delKeyFromReport l nkro code r else r)
  else r

/-- What `unregister_code` does to the keys -/
def unregisterCode (nkro : Bool) (code : BitVec 8) (r : Bytes) : Bytes :=
  if isBasicKeycode code then delKeyFromReport l nkro code r else r

end Code

/-! ## What a report holds -/

variable {l : Layout} {r : Bytes} {held : Finset (BitVec 8)} {code : BitVec 8}

/-- Nothing is set. -/
def Blank (l : Layout) (r : Bytes) : Prop := ∀ j < l.bits, r j = 0

/-- The bitmap has a bit for each key. -/
def BitsHold (l : Layout) (r : Bytes) (held : Finset (BitVec 8)) : Prop :=
  ∀ code : BitVec 8, code.toNat / 8 < l.bits → (r (code.toNat / 8)).getLsbD (code.toNat % 8) = decide (code ∈ held)

/-- Each key is in one of the six places, and the rest of the bitmap is zero. -/
structure KeysHold (l : Layout) (r : Bytes) (held : Finset (BitVec 8)) : Prop where
  rest : ∀ j < l.bits, j < l.offset ∨ l.offset + 6 ≤ j → r j = 0
  once : ∀ i j : Fin 6, r (l.offset + i) = r (l.offset + j) → r (l.offset + i) ≠ 0 → i = j
  mem : ∀ code, code ∈ held ↔ code ≠ 0 ∧ ∃ i : Fin 6, r (l.offset + i) = code

/-- The report holds the keys in the mode. -/
def Holds (l : Layout) (nkro : Bool) (r : Bytes) (held : Finset (BitVec 8)) : Prop :=
  if nkro then BitsHold l r held else KeysHold l r held

theorem bit_eq_iff {x y : BitVec 8} : x.toNat / 8 = y.toNat / 8 ∧ x.toNat % 8 = y.toNat % 8 ↔ x = y := by
  constructor
  · rintro ⟨byte, bit⟩
    apply BitVec.eq_of_toNat_eq
    omega
  · rintro rfl
    exact ⟨rfl, rfl⟩

theorem getLsbD_one_shiftLeft {k m : Nat} (hm : m < 8) : (1#8 <<< k).getLsbD m = decide (m = k) := by
  rw [BitVec.getLsbD_shiftLeft, BitVec.getLsbD_one]
  simp only [hm, decide_true, Bool.true_and]
  rw [Bool.eq_iff_iff]
  simp only [Bool.and_eq_true, Bool.not_eq_true', decide_eq_false_iff_not, decide_eq_true_eq]
  omega

theorem BitsHold.blank (h : BitsHold l r ∅) : Blank l r := by
  intro j hj
  apply BitVec.eq_of_getLsbD_eq
  intro k hk
  have small := l.bits_le
  have code : (BitVec.ofNat 8 (8 * j + k)).toNat = 8 * j + k := by
    rw [BitVec.toNat_ofNat]
    omega
  have bit := h (BitVec.ofNat 8 (8 * j + k)) (by omega)
  rw [code, show (8 * j + k) / 8 = j by omega, show (8 * j + k) % 8 = k by omega] at bit
  rw [bit]
  simp

theorem KeysHold.blank (h : KeysHold l r ∅) : Blank l r := by
  intro j hj
  by_cases key : l.offset ≤ j ∧ j < l.offset + 6
  · by_contra set
    have mem := (h.mem (r j)).mpr ⟨set, ⟨j - l.offset, by omega⟩, congrArg r (by dsimp only; omega)⟩
    exact absurd mem (Finset.notMem_empty _)
  · exact h.rest j hj (by omega)

theorem Blank.bitsHold (h : Blank l r) : BitsHold l r ∅ := by
  intro code byte
  rw [h _ byte]
  simp

theorem Blank.keysHold (h : Blank l r) : KeysHold l r ∅ := by
  have fits := l.fits
  constructor
  · exact fun j hj _ => h j hj
  · exact fun i j _ set => absurd (h _ (by omega)) set
  · intro code
    constructor
    · exact fun mem => absurd mem (Finset.notMem_empty _)
    · rintro ⟨ne, i, eq⟩
      exact absurd (eq.symm.trans (h _ (by omega))) ne

/-- A blank report is one that holds no keys, in either mode. -/
theorem holds_empty_iff {nkro : Bool} : Holds l nkro r ∅ ↔ Blank l r := by
  cases nkro with
  | true => exact ⟨BitsHold.blank, Blank.bitsHold⟩
  | false => exact ⟨KeysHold.blank, Blank.keysHold⟩

/-- What a report holds is what `is_key_pressed` says, for keys other than 0. -/
theorem Holds.isKeyPressed {nkro : Bool} (h : Holds l nkro r held) (ne : code ≠ 0) (basic : code.toNat / 8 < l.bits) :
    isKeyPressed l nkro r code = decide (code ∈ held) := by
  unfold Report.isKeyPressed
  rw [if_neg ne]
  cases nkro with
  | true =>
    rw [if_pos rfl, if_pos basic]
    exact h code basic
  | false =>
    rw [if_neg Bool.false_ne_true]
    apply decide_eq_decide.mpr
    rw [KeysHold.mem h code]
    exact (and_iff_right ne).symm

/-! ## The functions -/

theorem BitsHold.add (h : BitsHold l r held) (inside : code.toNat / 8 < l.bits) :
    BitsHold l (addKeyBit l code r) (insert code held) := by
  intro other byte
  unfold addKeyBit
  rw [if_pos inside]
  by_cases same : other.toNat / 8 = code.toNat / 8
  · have old := h other byte
    rw [same] at old
    rw [same, Function.update_self, BitVec.getLsbD_or, old, getLsbD_one_shiftLeft (by omega)]
    have iff : other.toNat % 8 = code.toNat % 8 ↔ other = code := (and_iff_right same).symm.trans bit_eq_iff
    simp only [iff, Finset.mem_insert, Bool.decide_or]
    exact Bool.or_comm _ _
  · have ne : other ≠ code := fun eq => same (by rw [eq])
    rw [Function.update_of_ne same, h other byte]
    simp [ne]

theorem BitsHold.del (h : BitsHold l r held) : BitsHold l (delKeyBit l code r) (held.erase code) := by
  intro other byte
  unfold delKeyBit
  by_cases inside : code.toNat / 8 < l.bits
  · rw [if_pos inside]
    by_cases same : other.toNat / 8 = code.toNat / 8
    · have old := h other byte
      rw [same] at old
      have small : other.toNat % 8 < 8 := by omega
      rw [same, Function.update_self, BitVec.getLsbD_and, BitVec.getLsbD_not, old, getLsbD_one_shiftLeft small]
      have iff : other.toNat % 8 = code.toNat % 8 ↔ other = code := (and_iff_right same).symm.trans bit_eq_iff
      simp [iff, small, Finset.mem_erase, Bool.and_comm]
    · have ne : other ≠ code := fun eq => same (by rw [eq])
      rw [Function.update_of_ne same, h other byte]
      simp [ne]
  · have ne : other ≠ code := fun eq => inside (eq ▸ byte)
    rw [if_neg inside, h other byte]
    simp [ne]

/-- The keys held are the places that are not zero. -/
theorem KeysHold.held_eq (h : KeysHold l r held) :
    held = ((Finset.univ : Finset (Fin 6)).filter fun i : Fin 6 => r (l.offset + i) ≠ 0).image fun i : Fin 6 => r (l.offset + i) := by
  ext code
  rw [h.mem, Finset.mem_image]
  constructor
  · rintro ⟨ne, i, rfl⟩
    exact ⟨i, Finset.mem_filter.mpr ⟨Finset.mem_univ _, ne⟩, rfl⟩
  · rintro ⟨i, mem, rfl⟩
    exact ⟨(Finset.mem_filter.mp mem).2, i, rfl⟩

/-- A place is free if and only if fewer than six keys are held. -/
theorem KeysHold.room_iff (h : KeysHold l r held) : (∃ i : Fin 6, r (l.offset + i) = 0) ↔ held.card < 6 := by
  have card : held.card = ((Finset.univ : Finset (Fin 6)).filter fun i : Fin 6 => r (l.offset + i) ≠ 0).card := by
    conv_lhs => rw [h.held_eq]
    apply Finset.card_image_of_injOn
    intro i mem j _ eq
    exact h.once i j eq (Finset.mem_filter.mp mem).2
  rw [card]
  constructor
  · rintro ⟨i, zero⟩
    have proper : ((Finset.univ : Finset (Fin 6)).filter fun i : Fin 6 => r (l.offset + i) ≠ 0) ⊂ Finset.univ := by
      apply Finset.filter_ssubset.mpr
      exact ⟨i, Finset.mem_univ _, not_not.mpr zero⟩
    exact (Finset.card_lt_card proper).trans_eq (by rw [Finset.card_univ, Fintype.card_fin])
  · intro few
    by_contra full
    push Not at full
    rw [Finset.filter_true_of_mem fun i _ => full i, Finset.card_univ, Fintype.card_fin] at few
    exact absurd few (lt_irrefl _)

theorem KeysHold.add (h : KeysHold l r held) (ne : code ≠ 0) :
    KeysHold l (addKeyByte l code r) (if code ∈ held ∨ held.card < 6 then insert code held else held) := by
  unfold addKeyByte
  by_cases there : ∃ i : Fin 6, r (l.offset + i) = code
  · have mem : code ∈ held := (h.mem code).mpr ⟨ne, there⟩
    rw [if_pos there, if_pos (.inl mem), Finset.insert_eq_of_mem mem]
    exact h
  · have new : code ∉ held := fun mem => there ((h.mem code).mp mem).2
    rw [if_neg there]
    cases found : (List.finRange 6).find? fun i : Fin 6 => r (l.offset + i) == 0 with
    | none =>
      have full : ¬ held.card < 6 := by
        rw [← h.room_iff]
        rintro ⟨i, zero⟩
        exact List.find?_eq_none.mp found i (List.mem_finRange i) (by simpa using zero)
      rw [if_neg (not_or.mpr ⟨new, full⟩)]
      exact h
    | some empty =>
      have zero : r (l.offset + empty) = 0 := by simpa using List.find?_some found
      rw [if_pos (.inr (h.room_iff.mp ⟨empty, zero⟩))]
      have place : ∀ i : Fin 6, Function.update r (l.offset + empty) code (l.offset + i) =
          if i = empty then code else r (l.offset + i) := by
        intro i
        by_cases here : i = empty
        · rw [here, Function.update_self, if_pos rfl]
        · rw [Function.update_of_ne (by omega), if_neg here]
      constructor
      · intro j hj out
        dsimp only
        rw [Function.update_of_ne (by omega)]
        exact h.rest j hj out
      · intro i j
        dsimp only
        rw [place, place]
        by_cases hi : i = empty
        · by_cases hj : j = empty
          · exact fun _ _ => hi.trans hj.symm
          · rw [if_pos hi, if_neg hj]
            exact fun eq _ => absurd ⟨j, eq.symm⟩ there
        · by_cases hj : j = empty
          · rw [if_neg hi, if_pos hj]
            exact fun eq _ => absurd ⟨i, eq⟩ there
          · rw [if_neg hi, if_neg hj]
            exact h.once i j
      · intro other
        dsimp only
        simp only [place]
        rw [Finset.mem_insert, h.mem]
        constructor
        · rintro (rfl | ⟨set, i, rfl⟩)
          · exact ⟨ne, empty, if_pos rfl⟩
          · refine ⟨set, i, if_neg ?_⟩
            rintro rfl
            exact set zero
        · rintro ⟨set, i, eq⟩
          split at eq
          · exact .inl eq.symm
          · exact .inr ⟨set, i, eq⟩

theorem KeysHold.del (h : KeysHold l r held) : KeysHold l (delKeyByte l code r) (held.erase code) := by
  have place : ∀ i : Fin 6, delKeyByte l code r (l.offset + i) = if r (l.offset + i) = code then 0 else r (l.offset + i) := by
    intro i
    unfold delKeyByte
    congr 1
    rw [eq_iff_iff]
    exact ⟨fun h => h.2.2, fun h => ⟨by omega, by omega, h⟩⟩
  constructor
  · intro j hj out
    unfold delKeyByte
    rw [if_neg (by omega)]
    exact h.rest j hj out
  · intro i j
    rw [place, place]
    split
    · exact fun _ set => absurd rfl set
    · split
      · exact fun zero set => absurd zero set
      · exact h.once i j
  · intro other
    simp only [place]
    rw [Finset.mem_erase, h.mem]
    constructor
    · rintro ⟨different, ne, i, rfl⟩
      exact ⟨ne, i, if_neg different⟩
    · rintro ⟨ne, i, eq⟩
      split at eq
      · exact absurd eq.symm ne
      next different => exact ⟨eq ▸ different, ne, i, eq⟩

/-- Clearing in the mode of the report leaves nothing. -/
theorem Holds.clear {nkro : Bool} (h : Holds l nkro r held) : Blank l (clearKeysFromReport l nkro r) := by
  intro j hj
  unfold clearKeysFromReport
  cases nkro with
  | true => exact if_pos hj
  | false =>
    by_cases key : l.offset ≤ j ∧ j < l.offset + 6
    · exact if_pos key
    · exact (if_neg key).trans (KeysHold.rest h j hj (by omega))

/-- Clearing the bitmap leaves nothing, whatever was there. -/
theorem blank_clear : Blank l (clearKeysFromReport l true r) := fun _ hj => if_pos hj

theorem Blank.clear {nkro : Bool} (h : Blank l r) : Blank l (clearKeysFromReport l nkro r) := by
  intro j hj
  unfold clearKeysFromReport
  split_ifs <;> first | rfl | exact h j hj

/-- Clearing in both modes leaves nothing, and so does clearing twice in the mode of the report. -/
theorem Holds.clear_clear {nkro first : Bool} (h : Holds l nkro r held) :
    Blank l (clearKeysFromReport l nkro (clearKeysFromReport l first r)) := by
  cases nkro with
  | true => exact blank_clear
  | false =>
    cases first with
    | true => exact blank_clear.clear
    | false => exact h.clear.clear

/-- The keys held after `register_code`: in the 6KRO mode a seventh one is not taken. -/
def registered (nkro : Bool) (code : BitVec 8) (held : Finset (BitVec 8)) : Finset (BitVec 8) :=
  if isBasicKeycode code && (nkro || decide (code ∈ held ∨ held.card < 6)) then insert code held else held

/-- The keys held after `unregister_code` -/
def unregistered (code : BitVec 8) (held : Finset (BitVec 8)) : Finset (BitVec 8) :=
  if isBasicKeycode code then held.erase code else held

theorem basic_bounds (basic : isBasicKeycode code = true) : code ≠ 0 ∧ code.toNat / 8 < l.bits := by
  have enough := l.basic
  unfold isBasicKeycode at basic
  simp only [Bool.and_eq_true, decide_eq_true_eq] at basic
  constructor
  · rintro rfl
    exact absurd basic.1 (by decide)
  · omega

theorem Holds.unregister {nkro : Bool} (h : Holds l nkro r held) :
    Holds l nkro (unregisterCode l nkro code r) (unregistered code held) := by
  unfold unregisterCode unregistered delKeyFromReport
  split
  next basic =>
    cases nkro with
    | true => exact BitsHold.del h
    | false => exact KeysHold.del h
  next => exact h

theorem Holds.register {nkro : Bool} (h : Holds l nkro r held) :
    Holds l nkro (registerCode l nkro code r) (registered nkro code held) := by
  unfold registerCode registered
  by_cases basic : isBasicKeycode code = true
  · obtain ⟨ne, inside⟩ := @basic_bounds l code basic
    rw [if_pos basic, basic, Bool.true_and, h.isKeyPressed ne inside]
    unfold addKeyToReport delKeyFromReport
    cases nkro with
    | true =>
      simp only [Bool.true_or, if_true, decide_eq_true_eq]
      split
      next mem =>
        have anew := (@BitsHold.del l r held code h).add inside
        rw [Finset.insert_erase mem] at anew
        rw [Finset.insert_eq_of_mem mem]
        exact anew
      next => exact BitsHold.add h inside
    | false =>
      simp only [Bool.false_or, Bool.false_eq_true, if_false, decide_eq_true_eq]
      split
      next mem =>
        have room : (held.erase code).card < 6 := by
          have few : held.card ≤ 6 := by
            rw [KeysHold.held_eq h]
            exact (Finset.card_image_le.trans (Finset.card_filter_le _ _)).trans_eq (by rw [Finset.card_univ, Fintype.card_fin])
          have less := Finset.card_erase_lt_of_mem mem
          omega
        have anew := (@KeysHold.del l r held code h).add ne
        rw [if_pos (.inr room), Finset.insert_erase mem] at anew
        rw [if_pos (.inl mem), Finset.insert_eq_of_mem mem]
        exact anew
      next => exact KeysHold.add h ne
  · rw [if_neg basic, eq_false_of_ne_true basic, Bool.false_and, if_neg Bool.false_ne_true]
    exact h

/-- Only basic keycodes are held. -/
theorem registered_basic {nkro : Bool} {other : BitVec 8} (h : ∀ c ∈ held, isBasicKeycode c = true)
    (mem : other ∈ registered nkro code held) : isBasicKeycode other = true := by
  unfold registered at mem
  split at mem
  next took =>
    obtain rfl | old := Finset.mem_insert.mp mem
    · exact (Bool.and_eq_true_iff.mp took).1
    · exact h other old
  next => exact h other mem

end QmkFirmware.Report
