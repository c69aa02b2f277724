import Mathlib

/-!
# Strings of code points

`decode_utf8` of `utf8.c` and the two loops that call it, `send_unicode_string` and
`qp_iterate_code_points`. A pointer is a place in a memory of bytes (`char` is unsigned); the
places that are decoded at and those that are read are noted.
-/

namespace QmkFirmware.Unicode

/-- What `decode_utf8` returns and writes, and where it has read. -/
structure Decoded where
  next : Nat
  codePoint : Int
  read : List Nat

/-- The branches of `decode_utf8`, on the bytes at `str`, of which a branch reads those it uses. -/
def decodeSequence (str b₀ b₁ b₂ b₃ : Nat) : Decoded :=
  if b₀ < 0x80 then -- U+0000-007F
    ⟨str + 1, b₀, [str]⟩
  else if b₀ &&& 0xE0 = 0xC0 then -- U+0080-07FF
    ⟨str + 2, ((b₀ &&& 0x1F) <<< 6 ||| (b₁ &&& 0x3F) : Nat), [str, str + 1]⟩
  else if b₀ &&& 0xF0 = 0xE0 then -- U+0800-FFFF
    ⟨str + 3, ((b₀ &&& 0x0F) <<< 12 ||| (b₁ &&& 0x3F) <<< 6 ||| (b₂ &&& 0x3F) : Nat), [str, str + 1, str + 2]⟩
  else if b₀ &&& 0xF8 = 0xF0 ∧ b₀ ≤ 0xF4 then -- U+10000-10FFFF
    ⟨str + 4, ((b₀ &&& 0x07) <<< 18 ||| (b₁ &&& 0x3F) <<< 12 ||| (b₂ &&& 0x3F) <<< 6 ||| (b₃ &&& 0x3F) : Nat),
      [str, str + 1, str + 2, str + 3]⟩
  else ⟨str + 1, -1, [str]⟩

/-- `decode_utf8` -/
def decodeUtf8 (mem : Nat → UInt8) (str : Nat) : Decoded :=
  let decoded := decodeSequence str (mem str).toNat (mem (str + 1)).toNat (mem (str + 2)).toNat (mem (str + 3)).toNat
  -- part of a UTF-16 surrogate pair - invalid
  if 0xD800 ≤ decoded.codePoint ∧ decoded.codePoint ≤ 0xDFFF then { decoded with codePoint := -1 } else decoded

/-- The calls of `register_unicode`, where `decode_utf8` was called, and where it has read. -/
structure Scan where
  registered : List Nat
  given : List Nat
  read : List Nat

/-- `send_unicode_string` on a string that is not `NULL`, for less than `fuel` code points. -/
def sendUnicodeString (mem : Nat → UInt8) : Nat → Nat → Option Scan
  | 0, _ => none
  | fuel + 1, str =>
    if mem str = 0 then some ⟨[], [], []⟩
    else
      let decoded := decodeUtf8 mem str
      (sendUnicodeString mem fuel decoded.next).map fun rest =>
        ⟨if 0 ≤ decoded.codePoint then decoded.codePoint.toNat :: rest.registered else rest.registered,
          str :: rest.given, decoded.read ++ rest.read⟩

/-- `qp_iterate_code_points`, given what preparing a glyph and its handler come to (none where one
of them fails); its result and where it has decoded and read. -/
def qpIterateCodePoints {σ : Type} (handler : σ → Nat → Option σ) (mem : Nat → UInt8) :
    Nat → Nat → σ → Option (Bool × List Nat × List Nat)
  | 0, _, _ => none
  | fuel + 1, str, s =>
    if mem str = 0 then some (true, [], [])
    else
      let decoded := decodeUtf8 mem str
      if decoded.codePoint < 0 then some (false, [str], decoded.read)
      else
        match handler s decoded.codePoint.toNat with
        | none => some (false, [str], decoded.read)
        | some s =>
          (qpIterateCodePoints handler mem fuel decoded.next s).map fun (ret, given, read) =>
            (ret, str :: given, decoded.read ++ read)

/-- The bytes from a place on are those of the list. -/
def Holds (mem : Nat → UInt8) (str : Nat) : List UInt8 → Prop
  | [] => True
  | b :: rest => mem str = b ∧ Holds mem (str + 1) rest

theorem Holds.append {mem : Nat → UInt8} {str : Nat} {l r : List UInt8} :
    Holds mem str (l ++ r) ↔ Holds mem str l ∧ Holds mem (str + l.length) r := by
  induction l generalizing str with
  | nil => simp [Holds]
  | cons b l ih =>
    simp only [List.cons_append, Holds, ih, List.length_cons, and_assoc, Nat.add_right_comm str 1, ← Nat.add_assoc]

/-! ## The decoder in arithmetic -/

/-- How many bytes the first byte announces. -/
def announced (b : UInt8) : Nat :=
  if b.toNat < 0x80 then 1
  else if b.toNat &&& 0xE0 = 0xC0 then 2
  else if b.toNat &&& 0xF0 = 0xE0 then 3
  else if b.toNat &&& 0xF8 = 0xF0 ∧ b.toNat ≤ 0xF4 then 4
  else 1

variable {mem : Nat → UInt8} {str : Nat}

theorem decodeSequence_next (b : UInt8) (b₁ b₂ b₃ : Nat) :
    (decodeSequence str b.toNat b₁ b₂ b₃).next = str + announced b ∧
      (decodeSequence str b.toNat b₁ b₂ b₃).read = (List.range (announced b)).map (str + ·) := by
  rw [decodeSequence, announced]
  split
  · exact ⟨rfl, rfl⟩
  · split
    · exact ⟨rfl, rfl⟩
    · split
      · exact ⟨rfl, rfl⟩
      · split
        · exact ⟨rfl, rfl⟩
        · exact ⟨rfl, rfl⟩

/-- The decoder goes on behind what is announced, and reads all of that. -/
theorem decodeUtf8_next : (decodeUtf8 mem str).next = str + announced (mem str) ∧
    (decodeUtf8 mem str).read = (List.range (announced (mem str))).map (str + ·) := by
  rw [decodeUtf8]
  split
  · exact decodeSequence_next _ _ _ _
  · exact decodeSequence_next _ _ _ _

theorem announced_pos (b : UInt8) : 0 < announced b := by
  rw [announced]
  split_ifs <;> decide

theorem and_e0 {a : Nat} (h : a < 256) : a &&& 0xE0 = a / 32 * 32 := by
  have : ∀ a : Fin 256, a.val &&& 0xE0 = a.val / 32 * 32 := by decide +kernel
  exact this ⟨a, h⟩

theorem and_f0 {a : Nat} (h : a < 256) : a &&& 0xF0 = a / 16 * 16 := by
  have : ∀ a : Fin 256, a.val &&& 0xF0 = a.val / 16 * 16 := by decide +kernel
  exact this ⟨a, h⟩

theorem and_f8 {a : Nat} (h : a < 256) : a &&& 0xF8 = a / 8 * 8 := by
  have : ∀ a : Fin 256, a.val &&& 0xF8 = a.val / 8 * 8 := by decide +kernel
  exact this ⟨a, h⟩

/-- Bits put together are digits in a base that is a power of two. -/
theorem shift_or {a b k : Nat} (h : b < 2 ^ k) : a <<< k ||| b = a * 2 ^ k + b := by
  rw [← Nat.shiftLeft_add_eq_or_of_lt h, Nat.shiftLeft_eq]

/-! ## What the encoder wrote -/

theorem ofNat_toNat {n : Nat} (h : n < 256) : (UInt8.ofNat n).toNat = n := by
  rw [UInt8.toNat_ofNat']
  exact Nat.mod_eq_of_lt h

section
variable {v b₀ b₁ b₂ b₃ : Nat}

theorem decodeSequence_one (h : v < 0x80) : decodeSequence str v b₁ b₂ b₃ = ⟨str + 1, v, [str]⟩ := if_pos h

theorem decodeSequence_two (h : v < 0x800) :
    decodeSequence str (v / 64 % 32 + 0xC0) (v % 64 + 0x80) b₂ b₃ = ⟨str + 2, v, [str, str + 1]⟩ := by
  have lead : (v / 64 % 32 + 0xC0) &&& 0x1F = v / 64 := by
    rw [Nat.and_two_pow_sub_one_eq_mod _ 5]
    omega
  have tail : (v % 64 + 0x80) &&& 0x3F = v % 64 := by
    rw [Nat.and_two_pow_sub_one_eq_mod _ 6]
    omega
  have value : (v / 64) <<< 6 ||| v % 64 = v := by
    rw [shift_or (show v % 64 < 2 ^ 6 by omega)]
    omega
  rw [decodeSequence, if_neg (by omega), if_pos (by rw [and_e0 (by omega)]; omega), lead, tail, value]

theorem decodeSequence_three (h : v < 0x10000) :
    decodeSequence str (v / 4096 % 16 + 0xE0) (v / 64 % 64 + 0x80) (v % 64 + 0x80) b₃ =
      ⟨str + 3, v, [str, str + 1, str + 2]⟩ := by
  have lead : (v / 4096 % 16 + 0xE0) &&& 0x0F = v / 4096 := by
    rw [Nat.and_two_pow_sub_one_eq_mod _ 4]
    omega
  have tail (n : Nat) : (n % 64 + 0x80) &&& 0x3F = n % 64 := by
    rw [Nat.and_two_pow_sub_one_eq_mod _ 6]
    omega
  have value : (v / 4096) <<< 12 ||| (v / 64 % 64) <<< 6 ||| v % 64 = v := by
    rw [Nat.or_assoc, shift_or (show v % 64 < 2 ^ 6 by omega), shift_or (show v / 64 % 64 * 2 ^ 6 + v % 64 < 2 ^ 12 by omega)]
    omega
  rw [decodeSequence, if_neg (by omega), if_neg (by rw [and_e0 (by omega)]; omega),
    if_pos (by rw [and_f0 (by omega)]; omega), lead, tail, tail, value]

theorem decodeSequence_four (h : v < 0x110000) :
    decodeSequence str (v / 262144 % 8 + 0xF0) (v / 4096 % 64 + 0x80) (v / 64 % 64 + 0x80) (v % 64 + 0x80) =
      ⟨str + 4, v, [str, str + 1, str + 2, str + 3]⟩ := by
  have lead : (v / 262144 % 8 + 0xF0) &&& 0x07 = v / 262144 := by
    rw [Nat.and_two_pow_sub_one_eq_mod _ 3]
    omega
  have tail (n : Nat) : (n % 64 + 0x80) &&& 0x3F = n % 64 := by
    rw [Nat.and_two_pow_sub_one_eq_mod _ 6]
    omega
  have value : (v / 262144) <<< 18 ||| (v / 4096 % 64) <<< 12 ||| (v / 64 % 64) <<< 6 ||| v % 64 = v := by
    rw [Nat.or_assoc, shift_or (show v % 64 < 2 ^ 6 by omega), Nat.or_assoc,
      shift_or (show v / 64 % 64 * 2 ^ 6 + v % 64 < 2 ^ 12 by omega),
      shift_or (show v / 4096 % 64 * 2 ^ 12 + (v / 64 % 64 * 2 ^ 6 + v % 64) < 2 ^ 18 by omega)]
    omega
  rw [decodeSequence, if_neg (by omega), if_neg (by rw [and_e0 (by omega)]; omega),
    if_neg (by rw [and_f0 (by omega)]; omega), if_pos (by rw [and_f8 (by omega)]; omega), lead, tail, tail, tail, value]

end

/-- The decoder reads back the encoding of one code point, and stops behind it. -/
theorem decodeUtf8_encode {c : Char} (held : Holds mem str (String.utf8EncodeChar c)) :
    (decodeUtf8 mem str).codePoint = c.toNat ∧ (decodeUtf8 mem str).next = str + (String.utf8EncodeChar c).length := by
  have valid : c.toNat < 0xD800 ∨ 0xDFFF < c.toNat ∧ c.toNat < 0x110000 := c.valid
  have value : c.val.toNat = c.toNat := rfl
  have decoded : ∃ read, decodeSequence str (mem str).toNat (mem (str + 1)).toNat (mem (str + 2)).toNat
      (mem (str + 3)).toNat = ⟨str + (String.utf8EncodeChar c).length, c.toNat, read⟩ := by
    generalize c.toNat = v at valid value
    simp only [String.utf8EncodeChar, value] at held ⊢
    split at held
    · rename_i one
      rw [if_pos one, held.1, ofNat_toNat (by omega)]
      exact ⟨_, decodeSequence_one (by omega)⟩
    · rename_i more
      rw [if_neg more]
      split at held
      · rename_i two
        rw [if_pos two, held.1, held.2.1, ofNat_toNat (by omega), ofNat_toNat (by omega)]
        exact ⟨_, decodeSequence_two (by omega)⟩
      · rename_i more
        rw [if_neg more]
        split at held
        · rename_i three
          rw [if_pos three, held.1, held.2.1, held.2.2.1, ofNat_toNat (by omega), ofNat_toNat (by omega),
            ofNat_toNat (by omega)]
          exact ⟨_, decodeSequence_three (by omega)⟩
        · rename_i four
          rw [if_neg four, held.1, held.2.1, held.2.2.1, held.2.2.2.1, ofNat_toNat (by omega), ofNat_toNat (by omega),
            ofNat_toNat (by omega), ofNat_toNat (by omega)]
          exact ⟨_, decodeSequence_four (by omega)⟩
  obtain ⟨read, decoded⟩ := decoded
  rw [decodeUtf8, decoded, if_neg (by dsimp only; omega)]
  exact ⟨rfl, rfl⟩

/-- The first byte of an encoding ends no string. -/
theorem encode_head {c : Char} (nonzero : c.toNat ≠ 0) : ∃ b rest, String.utf8EncodeChar c = b :: rest ∧ b ≠ 0 := by
  have value : c.val.toNat ≠ 0 := nonzero
  have lead {n : Nat} (lt : n < 256) (pos : 0 < n) : UInt8.ofNat n ≠ 0 := by
    intro zero
    have := congrArg UInt8.toNat zero
    rw [ofNat_toNat lt] at this
    exact pos.ne' this
  rw [String.utf8EncodeChar]
  split
  · exact ⟨_, _, rfl, lead (by omega) (by omega)⟩
  · split
    · exact ⟨_, _, rfl, lead (by omega) (by omega)⟩
    · split
      · exact ⟨_, _, rfl, lead (by omega) (by omega)⟩
      · exact ⟨_, _, rfl, lead (by omega) (by omega)⟩

/-- Every code point of the encoded text is registered, once and in order. -/
theorem sendUnicodeString_encode (text : List Char) (nonzero : ∀ c ∈ text, c.toNat ≠ 0)
    (held : Holds mem str (text.flatMap String.utf8EncodeChar ++ [0])) (fuel : Nat) (enough : text.length < fuel) :
    ∃ scan, sendUnicodeString mem fuel str = some scan ∧ scan.registered = text.map Char.toNat := by
  induction text generalizing str fuel with
  | nil =>
    obtain ⟨fuel, rfl⟩ := Nat.exists_eq_succ_of_ne_zero (show fuel ≠ 0 by omega)
    have ended : mem str = 0 := held.1
    exact ⟨_, by rw [sendUnicodeString, if_pos ended], rfl⟩
  | cons c text ih =>
    obtain ⟨fuel, rfl⟩ := Nat.exists_eq_succ_of_ne_zero (show fuel ≠ 0 by omega)
    rw [List.flatMap_cons, List.append_assoc, Holds.append] at held
    obtain ⟨here, later⟩ := held
    obtain ⟨value, next⟩ := decodeUtf8_encode here
    obtain ⟨b, rest, bytes, lead⟩ := encode_head (nonzero c List.mem_cons_self)
    have more : mem str ≠ 0 := by
      rw [bytes] at here
      exact here.1 ▸ lead
    rw [← next] at later
    obtain ⟨scan, sent, registered⟩ := ih (fun c mem => nonzero c (List.mem_cons_of_mem _ mem)) later fuel
      (by simpa using enough)
    refine ⟨_, by simp only [sendUnicodeString, if_neg more, sent, Option.map_some]; rfl, ?_⟩
    simp only [value, if_pos (Int.natCast_nonneg _), Int.toNat_natCast, registered, List.map_cons]

end QmkFirmware.Unicode
