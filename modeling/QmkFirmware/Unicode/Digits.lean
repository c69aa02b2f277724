import QmkFirmware.Unicode.Utf8

/-!
# Typing a code point

`register_unicode` of `unicode.c`: what starts the input of a code point in the input mode, the
hexadecimal digits, and what ends it.
-/

namespace QmkFirmware.Unicode

/-- `enum unicode_input_modes` -/
inductive InputMode where
  | macos
  | linux
  | windows
  | bsd
  | wincompose
  | emacs
  deriving DecidableEq

/-- What types a digit: `tap_code` or `send_char` -/
inductive Stroke where
  | tap (keycode : Nat)
  | char (asciiCode : Nat)
  deriving DecidableEq

/-- `KC_KP_1`, before `KC_KP_0` at the end of the ten -/
def kcKp1 : Nat := 0x59

def kcA : Nat := 0x04

/-- `send_nibble` -/
def sendNibble (number : Nat) : Stroke :=
  if number &&& 0xF ≤ 9 then .char (number + 48) else .char (number - 10 + 97)

/-- `send_nibble_wrapper` -/
def sendNibbleWrapper (mode : InputMode) (digit : Nat) : Stroke :=
  if mode = .windows then .tap (if digit < 10 then kcKp1 + (10 + digit - 1) % 10 else kcA + (digit - 10))
  else sendNibble digit

/-- The loop of `register_hex32`, with `i` digits to go -/
def registerHexFrom (mode : InputMode) (hex : Nat) : Nat → Bool → List Stroke
  | 0, _ => []
  | i + 1, firstDigit =>
    let needsLeadingZero := mode = .wincompose
    let digit := (hex >>> (i * 4)) &&& 0xF
    let zero := if firstDigit ∧ needsLeadingZero ∧ 9 < digit then [sendNibbleWrapper mode 0] else []
    -- Always send digits (including zero) if we're down to the last two bytes of nibbles.
    let mustSend := i < 4
    if digit ≠ 0 ∨ ¬ firstDigit ∨ mustSend then
      zero ++ sendNibbleWrapper mode digit :: registerHexFrom mode hex i false
    else zero ++ registerHexFrom mode hex i firstDigit

/-- `register_hex32` -/
def registerHex32 (mode : InputMode) (hex : Nat) : List Stroke := registerHexFrom mode hex 8 true

/-- `unicode_input_start`, a digit and `unicode_input_finish` -/
inductive Typed where
  | inputStart
  | stroke (s : Stroke)
  | inputFinish
  deriving DecidableEq

/-- `register_unicode` -/
def registerUnicode (mode : InputMode) (codePoint : Nat) : List Typed :=
  if 0x10FFFF < codePoint ∨ 0xFFFF < codePoint ∧ mode = .windows then []
  else
    let strokes :=
      if 0xFFFF < codePoint ∧ mode = .macos then
        -- Convert code point to UTF-16 surrogate pair on macOS
        let codePoint := codePoint - 0x10000
        let lo := codePoint &&& 0x3FF
        let hi := (codePoint &&& 0xFFC00) >>> 10
        registerHex32 mode (hi + 0xD800) ++ registerHex32 mode (lo + 0xDC00)
      else registerHex32 mode codePoint
    .inputStart :: strokes.map .stroke ++ [.inputFinish]

/-! ## What digits denote -/

/-- The digit of a key: the keypad and A to F, or a character. -/
def Stroke.digit : Stroke → Option Nat
  | .tap keycode =>
    if kcKp1 ≤ keycode ∧ keycode < kcKp1 + 9 then some (keycode - kcKp1 + 1)
    else if keycode = kcKp1 + 9 then some 0
    else if kcA ≤ keycode ∧ keycode < kcA + 6 then some (keycode - kcA + 10)
    else none
  | .char asciiCode =>
    if 48 ≤ asciiCode ∧ asciiCode < 58 then some (asciiCode - 48)
    else if 97 ≤ asciiCode ∧ asciiCode < 103 then some (asciiCode - 97 + 10)
    else none

/-- The strokes are the digits of one hexadecimal number. -/
def Reads (strokes : List Stroke) (n : Nat) : Prop :=
  ∃ digits : List Nat, strokes.map Stroke.digit = digits.map some ∧ digits ≠ [] ∧ Nat.ofDigits 16 digits.reverse = n

/-- The two UTF-16 surrogates of a code point. -/
def Surrogates (codePoint hi lo : Nat) : Prop :=
  0xD800 ≤ hi ∧ hi < 0xDC00 ∧ 0xDC00 ≤ lo ∧ lo < 0xE000 ∧ codePoint = 0x10000 + (hi - 0xD800) * 0x400 + (lo - 0xDC00)

/-- The digits typed denote the code point: on macOS above U+FFFF as two surrogates of four digits
each, else as one number. -/
def Denotes (mode : InputMode) (codePoint : Nat) (typed : List Typed) : Prop :=
  ∃ strokes, typed = .inputStart :: strokes.map .stroke ++ [.inputFinish] ∧
    if 0xFFFF < codePoint ∧ mode = .macos then
      ∃ hi lo, Surrogates codePoint hi lo ∧ Reads (strokes.take 4) hi ∧ Reads (strokes.drop 4) lo ∧ strokes.length = 8
    else Reads strokes codePoint

theorem sendNibbleWrapper_digit (mode : InputMode) {digit : Nat} (h : digit < 16) :
    (sendNibbleWrapper mode digit).digit = some digit := by
  have windows : ∀ d : Fin 16, (sendNibbleWrapper .windows d).digit = some d.val := by decide
  have others : ∀ d : Fin 16, (sendNibble d).digit = some d.val := by decide
  by_cases w : mode = .windows
  · exact w ▸ windows ⟨digit, h⟩
  · rw [sendNibbleWrapper, if_neg w]
    exact others ⟨digit, h⟩

section
variable {mode : InputMode} {hex : Nat}

/-- The digit that is due, and those after it. -/
theorem hex_split (hex i : Nat) : hex % 16 ^ (i + 1) = hex % 16 ^ i + 16 ^ i * ((hex >>> (i * 4)) &&& 0xF) := by
  have digit : (hex >>> (i * 4)) &&& 0xF = hex / 16 ^ i % 16 := by
    rw [Nat.and_two_pow_sub_one_eq_mod _ 4, Nat.shiftRight_eq_div_pow, Nat.mul_comm, Nat.pow_mul]
  rw [digit, Nat.pow_succ, Nat.mod_mul]

theorem digit_lt (hex i : Nat) : (hex >>> (i * 4)) &&& 0xF < 16 := by
  rw [Nat.and_two_pow_sub_one_eq_mod _ 4]
  exact Nat.mod_lt _ (by decide)

theorem ofDigits_cons_reverse (d : Nat) (digits : List Nat) :
    Nat.ofDigits 16 (d :: digits).reverse = Nat.ofDigits 16 digits.reverse + 16 ^ digits.length * d := by
  rw [List.reverse_cons, Nat.ofDigits_append, List.length_reverse, Nat.ofDigits_singleton]

/-- Once a digit has been sent, all that are left are. -/
theorem registerHexFrom_rest (i : Nat) : ∃ digits : List Nat, (registerHexFrom mode hex i false).map Stroke.digit = digits.map some ∧
    digits.length = i ∧ Nat.ofDigits 16 digits.reverse = hex % 16 ^ i := by
  induction i with
  | zero => exact ⟨[], rfl, rfl, by simp [Nat.mod_one]⟩
  | succ i ih =>
    obtain ⟨digits, sent, length, value⟩ := ih
    refine ⟨((hex >>> (i * 4)) &&& 0xF) :: digits, ?_, by rw [List.length_cons, length], ?_⟩
    · simp [registerHexFrom, sent, sendNibbleWrapper_digit mode (digit_lt hex i)]
    · rw [ofDigits_cons_reverse, value, length, hex_split]

/-- Before: zeros are left out, or one is put in front of a letter, neither of which matters. -/
theorem registerHexFrom_reads {i : Nat} (pos : 0 < i) : Reads (registerHexFrom mode hex i true) (hex % 16 ^ i) := by
  induction i with
  | zero => exact absurd pos (Nat.lt_irrefl 0)
  | succ i ih =>
    obtain ⟨digits, sent, length, value⟩ := @registerHexFrom_rest mode hex i
    have digit := sendNibbleWrapper_digit mode (digit_lt hex i)
    have here : Nat.ofDigits 16 (((hex >>> (i * 4)) &&& 0xF) :: digits).reverse = hex % 16 ^ (i + 1) := by
      rw [ofDigits_cons_reverse, value, length, hex_split]
    simp only [registerHexFrom, not_true_eq_false, false_or, true_and]
    by_cases worth : (hex >>> (i * 4)) &&& 0xF ≠ 0 ∨ i < 4
    · rw [if_pos worth]
      by_cases zero : mode = .wincompose ∧ 9 < (hex >>> (i * 4)) &&& 0xF
      · rw [if_pos zero]
        refine ⟨0 :: ((hex >>> (i * 4)) &&& 0xF) :: digits, ?_, List.cons_ne_nil _ _, ?_⟩
        · simp [sent, digit, sendNibbleWrapper_digit mode (show 0 < 16 by decide)]
        · rw [ofDigits_cons_reverse, here, Nat.mul_zero, Nat.add_zero]
      · rw [if_neg zero]
        exact ⟨((hex >>> (i * 4)) &&& 0xF) :: digits, by simp [sent, digit], List.cons_ne_nil _ _, here⟩
    · rw [if_neg worth, if_neg (by omega), List.nil_append, hex_split,
        show (hex >>> (i * 4)) &&& 0xF = 0 by omega, Nat.mul_zero, Nat.add_zero]
      exact ih (by omega)

theorem registerHex32_reads (lt : hex < 2 ^ 32) : Reads (registerHex32 mode hex) hex := by
  have := @registerHexFrom_reads mode hex 8 (by decide)
  rwa [Nat.mod_eq_of_lt (by simpa using lt)] at this

/-- A number of at most four digits is typed as four. -/
theorem registerHex32_length (lt : hex < 0x10000) (plain : mode ≠ .wincompose) : (registerHex32 mode hex).length = 4 := by
  have rest (i : Nat) : (registerHexFrom mode hex i false).length = i := by
    obtain ⟨digits, sent, length, -⟩ := @registerHexFrom_rest mode hex i
    simpa [length] using congrArg List.length sent
  have none (i : Nat) (high : 4 ≤ i) : (hex >>> (i * 4)) &&& 0xF = 0 := by
    rw [Nat.shiftRight_eq_div_pow, Nat.div_eq_of_lt, Nat.zero_and]
    exact lt.trans_le (Nat.pow_le_pow_right (n := 2) (by decide) (show 16 ≤ i * 4 by omega))
  have skip (i : Nat) (high : 4 ≤ i) : registerHexFrom mode hex (i + 1) true = registerHexFrom mode hex i true := by
    simp [registerHexFrom, none i high, plain, Nat.not_lt.mpr high]
  rw [registerHex32, skip 7 (by decide), skip 6 (by decide), skip 5 (by decide), skip 4 (by decide)]
  simp [registerHexFrom, plain]

end

/-- Halves of ten bits, as the code cuts them and as numbers. -/
theorem surrogates_eq {codePoint : Nat} (low : 0xFFFF < codePoint) (high : codePoint ≤ 0x10FFFF) :
    Surrogates codePoint (((codePoint - 0x10000) &&& 0xFFC00) >>> 10 + 0xD800) (((codePoint - 0x10000) &&& 0x3FF) + 0xDC00) := by
  have lo : (codePoint - 0x10000) &&& 0x3FF = (codePoint - 0x10000) % 1024 := Nat.and_two_pow_sub_one_eq_mod _ 10
  have hi : ((codePoint - 0x10000) &&& 0xFFC00) >>> 10 = (codePoint - 0x10000) / 1024 := by
    rw [Nat.shiftRight_and_distrib, Nat.shiftRight_eq_div_pow]
    have := Nat.and_two_pow_sub_one_eq_mod ((codePoint - 0x10000) / 2 ^ 10) 10
    rw [show (0xFFC00 : Nat) >>> 10 = 2 ^ 10 - 1 by decide, this]
    omega
  rw [lo, hi]
  unfold Surrogates
  omega

/-- A code point that the mode can type. -/
def Accepted (mode : InputMode) (codePoint : Nat) : Prop :=
  codePoint ≤ 0x10FFFF ∧ ¬ (0xFFFF < codePoint ∧ mode = .windows)

theorem registerUnicode_denotes {mode : InputMode} {codePoint : Nat} (accepted : Accepted mode codePoint) :
    Denotes mode codePoint (registerUnicode mode codePoint) := by
  obtain ⟨high, typed⟩ := accepted
  rw [registerUnicode, if_neg (not_or.mpr ⟨Nat.not_lt.mpr high, typed⟩)]
  refine ⟨_, rfl, ?_⟩
  by_cases pair : 0xFFFF < codePoint ∧ mode = .macos
  · rw [if_pos pair, if_pos pair]
    obtain ⟨low, rfl⟩ := pair
    have surrogates := surrogates_eq low high
    refine ⟨_, _, surrogates, ?_⟩
    obtain ⟨-, hi_lt, -, lo_lt, -⟩ := surrogates
    have hi_length := @registerHex32_length .macos _ (hi_lt.trans (by decide)) (by decide)
    have lo_length := @registerHex32_length .macos _ (lo_lt.trans (by decide)) (by decide)
    refine ⟨?_, ?_, ?_⟩
    · rw [List.take_left' hi_length]
      exact registerHex32_reads (hi_lt.trans (by decide))
    · rw [List.drop_left' hi_length]
      exact registerHex32_reads (lo_lt.trans (by decide))
    · rw [List.length_append, hi_length, lo_length]
  · rw [if_neg pair, if_neg pair]
    exact registerHex32_reads (lt_of_le_of_lt high (by decide))

/-- A string of code points is sent as them, each once and in order, and what is typed for one that
the input mode accepts denotes it. -/
theorem sendUnicodeString_typed {mem : Nat → UInt8} {str : Nat} (text : List Char) (nonzero : ∀ c ∈ text, c.toNat ≠ 0)
    (held : Holds mem str (text.flatMap String.utf8EncodeChar ++ [0])) :
    (∀ fuel, text.length < fuel →
      ∃ scan, sendUnicodeString mem fuel str = some scan ∧ scan.registered = text.map Char.toNat) ∧
      ∀ mode codePoint, Accepted mode codePoint → Denotes mode codePoint (registerUnicode mode codePoint) :=
  ⟨sendUnicodeString_encode text nonzero held, fun _ _ accepted => registerUnicode_denotes accepted⟩

theorem sendUnicodeString_typed_euro :
    (∃ scan, sendUnicodeString (fun p => [0xE2, 0x82, 0xAC].getD p 0) 2 0 = some scan ∧ scan.registered = [0x20AC]) ∧
      Denotes .macos 0x1F600 (registerUnicode .macos 0x1F600) := by
  have encoded : String.utf8EncodeChar (Char.ofNat 0x20AC) = [0xE2, 0x82, 0xAC] := by decide
  have value : (Char.ofNat 0x20AC).toNat = 0x20AC := by decide
  have typed := @sendUnicodeString_typed (fun p => [0xE2, 0x82, 0xAC].getD p 0) 0 [Char.ofNat 0x20AC]
    (by simp [value]) (by simp [encoded, Holds])
  constructor
  · simpa [value] using typed.1 2 (by decide)
  · exact typed.2 .macos 0x1F600 (by simp [Accepted])

end QmkFirmware.Unicode
