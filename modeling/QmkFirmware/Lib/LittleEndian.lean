import Mathlib

/-!
# Little-endian numbers

`ofBytes` is the number that a list of bytes is in memory, lowest byte first, and
`toBytes n v` the `n` bytes of `v`. Complementing a number that fills its bytes
complements each of them.
-/

namespace QmkFirmware.Lib

/-- The number with the given bytes, lowest first. -/
def ofBytes : List UInt8 → Nat
  | [] => 0
  | b :: l => b.toNat + 256 * ofBytes l

/-- The `n` low bytes of `v`, lowest first. -/
def toBytes : Nat → Nat → List UInt8
  | 0, _ => []
  | n + 1, v => UInt8.ofNat v :: toBytes n (v / 256)

@[simp] theorem length_toBytes (n v : Nat) : (toBytes n v).length = n := by
  induction n generalizing v with
  | zero => rfl
  | succ n ih => rw [toBytes, List.length_cons, ih]

theorem ofBytes_lt (l : List UInt8) : ofBytes l < 256 ^ l.length := by
  induction l with
  | nil => simp [ofBytes]
  | cons b l ih =>
    have hb := b.toNat_lt
    rw [ofBytes, List.length_cons, Nat.pow_succ]
    omega

theorem ofBytes_toBytes {n v : Nat} (h : v < 256 ^ n) : ofBytes (toBytes n v) = v := by
  induction n generalizing v with
  | zero =>
    simp only [Nat.pow_zero] at h
    simp only [toBytes, ofBytes]
    omega
  | succ n ih =>
    rw [Nat.pow_succ] at h
    rw [toBytes, ofBytes, ih (by omega), UInt8.toNat_ofNat']
    omega

theorem toBytes_ofBytes (l : List UInt8) : toBytes l.length (ofBytes l) = l := by
  induction l with
  | nil => rfl
  | cons b l ih =>
    have hb := b.toNat_lt
    have low : UInt8.ofNat (b.toNat + 256 * ofBytes l) = b := by
      apply UInt8.toNat_inj.1
      rw [UInt8.toNat_ofNat']
      omega
    rw [ofBytes, List.length_cons, toBytes, low, show (b.toNat + 256 * ofBytes l) / 256 = ofBytes l by omega,
      ih]

/-- The bytes of a number split where its bytes do. -/
theorem toBytes_add (n k v : Nat) : toBytes (n + k) v = toBytes n v ++ toBytes k (v / 256 ^ n) := by
  induction n generalizing v with
  | zero => simp [toBytes]
  | succ n ih =>
    rw [Nat.add_right_comm, toBytes, toBytes, ih, Nat.div_div_eq_div_mul, List.cons_append, Nat.pow_succ',]

/-- High bytes do not matter. -/
theorem toBytes_add_mul (n v k : Nat) : toBytes n (v + 256 ^ n * k) = toBytes n v := by
  induction n generalizing v k with
  | zero => rfl
  | succ n ih =>
    have low : UInt8.ofNat (v + 256 ^ (n + 1) * k) = UInt8.ofNat v := by
      apply UInt8.toNat_inj.1
      rw [UInt8.toNat_ofNat', UInt8.toNat_ofNat', Nat.pow_succ', Nat.mul_assoc]
      omega
    rw [toBytes, toBytes, low, Nat.pow_succ', Nat.mul_assoc, Nat.add_mul_div_left _ _ (by omega), ih]

/-- Complementing a number complements its bytes. -/
theorem toBytes_compl (l : List UInt8) :
    toBytes l.length (256 ^ l.length - 1 - ofBytes l) = l.map fun b => ~~~b := by
  induction l with
  | nil => rfl
  | cons b l ih =>
    have hb := b.toNat_lt
    have hl := ofBytes_lt l
    have split : 256 ^ (l.length + 1) - 1 - (b.toNat + 256 * ofBytes l) =
        (255 - b.toNat) + 256 * (256 ^ l.length - 1 - ofBytes l) := by
      rw [Nat.pow_succ]
      omega
    have low : UInt8.ofNat ((255 - b.toNat) + 256 * (256 ^ l.length - 1 - ofBytes l)) = ~~~b := by
      apply UInt8.toNat_inj.1
      rw [UInt8.toNat_ofNat', UInt8.toNat_not]
      simp only [UInt8.size]
      omega
    rw [ofBytes, List.length_cons, split, toBytes, low, List.map_cons]
    congr 1
    rw [← ih]
    congr 1
    omega

/-- A number is zero if and only if its bytes are. -/
theorem ofBytes_eq_zero {l : List UInt8} : ofBytes l = 0 ↔ ∀ b ∈ l, b = 0 := by
  induction l with
  | nil => simp [ofBytes]
  | cons b l ih =>
    rw [ofBytes, List.forall_mem_cons, ← ih]
    constructor
    · intro h
      exact ⟨UInt8.toNat_inj.1 (by simp; omega), by omega⟩
    · rintro ⟨rfl, h⟩
      simp [h]

/-! ## Bit fields -/

/-- Masking the high bits of a number. -/
theorem and_high {n x : Nat} (k f : Nat) (hx : x < 2 ^ n) :
    (2 ^ n * k + x) &&& (2 ^ n * f) = 2 ^ n * (k &&& f) := by
  apply Nat.eq_of_testBit_eq
  intro i
  rw [Nat.testBit_and, Nat.testBit_two_pow_mul, Nat.testBit_two_pow_mul, Nat.testBit_and,
    Nat.testBit_two_pow_mul_add _ hx]
  by_cases hi : n ≤ i
  · simp [hi, Nat.not_lt.2 hi]
  · simp [hi]

/-- Joining high and low bits. -/
theorem or_low {n x : Nat} (k : Nat) (hx : x < 2 ^ n) : (2 ^ n * k) ||| x = 2 ^ n * k + x := by
  rw [Nat.mul_comm, ← Nat.shiftLeft_eq, Nat.shiftLeft_add_eq_or_of_lt hx]

end QmkFirmware.Lib
