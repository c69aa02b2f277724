import Mathlib

/-!
# Timers that wrap

A timer of some width reads the time modulo its range. The difference of two readings is
the time between them as long as that is less than the range, and its sign tells which
came first as long as it is less than half of it.
-/

namespace QmkFirmware.Lib

theorem elapsed_add {w now t : Nat} (x : BitVec w) (le : now ≤ t) :
    (BitVec.ofNat w t - x).toNat = ((BitVec.ofNat w now - x).toNat + (t - now)) % 2 ^ w := by
  obtain ⟨gap, rfl⟩ := Nat.exists_eq_add_of_le le
  rw [Nat.add_sub_cancel_left, BitVec.toNat_sub, BitVec.toNat_sub, BitVec.toNat_ofNat, BitVec.toNat_ofNat,
    Nat.mod_add_mod, Nat.add_mod_mod, Nat.add_right_comm, Nat.add_mod_mod, Nat.add_assoc, Nat.add_comm gap]

theorem elapsed_eq {w now t : Nat} (le : now ≤ t) (gap : t - now < 2 ^ w) :
    (BitVec.ofNat w t - BitVec.ofNat w now).toNat = t - now := by
  rw [elapsed_add _ le, BitVec.sub_self, BitVec.toNat_zero, Nat.zero_add, Nat.mod_eq_of_lt gap]

theorem elapsed_le {w now t : Nat} (le : now ≤ t) : (BitVec.ofNat w t - BitVec.ofNat w now).toNat ≤ t - now := by
  rw [elapsed_add _ le, BitVec.sub_self, BitVec.toNat_zero, Nat.zero_add]
  exact Nat.mod_le _ _

/-- A time less than half the range ahead is seen as ahead. -/
theorem elapsed_pos {w now t : Nat} (lt : now < t) (gap : 2 * (t - now) < 2 ^ w) :
    0 < (BitVec.ofNat w t - BitVec.ofNat w now).toInt := by
  have elapsed := elapsed_eq (w := w) lt.le (by omega)
  rw [BitVec.toInt_eq_toNat_of_lt (by rwa [elapsed]), elapsed]
  exact_mod_cast Nat.sub_pos_of_lt lt

end QmkFirmware.Lib
