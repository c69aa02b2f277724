import QmkFirmware.WearLeveling.Code

/-!
# A backing store whose operations succeed

`Reliable` is what the algorithm asks of a driver: every call succeeds, erasing
leaves zeros, reading delivers what is there, and writing an aligned word to
erased cells of the store puts it there. Nothing is promised for a write to
cells that are not erased. `memStore` is a store of this kind.
-/

namespace QmkFirmware.WearLeveling
open Lib

/-- The `n` cells from `a` on read as zero. -/
def Erased (m : Nat → UInt8) (a n : Nat) : Prop := ∀ i, a ≤ i → i < a + n → m i = 0

theorem Erased.sub {m : Nat → UInt8} {a n b k : Nat} (h : Erased m a n) (lo : a ≤ b)
    (hi : b + k ≤ a + n) : Erased m b k :=
  fun i hb hk => h i (by omega) (by omega)

theorem Erased.patch {m : Nat → UInt8} {a n b : Nat} {l : List UInt8} (h : Erased m a n)
    (out : a + n ≤ b ∨ b + l.length ≤ a) : Erased (patch m b l) a n :=
  fun i lo hi => by rw [patch_outside (by omega), h i lo hi]

variable {σ : Type}

/-- `mem` shows the contents of the store `d`, and reading delivers them. -/
structure Readable (c : Config) (d : BackingStore σ) (mem : σ → Nat → UInt8) : Prop where
  read : ∀ s a, a % c.ws = 0 → a + c.ws ≤ c.backingSize →
    ∃ s', d.read s a = (some (slice (mem s) a c.ws), s') ∧ mem s' = mem s

/-- All calls of `d` succeed. -/
structure Reliable (c : Config) (d : BackingStore σ) (mem : σ → Nat → UInt8) : Prop
    extends Readable c d mem where
  init : ∀ s, ∃ s', d.init s = (true, s') ∧ mem s' = mem s
  unlock : ∀ s, ∃ s', d.unlock s = (true, s') ∧ mem s' = mem s
  lock : ∀ s, ∃ s', d.lock s = (true, s') ∧ mem s' = mem s
  erase : ∀ s, ∃ s', d.erase s = (true, s') ∧ mem s' = fun _ => 0
  write : ∀ s a w, a % c.ws = 0 → a + c.ws ≤ c.backingSize → w.length = c.ws →
    Erased (mem s) a c.ws → ∃ s', d.write s a w = (true, s') ∧ mem s' = patch (mem s) a w

/-- A store that is its contents. -/
def memStore (c : Config) : BackingStore (Nat → UInt8) where
  init m := (true, m)
  unlock m := (true, m)
  erase _ := (true, fun _ => 0)
  write m a w := (true, patch m a w)
  lock m := (true, m)
  read m a := (some (slice m a c.ws), m)

theorem memStore_reliable (c : Config) : Reliable c (memStore c) id where
  init m := ⟨m, rfl, rfl⟩
  unlock m := ⟨m, rfl, rfl⟩
  lock m := ⟨m, rfl, rfl⟩
  erase _ := ⟨_, rfl, rfl⟩
  write _ _ _ _ _ _ _ := ⟨_, rfl, rfl⟩
  read _ _ _ _ := ⟨_, rfl, rfl⟩

/-! ## Sizes -/

namespace Config

variable (c : Config)

theorem ws_cases : c.ws = 2 ∨ c.ws = 4 ∨ c.ws = 8 := by
  rw [ws]
  cases c.writeSize <;> simp

theorem ws_pos : 0 < c.ws := by
  rcases c.ws_cases with h | h | h <;> omega

theorem eight_mod_ws : 8 % c.ws = 0 := by
  rcases c.ws_cases with h | h | h <;> simp [h]

theorem ws_mul_eight_div : c.ws * (8 / c.ws) = 8 := by
  rcases c.ws_cases with h | h | h <;> simp [h]

theorem ws_mul_logical_div : c.ws * (c.logicalSize / c.ws) = c.logicalSize :=
  Nat.mul_div_cancel' (Nat.dvd_of_mod_eq_zero c.logical_aligned)

theorem backing_mod_ws : c.backingSize % c.ws = 0 :=
  Nat.mod_eq_zero_of_dvd
    ((Nat.dvd_of_mod_eq_zero c.logical_aligned).trans (Nat.dvd_of_mod_eq_zero c.backing_multiple))

theorem logBase_mod_ws : c.logBase % c.ws = 0 := by
  have hl := c.logical_aligned
  have h8 := c.eight_mod_ws
  rw [← ws] at hl
  rw [logBase, Nat.add_mod, hl, h8]
  exact Nat.zero_mod _

end Config

/-- Aligned addresses keep a whole word between them. -/
theorem add_le_of_lt_of_mod {w a b : Nat} (ha : a % w = 0) (hb : b % w = 0) (h : a < b) :
    a + w ≤ b := by
  obtain ⟨k, rfl⟩ := Nat.dvd_of_mod_eq_zero ha
  obtain ⟨l, rfl⟩ := Nat.dvd_of_mod_eq_zero hb
  have hkl : k < l := Nat.lt_of_mul_lt_mul_left h
  calc w * k + w = w * (k + 1) := by ring
    _ ≤ w * l := Nat.mul_le_mul_left w hkl

theorem add_self_mod {w a : Nat} (h : a % w = 0) : (a + w) % w = 0 := by
  rw [Nat.add_mod_right, h]

section Specs

variable {c : Config} {d : BackingStore σ} {mem : σ → Nat → UInt8} (R : Reliable c d mem)

include R

/-! ## The calls that only move the lock -/

theorem unlock_spec (s : State σ) : ∃ ls s', unlock d s = (ls, s') ∧ ls ≠ .failure ∧
    mem s'.store = mem s.store ∧ s'.cache = s.cache ∧ s'.writeAddress = s.writeAddress := by
  unfold unlock
  split
  · exact ⟨_, _, rfl, by simp, rfl, rfl, rfl⟩
  · obtain ⟨s', e, m⟩ := R.unlock s.store
    rw [e]
    exact ⟨_, _, rfl, by simp, m, rfl, rfl⟩

theorem lock_spec (s : State σ) : ∃ ls s', lock d s = (ls, s') ∧ ls ≠ .failure ∧
    mem s'.store = mem s.store ∧ s'.cache = s.cache ∧ s'.writeAddress = s.writeAddress := by
  unfold lock
  split
  · exact ⟨_, _, rfl, by simp, rfl, rfl, rfl⟩
  · obtain ⟨s', e, m⟩ := R.lock s.store
    rw [e]
    exact ⟨_, _, rfl, by simp, m, rfl, rfl⟩

/-! ## Bulk transfers -/

omit R in
theorem readBulk_spec (R : Readable c d mem) (n : Nat) : ∀ (store : σ) (a : Nat), a % c.ws = 0 →
    a + c.ws * n ≤ c.backingSize →
    ∃ store', readBulk d c store a n = (true, slice (mem store) a (c.ws * n), store') ∧
      mem store' = mem store := by
  induction n with
  | zero => exact fun store a _ _ => ⟨store, rfl, rfl⟩
  | succ n ih =>
    intro store a ha hb
    have hn : c.ws * (n + 1) = c.ws + c.ws * n := by ring
    obtain ⟨s₁, e₁, m₁⟩ := R.read store a ha (by omega)
    obtain ⟨s₂, e₂, m₂⟩ := ih s₁ (a + c.ws) (add_self_mod ha) (by omega)
    refine ⟨s₂, ?_, m₂.trans m₁⟩
    rw [readBulk, e₁]
    simp only [e₂]
    rw [hn, slice_add, m₁]

theorem writeBulk_spec (values : Nat → UInt8) (n : Nat) : ∀ (store : σ) (a src : Nat),
    a % c.ws = 0 → a + c.ws * n ≤ c.backingSize → Erased (mem store) a (c.ws * n) →
    ∃ store', writeBulk d c values store a src n = (true, store') ∧
      mem store' = patch (mem store) a (slice values src (c.ws * n)) := by
  induction n with
  | zero => exact fun store a src _ _ _ => ⟨store, rfl, by rw [Nat.mul_zero, slice_zero, patch_nil]⟩
  | succ n ih =>
    intro store a src ha hb he
    have hn : c.ws * (n + 1) = c.ws + c.ws * n := by ring
    obtain ⟨s₁, e₁, m₁⟩ := R.write store a (slice values src c.ws) ha (by omega) (by simp)
      (he.sub (by omega) (by omega))
    obtain ⟨s₂, e₂, m₂⟩ := ih s₁ (a + c.ws) (src + c.ws) (add_self_mod ha) (by omega) (by
      rw [m₁]
      exact (he.sub (by omega) (by omega)).patch (by simp))
    refine ⟨s₂, ?_, ?_⟩
    · rw [writeBulk, e₁]
      exact e₂
    · rw [m₂, m₁, hn, slice_add, patch_append]
      simp

end Specs

end QmkFirmware.WearLeveling
