import QmkFirmware.Eeprom.L4

/-!
# Startup of the STM32L4 driver on any flash

Nothing is assumed of the flash here: it may hold anything, and any double word
may raise the NMI. The reads and `empty_slot` stay inside the area. The stores
of the compacted area stay inside `DataBuf`; those of the log do as far as the
entries replayed say so, because their addresses are not checked.
-/

namespace QmkFirmware.Eeprom.L4
open Lib

variable (c : Config) (broken : Nat → Bool) (flash : Nat → UInt8)

/-- The stores that the log slot at `a` makes if it is replayed. -/
def slotStores (a : Nat) : List (Patch UInt8) :=
  entryStores (ofBytes (slice flash a 4)) (256 ^ 4 - 1 - ofBytes (slice flash (a + 4) 4))

/-- The slot at `a` is taken for an entry. -/
def SlotTaken (a : Nat) : Prop := ofBytes (slice flash a 4) ≠ emptyWord ∧ broken a = false

/-- Slot `k` of the log is replayed: the compacted area and the slots up to it
raise no NMI, and none of these slots is empty. -/
def Replayed (k : Nat) : Prop :=
  k < c.writeLogBytes / 8 ∧ (∀ j, j < c.densityBytes / 8 → broken (c.pageBaseAddress + 8 * j) = false) ∧
    ∀ j, j ≤ k → SlotTaken broken flash (c.writeLogBase + 8 * j)

/-- What a safe startup does: it stores to `DataBuf` only, reads the area only and
leaves `empty_slot` at a slot of the log or at its end. -/
structure SafeStartup (u : Startup) : Prop where
  stores : ∀ p ∈ u.stores, p.Below c.densityBytes
  reads : ∀ a ∈ u.reads, c.pageBaseAddress ≤ a ∧ a + 4 ≤ c.writeLogLast
  slot_mod : u.logAddr % 8 = 0
  base_le : c.writeLogBase ≤ u.logAddr
  le_last : u.logAddr ≤ c.writeLogLast

variable {c broken flash}

variable (c broken flash) in
/-- One iteration of the replay. -/
theorem replayLoop_succ (fuel : Nat) {u : Startup} (aligned : u.logAddr % 8 = 0)
    (room : u.logAddr < c.writeLogLast) :
    (¬ (u.eccd = false ∧ SlotTaken broken flash u.logAddr) ∧
      (replayLoop c broken flash (fuel + 1) u).stores = u.stores ∧
      (replayLoop c broken flash (fuel + 1) u).reads = u.reads ++ [u.logAddr, u.logAddr + 4] ∧
      (replayLoop c broken flash (fuel + 1) u).logAddr = u.logAddr) ∨
    ((u.eccd = false ∧ SlotTaken broken flash u.logAddr) ∧
      replayLoop c broken flash (fuel + 1) u = replayLoop c broken flash fuel
        ⟨false, u.reads ++ [u.logAddr, u.logAddr + 4], u.stores ++ slotStores flash u.logAddr,
          u.logAddr + 8⟩) := by
  have first : u.logAddr - u.logAddr % 8 = u.logAddr := by omega
  have second : u.logAddr + 4 - (u.logAddr + 4) % 8 = u.logAddr := by omega
  rw [replayLoop, if_neg (by omega)]
  simp only [readWord, first, second, List.append_assoc, List.cons_append, List.nil_append]
  by_cases ecc : (u.eccd || broken u.logAddr || broken u.logAddr) = true
  · left
    rw [if_pos ecc]
    refine ⟨fun h => ?_, rfl, rfl, rfl⟩
    simp [h.1, h.2.2] at ecc
  · rw [if_neg ecc]
    have ok : u.eccd = false ∧ broken u.logAddr = false := by
      cases he : u.eccd <;> cases hb : broken u.logAddr <;> simp [he, hb] at ecc ⊢
    by_cases empty : ofBytes (slice flash u.logAddr 4) = emptyWord
    · left
      rw [if_pos empty]
      exact ⟨fun h => h.2.1 empty, rfl, rfl, rfl⟩
    · right
      rw [if_neg empty]
      refine ⟨⟨ok.1, empty, ok.2⟩, ?_⟩
      simp [ok.1, ok.2, slotStores]

variable (c broken flash) in
/-- The whole replay: where it reads and stops, and when its stores are in range. -/
theorem replayLoop_safe (fuel : Nat) : ∀ u : Startup, u.logAddr % 8 = 0 →
    u.logAddr + 8 * fuel = c.writeLogLast →
    ((∀ p ∈ (replayLoop c broken flash fuel u).stores, p.Below c.densityBytes) ↔
      (∀ p ∈ u.stores, p.Below c.densityBytes) ∧
      ∀ k, k < fuel → u.eccd = false → (∀ j, j ≤ k → SlotTaken broken flash (u.logAddr + 8 * j)) →
        ∀ p ∈ slotStores flash (u.logAddr + 8 * k), p.Below c.densityBytes) ∧
    (∀ a ∈ (replayLoop c broken flash fuel u).reads,
      a ∈ u.reads ∨ u.logAddr ≤ a ∧ a + 4 ≤ c.writeLogLast) ∧
    (replayLoop c broken flash fuel u).logAddr % 8 = 0 ∧
    u.logAddr ≤ (replayLoop c broken flash fuel u).logAddr ∧
    (replayLoop c broken flash fuel u).logAddr ≤ c.writeLogLast := by
  induction fuel with
  | zero =>
    intro u aligned len
    simp only [replayLoop]
    exact ⟨⟨fun h => ⟨h, fun k hk => by omega⟩, fun h => h.1⟩, fun a ha => Or.inl ha, aligned,
      Nat.le_refl _, by omega⟩
  | succ fuel ih =>
    intro u aligned len
    rcases replayLoop_succ c broken flash fuel aligned (by omega) with
      ⟨stop, st, rd, la⟩ | ⟨⟨ecc, taken⟩, e⟩
    · rw [st, rd, la]
      refine ⟨⟨fun h => ⟨h, fun k _ ecc taken => ?_⟩, fun h => h.1⟩, fun a ha => ?_, aligned,
        Nat.le_refl _, by omega⟩
      · exact absurd ⟨ecc, taken 0 (Nat.zero_le _)⟩ stop
      · rcases List.mem_append.1 ha with ha | ha
        · exact Or.inl ha
        · simp only [List.mem_cons, List.not_mem_nil, or_false] at ha
          right
          omega
    · rw [e]
      obtain ⟨st, rd, sm, lo, hi⟩ := ih ⟨false, u.reads ++ [u.logAddr, u.logAddr + 4],
        u.stores ++ slotStores flash u.logAddr, u.logAddr + 8⟩ (by simp only; omega) (by simp only; omega)
      refine ⟨?_, fun a ha => ?_, sm, by simp only at lo; omega, hi⟩
      · rw [st]
        simp only [List.mem_append]
        constructor
        · rintro ⟨own, rest⟩
          refine ⟨fun p hp => own p (Or.inl hp), fun k hk _ all => ?_⟩
          cases k with
          | zero => exact fun p hp => own p (Or.inr hp)
          | succ k =>
            have := rest k (by omega) trivial fun j hj => by
              have := all (j + 1) (by omega)
              rwa [Nat.mul_succ, Nat.add_comm (8 * j), ← Nat.add_assoc] at this
            rwa [Nat.mul_succ, Nat.add_comm (8 * k), ← Nat.add_assoc]
        · rintro ⟨own, rest⟩
          refine ⟨fun p hp => hp.elim (own p) fun hp => ?_, fun k hk _ all => ?_⟩
          · exact rest 0 (by omega) ecc
              (fun j hj => by rw [Nat.le_zero.1 hj]; exact taken) p hp
          · have := rest (k + 1) (by omega) ecc fun j hj => by
              cases j with
              | zero => exact taken
              | succ j =>
                have := all j (by omega)
                rwa [Nat.mul_succ, Nat.add_comm (8 * j), ← Nat.add_assoc]
            rwa [Nat.mul_succ, Nat.add_comm (8 * k), ← Nat.add_assoc] at this
      · rcases rd a ha with ha | ha
        · rcases List.mem_append.1 ha with ha | ha
          · exact Or.inl ha
          · simp only [List.mem_cons, List.not_mem_nil, or_false] at ha
            right
            omega
        · simp only at ha
          right
          omega

/-- The loop over the compacted area stays in range. -/
theorem load_below {p : Patch UInt8} (h : p ∈ loadCompacted c.toLayout 4 flash) :
    p.Below c.densityBytes := by
  obtain ⟨k, hk, rfl⟩ := List.mem_map.1 h
  have := List.mem_range.1 hk
  simp only [Patch.Below, length_toBytes]
  omega

/-- Startup is safe exactly if every entry it replays lies inside `DataBuf`. -/
theorem startup_safe_iff (c : Config) (broken : Nat → Bool) (flash : Nat → UInt8) :
    SafeStartup c (startup c broken flash) ↔
      ∀ k, Replayed c broken flash k →
        ∀ p ∈ slotStores flash (c.writeLogBase + 8 * k), p.Below c.densityBytes := by
  have hu := c.unit_eq
  have base8 := c.writeLogBase_mod
  have page8 := c.base_mod
  have density8 := c.density_mod
  have log8 := c.log_mod
  rw [hu] at base8 page8 density8 log8
  have last : c.writeLogLast = c.writeLogBase + c.writeLogBytes := rfl
  have base : c.writeLogBase = c.pageBaseAddress + c.densityBytes := rfl
  obtain ⟨st, la, rd, ec⟩ := load_spec c broken flash
  obtain ⟨stores, reads, sm, lo, hi⟩ := replayLoop_safe c broken flash (c.writeLogBytes / 8) ((List.range (c.densityBytes / 4)).foldl (loadStep c broken flash)
      ⟨false, [], [], c.writeLogBase⟩) (by rw [la]; exact base8) (by rw [la, last]; omega)
  rw [la] at stores reads lo
  rw [st] at stores
  -- the flag after the first loop, double word by double word
  have intact : ((List.range (c.densityBytes / 4)).foldl (loadStep c broken flash)
      ⟨false, [], [], c.writeLogBase⟩).eccd = false ↔
        ∀ j, j < c.densityBytes / 8 → broken (c.pageBaseAddress + 8 * j) = false := by
    rw [← Bool.not_eq_true, ec]
    push Not
    constructor
    · intro h j hj
      have := h (2 * j) (by omega)
      rw [show c.pageBaseAddress + 4 * (2 * j) - (c.pageBaseAddress + 4 * (2 * j)) % 8 =
        c.pageBaseAddress + 8 * j by omega] at this
      simpa using this
    · intro h k hk
      have := h (k / 2) (by omega)
      rw [show c.pageBaseAddress + 4 * k - (c.pageBaseAddress + 4 * k) % 8 =
        c.pageBaseAddress + 8 * (k / 2) by omega]
      simp [this]
  rw [intact] at stores
  constructor
  · rintro ⟨below, -, -, -, -⟩ k ⟨hk, ok, taken⟩
    exact (stores.1 below).2 k hk ok taken
  · intro fits
    refine ⟨stores.2 ⟨fun p hp => load_below hp, fun k hk ok taken => fits k ⟨hk, ok, taken⟩⟩,
      fun a ha => ?_, sm, lo, hi⟩
    rcases reads a ha with ha | ha
    · rw [rd] at ha
      obtain ⟨k, hk, rfl⟩ := List.mem_map.1 ha
      have := List.mem_range.1 hk
      omega
    · omega

/-- The first log entry of an otherwise erased area is a byte entry for address
16, which is the size of `DataBuf`: startup stores behind the buffer. -/
theorem startup_stores_outside :
    (eepromInit smallConfig (fun _ => false)
      (State.start (patch (fun _ => 0xFF) 80 [16, 0, 1, 0, 0xA5, 0xFF, 0xFF, 0xFF]))).2.dataBuf 16 = 0x5A ∧
    ¬ ∀ p ∈ (startup smallConfig (fun _ => false)
      (patch (fun _ => 0xFF) 80 [16, 0, 1, 0, 0xA5, 0xFF, 0xFF, 0xFF])).stores,
        p.Below smallConfig.densityBytes := by
  decide +kernel

end QmkFirmware.Eeprom.L4
