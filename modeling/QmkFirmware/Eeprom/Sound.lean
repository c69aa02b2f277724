import QmkFirmware.Eeprom.Flash

/-!
# What the emulation area stands for

`Sound L F m slot data`: the flash `m`, with its log read in the format `F` up to
`slot`, stands for `data`. A log entry lies over compacted cells that are
programmed, so writing a blank cell directly is never undone by the replay; this
is what the direct write, the append and the compaction preserve.
-/

namespace QmkFirmware.Eeprom
open Lib

/-- How a driver reads its log. It stops at the end of the log and at an erased unit. -/
structure LogFormat (L : Layout) extends LogScanner UInt8 where
  stops : ∀ {m a}, L.writeLogLast ≤ a ∨ Blank m a L.unit → next m a = none

structure Sound (L : Layout) (F : LogFormat L) (m : Nat → UInt8) (slot : Nat) (data : Nat → UInt8) :
    Prop where
  log : ∃ log, Scan F.toLogScanner m L.writeLogBase log slot ∧
    (∀ i, i < L.densityBytes → data i = replay (snapshot L m) log i) ∧
    ∀ p ∈ log, ∀ i, p.Covers i →
      i < L.densityBytes ∧ ¬ Blank m (L.pageBaseAddress + L.cell i) L.unit
  slot_le : slot ≤ L.writeLogLast
  slot_mod : slot % L.unit = 0
  fresh : Blank m slot (L.writeLogLast - slot)

/-! ## Legal histories -/

/-- Erasing takes a page of the area; programming takes an erased, aligned unit of it. -/
def LegalOp (L : Layout) (m : Nat → UInt8) : FlashOp → Prop
  | .erasePage address => ∃ n, n < L.pageCount ∧ address = L.pageBaseAddress + n * L.pageSize
  | .program address data => address % L.unit = 0 ∧ L.pageBaseAddress ≤ address ∧
      address + L.unit ≤ L.writeLogLast ∧ data.length = L.unit ∧ Blank m address L.unit

/-- Every operation of the sequence is legal when it is issued. -/
def LegalTrace (L : Layout) : (Nat → UInt8) → List FlashOp → Prop
  | _, [] => True
  | m, op :: ops => LegalOp L m op ∧ LegalTrace L (op.apply L m) ops

theorem LegalTrace.snoc {L : Layout} {m : Nat → UInt8} {ops : List FlashOp} {op : FlashOp}
    (h : LegalTrace L m ops) (last : LegalOp L (applyOps L m ops) op) :
    LegalTrace L m (ops ++ [op]) := by
  induction ops generalizing m with
  | nil => exact ⟨last, trivial⟩
  | cons o ops ih => exact ⟨h.1, ih h.2 last⟩

/-! ## Power cuts -/

/-- A flash that the driver can start from: its log ends in erased flash, and no
entry of it lies over an erased cell. -/
def Recoverable (L : Layout) (F : LogFormat L) (m : Nat → UInt8) : Prop :=
  ∃ log slot, Scan F.toLogScanner m L.writeLogBase log slot ∧
    (∀ p ∈ log, ∀ i, p.Covers i →
      i < L.densityBytes ∧ ¬ Blank m (L.pageBaseAddress + L.cell i) L.unit) ∧
    slot ≤ L.writeLogLast ∧ slot % L.unit = 0 ∧ Blank m slot (L.writeLogLast - slot)

theorem recoverable_iff {L : Layout} {F : LogFormat L} {m : Nat → UInt8} :
    Recoverable L F m ↔ ∃ slot data, Sound L F m slot data := by
  constructor
  · rintro ⟨log, slot, scan, settled, le, mod, fresh⟩
    exact ⟨slot, _, ⟨log, scan, fun _ _ => rfl, settled⟩, le, mod, fresh⟩
  · rintro ⟨slot, data, ⟨log, scan, -, settled⟩, le, mod, fresh⟩
    exact ⟨log, slot, scan, settled, le, mod, fresh⟩

/-- The sequence ends inside `eeprom_clear`: behind the erasure of a page that is
not the last one. -/
def InClear (L : Layout) (ops : List FlashOp) : Prop :=
  ∃ n, n < L.pageCount - 1 ∧ ops.getLast? = some (.erasePage (L.pageBaseAddress + n * L.pageSize))

instance (L : Layout) (ops : List FlashOp) : Decidable (InClear L ops) :=
  inferInstanceAs (Decidable (∃ n, n < _ ∧ _))

/-- The flash is what the trace made of `m₀`, legally, and the driver could have
started again after each operation, unless inside `eeprom_clear`. -/
structure History (L : Layout) (F : LogFormat L) (m₀ : Nat → UInt8) (s : State) : Prop where
  flash : s.flash = applyOps L m₀ s.trace
  legal : LegalTrace L m₀ s.trace
  cuts : ∀ k, ¬ InClear L (s.trace.take k) → Recoverable L F (applyOps L m₀ (s.trace.take k))

namespace History

variable {L : Layout} {F : LogFormat L} {m₀ : Nat → UInt8} {s t : State}

theorem start (h : Recoverable L F m₀) : History L F m₀ (State.start m₀) :=
  ⟨rfl, trivial, fun k _ => by simpa [State.start, applyOps] using h⟩

/-- The buffer and `empty_slot` are not part of the history. -/
theorem congr (h : History L F m₀ s) (flash : t.flash = s.flash) (trace : t.trace = s.trace) :
    History L F m₀ t :=
  ⟨by rw [flash, trace, h.flash], by rw [trace]; exact h.legal, by rw [trace]; exact h.cuts⟩

theorem issue (h : History L F m₀ s) (op : FlashOp) (legal : LegalOp L s.flash op)
    (cut : ¬ InClear L [op] → Recoverable L F (op.apply L s.flash)) :
    History L F m₀ (s.issue L op) := by
  have flash : (s.issue L op).flash = applyOps L m₀ (s.issue L op).trace := by
    simp only [State.issue, applyOps, List.foldl_append, List.foldl_cons, List.foldl_nil]
    rw [h.flash]
    rfl
  refine ⟨flash, h.legal.snoc (by rwa [← h.flash]), fun k out => ?_⟩
  rcases Nat.lt_or_ge s.trace.length k with hk | hk
  · have all : (s.issue L op).trace.take k = s.trace ++ [op] :=
      List.take_of_length_le (by simp [State.issue]; omega)
    have last : ¬ InClear L [op] := by
      rw [all] at out
      simpa [InClear] using out
    have now := cut last
    rw [all]
    rwa [show applyOps L m₀ (s.trace ++ [op]) = op.apply L s.flash from flash.symm]
  · have old : (s.issue L op).trace.take k = s.trace.take k := List.take_append_of_le_length hk
    rw [old] at out ⊢
    exact h.cuts k out

end History

/-! ## Addresses -/

namespace Layout

variable (L : Layout)

theorem writeLogBase_mod : L.writeLogBase % L.unit = 0 := by
  rw [writeLogBase, Nat.add_mod, L.base_mod, L.density_mod]
  exact Nat.zero_mod _

theorem writeLogLast_mod : L.writeLogLast % L.unit = 0 := by
  rw [writeLogLast, Nat.add_mod, L.writeLogBase_mod, L.log_mod]
  exact Nat.zero_mod _

theorem cell_end_le {i : Nat} (h : i < L.densityBytes) :
    L.pageBaseAddress + L.cell i + L.unit ≤ L.writeLogBase := by
  have := cell_add_le h L.density_mod
  simp only [writeLogBase]
  omega

variable {L}

theorem cell_cell (i : Nat) : L.cell (L.cell i) = L.cell i :=
  cell_eq_iff.2 ⟨Nat.le_refl _, Nat.lt_add_of_pos_right L.unit_pos⟩

/-- Distinct cells are disjoint. -/
theorem cells_disjoint {i j : Nat} (h : L.cell i ≠ L.cell j) :
    L.cell i + L.unit ≤ L.cell j ∨ L.cell j + L.unit ≤ L.cell i := by
  by_contra overlap
  apply h
  rcases Nat.le_total (L.cell i) (L.cell j) with le | le
  · exact (cell_eq_iff.2 (by omega)).symm.trans (cell_cell j)
  · exact (cell_cell i).symm.trans (cell_eq_iff.2 (by omega))

end Layout

section Preservation

variable {L : Layout} {F : LogFormat L} {m : Nat → UInt8} {slot : Nat} {data : Nat → UInt8}

/-- The format stops where the rest of the log is erased. -/
theorem LogFormat.stops_of_fresh (F : LogFormat L) (le : slot ≤ L.writeLogLast)
    (aligned : slot % L.unit = 0) (fresh : Blank m slot (L.writeLogLast - slot)) :
    F.next m slot = none := by
  rcases Nat.eq_or_lt_of_le le with h | h
  · exact F.stops (Or.inl (Nat.le_of_eq h.symm))
  · have : L.cell slot + L.unit ≤ L.writeLogLast := Layout.cell_add_le h L.writeLogLast_mod
    rw [Layout.cell, aligned] at this
    exact F.stops (Or.inr (fresh.sub (Nat.le_refl _) (by omega)))

theorem Sound.congr (h : Sound L F m slot data) {data' : Nat → UInt8}
    (e : ∀ i, i < L.densityBytes → data' i = data i) : Sound L F m slot data' := by
  obtain ⟨log, scan, view, settled⟩ := h.log
  exact ⟨⟨log, scan, fun i hi => (e i hi).trans (view i hi), settled⟩, h.slot_le, h.slot_mod, h.fresh⟩

/-- A blank cell stands for zeros. -/
theorem Sound.zero_of_blank (h : Sound L F m slot data) {i : Nat} (hi : i < L.densityBytes)
    (blank : Blank m (L.pageBaseAddress + L.cell i) L.unit) : data i = 0 := by
  obtain ⟨log, scan, view, settled⟩ := h.log
  have lo := L.cell_le i
  have lt := L.lt_cell_add i
  rw [view i hi, replay_of_not_covered fun p hp hc => (settled p hp i hc).2 blank, snapshot,
    blank _ (by omega) (by omega)]
  rfl

/-- An empty log: the compacted area is the data. -/
theorem Sound.of_blank_log (blank : Blank m L.writeLogBase L.writeLogBytes)
    (view : ∀ i, i < L.densityBytes → data i = snapshot L m i) :
    Sound L F m L.writeLogBase data := by
  have le : L.writeLogBase ≤ L.writeLogLast := Nat.le_add_right _ _
  have fresh : Blank m L.writeLogBase (L.writeLogLast - L.writeLogBase) := by
    rwa [Layout.writeLogLast, Nat.add_sub_cancel_left]
  exact ⟨⟨[], .stop (F.stops_of_fresh le L.writeLogBase_mod fresh), view, by simp⟩, le,
    L.writeLogBase_mod, fresh⟩

theorem Recoverable.of_blank_log (blank : Blank m L.writeLogBase L.writeLogBytes) : Recoverable L F m :=
  recoverable_iff.2 ⟨_, _, Sound.of_blank_log blank fun _ _ => rfl⟩

/-- Programming a blank cell with the complement of the new data. -/
theorem Sound.direct (h : Sound L F m slot data) {i : Nat} (hi : i < L.densityBytes)
    (blank : Blank m (L.pageBaseAddress + L.cell i) L.unit) {data' : Nat → UInt8}
    (same : ∀ j, j < L.densityBytes → L.cell j ≠ L.cell i → data' j = data j) :
    Sound L F
      (patch m (L.pageBaseAddress + L.cell i) ((slice data' (L.cell i) L.unit).map fun b => ~~~b)) slot
      data' := by
  have low := L.cell_end_le hi
  obtain ⟨log, scan, view, settled⟩ := h.log
  have above : ∀ j, L.writeLogBase ≤ j → patch m (L.pageBaseAddress + L.cell i)
      ((slice data' (L.cell i) L.unit).map fun b => ~~~b) j = m j :=
    fun j hj => patch_above (by simp; omega)
  have fresh : Blank (patch m (L.pageBaseAddress + L.cell i)
      ((slice data' (L.cell i) L.unit).map fun b => ~~~b)) slot (L.writeLogLast - slot) :=
    h.fresh.congr fun j lo _ => above j (by
      have := scan.le
      omega)
  refine ⟨⟨log, ?_, fun j hj => ?_, fun p hp j hc => ?_⟩, h.slot_le, h.slot_mod, fresh⟩
  · exact scan.congr (fun j lo _ => above j lo) (F.stops_of_fresh h.slot_le h.slot_mod fresh)
  · -- the snapshot is patched in cells that the log leaves alone
    have snap : snapshot L (patch m (L.pageBaseAddress + L.cell i)
        ((slice data' (L.cell i) L.unit).map fun b => ~~~b)) =
        patch (snapshot L m) (L.cell i) (slice data' (L.cell i) L.unit) := by
      funext k
      simp only [snapshot]
      by_cases hk : L.cell i ≤ k ∧ k - L.cell i < L.unit
      · rw [patch_inside (by omega) (by simp; omega), patch_inside hk.1 (by simpa using hk.2)]
        simp only [List.getElem_map, getElem_slice]
        rw [UInt8.not_not]
        congr 1
        omega
      · rw [patch_outside (by simp; omega), patch_outside (by simp; omega)]
        rfl
    rw [snap, replay_patch fun p hp k lo hi' hc => ?_]
    · by_cases hcell : L.cell j = L.cell i
      · obtain ⟨lo, hi'⟩ := Layout.cell_eq_iff.1 hcell
        exact (patch_slice_of lo hi').symm
      · rw [same j hj hcell, view j hj, patch_outside]
        have := mt Layout.cell_eq_iff.2 hcell
        simp only [length_slice]
        omega
    · rw [length_slice] at hi'
      have := (settled p hp k hc).2
      rw [Layout.cell_eq_iff.2 ⟨lo, hi'⟩] at this
      exact this blank
  · obtain ⟨hj, used⟩ := settled p hp j hc
    refine ⟨hj, fun again => used (again.congr fun k lo hi' => (patch_outside ?_).symm)⟩
    have ne : L.cell j ≠ L.cell i := by
      intro e
      rw [e] at used
      exact used blank
    have := Layout.cells_disjoint ne
    simp only [List.length_map, length_slice]
    omega

/-- Writing an entry behind the log; `n` is where the reader goes on behind it. -/
theorem Sound.append (h : Sound L F m slot data) (bytes : List UInt8) {ps : List (Patch UInt8)} {n : Nat}
    (len : bytes.length ≤ n) (room : slot + n ≤ L.writeLogLast) (aligned : n % L.unit = 0)
    (next : F.next (patch m slot bytes) slot = some (ps, slot + n))
    (cover : ∀ p ∈ ps, ∀ i, p.Covers i →
      i < L.densityBytes ∧ ¬ Blank m (L.pageBaseAddress + L.cell i) L.unit)
    {data' : Nat → UInt8} (hd : ∀ i, i < L.densityBytes → data' i = replay data ps i) :
    Sound L F (patch m slot bytes) (slot + n) data' := by
  obtain ⟨log, scan, view, settled⟩ := h.log
  have base := scan.le
  have mod : (slot + n) % L.unit = 0 := by
    rw [Nat.add_mod, h.slot_mod, aligned]
    exact Nat.zero_mod _
  have fresh : Blank (patch m slot bytes) (slot + n) (L.writeLogLast - (slot + n)) :=
    (h.fresh.sub (by omega) (by omega)).patch (Or.inr (by omega))
  have below : ∀ i, i < L.densityBytes → snapshot L (patch m slot bytes) i = snapshot L m i := by
    intro i hi
    simp only [Layout.writeLogBase] at base
    rw [snapshot, snapshot, patch_below (by omega)]
  refine ⟨⟨log ++ ps, ?_, fun i hi => ?_, fun q hq i hc => ?_⟩, room, mod, fresh⟩
  · exact scan.snoc (fun i _ hi => patch_below hi) next (F.stops_of_fresh room mod fresh)
  · rw [replay_append, hd i hi]
    exact replay_congr ((view i hi).trans (replay_congr (below i hi).symm))
  · have used : i < L.densityBytes ∧ ¬ Blank m (L.pageBaseAddress + L.cell i) L.unit := by
      rcases List.mem_append.1 hq with hq | hq
      · exact settled q hq i hc
      · exact cover q hq i hc
    have low := L.cell_end_le used.1
    exact ⟨used.1, fun again => used.2 (again.congr fun k _ hk => (patch_below (by omega)).symm)⟩

end Preservation

/-! ## Clearing and compacting -/

section Compaction

variable {L : Layout}

/-- The area is erased page by page; nothing else changes. -/
theorem eepromClear_spec (F : LogFormat L) (s : State) :
    (eepromClear L s).dataBuf = s.dataBuf ∧ (eepromClear L s).emptySlot = L.writeLogBase ∧
      Blank (eepromClear L s).flash L.pageBaseAddress (L.pageCount * L.pageSize) ∧
      ∀ m₀, History L F m₀ s → History L F m₀ (eepromClear L s) := by
  have fits := L.fits
  have pages : ∀ n, n ≤ L.pageCount → ∀ t, t = (List.range n).foldl
      (fun s pageNum => s.issue L (.erasePage (L.pageBaseAddress + pageNum * L.pageSize))) s →
      t.dataBuf = s.dataBuf ∧ Blank t.flash L.pageBaseAddress (n * L.pageSize) ∧
      ∀ m₀, History L F m₀ s → History L F m₀ t := by
    intro n hn
    induction n with
    | zero =>
      rintro t rfl
      exact ⟨rfl, fun i lo hi => by omega, fun _ h => h⟩
    | succ n ih =>
      rintro t rfl
      rw [List.range_succ, List.foldl_append]
      obtain ⟨hd, blank, hist⟩ := ih (by omega) _ rfl
      obtain ⟨u, hu⟩ : ∃ u, u = (List.range n).foldl
        (fun s pageNum => s.issue L (.erasePage (L.pageBaseAddress + pageNum * L.pageSize))) s := ⟨_, rfl⟩
      rw [← hu] at hd blank hist ⊢
      have erased : Blank (FlashOp.apply L (.erasePage (L.pageBaseAddress + n * L.pageSize)) u.flash)
          L.pageBaseAddress ((n + 1) * L.pageSize) := by
        intro i lo hi
        simp only [FlashOp.apply]
        rw [Nat.succ_mul] at hi
        by_cases hp : L.pageBaseAddress + n * L.pageSize ≤ i
        · rw [patch_inside hp (by simp; omega)]
          simp
        · rw [patch_below (by omega)]
          exact blank i lo (by omega)
      refine ⟨hd, erased, fun m₀ h => (hist m₀ h).issue _ ⟨n, by omega, rfl⟩ fun out => ?_⟩
      -- only the last page is not inside the loop
      have last : n + 1 = L.pageCount := by
        by_contra ne
        exact out ⟨n, by omega, rfl⟩
      rw [last] at erased
      exact Recoverable.of_blank_log (erased.sub (by simp [Layout.writeLogBase])
        (by simp only [Layout.writeLogBase]; omega))
  obtain ⟨hd, blank, hist⟩ := pages L.pageCount (Nat.le_refl _) _ rfl
  exact ⟨hd, rfl, blank, fun m₀ h => (hist m₀ h).congr rfl rfl⟩

/-- One cell of the compaction. -/
theorem compactCell_spec (F : LogFormat L) {s : State} {k : Nat} (hk : L.unit * (k + 1) ≤ L.densityBytes)
    (blank : Blank s.flash (L.pageBaseAddress + L.unit * k) L.unit)
    (logBlank : Blank s.flash L.writeLogBase L.writeLogBytes) :
    (compactCell L s k).dataBuf = s.dataBuf ∧ (compactCell L s k).emptySlot = s.emptySlot ∧
      (compactCell L s k).flash = patch s.flash (L.pageBaseAddress + L.unit * k)
        ((slice s.dataBuf (L.unit * k) L.unit).map fun b => ~~~b) ∧
      ∀ m₀, History L F m₀ s → History L F m₀ (compactCell L s k) := by
  have compl := toBytes_compl (slice s.dataBuf (L.unit * k) L.unit)
  rw [length_slice] at compl
  have code : compactCell L s k = if ofBytes (slice s.dataBuf (L.unit * k) L.unit) ≠ 0 then
      s.issue L (.program (L.pageBaseAddress + L.unit * k)
        (toBytes L.unit (256 ^ L.unit - 1 - ofBytes (slice s.dataBuf (L.unit * k) L.unit))))
    else s := rfl
  rw [code]
  split
  case isTrue =>
    rw [Nat.mul_succ] at hk
    refine ⟨rfl, rfl, by rw [← compl]; rfl,
      fun m₀ h => h.issue _ ⟨?_, by omega, ?_, by simp, blank⟩ fun _ => ?_⟩
    · rw [Nat.add_mul_mod_self_left, L.base_mod]
    · simp only [Layout.writeLogLast, Layout.writeLogBase]
      omega
    · exact Recoverable.of_blank_log (logBlank.patch (Or.inr (by
        simp only [length_toBytes, Layout.writeLogBase]
        omega)))
  case isFalse zero =>
    -- a zero cell is the erased one
    refine ⟨rfl, rfl, ?_, fun _ h => h⟩
    have zeros := ofBytes_eq_zero.1 (not_not.1 zero)
    funext i
    by_cases hi : L.pageBaseAddress + L.unit * k ≤ i ∧ i - (L.pageBaseAddress + L.unit * k) < L.unit
    · rw [patch_inside hi.1 (by simpa using hi.2), List.getElem_map,
        zeros _ (List.getElem_mem _), blank i hi.1 (by omega)]
      rfl
    · rw [patch_outside (by simp; omega)]

/-- Compaction makes the flash stand for the buffer, whatever it held before. -/
theorem eepromCompact_spec (F : LogFormat L) (s : State) :
    (eepromCompact L s).1 = some .complete ∧ (eepromCompact L s).2.dataBuf = s.dataBuf ∧
      (eepromCompact L s).2.emptySlot = L.writeLogBase ∧
      Sound L F (eepromCompact L s).2.flash L.writeLogBase s.dataBuf ∧
      Blank (eepromCompact L s).2.flash L.writeLogBase L.writeLogBytes ∧
      ∀ m₀, History L F m₀ s → History L F m₀ (eepromCompact L s).2 := by
  obtain ⟨hd₀, hs₀, blank₀, hist₀⟩ := eepromClear_spec F s
  have cells : ∀ n, L.unit * n ≤ L.densityBytes → ∀ t, t = (List.range n).foldl (compactCell L)
      (eepromClear L s) → t.dataBuf = s.dataBuf ∧ t.emptySlot = L.writeLogBase ∧
      (∀ i, i < L.unit * n → t.flash (L.pageBaseAddress + i) = ~~~s.dataBuf i) ∧
      Blank t.flash (L.pageBaseAddress + L.unit * n) (L.pageCount * L.pageSize - L.unit * n) ∧
      ∀ m₀, History L F m₀ s → History L F m₀ t := by
    intro n hn
    have fits := L.fits
    induction n with
    | zero =>
      rintro t rfl
      exact ⟨hd₀, hs₀, by simp, blank₀.sub (by simp) (by simp), hist₀⟩
    | succ n ih =>
      rintro t rfl
      have hn' := hn
      rw [Nat.mul_succ] at hn
      rw [List.range_succ, List.foldl_append, List.foldl_cons, List.foldl_nil]
      obtain ⟨hd, hs, low, high, hist⟩ := ih (by omega) _ rfl
      obtain ⟨hd', hs', hf', hist'⟩ := compactCell_spec F hn' (high.sub (Nat.le_refl _) (by omega))
        (high.sub (by simp only [Layout.writeLogBase]; omega) (by simp only [Layout.writeLogBase]; omega))
      rw [hd] at hf'
      refine ⟨hd'.trans hd, hs'.trans hs, fun i hi => ?_, ?_, fun m₀ h => hist' m₀ (hist m₀ h)⟩
      · rw [hf']
        rw [Nat.mul_succ] at hi
        rcases Nat.lt_or_ge i (L.unit * n) with h | h
        · rw [patch_below (by omega), low i h]
        · rw [patch_inside (by omega) (by simp; omega), List.getElem_map, getElem_slice]
          congr 2
          omega
      · rw [hf', Nat.mul_succ]
        exact (high.sub (by omega) (by omega)).patch (Or.inr (by simp; omega))
  have all : L.unit * (L.densityBytes / L.unit) = L.densityBytes :=
    Nat.mul_div_cancel' (Nat.dvd_of_mod_eq_zero L.density_mod)
  have fits := L.fits
  obtain ⟨hd, hs, low, high, hist⟩ := cells (L.densityBytes / L.unit) (by omega) _ rfl
  rw [all] at low high
  have logBlank := high.sub (b := L.writeLogBase) (k := L.writeLogBytes) (by simp [Layout.writeLogBase])
    (by simp only [Layout.writeLogBase]; omega)
  refine ⟨rfl, hd, hs, Sound.of_blank_log logBlank fun i hi => ?_, logBlank, hist⟩
  have := low i hi
  rw [snapshot, eepromCompact, this, UInt8.not_not]

/-- The direct write: the cell was blank and now holds the buffer, or it was not. -/
theorem eepromWriteDirectEntry_spec {F : LogFormat L} {s : State} {data : Nat → UInt8}
    (h : Sound L F s.flash s.emptySlot data) {address : Nat} (ha : address < L.densityBytes)
    (same : ∀ j, j < L.densityBytes → L.cell j ≠ L.cell address → s.dataBuf j = data j) :
    (∃ s', eepromWriteDirectEntry L s address = (some .complete, s') ∧ s'.dataBuf = s.dataBuf ∧
      Sound L F s'.flash s'.emptySlot s.dataBuf ∧ ∀ m₀, History L F m₀ s → History L F m₀ s') ∨
    eepromWriteDirectEntry L s address = (none, s) ∧
      ¬ Blank s.flash (L.pageBaseAddress + L.cell address) L.unit := by
  simp only [eepromWriteDirectEntry]
  by_cases blank : Blank s.flash (L.pageBaseAddress + L.cell address) L.unit
  · left
    rw [if_pos (ofBytes_eq_empty.2 blank)]
    have direct := h.direct ha blank same
    have compl := toBytes_compl (slice s.dataBuf (L.cell address) L.unit)
    have lt := ofBytes_lt (slice s.dataBuf (L.cell address) L.unit)
    rw [length_slice] at compl lt
    have low := L.cell_end_le ha
    split
    case isTrue empty =>
      have zeros := ofBytes_eq_zero.1
        (show ofBytes (slice s.dataBuf (L.cell address) L.unit) = 0 by omega)
      have nothing : patch s.flash (L.pageBaseAddress + L.cell address)
          ((slice s.dataBuf (L.cell address) L.unit).map fun b => ~~~b) = s.flash := by
        funext i
        by_cases hi : L.pageBaseAddress + L.cell address ≤ i ∧
            i - (L.pageBaseAddress + L.cell address) < L.unit
        · rw [patch_inside hi.1 (by simpa using hi.2), List.getElem_map,
            zeros _ (List.getElem_mem _), blank i hi.1 (by omega)]
          rfl
        · rw [patch_outside (by simp; omega)]
      rw [nothing] at direct
      exact ⟨s, rfl, rfl, direct, fun _ h => h⟩
    case isFalse =>
      rw [← compl] at direct
      refine ⟨_, rfl, rfl, direct, fun m₀ h => h.issue _ ⟨?_, by omega, ?_, by simp, blank⟩ fun _ =>
        recoverable_iff.2 ⟨_, _, direct⟩⟩
      · rw [Nat.add_mod, L.base_mod, Layout.cell_mod]
        exact Nat.zero_mod _
      · simp only [Layout.writeLogLast]
        omega
  · right
    rw [if_neg (mt ofBytes_eq_empty.1 blank)]
    exact ⟨rfl, blank⟩

end Compaction

end QmkFirmware.Eeprom
