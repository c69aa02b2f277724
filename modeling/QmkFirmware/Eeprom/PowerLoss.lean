import QmkFirmware.Eeprom.L4Durability
import QmkFirmware.Eeprom.LegacyDurability

/-!
# Power loss

Power may be lost between any two flash operations of a run. The flash left is
one the drivers recover from, except inside `eeprom_clear`: when the first pages
are erased and a later one still holds the old log, that log is read again, over
cells that are blank now or behind the entries written since.
-/

namespace QmkFirmware.Eeprom
open Lib

/-! ## Flash at power up -/

/-- The flash that a driver can find when it starts: erased, or left by a power cut
after the first `k` operations of a run on such flash. `Ran m ops` are the
operations of the runs on the flash `m`, and `Spared m ops` those of the runs
that keep the log in order. A cut is spared by a run of the second kind outside
`eeprom_clear`, or if the flash left happens to be recoverable. -/
inductive PoweredUp {L : Layout} (F : LogFormat L) (Ran Spared : (Nat → UInt8) → List FlashOp → Prop) :
    (Nat → UInt8) → Prop where
  | erased {m : Nat → UInt8} (blank : Blank m L.pageBaseAddress (L.pageCount * L.pageSize)) :
      PoweredUp F Ran Spared m
  | cut {m : Nat → UInt8} (before : PoweredUp F Ran Spared m) {ops : List FlashOp} (ran : Ran m ops)
      (k : Nat) (spared : Spared m ops ∧ ¬ InClear L (ops.take k) ∨
        Recoverable L F (applyOps L m (ops.take k))) :
      PoweredUp F Ran Spared (applyOps L m (ops.take k))

theorem PoweredUp.recoverable {L : Layout} {F : LogFormat L}
    {Ran Spared : (Nat → UInt8) → List FlashOp → Prop}
    (cuts : ∀ m ops, Recoverable L F m → Spared m ops → ∀ k, ¬ InClear L (ops.take k) →
      Recoverable L F (applyOps L m (ops.take k)))
    {m : Nat → UInt8} (h : PoweredUp F Ran Spared m) : Recoverable L F m := by
  have fits := L.fits
  induction h with
  | erased blank =>
    exact Recoverable.of_blank_log (blank.sub (by simp [Layout.writeLogBase])
      (by simp only [Layout.writeLogBase]; omega))
  | cut before ran k spared ih =>
    rcases spared with ⟨spared, out⟩ | spared
    · exact cuts _ _ ih spared k out
    · exact spared

namespace L4

variable {c : Config}

/-- The flash operations of a run on the flash `m`. -/
def Ran (c : Config) (m : Nat → UInt8) (trace : List FlashOp) : Prop :=
  ∃ ops, (∀ op ∈ ops, op.InRange c) ∧ InitialisedFirst ops ∧ trace = (run c (State.start m) ops).trace

/-- The start and the writes after it. -/
def restart (blocks : List (Patch UInt8)) : List Op :=
  .init :: blocks.map fun b => .writeBlock b.addr b.data

theorem cuts_of_run (m : Nat → UInt8) (trace : List FlashOp)
    (h : Recoverable c.toLayout (format c) m) (ran : Ran c m trace) (k : Nat)
    (out : ¬ InClear c.toLayout (trace.take k)) :
    Recoverable c.toLayout (format c) (applyOps c.toLayout m (trace.take k)) := by
  obtain ⟨ops, range, first, rfl⟩ := ran
  obtain ⟨slot, a, sound⟩ := recoverable_iff.1 h
  rcases synced_of_first sound range first with rfl | synced
  · exact (History.start h).cuts k out
  · exact synced.history.cuts k out

/-- After power loss the driver keeps what is written from then on. -/
theorem durable_of_poweredUp {m : Nat → UInt8} (h : PoweredUp (format c) (Ran c) (Ran c) m)
    {blocks : List (Patch UInt8)} (below : ∀ b ∈ blocks, b.Below c.densityBytes) {ram : State}
    (same : ram.flash = (run c (State.start m) (restart blocks)).flash) (a : Nat → UInt8) {i : Nat}
    (written : ∃ b ∈ blocks, b.Covers i) : (eepromInit c noEcc ram).2.dataBuf i = replay a blocks i := by
  obtain ⟨slot, data, sound⟩ := recoverable_iff.1 (h.recoverable cuts_of_run)
  have range : ∀ op ∈ restart blocks, op.InRange c := by
    intro op hop
    rcases List.mem_cons.1 hop with rfl | hop
    · trivial
    · obtain ⟨b, hb, rfl⟩ := List.mem_map.1 hop
      exact below b hb
  rcases synced_of_first sound range trivial with e | synced
  · cases e
  · obtain ⟨b, hb, hc⟩ := written
    have hi : i < c.densityBytes := Nat.lt_of_lt_of_le hc.2 (below b hb)
    have run := synced.running
    rw [Running, ← same] at run
    obtain ⟨-, -, -, -, reload⟩ := eepromInit_spec run
    rw [reload i hi, synced.data i hi, restart, List.foldl_cons, List.foldl_map]
    exact replay_of_covered ⟨b, hb, hc⟩

end L4

namespace Legacy

variable {c : Config}

/-- The flash operations of a run on the flash `m`. -/
def Ran (c : Config) (m : Nat → UInt8) (trace : List FlashOp) : Prop :=
  ∃ ops, (∀ op ∈ ops, op.InRange c) ∧ InitialisedFirst ops ∧ trace = (run c (State.start m) ops).trace

/-- Those of a run that splits no zero. -/
def RanSpared (c : Config) (m : Nat → UInt8) (trace : List FlashOp) : Prop :=
  ∃ ops, (∀ op ∈ ops, op.InRange c) ∧ InitialisedFirst ops ∧ RunSpared c (State.start m) ops ∧
    trace = (run c (State.start m) ops).trace

/-- The start and the writes after it. -/
def restart (blocks : List (Patch UInt8)) : List Op :=
  .init :: blocks.map fun b => .writeBlock b.addr b.data

theorem cuts_of_run (m : Nat → UInt8) (trace : List FlashOp)
    (h : Recoverable c.toLayout (format c) m) (ran : RanSpared c m trace) (k : Nat)
    (out : ¬ InClear c.toLayout (trace.take k)) :
    Recoverable c.toLayout (format c) (applyOps c.toLayout m (trace.take k)) := by
  obtain ⟨ops, range, first, spared, rfl⟩ := ran
  obtain ⟨slot, a, sound⟩ := recoverable_iff.1 h
  rcases synced_of_first sound range first spared with rfl | synced
  · exact (History.start h).cuts k out
  · exact synced.history.cuts k out

/-- After power loss the driver keeps what is written from then on. -/
theorem durable_of_poweredUp {m : Nat → UInt8} (h : PoweredUp (format c) (Ran c) (RanSpared c) m)
    {blocks : List (Patch UInt8)} (below : ∀ b ∈ blocks, b.Below c.densityBytes)
    (spared : RunSpared c (State.start m) (restart blocks)) {ram : State}
    (same : ram.flash = (run c (State.start m) (restart blocks)).flash) (a : Nat → UInt8) {i : Nat}
    (written : ∃ b ∈ blocks, b.Covers i) : (eepromInit c ram).2.dataBuf i = replay a blocks i := by
  obtain ⟨slot, data, sound⟩ := recoverable_iff.1 (h.recoverable cuts_of_run)
  have range : ∀ op ∈ restart blocks, op.InRange c := by
    intro op hop
    rcases List.mem_cons.1 hop with rfl | hop
    · trivial
    · obtain ⟨b, hb, rfl⟩ := List.mem_map.1 hop
      exact below b hb
  rcases synced_of_first sound range trivial spared with e | synced
  · cases e
  · obtain ⟨b, hb, hc⟩ := written
    have hi : i < c.densityBytes := Nat.lt_of_lt_of_le hc.2 (below b hb)
    have run := synced.running
    rw [Running, ← same] at run
    obtain ⟨-, -, -, reload⟩ := eepromInit_spec run
    rw [reload i hi, synced.data i hi, restart, List.foldl_cons, List.foldl_map]
    exact replay_of_covered ⟨b, hb, hc⟩

end Legacy

/-- After any number of spared power cuts, and a start, every address written since
then reads after a further start as what was written there last. -/
theorem durable_after_power_loss (l4 : L4.Config) (legacy : Legacy.Config) (m : Nat → UInt8)
    (blocks : List (Patch UInt8)) (a : Nat → UInt8) (i : Nat) (written : ∃ b ∈ blocks, b.Covers i) :
    (PoweredUp (L4.format l4) (L4.Ran l4) (L4.Ran l4) m → (∀ b ∈ blocks, b.Below l4.densityBytes) →
      ∀ ram : State, ram.flash = (L4.run l4 (State.start m) (L4.restart blocks)).flash →
        (L4.eepromInit l4 L4.noEcc ram).2.dataBuf i = replay a blocks i) ∧
    (PoweredUp (Legacy.format legacy) (Legacy.Ran legacy) (Legacy.RanSpared legacy) m →
      (∀ b ∈ blocks, b.Below legacy.densityBytes) →
      Legacy.RunSpared legacy (State.start m) (Legacy.restart blocks) →
      ∀ ram : State, ram.flash = (Legacy.run legacy (State.start m) (Legacy.restart blocks)).flash →
        (Legacy.eepromInit legacy ram).2.dataBuf i = replay a blocks i) :=
  ⟨fun h below _ same => L4.durable_of_poweredUp h below same a written,
    fun h below spared _ same => Legacy.durable_of_poweredUp h below spared same a written⟩

/-- A cut behind the first programmed cell, and a cut inside a compaction behind
the last page erased. -/
theorem small_durable :
    (L4.eepromInit L4.smallConfig L4.noEcc (L4.run L4.smallConfig (State.start
      (applyOps L4.smallConfig.toLayout (fun _ => 0xFF) ((L4.run L4.smallConfig (State.start fun _ => 0xFF)
        [.init, .writeBlock 0 [1, 2], .writeBlock 0 [3, 4]]).trace.take 1)))
      (L4.restart [⟨0, [9]⟩, ⟨1, [8, 7]⟩]))).2.dataBuf 1 = 8 ∧
    (Legacy.eepromInit Legacy.smallConfig (Legacy.run Legacy.smallConfig (State.start
      (applyOps Legacy.smallConfig.toLayout (fun _ => 0xFF)
        ((Legacy.run Legacy.smallConfig (State.start fun _ => 0xFF)
          [.init, .writeByte 0 1, .writeByte 0 2, .writeByte 0 3, .writeByte 0 4, .writeByte 0 5,
            .writeBlock 0 [6]]).trace.take 7)))
      (Legacy.restart [⟨0, [9]⟩, ⟨0, [8, 7]⟩]))).2.dataBuf 1 = 7 := by
  refine ⟨?_, ?_⟩
  · have cut : PoweredUp (L4.format L4.smallConfig) (L4.Ran L4.smallConfig) (L4.Ran L4.smallConfig)
        (applyOps L4.smallConfig.toLayout (fun _ => 0xFF) ((L4.run L4.smallConfig (State.start fun _ => 0xFF)
          [.init, .writeBlock 0 [1, 2], .writeBlock 0 [3, 4]]).trace.take 1)) :=
      have ran : L4.Ran L4.smallConfig (fun _ => 0xFF) (L4.run L4.smallConfig (State.start fun _ => 0xFF)
          [.init, .writeBlock 0 [1, 2], .writeBlock 0 [3, 4]]).trace :=
        ⟨[.init, .writeBlock 0 [1, 2], .writeBlock 0 [3, 4]], by decide, trivial, rfl⟩
      .cut (.erased fun _ _ _ => rfl) ran 1 (Or.inl ⟨ran, by decide⟩)
    exact (durable_after_power_loss L4.smallConfig Legacy.smallConfig _ [⟨0, [9]⟩, ⟨1, [8, 7]⟩]
      (fun _ => 0) 1 (by decide)).1 cut (by decide) _ rfl
  · have cut : PoweredUp (Legacy.format Legacy.smallConfig) (Legacy.Ran Legacy.smallConfig)
        (Legacy.RanSpared Legacy.smallConfig)
        (applyOps Legacy.smallConfig.toLayout (fun _ => 0xFF)
          ((Legacy.run Legacy.smallConfig (State.start fun _ => 0xFF)
            [.init, .writeByte 0 1, .writeByte 0 2, .writeByte 0 3, .writeByte 0 4, .writeByte 0 5,
              .writeBlock 0 [6]]).trace.take 7)) :=
      .cut (.erased fun _ _ _ => rfl)
        ⟨[.init, .writeByte 0 1, .writeByte 0 2, .writeByte 0 3, .writeByte 0 4, .writeByte 0 5,
          .writeBlock 0 [6]], by decide, trivial, rfl⟩ 7
        (Or.inl ⟨⟨[.init, .writeByte 0 1, .writeByte 0 2, .writeByte 0 3, .writeByte 0 4, .writeByte 0 5,
          .writeBlock 0 [6]], by decide, trivial, by decide, rfl⟩, by decide⟩)
    exact (durable_after_power_loss L4.smallConfig Legacy.smallConfig _ [⟨0, [9]⟩, ⟨0, [8, 7]⟩]
      (fun _ => 0) 1 (by decide)).2 cut (by decide) (by decide) _ rfl

/-- Power is lost between the two page erases of a compaction. For the first
driver the old entries of the second page follow the two new ones and bring back
7 where 11 was written last; for the second one the old log, untouched, brings
back 5 over the 9 written directly. -/
theorem cut_in_clear_loses_write :
    (L4.eepromInit L4.smallConfig L4.noEcc (L4.run L4.smallConfig (State.start
      (applyOps L4.smallConfig.toLayout (fun _ => 0xFF) ((L4.run L4.smallConfig (State.start fun _ => 0xFF)
        [.init, .writeBlock 0 [1], .writeBlock 0 [2], .writeBlock 0 [3], .writeBlock 0 [4],
          .writeBlock 0 [5], .writeBlock 0 [6], .writeBlock 0 [7], .writeBlock 0 [8]]).trace.take 8)))
      (L4.restart [⟨0, [9]⟩, ⟨0, [10]⟩, ⟨0, [11]⟩]))).2.dataBuf 0 = 7 ∧
    (Legacy.eepromInit Legacy.smallConfig (Legacy.run Legacy.smallConfig (State.start
      (applyOps Legacy.smallConfig.toLayout (fun _ => 0xFF)
        ((Legacy.run Legacy.smallConfig (State.start fun _ => 0xFF)
          [.init, .writeBlock 0 [1], .writeBlock 0 [2], .writeBlock 0 [3], .writeBlock 0 [4],
            .writeBlock 0 [5], .writeBlock 0 [6]]).trace.take 6)))
      (Legacy.restart [⟨0, [9]⟩]))).2.dataBuf 0 = 5 := by
  decide +kernel

end QmkFirmware.Eeprom
