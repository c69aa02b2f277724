import Mathlib
import QmkFirmware.Lib.Run
import QmkFirmware.Oled.Render

/-!
# The panel shows what is drawn

Over any run of the OLED driver, with transfers that fail at any time, whatever on the panel
is not as it was drawn is in a block that is marked; and when the transfers succeed again, so many
renders as it takes to send all blocks make the panel show what is drawn.
-/

namespace QmkFirmware.Oled
open Lib

section Render

variable {d : Display} {σ : Type} {p : Panel σ} (sc : Screen d p) {s s' s'' : State d σ} {rotation : Rotation}

/-- What differs on the panel is marked. -/
def Marked (rotation : Rotation) (s : State d σ) : Prop :=
  Coherent (fun q : Dot d rotation => q.block) (fun b => s.dirty.getLsbD b = true) (fun q => q.drawn s.buffer)
    fun q => q.shown (sc.ram s.panel)

/-- What a call that sends something leaves alone -/
structure Kept (s s' : State d σ) : Prop where
  buffer : s'.buffer = s.buffer
  cursor : s'.cursor = s.cursor
  initialized : s'.initialized = s.initialized
  scrolling : s'.scrolling = s.scrolling
  rotation : s'.rotation = s.rotation
  rotationWidth : s'.rotationWidth = s.rotationWidth
  scrolls : sc.scrolls s'.panel → sc.scrolls s.panel

variable {sc}

theorem Kept.refl : Kept sc s s := ⟨rfl, rfl, rfl, rfl, rfl, rfl, id⟩

theorem Kept.trans (h : Kept sc s s') (h' : Kept sc s' s'') : Kept sc s s'' :=
  ⟨h'.buffer.trans h.buffer, h'.cursor.trans h.cursor, h'.initialized.trans h.initialized, h'.scrolling.trans h.scrolling,
    h'.rotation.trans h.rotation, h'.rotationWidth.trans h.rotationWidth, h.scrolls ∘ h'.scrolls⟩

theorem command_quiet {panel : σ} {cmd : List Byte} (quiet : cmd.getLast? ≠ some ACTIVATE_SCROLL)
    (h : sc.scrolls (p.transmit panel (I2C_CMD :: cmd)).1) : sc.scrolls panel :=
  (sc.command_scrolls _ _ h).resolve_right fun started => quiet started.2

/-- The last page of a window is not the command that starts scrolling. -/
theorem bounds_pageEnd (updateStart : Nat) : (s.bounds updateStart).pageEnd ≠ ACTIVATE_SCROLL := by
  have hle := d.height_le
  have hlt := d.width_lt
  have hpos := d.height_pos
  have value : ACTIVATE_SCROLL.toNat = 47 := rfl
  have small : (s.bounds updateStart).pageEnd.toNat < 47 := by
    unfold State.bounds
    split
    · have : (d.height + d.height - 1) % d.height < d.height := Nat.mod_lt _ hpos
      unfold Display.calcBounds90
      rw [d.blockSize_eq]
      dsimp only
      rw [BitVec.toNat_ofNat]
      omega
    · have : (d.height + d.width - 1) / d.width < 3 := Nat.div_lt_of_lt_mul (by omega)
      unfold Display.calcBounds
      rw [d.blockSize_eq]
      dsimp only
      rw [BitVec.toNat_ofNat]
      omega
  intro eq
  rw [eq, value] at small
  omega

theorem clear_other {n : Nat} {dirty : BitVec n} {a b : Nat} (ne : b ≠ a) :
    (dirty &&& ~~~BitVec.twoPow n a).getLsbD b = dirty.getLsbD b := by
  rw [BitVec.getLsbD_and, BitVec.getLsbD_not, BitVec.getLsbD_twoPow, decide_eq_false (Ne.symm ne), Bool.and_false, Bool.not_false,
    Bool.and_true]
  by_cases lt : b < n
  · rw [decide_eq_true lt, Bool.and_true]
  · rw [BitVec.getLsbD_of_ge _ _ (Nat.le_of_not_lt lt), Bool.false_and]

theorem clear_self {n : Nat} {dirty : BitVec n} {a : Nat} : (dirty &&& ~~~BitVec.twoPow n a).getLsbD a = false := by
  rw [BitVec.getLsbD_and, BitVec.getLsbD_not, BitVec.getLsbD_twoPow, decide_eq_true rfl, Bool.and_true]
  cases decide (a < n) <;> simp

/-- **A block that is sent**, or not: nothing else on the panel changes, and the mark goes only when all is there. -/
theorem renderBlock_marked (turn : s.rotation = rotation) {updateStart : Nat} (lt : updateStart < d.blockCount)
    (h : Marked sc rotation s) :
    Kept sc s (renderBlock p s updateStart).1 ∧ Marked sc rotation (renderBlock p s updateStart).1 := by
  have quiet : ∀ panel, sc.scrolls (p.transmit panel (s.bounds updateStart).command).1 → sc.scrolls panel := by
    intro panel
    apply command_quiet
    intro last
    rw [List.getLast?_cons_cons, List.getLast?_cons_cons, List.getLast?_cons_cons, List.getLast?_cons_cons, List.getLast?_cons_cons,
      List.getLast?_singleton] at last
    exact bounds_pageEnd updateStart (Option.some.inj last)
  have same : sc.ram (p.transmit s.panel (s.bounds updateStart).command).1 = sc.ram s.panel := sc.command_ram _ _
  unfold renderBlock
  dsimp only
  cases sent : (p.transmit s.panel (s.bounds updateStart).command).2 with
  | false =>
    refine ⟨⟨rfl, rfl, rfl, rfl, rfl, rfl, quiet s.panel⟩, ?_⟩
    unfold Marked
    simp only [Bool.not_false, if_true]
    rw [same]
    exact h
  | true =>
    have window := sc.command_window _ _ sent
    have holds : (sc.window (p.transmit s.panel (s.bounds updateStart).command).1).Holds d (s.chunk updateStart).length := by
      rw [window, length_chunk]
      exact (bounds_place turn lt).1
    have places := sc.data_places _ _ holds
    have whole := sc.data_sent _ _ holds
    rw [window] at places whole
    rw [same] at places
    -- every dot is as it was, or as it should be if it is in the block
    have part : ∀ q : Dot d rotation,
        q.shown (sc.ram (p.writeReg (p.transmit s.panel (s.bounds updateStart).command).1 I2C_DATA (s.chunk updateStart)).1) =
          q.shown (sc.ram s.panel) ∨ q.block = updateStart ∧
        q.shown (sc.ram (p.writeReg (p.transmit s.panel (s.bounds updateStart).command).1 I2C_DATA (s.chunk updateStart)).1) =
          q.drawn s.buffer := by
      intro q
      unfold Dot.shown
      rcases places q.page q.column with old | ⟨k, hk, here, new⟩
      · exact Or.inl (by rw [old])
      · obtain ⟨block, bit⟩ := chunk_dot turn lt q hk here
        exact Or.inr ⟨block, by rw [new, bit]⟩
    cases done : (p.writeReg (p.transmit s.panel (s.bounds updateStart).command).1 I2C_DATA (s.chunk updateStart)).2 with
    | false =>
      refine ⟨⟨rfl, rfl, rfl, rfl, rfl, rfl, fun scrolls => quiet _ (sc.data_scrolls _ _ scrolls)⟩, ?_⟩
      exact h.part fun q => (part q).imp_right fun new => new.2
    | true =>
      refine ⟨⟨rfl, rfl, rfl, rfl, rfl, rfl, fun scrolls => quiet _ (sc.data_scrolls _ _ scrolls)⟩, ?_⟩
      refine h.send (b := updateStart) (fun q here => ?_) (fun q other => ?_) (fun b ne marked => (clear_other ne).trans marked)
      · obtain ⟨k, hk, at_place⟩ := dot_chunk turn q here
        have hk' : k < (s.chunk updateStart).length := length_chunk ▸ hk
        have sent := whole done k hk'
        rw [at_place] at sent
        change (sc.ram _ q.page q.column).getLsbD q.bit = _
        exact (congrArg (fun byte => BitVec.getLsbD byte q.bit) sent).trans (chunk_dot turn lt q hk' at_place).2
      · exact (part q).resolve_right fun new => other new.1

/-! ## The loop -/

theorem nextDirty_spec (fuel : Nat) {n a b : Nat} {dirty : BitVec n} (le : a ≤ b) (lt : b < a + fuel) (set : dirty.getLsbD b = true) :
    dirty.getLsbD (nextDirty dirty fuel a) = true ∧ ∀ c, a ≤ c → c < nextDirty dirty fuel a → dirty.getLsbD c = false := by
  induction fuel generalizing a with
  | zero => omega
  | succ fuel ih =>
    unfold nextDirty
    split
    next here => exact ⟨here, fun c le lt => by omega⟩
    next clear =>
      have more : a ≠ b := fun eq => clear (eq ▸ set)
      obtain ⟨found, first⟩ := ih (a := a + 1) (by omega) (by omega)
      refine ⟨found, fun c le lt => ?_⟩
      rcases Nat.eq_or_lt_of_le le with rfl | later
      · exact Bool.not_eq_true _ ▸ clear
      · exact first c later lt

/-- Some block is marked, not below where the search starts. -/
theorem nextDirty_found {a : Nat} (below : ∀ b < a, s.dirty.getLsbD b = false) (some : s.dirty ≠ 0) :
    s.dirty.getLsbD (nextDirty s.dirty d.blockCount a) = true ∧
      ∀ c < nextDirty s.dirty d.blockCount a, s.dirty.getLsbD c = false := by
  have exists_set : ∃ b, s.dirty.getLsbD b = true := by
    by_contra none
    apply some
    apply BitVec.eq_of_getLsbD_eq
    intro b _
    exact (Bool.eq_false_iff.2 fun set => none ⟨b, set⟩).trans BitVec.getLsbD_zero.symm
  obtain ⟨b, set⟩ := exists_set
  have lt := BitVec.lt_of_getLsbD set
  have le : a ≤ b := by
    by_contra lt
    rw [below b (Nat.lt_of_not_le lt)] at set
    contradiction
  obtain ⟨found, first⟩ := nextDirty_spec d.blockCount le (by omega) set
  refine ⟨found, fun c lt => ?_⟩
  rcases Nat.lt_or_ge c a with low | high
  · exact below c low
  · exact first c high lt

/-- A block that is sent is the only one that loses its mark. -/
theorem renderBlock_below {a : Nat} (below : ∀ c < a, s.dirty.getLsbD c = false) :
    ∀ c < a, (renderBlock p s a).1.dirty.getLsbD c = false := by
  intro c lt
  unfold renderBlock
  dsimp only
  split
  · exact below c lt
  · split
    · exact below c lt
    · rw [clear_other (Nat.ne_of_lt lt)]
      exact below c lt

theorem renderLoop_marked (limit : Nat) {a : Nat} (turn : s.rotation = rotation) (below : ∀ b < a, s.dirty.getLsbD b = false)
    (h : Marked sc rotation s) : Kept sc s (renderLoop p limit a s) ∧ Marked sc rotation (renderLoop p limit a s) := by
  induction limit generalizing a s with
  | zero => exact ⟨Kept.refl, h⟩
  | succ limit ih =>
    unfold renderLoop
    split
    next => exact ⟨Kept.refl, h⟩
    next some =>
      obtain ⟨found, first⟩ := nextDirty_found below some
      have lt := BitVec.lt_of_getLsbD found
      obtain ⟨kept, marked⟩ := renderBlock_marked turn lt h
      dsimp only
      split
      next =>
        obtain ⟨kept', marked'⟩ := ih (kept.rotation.trans turn) (renderBlock_below first) marked
        exact ⟨kept.trans kept', marked'⟩
      next => exact ⟨kept, marked⟩

/-- A command that is not about scrolling -/
theorem command_marked {cmd : List Byte} (quiet : cmd.getLast? ≠ some ACTIVATE_SCROLL) (active : Bool) :
    Kept sc s { s with panel := (p.transmit s.panel (I2C_CMD :: cmd)).1, active := active } ∧
      (Marked sc rotation s → Marked sc rotation { s with panel := (p.transmit s.panel (I2C_CMD :: cmd)).1, active := active }) := by
  refine ⟨⟨rfl, rfl, rfl, rfl, rfl, rfl, command_quiet quiet⟩, fun h => ?_⟩
  unfold Marked
  dsimp only
  rw [sc.command_ram]
  exact h

theorem oledOn_marked (sc : Screen d p) (s : State d σ) (rotation : Rotation) :
    Kept sc s (oledOn p s) ∧ (Marked sc rotation s → Marked sc rotation (oledOn p s)) := by
  unfold oledOn
  split
  · exact ⟨Kept.refl, id⟩
  · exact command_marked (by decide) _

theorem oledOff_marked (sc : Screen d p) (s : State d σ) (rotation : Rotation) :
    Kept sc s (oledOff p s) ∧ (Marked sc rotation s → Marked sc rotation (oledOff p s)) := by
  unfold oledOff
  split
  · exact ⟨Kept.refl, id⟩
  · exact command_marked (by decide) _

theorem oledRender_marked (turn : s.rotation = rotation) (h : Marked sc rotation s) :
    Kept sc s (oledRender p s) ∧ Marked sc rotation (oledRender p s) := by
  unfold oledRender
  split
  · exact ⟨Kept.refl, h⟩
  · obtain ⟨kept, on⟩ := oledOn_marked sc s rotation
    have marked := on h
    obtain ⟨kept', marked'⟩ := renderLoop_marked d.updateProcessLimit (a := 0) (kept.rotation.trans turn)
      (fun b lt => absurd lt (Nat.not_lt_zero b)) marked
    exact ⟨kept.trans kept', marked'⟩

end Render

/-! ## Runs -/

/-- A call of the driver, or time that passes for the panel -/
inductive Call (σ : Type) where
  | clear
  | setCursor (col line : Byte)
  | advancePage (clearPageRemainder : Bool)
  | writeChar (data : Byte) (invert : Bool)
  | write (data : List Byte) (invert : Bool)
  | writeLn (data : List Byte) (invert : Bool)
  | pan (left : Bool)
  | writeRawByte (data : Byte) (index : BitVec 16)
  | writeRaw (data : List Byte)
  | writePixel (x y : Byte) (on : Bool)
  | on
  | off
  | setArea (startLine endLine : Byte)
  | setSpeed (speed : Fin 8)
  | scrollRight
  | scrollLeft
  | scrollOff
  | render
  | passes (panel : σ)

section Runs

variable {d : Display} {σ : Type} (p : Panel σ) (sc : Screen d p)

def State.step (s : State d σ) : Call σ → State d σ
  | .clear => oledClear s
  | .setCursor col line => oledSetCursor s col line
  | .advancePage clearPageRemainder => oledAdvancePage s clearPageRemainder
  | .writeChar data invert => oledWriteChar s data invert
  | .write data invert => oledWrite s data invert
  | .writeLn data invert => oledWriteLn s data invert
  | .pan left => oledPan s left
  | .writeRawByte data index => oledWriteRawByte s data index
  | .writeRaw data => oledWriteRaw s data
  | .writePixel x y on => oledWritePixel s x y on
  | .on => oledOn p s
  | .off => oledOff p s
  | .setArea startLine endLine => oledScrollSetArea s startLine endLine
  | .setSpeed speed => oledScrollSetSpeed s speed
  | .scrollRight => oledScrollRight p s
  | .scrollLeft => oledScrollLeft p s
  | .scrollOff => oledScrollOff p s
  | .render => oledRender p s
  | .passes panel => { s with panel := panel }

variable {p}

/-- The cursor is set to a place of the line, or so far down that it goes back to the start; a byte is written into the buffer;
and when time passes the panel changes its memory only where it scrolls. -/
def Proper (s : State d σ) : Call σ → Prop
  | .setCursor col line => col.toNat < s.rotationWidth / d.fontWidth ∨
      d.matrixSize ≤ (line.toNat * s.rotationWidth + col.toNat * d.fontWidth) % 2 ^ 16
  | .writeRawByte _ index => index.toNat < d.matrixSize
  | .passes panel => (sc.scrolls panel → sc.scrolls s.panel) ∧ (¬ sc.scrolls s.panel → sc.ram panel = sc.ram s.panel)
  | _ => True

variable {sc} {s s' : State d σ} {rotation : Rotation} {before : Nat → Byte}

/-- What holds between two calls -/
structure Inv (sc : Screen d p) (rotation : Rotation) (before : Nat → Byte) (s : State d σ) : Prop where
  ready : Ready s
  initialized : s.initialized = true
  turn : s.rotation = rotation
  outside : ∀ k, d.matrixSize ≤ k → s.buffer k = before k
  scrolls : sc.scrolls s.panel → s.scrolling = true
  marked : s.scrolling = false → Marked sc rotation s

theorem Drawn.inv (h : Inv sc rotation before s) (drawn : Drawn s s' ∧ Ready s') : Inv sc rotation before s' where
  ready := drawn.2
  initialized := drawn.1.initialized.trans h.initialized
  turn := drawn.1.rotation.trans h.turn
  outside k le := (drawn.1.outside k le).trans (h.outside k le)
  scrolls scrolls := by
    rw [drawn.1.panel] at scrolls
    rw [drawn.1.scrolling]
    exact h.scrolls scrolls
  marked still := by
    rw [drawn.1.scrolling] at still
    unfold Marked
    rw [drawn.1.panel]
    refine (h.marked still).draw drawn.1.kept fun q differs => drawn.1.marked _ q.index_lt fun same => differs ?_
    unfold Dot.drawn
    rw [same]

theorem Kept.inv (h : Inv sc rotation before s) (kept : Kept sc s s') (marked : s'.scrolling = false → Marked sc rotation s') :
    Inv sc rotation before s' where
  ready := ⟨by rw [kept.rotationWidth, kept.rotation, h.ready.rotationWidth], by rw [kept.cursor]; exact h.ready.cursor_lt,
    by rw [kept.cursor, kept.rotationWidth]; exact h.ready.fits⟩
  initialized := kept.initialized.trans h.initialized
  turn := kept.rotation.trans h.turn
  outside k le := by rw [kept.buffer, h.outside k le]
  scrolls scrolls := kept.scrolling.trans (h.scrolls (kept.scrolls scrolls))
  marked := marked

theorem all_marked (panel : σ) (scrolling : Bool) :
    Marked sc rotation { s with panel := panel, scrolling := scrolling, dirty := BitVec.allOnes _ } := by
  apply Coherent.all
  intro q
  rw [BitVec.getLsbD_allOnes, decide_eq_true_iff]
  exact q.block_lt

theorem oledScroll_inv (h : Inv sc rotation before s) (direction : Byte) : Inv sc rotation before (oledScroll p s direction) := by
  unfold oledScroll
  split
  next idle =>
    have still : s.scrolling = false := by
      simp only [Bool.and_eq_true, Bool.not_eq_true'] at idle
      exact idle.2
    refine ⟨⟨h.ready.1, h.ready.2, h.ready.3⟩, h.initialized, h.turn, h.outside, fun scrolls => ?_, fun failed => ?_⟩
    · rcases sc.command_scrolls _ _ scrolls with old | new
      · exact absurd (h.scrolls old) (Bool.eq_false_iff.1 still)
      · exact new.1
    · unfold Marked
      dsimp only
      rw [show s.scrollCommand direction = I2C_CMD :: (s.scrollCommand direction).tail from rfl, sc.command_ram]
      exact h.marked still
  next => exact h

theorem oledScrollOff_inv (h : Inv sc rotation before s) : Inv sc rotation before (oledScrollOff p s) := by
  unfold oledScrollOff
  split
  next scrolling =>
    dsimp only
    split
    next sent =>
      exact ⟨⟨h.ready.rotationWidth, h.ready.cursor_lt, h.ready.fits⟩, h.initialized, h.turn, h.outside,
        fun scrolls => absurd scrolls (sc.stops _ sent), fun _ => all_marked _ _⟩
    next =>
      rw [Bool.and_eq_true] at scrolling
      refine Kept.inv h ⟨rfl, rfl, rfl, rfl, rfl, rfl, command_quiet (by decide)⟩ fun still => ?_
      rw [scrolling.2] at still
      contradiction
  next => exact h

theorem oledSetCursor_ready (h : Ready s) {col line : Byte} (proper : Proper sc s (.setCursor col line)) :
    Ready (oledSetCursor s col line) := by
  unfold oledSetCursor
  dsimp only
  split
  next => exact h.zero
  next inside =>
    have lt := proper.resolve_right inside
    have wide := d.wide_pos s.rotation
    rw [← h.rotationWidth] at wide
    have room : col.toNat * d.fontWidth + d.fontWidth ≤ s.rotationWidth := by
      have le := Nat.mul_le_mul_right d.fontWidth (Nat.succ_le_of_lt lt)
      rw [Nat.succ_mul] at le
      exact le.trans (Nat.div_mul_le_self _ _)
    have small : s.rotationWidth < 256 := by
      have := d.height_le
      have := d.width_lt
      rw [h.rotationWidth]
      rcases d.wide_eq s.rotation with eq | eq <;> omega
    have fits : line.toNat * s.rotationWidth + col.toNat * d.fontWidth < 2 ^ 16 := by
      have := Nat.mul_le_mul (Nat.le_of_lt_succ line.isLt) (Nat.le_of_lt_succ small)
      have := d.fontWidth_pos
      omega
    refine ⟨h.rotationWidth, Nat.lt_of_not_le inside, ?_⟩
    dsimp only
    have := d.fontWidth_pos
    rw [Nat.mod_eq_of_lt fits, Nat.add_comm (line.toNat * s.rotationWidth), Nat.add_mul_mod_self_right, Nat.mod_eq_of_lt (by omega)]
    exact room

/-- **A call** -/
theorem Inv.step (h : Inv sc rotation before s) {call : Call σ} (proper : Proper sc s call) : Inv sc rotation before (s.step p call) := by
  have render : Kept sc s (oledRender p s) := by
    by_cases still : s.scrolling = false
    · exact (oledRender_marked h.turn (h.marked still)).1
    · unfold oledRender
      rw [if_pos (Or.inr (Or.inr (Bool.not_eq_false _ ▸ still)))]
      exact Kept.refl
  cases call with
  | clear => exact Drawn.inv h (oledClear_drawn h.ready)
  | setCursor col line => exact Drawn.inv h ⟨Drawn.cursor _, oledSetCursor_ready h.ready proper⟩
  | advancePage clearPageRemainder => exact Drawn.inv h (oledAdvancePage_drawn h.ready _)
  | writeChar data invert => exact Drawn.inv h (oledWriteChar_drawn h.ready _ _)
  | write data invert => exact Drawn.inv h (oledWrite_drawn h.ready _ _)
  | writeLn data invert =>
    obtain ⟨drawn, ready⟩ := oledWrite_drawn h.ready data invert
    obtain ⟨drawn', ready'⟩ := oledAdvancePage_drawn ready true
    exact Drawn.inv h ⟨drawn.trans drawn', ready'⟩
  | pan left => exact Drawn.inv h (oledPan_drawn h.ready _)
  | writeRawByte data index =>
    have inside : ¬ d.matrixSize < index.toNat := Nat.not_lt.2 (Nat.le_of_lt proper)
    change Inv sc rotation before (s.put _ data)
    rw [if_neg inside]
    obtain ⟨drawn, cursor⟩ := put_drawn (s := s) (show index.toNat < d.matrixSize from proper) data
    exact Drawn.inv h ⟨drawn, drawn.ready h.ready cursor⟩
  | writeRaw data => exact Drawn.inv h (oledWriteRaw_drawn h.ready _)
  | writePixel x y on => exact Drawn.inv h (oledWritePixel_drawn h.ready _ _ _)
  | setArea startLine endLine => exact ⟨⟨h.ready.1, h.ready.2, h.ready.3⟩, h.initialized, h.turn, h.outside, h.scrolls, h.marked⟩
  | setSpeed speed => exact ⟨⟨h.ready.1, h.ready.2, h.ready.3⟩, h.initialized, h.turn, h.outside, h.scrolls, h.marked⟩
  | scrollRight => exact oledScroll_inv h _
  | scrollLeft => exact oledScroll_inv h _
  | scrollOff => exact oledScrollOff_inv h
  | on =>
    obtain ⟨kept, marked⟩ := oledOn_marked sc s rotation
    exact kept.inv h fun still => marked (h.marked (kept.scrolling ▸ still))
  | off =>
    obtain ⟨kept, marked⟩ := oledOff_marked sc s rotation
    exact kept.inv h fun still => marked (h.marked (kept.scrolling ▸ still))
  | render => exact render.inv h fun still => (oledRender_marked h.turn (h.marked (render.scrolling ▸ still))).2
  | passes panel =>
    refine ⟨⟨h.ready.1, h.ready.2, h.ready.3⟩, h.initialized, h.turn, h.outside, fun scrolls => h.scrolls (proper.1 scrolls),
      fun still => ?_⟩
    unfold Marked
    change Coherent _ _ _ fun q : Dot d rotation => q.shown (sc.ram panel)
    rw [proper.2 fun scrolls => Bool.false_ne_true (still.symm.trans (h.scrolls scrolls))]
    exact h.marked still

/-- What a start that succeeds leaves -/
theorem oledInit_started {s₀ : State d σ} (started : (oledInit p s₀ rotation).2 = true) :
    ∃ panel, (p.transmit panel d.displaySetup2).2 = true ∧ (oledInit p s₀ rotation).1 =
      { oledClear { s₀ with
          rotation := rotation, rotationWidth := d.wide rotation, panel := (p.transmit panel d.displaySetup2).1 } with
        initialized := true, active := true, scrolling := false } := by
  unfold oledInit at started ⊢
  dsimp only at started ⊢
  split at started
  next => contradiction
  next first =>
    split at started
    next => contradiction
    next second =>
      split at started
      next => contradiction
      next third =>
        rw [if_neg first, if_neg second, if_neg third]
        exact ⟨_, by rwa [Bool.not_eq_true, Bool.not_eq_false'] at third, rfl⟩

theorem oledInit_inv {s₀ : State d σ} (started : (oledInit p s₀ rotation).2 = true) :
    Inv sc rotation s₀.buffer (oledInit p s₀ rotation).1 := by
  obtain ⟨panel, sent, eq⟩ := oledInit_started started
  rw [eq]
  refine ⟨⟨rfl, ?_, ?_⟩, rfl, rfl, fun k le => ?_, fun scrolls => absurd scrolls (sc.setup_stops _ sent), fun _ => ?_⟩
  · exact d.matrixSize_eq ▸ Nat.mul_pos d.height_pos d.blockCount_pos
  · change 0 % d.wide rotation + d.fontWidth ≤ d.wide rotation
    rw [Nat.zero_mod, Nat.zero_add]
    exact d.fontWidth_le_wide rotation
  · change patch s₀.buffer 0 (List.replicate d.matrixSize 0) k = s₀.buffer k
    apply patch_above
    rw [List.length_replicate]
    omega
  · exact all_marked (s := { oledClear { s₀ with rotation := rotation, rotationWidth := d.wide rotation } with initialized := true }) _ false

/-! ## Transfers that succeed -/

/-- As long as `up` holds of the panel every transfer is a success. -/
structure Answers (p : Panel σ) (up : σ → Prop) : Prop where
  transmit : ∀ s cmd, up s → (p.transmit s cmd).2 = true ∧ up (p.transmit s cmd).1
  writeReg : ∀ s data, up s → (p.writeReg s I2C_DATA data).2 = true ∧ up (p.writeReg s I2C_DATA data).1

/-- The blocks that are marked -/
def State.dirtyBlocks (s : State d σ) : Finset Nat := (Finset.range d.blockCount).filter fun b => s.dirty.getLsbD b = true

theorem dirty_eq_zero : s.dirty = 0 ↔ s.dirtyBlocks = ∅ := by
  unfold State.dirtyBlocks
  constructor
  · intro zero
    rw [zero, Finset.filter_eq_empty_iff]
    intro b _
    rw [BitVec.ofNat_eq_ofNat, BitVec.getLsbD_zero]
    exact Bool.false_ne_true
  · intro empty
    apply BitVec.eq_of_getLsbD_eq
    intro b lt
    rw [Finset.filter_eq_empty_iff] at empty
    exact (Bool.eq_false_iff.2 (empty (Finset.mem_range.2 lt))).trans BitVec.getLsbD_zero.symm

variable {up : σ → Prop}

theorem renderLoop_up (answers : Answers p up) (limit : Nat) {a : Nat} (below : ∀ b < a, s.dirty.getLsbD b = false) (h : up s.panel) :
    up (renderLoop p limit a s).panel ∧ (renderLoop p limit a s).dirtyBlocks.card ≤ s.dirtyBlocks.card - limit := by
  induction limit generalizing a s with
  | zero => exact ⟨h, le_rfl⟩
  | succ limit ih =>
    unfold renderLoop
    split
    next zero =>
      refine ⟨h, ?_⟩
      rw [dirty_eq_zero.1 zero]
      exact Nat.zero_le _
    next some =>
      obtain ⟨found, first⟩ := nextDirty_found below some
      have lt := BitVec.lt_of_getLsbD found
      dsimp only
      generalize nextDirty s.dirty d.blockCount a = b at *
      obtain ⟨started, upStarted⟩ := answers.transmit s.panel (s.bounds b).command h
      obtain ⟨sent, upSent⟩ := answers.writeReg (p.transmit s.panel (s.bounds b).command).1 (s.chunk b) upStarted
      have block : renderBlock p s b = ({ s with
          panel := (p.writeReg (p.transmit s.panel (s.bounds b).command).1 I2C_DATA (s.chunk b)).1,
          dirty := s.dirty &&& ~~~BitVec.twoPow _ b }, true) := by
        unfold renderBlock
        dsimp only
        rw [started, sent]
        rfl
      have cleared : (renderBlock p s b).1.dirtyBlocks = s.dirtyBlocks.erase b := by
        rw [block]
        ext c
        unfold State.dirtyBlocks
        rw [Finset.mem_erase, Finset.mem_filter, Finset.mem_filter]
        dsimp only
        by_cases here : c = b
        · rw [here, clear_self]
          simp
        · rw [clear_other here]
          simp [here]
      have member : b ∈ s.dirtyBlocks := Finset.mem_filter.2 ⟨Finset.mem_range.2 lt, found⟩
      have fewer := Finset.card_erase_of_mem member
      obtain ⟨up', le⟩ := ih (renderBlock_below (p := p) first) (by rw [block]; exact upSent)
      rw [if_pos (by rw [block])]
      refine ⟨up', ?_⟩
      rw [cleared] at le
      omega

/-- A render that succeeds has so many blocks less to do. -/
theorem oledRender_up (answers : Answers p up) (initialized : s.initialized = true) (still : s.scrolling = false) (h : up s.panel) :
    up (oledRender p s).panel ∧ (oledRender p s).dirtyBlocks.card ≤ s.dirtyBlocks.card - d.updateProcessLimit := by
  unfold oledRender
  split
  next idle =>
    refine ⟨h, ?_⟩
    have zero : s.dirty = 0 := by
      rcases idle with zero | off | scrolling
      · exact zero
      · rw [off] at initialized
        contradiction
      · rw [still] at scrolling
        contradiction
    rw [dirty_eq_zero.1 zero]
    exact Nat.zero_le _
  next =>
    have on : up (oledOn p s).panel ∧ (oledOn p s).dirty = s.dirty := by
      unfold oledOn
      split
      · exact ⟨h, rfl⟩
      · exact ⟨(answers.transmit _ _ h).2, rfl⟩
    obtain ⟨up', le⟩ := renderLoop_up answers d.updateProcessLimit (a := 0) (fun b lt => absurd lt (Nat.not_lt_zero b)) on.1
    refine ⟨up', ?_⟩
    have same : (oledOn p s).dirtyBlocks = s.dirtyBlocks := by
      unfold State.dirtyBlocks
      rw [on.2]
    rwa [same] at le

/-- So many renders -/
theorem renders (answers : Answers p up) (h : Inv sc rotation before s) (still : s.scrolling = false) (ok : up s.panel) (n : Nat) :
    Inv sc rotation before ((oledRender p)^[n] s) ∧ ((oledRender p)^[n] s).scrolling = false ∧
      ((oledRender p)^[n] s).buffer = s.buffer ∧ up ((oledRender p)^[n] s).panel ∧
      ((oledRender p)^[n] s).dirtyBlocks.card ≤ s.dirtyBlocks.card - n * d.updateProcessLimit := by
  induction n with
  | zero => exact ⟨h, still, rfl, ok, by rw [Nat.zero_mul]; exact le_rfl⟩
  | succ n ih =>
    obtain ⟨inv, still', buffer, ok', le⟩ := ih
    rw [Function.iterate_succ_apply']
    have kept := (oledRender_marked (p := p) inv.turn (inv.marked still')).1
    obtain ⟨up', le'⟩ := oledRender_up answers inv.initialized still' ok'
    refine ⟨inv.step (show Proper sc _ .render from trivial), kept.scrolling.trans still', kept.buffer.trans buffer, up', ?_⟩
    rw [Nat.succ_mul]
    omega

/-- **The panel shows what is drawn.** The driver has been started and any calls have followed, with transfers that failed or not.
Nothing has been written behind the buffer; and if the panel does not scroll and the transfers succeed from now on, as many renders
as the blocks need make every dot of the panel the dot that is drawn, at the place that the rotation says. -/
theorem shows_drawn (sc : Screen d p) (answers : Answers p up) {s₀ : State d σ} (started : (oledInit p s₀ rotation).2 = true)
    {calls : List (Call σ)} (proper : Along (State.step p) (Proper sc) (oledInit p s₀ rotation).1 calls) {n : Nat}
    (enough : d.blockCount ≤ n * d.updateProcessLimit) :
    (∀ k, d.matrixSize ≤ k → (calls.foldl (State.step p) (oledInit p s₀ rotation).1).buffer k = s₀.buffer k) ∧
      ((calls.foldl (State.step p) (oledInit p s₀ rotation).1).scrolling = false →
        up (calls.foldl (State.step p) (oledInit p s₀ rotation).1).panel →
        ∀ q : Dot d rotation, q.shown (sc.ram ((oledRender p)^[n] (calls.foldl (State.step p) (oledInit p s₀ rotation).1)).panel) =
          q.drawn (calls.foldl (State.step p) (oledInit p s₀ rotation).1).buffer) := by
  have inv : Inv sc rotation s₀.buffer (calls.foldl (State.step p) (oledInit p s₀ rotation).1) :=
    Along.invariant (Inv sc rotation s₀.buffer) (fun _ _ h proper => h.step proper) (oledInit_inv started) proper
  generalize calls.foldl (State.step p) (oledInit p s₀ rotation).1 = s at inv ⊢
  refine ⟨inv.outside, fun still ok q => ?_⟩
  obtain ⟨inv', still', buffer, -, le⟩ := renders answers inv still ok n
  have all : s.dirtyBlocks.card ≤ d.blockCount := (Finset.card_filter_le _ _).trans (Finset.card_range _).le
  have none : ((oledRender p)^[n] s).dirty = 0 := by
    rw [dirty_eq_zero, ← Finset.card_eq_zero]
    omega
  have clean := (inv'.marked still').clean fun b => by
    rw [none, BitVec.ofNat_eq_ofNat, BitVec.getLsbD_zero]
    exact Bool.false_ne_true
  rw [← buffer]
  exact congrFun clean q

end Runs

/-! ## A panel, as an example -/

/-- A panel of 128 by 32 dots, with the transfers that are still to fail or to succeed -/
structure Simulated where
  ram : Nat → Nat → Byte
  window : Window
  scrolls : Bool
  transfers : List Bool

/-- The display that the driver is for unless told otherwise -/
def default128x32 : Display where
  width := 128
  height := 32
  blockCount := 16
  updateProcessLimit := 1
  fontStart := 0
  fontEnd := 223
  fontWidth := 6
  font := fun n => BitVec.ofNat 8 n
  comPins := 0x02
  brightness := 255
  blockCount_pos := by decide
  columns := by decide
  pages := by decide
  rows := by decide
  height_pos := by decide
  width_lt := by decide
  fontWidth_pos := by decide
  fontWidth_le := by decide
  limit_pos := by decide

namespace Simulated

/-- The next transfer -/
def succeeds (s : Simulated) : Bool := s.transfers.headD true

/-- The window that a command sets -/
def readWindow (old : Window) : List Byte → Window
  | [_, _, column, columnEnd, _, page, pageEnd] => ⟨column, columnEnd, page, pageEnd⟩
  | _ => old

/-- Whether it scrolls after a command -/
def readScrolls (old : Bool) (cmd : List Byte) : Bool :=
  if cmd = [I2C_CMD, DEACTIVATE_SCROLL] ∨ cmd = default128x32.displaySetup2 then false
  else if cmd.getLast? = some ACTIVATE_SCROLL then true
  else old

def obey (s : Simulated) (cmd : List Byte) : Simulated :=
  { s with window := readWindow s.window cmd, scrolls := readScrolls s.scrolls cmd }

/-- The memory with the bytes of the data that come before `k` -/
def fill (w : Window) (data : List Byte) (ram : Nat → Nat → Byte) : Nat → Nat → Nat → Byte
  | 0 => ram
  | k + 1 => fun page column => if w.place k = (page, column) then data.getD k 0 else fill w data ram k page column

def panel : Panel Simulated where
  transmit s cmd :=
    if s.succeeds then ({ s.obey cmd with transfers := s.transfers.tail }, true) else ({ s with transfers := s.transfers.tail }, false)
  writeReg s _ data :=
    if s.succeeds then ({ s with ram := fill s.window data s.ram data.length, transfers := s.transfers.tail }, true)
    else ({ s with transfers := s.transfers.tail }, false)

theorem fill_cases {w : Window} {data : List Byte} {ram : Nat → Nat → Byte} {n : Nat} (le : n ≤ data.length) (page column : Nat) :
    fill w data ram n page column = ram page column ∨
      ∃ k, ∃ h : k < data.length, w.place k = (page, column) ∧ fill w data ram n page column = data[k] := by
  induction n with
  | zero => exact Or.inl rfl
  | succ n ih =>
    unfold fill
    split
    next here => exact Or.inr ⟨n, le, here, List.getD_eq_getElem _ _ le⟩
    next => exact ih (Nat.le_of_succ_le le)

/-- Bytes that go to different places all arrive. -/
theorem fill_place {w : Window} {data : List Byte} {ram : Nat → Nat → Byte} {n k : Nat} (le : n ≤ data.length) (lt : k < n) :
    fill w data ram n (w.place k).1 (w.place k).2 = data[k] := by
  have inj : ∀ j, w.place j = w.place k → j = k := by
    intro j same
    unfold Window.place at same
    rw [Prod.mk.injEq] at same
    have hj := Nat.div_add_mod j w.width
    have hk := Nat.div_add_mod k w.width
    rw [show j / w.width = k / w.width by omega] at hj
    omega
  induction n with
  | zero => omega
  | succ n ih =>
    unfold fill
    split
    next here =>
      have same := inj n here
      subst same
      exact List.getD_eq_getElem _ _ le
    next other =>
      have ne : k ≠ n := fun eq => other (by rw [eq])
      exact ih (Nat.le_of_succ_le le) (by omega)

def screen : Screen default128x32 panel where
  ram := Simulated.ram
  window := Simulated.window
  scrolls s := s.scrolls = true
  command_ram s cmd := by
    unfold panel
    dsimp only
    split <;> rfl
  command_window s w sent := by
    unfold panel at sent ⊢
    dsimp only at sent ⊢
    split at sent
    next ok =>
      rw [if_pos ok]
      rfl
    next => contradiction
  command_scrolls s cmd := by
    unfold panel obey readScrolls
    dsimp only
    split
    · dsimp only
      split
      · exact fun h => absurd h Bool.false_ne_true
      · split
        next last =>
          refine fun _ => Or.inr ⟨rfl, ?_⟩
          cases cmd with
          | nil => exact absurd (Option.some.inj last) (by decide)
          | cons c cmd => rwa [List.getLast?_cons_cons] at last
        next => exact Or.inl
    · exact Or.inl
  stops s sent := by
    unfold panel at sent ⊢
    dsimp only at sent ⊢
    split at sent
    next ok =>
      rw [if_pos ok]
      exact Bool.false_ne_true
    next => contradiction
  setup_stops s sent := by
    unfold panel at sent ⊢
    dsimp only at sent ⊢
    split at sent
    next ok =>
      rw [if_pos ok]
      exact Bool.false_ne_true
    next => contradiction
  data_scrolls s data := by
    unfold panel
    dsimp only
    split <;> exact id
  data_places s data _ page column := by
    unfold panel
    dsimp only
    split
    · exact fill_cases le_rfl page column
    · exact Or.inl rfl
  data_sent s data _ sent k lt := by
    unfold panel at sent ⊢
    dsimp only at sent ⊢
    split at sent
    next ok =>
      rw [if_pos ok]
      exact fill_place le_rfl lt
    next => contradiction

/-- Only transfers that succeed are left. -/
def Working (s : Simulated) : Prop := s.transfers = []

theorem answers : Answers panel Working where
  transmit s cmd ok := by
    unfold Working at ok ⊢
    unfold panel succeeds
    dsimp only
    rw [ok]
    exact ⟨rfl, rfl⟩
  writeReg s data ok := by
    unfold Working at ok ⊢
    unfold panel succeeds
    dsimp only
    rw [ok]
    exact ⟨rfl, rfl⟩

/-- A panel that will fail at its fifth transfer, before it is started -/
def off : State default128x32 Simulated :=
  ⟨fun _ => 0xFF, 0, 0, false, false, false, .rotation0, 0, 0, 0, 7,
    ⟨fun _ _ => 0x55, ⟨0, 127, 0, 3⟩, true, [true, true, true, true, false]⟩⟩

/-- The dot that is drawn below, and where it is -/
def dot : Dot default128x32 .rotation90 := ⟨(3, 5), by decide, by decide⟩

theorem shows_drawn_default128x32 :
    dot.shown (screen.ram ((oledRender panel)^[16] ([Call.writePixel 3 5 true, .render].foldl (State.step panel)
      (oledInit panel off .rotation90).1)).panel) =
    dot.drawn ([Call.writePixel 3 5 true, .render].foldl (State.step panel) (oledInit panel off .rotation90).1).buffer := by
  have started : (oledInit panel off .rotation90).2 = true := by decide
  have proper : Along (State.step panel) (Proper screen) (oledInit panel off .rotation90).1 [.writePixel 3 5 true, .render] :=
    ⟨trivial, trivial, trivial⟩
  have enough : default128x32.blockCount ≤ 16 * default128x32.updateProcessLimit := by decide
  exact (shows_drawn screen answers started proper enough).2 rfl rfl dot

end Simulated

end QmkFirmware.Oled
