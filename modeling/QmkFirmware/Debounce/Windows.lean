import QmkFirmware.Debounce.Bounces

/-!
# Eager changes

The eager files, and `asym_eager_defer_pk.c` for presses, copy a change at once and lock the key or
the row for `DEBOUNCE` ms. What is locked does not change; what is not agrees with the raw matrix.
-/

namespace QmkFirmware.Debounce
open Lib

variable {rows cols fast : Nat} {I V K : Type} [Fintype I]

/-! ## A cell of the common frame -/

/-- What the bodies of a file do with the counter of an eager change. `locks` is what is left of it; `sound` is what a counter says
of its cell; a cell that is not locked agrees with the raw one; and a change from a `free` value locks the cell. -/
structure Bodies.Eager (bodies : Bodies V K) (locks : K → Nat) (d : Nat) (sound : V → K → Prop) (agree : V → V → Prop)
    (free : V → Prop) : Prop extends bodies.Idle where
  update_locks : ∀ elapsed raw cooked counter, locks (bodies.update elapsed raw cooked counter).counter = locks counter - elapsed
  update_cooked : ∀ elapsed raw cooked counter, sound cooked counter → locks counter ≠ 0 ∨ free cooked →
    (bodies.update elapsed raw cooked counter).cooked = cooked
  update_agree : ∀ elapsed raw cooked counter, agree raw cooked → agree raw (bodies.update elapsed raw cooked counter).cooked
  update_need : ∀ elapsed raw cooked counter, locks counter ≠ 0 → locks counter ≤ elapsed →
    (bodies.update elapsed raw cooked counter).matrixNeedUpdate = true
  update_sound : ∀ elapsed raw cooked counter, sound cooked counter →
    sound (bodies.update elapsed raw cooked counter).cooked (bodies.update elapsed raw cooked counter).counter
  transfer_locked : ∀ raw cooked counter, locks counter ≠ 0 →
    (bodies.transfer raw cooked counter).cooked = cooked ∧ (bodies.transfer raw cooked counter).counter = counter
  transfer_agree : ∀ raw cooked counter, sound cooked counter → locks counter = 0 → agree raw (bodies.transfer raw cooked counter).cooked
  transfer_sound : ∀ raw cooked counter, sound cooked counter →
    sound (bodies.transfer raw cooked counter).cooked (bodies.transfer raw cooked counter).counter
  transfer_start : ∀ raw cooked counter, free cooked → (bodies.transfer raw cooked counter).cooked ≠ cooked →
    locks (bodies.transfer raw cooked counter).counter = d

theorem eager_eager [DecidableEq V] {accept : V → V → V × Bool} (d : Nat)
    (accepts : ∀ raw cooked, raw ≠ cooked → (accept raw cooked).1 = raw) :
    (eager accept d).Eager id d (fun _ _ => True) Eq fun _ => True := by
  refine ⟨idle_eager accept d, ?_, ?_, ?_, ?_, ?_, ?_, ?_, ?_, ?_⟩
  · intro elapsed raw cooked counter
    rw [eager_update]
    rfl
  · intro elapsed raw cooked counter _ _
    rw [eager_update]
  · intro elapsed raw cooked counter same
    rw [eager_update]
    exact same
  · intro elapsed raw cooked counter runs expired
    rw [eager_update]
    exact decide_eq_true ⟨runs, expired⟩
  · exact fun _ _ _ _ _ => trivial
  · intro raw cooked counter runs
    change counter ≠ 0 at runs
    rw [eager_transfer_locked runs]
    exact ⟨rfl, rfl⟩
  · intro raw cooked counter _ off
    obtain rfl : counter = 0 := off
    by_cases same : raw = cooked
    · rw [same, eager_transfer_self]
      rfl
    · rw [eager_transfer_free same]
      exact (accepts raw cooked same).symm
  · exact fun _ _ _ _ => trivial
  · intro raw cooked counter _ moved
    by_cases same : raw = cooked
    · rw [same, eager_transfer_self] at moved
      exact absurd rfl moved
    · by_cases off : counter = 0
      · rw [off, eager_transfer_free same]
        rfl
      · rw [eager_transfer_locked off] at moved
        exact absurd rfl moved

/-- What is left of the lock of a press -/
def AsymCounter.press (counter : AsymCounter) : Nat := if counter.pressed then counter.time else 0

theorem eager_asym (d : Nat) :
    (asym d).Eager AsymCounter.press d (fun cooked counter => counter.pressed = false → counter.time ≠ 0 → cooked = true)
      (fun raw cooked => raw = true → cooked = true) fun cooked => cooked = false := by
  refine ⟨idle_asym d, ?_, ?_, ?_, ?_, ?_, ?_, ?_, ?_, ?_⟩
  · rintro elapsed raw cooked ⟨pressed, time⟩
    rw [asym_update]
    cases pressed
    · exact (Nat.zero_sub elapsed).symm
    · rfl
  · rintro elapsed raw cooked ⟨pressed, time⟩ sound waits
    rw [asym_update]
    refine if_neg ?_
    rintro ⟨⟨runs, expired⟩, rfl⟩
    rcases waits with locked | free
    · exact locked rfl
    · rw [sound rfl runs] at free
      exact absurd free (by decide)
  · rintro elapsed raw cooked ⟨pressed, time⟩ agree down
    rw [asym_update]
    dsimp only
    split
    · exact down
    · exact agree down
  · rintro elapsed raw cooked ⟨pressed, time⟩ locked expired
    rw [asym_update]
    cases pressed
    · exact absurd rfl locked
    · exact decide_eq_true ⟨⟨locked, expired⟩, rfl⟩
  · rintro elapsed raw cooked ⟨pressed, time⟩ sound
    rw [asym_update]
    rintro rfl runs
    have waits : elapsed < time := Nat.lt_of_sub_ne_zero runs
    dsimp only
    rw [if_neg fun expired => absurd expired.1.2 (not_le.2 waits)]
    exact sound rfl (Nat.ne_of_gt (Nat.zero_lt_of_lt waits))
  · rintro raw cooked ⟨pressed, time⟩ locked
    cases pressed
    · exact absurd rfl locked
    · by_cases same : raw = cooked
      · rw [same, asym_transfer_self]
        exact ⟨rfl, rfl⟩
      · rw [asym_transfer_running same locked]
        exact ⟨rfl, rfl⟩
  · rintro _ cooked ⟨pressed, time⟩ sound unlocked rfl
    cases cooked
    · have off : time = 0 := by
        cases pressed
        · by_contra runs
          exact absurd (sound rfl runs) (by decide)
        · exact unlocked
      rw [off, asym_transfer_press]
    · rw [asym_transfer_self]
      rfl
  · rintro raw cooked ⟨pressed, time⟩ sound
    by_cases same : raw = cooked
    · rw [same, asym_transfer_self]
      rintro rfl runs
      exact absurd rfl runs
    · by_cases off : time = 0
      · subst off
        revert same
        cases raw
        · cases cooked
          · exact fun same => absurd rfl same
          · exact fun _ _ _ => rfl
        · cases cooked
          · exact fun _ held => Bool.noConfusion held
          · exact fun same => absurd rfl same
      · rw [asym_transfer_running same off]
        exact sound
  · rintro raw _ ⟨pressed, time⟩ rfl moved
    cases raw
    · rw [asym_transfer_self] at moved
      exact absurd rfl moved
    · by_cases off : time = 0
      · rw [off, asym_transfer_press]
        rfl
      · rw [asym_transfer_running Bool.noConfusion off] at moved
        exact absurd rfl moved

/-- A change at `t` has locked a cell: the time is over, or the lock lasts. -/
def Locked (d t : Nat) (past : List (Call rows cols)) (lastTime : BitVec fast) (left : Nat) : Prop :=
  (∃ l ∈ past, t + d ≤ l.now) ∨ left ≠ 0 ∧ Runs d t past lastTime left

namespace Frame

variable {bodies : Bodies V K} {locks : K → Nat} {d : Nat} {sound : V → K → Prop} {agree : V → V → Prop} {free : V → Prop}
  {raw lastRaw cooked : I → V} {changed : Bool} {now : Nat} {s : Frame fast I K} {i : I}

/-- A call copies the raw value of a cell, or the cell is locked before and after it. -/
theorem debounce_copied (eager : bodies.Eager locks d sound agree free) (quiet : changed = false → raw i = lastRaw i)
    (trusted : sound (cooked i) (s.counters i)) (agreed : locks (s.counters i) = 0 → agree (lastRaw i) (cooked i)) :
    let out := s.debounce bodies raw cooked changed now
    (agree (raw i) (out.2.1 i) ∨ locks (s.counters i) ≠ 0 ∧ locks (out.1.counters i) ≠ 0 ∧ out.2.1 i = cooked i) ∧
      sound (out.2.1 i) (out.1.counters i) := by
  have turn := @debounce_cell fast I V K _ bodies raw cooked changed now s eager.toIdle i
  have mid := eager.update_sound (s.elapsed now) (raw i) (cooked i) (s.counters i) trusted
  dsimp only at turn ⊢
  by_cases unlocked : locks (bodies.update (s.elapsed now) (raw i) (cooked i) (s.counters i)).counter = 0
  · rcases turn with ⟨still, need, moved, counter, -⟩ | ⟨moved, counter, -⟩
    · rw [moved, counter]
      refine ⟨.inl ?_, mid⟩
      by_cases before : locks (s.counters i) = 0
      · rw [quiet still]
        exact eager.update_agree _ _ _ _ (agreed before)
      · rw [eager.update_locks] at unlocked
        rw [eager.update_need _ _ _ _ before (Nat.sub_eq_zero_iff_le.1 unlocked)] at need
        exact absurd need (by decide)
    · rw [moved, counter]
      exact ⟨.inl (eager.transfer_agree _ _ _ mid unlocked), eager.transfer_sound _ _ _ mid⟩
  · have before : locks (s.counters i) ≠ 0 := by
      rw [eager.update_locks] at unlocked
      exact Nat.ne_of_gt (Nat.zero_lt_of_lt (Nat.lt_of_sub_ne_zero unlocked))
    have same := eager.update_cooked (s.elapsed now) (raw i) (cooked i) (s.counters i) trusted (.inl before)
    rcases turn with ⟨-, -, moved, counter, -⟩ | ⟨moved, counter, -⟩
    · rw [moved, counter]
      exact ⟨.inr ⟨before, unlocked, same⟩, mid⟩
    · obtain ⟨value, kept⟩ := eager.transfer_locked (raw i) _ _ unlocked
      rw [value] at moved
      rw [kept] at counter
      rw [moved, counter]
      exact ⟨.inr ⟨before, unlocked, same⟩, mid⟩

/-- A change from a free value locks its cell. -/
theorem debounce_locks (eager : bodies.Eager locks d sound agree free) {past : List (Call rows cols)} {c : Call rows cols}
    (trusted : sound (cooked i) (s.counters i)) (unlocked : free (cooked i)) (pos : d ≠ 0) :
    let out := s.debounce bodies raw cooked changed c.now
    out.2.1 i ≠ cooked i → Locked d c.now (past ++ [c]) out.1.lastTime (locks (out.1.counters i)) := by
  have turn := @debounce_cell fast I V K _ bodies raw cooked changed c.now s eager.toIdle i
  have same := eager.update_cooked (s.elapsed c.now) (raw i) (cooked i) (s.counters i) trusted (.inr unlocked)
  dsimp only at turn ⊢
  intro moved
  rcases turn with ⟨-, -, kept, -⟩ | ⟨value, counter, read⟩
  · exact absurd (kept.trans same) moved
  · rw [same] at value counter
    have started := eager.transfer_start _ _ _ unlocked (value ▸ moved)
    rw [counter, started, read]
    exact .inr ⟨pos, Runs.start le_rfl⟩

/-- A cell changes again when its lock is over. -/
theorem debounce_again (eager : bodies.Eager locks d sound agree free) {t : Nat} {past : List (Call rows cols)} {c : Call rows cols}
    (trusted : sound (cooked i) (s.counters i)) (later : ∀ e ∈ past, e.now ≤ c.now)
    (locked : Locked d t past s.lastTime (locks (s.counters i))) :
    let out := s.debounce bodies raw cooked changed c.now
    Locked d t (past ++ [c]) out.1.lastTime (locks (out.1.counters i)) ∧ (out.2.1 i ≠ cooked i → t + d ≤ c.now) := by
  rcases locked with ⟨l, mem, passed⟩ | ⟨runs, started⟩
  · exact ⟨.inl ⟨l, List.mem_append_left _ mem, passed⟩, fun _ => passed.trans (later l mem)⟩
  · by_cases waits : s.elapsed c.now < locks (s.counters i)
    · have turn := @debounce_cell fast I V K _ bodies raw cooked changed c.now s eager.toIdle i
      have same := eager.update_cooked (s.elapsed c.now) (raw i) (cooked i) (s.counters i) trusted (.inl runs)
      have left := eager.update_locks (s.elapsed c.now) (raw i) (cooked i) (s.counters i)
      have mid : locks (bodies.update (s.elapsed c.now) (raw i) (cooked i) (s.counters i)).counter ≠ 0 := by
        rw [left]
        exact Nat.sub_ne_zero_of_lt waits
      dsimp only at turn ⊢
      rcases turn with ⟨-, -, moved, counter, read⟩ | ⟨moved, counter, read⟩
      · rw [moved, counter, left]
        exact ⟨.inr ⟨left ▸ mid, started.step later elapsed_le waits.le read⟩, fun changed => absurd same changed⟩
      · obtain ⟨value, kept⟩ := eager.transfer_locked (raw i) _ _ mid
        rw [moved, counter, value, kept, left]
        exact ⟨.inr ⟨left ▸ mid, started.step later elapsed_le waits.le (.inl read)⟩, fun changed => absurd same changed⟩
    · have passed := started.over later elapsed_le (not_lt.1 waits)
      exact ⟨.inl ⟨c, by simp, passed⟩, fun _ => passed⟩

end Frame

/-! ## Runs -/

/-- The changes that lock, by the value before: `asym_eager_defer_pk.c` locks a key that is pressed. -/
def Algorithm.Locks : Algorithm → Bool → Prop
  | .symEagerPr, _ => True
  | .symEagerPk, _ => True
  | .asymEagerDeferPk, pressed => pressed = false
  | _, _ => False

/-- A change of the key, or of its row where a row is locked -/
def Algorithm.Changed (a : Algorithm) (before after : Matrix rows cols) (r : Fin rows) (k : Fin cols) : Prop :=
  match a with
  | .symEagerPr => after r ≠ before r
  | _ => after r k ≠ before r k

/-- The counter of the key or of its row says that it is locked. -/
def Algorithm.Locked (fast start : Nat) : (a : Algorithm) → (DEBOUNCE : Nat) → (a.file fast start DEBOUNCE : File rows cols).State →
    Fin rows → Fin cols → Prop
  | .symEagerPr, _ + 1, s, r, _ => (s : Frame fast (Fin rows) Nat).counters r ≠ 0
  | .symEagerPk, _ + 1, s, r, k => (s : Frame fast (Fin rows × Fin cols) Nat).counters (r, k) ≠ 0
  | .asymEagerDeferPk, _ + 1, s, r, k => AsymCounter.press ((s : Frame fast (Fin rows × Fin cols) AsymCounter).counters (r, k)) ≠ 0
  | _, _, _, _, _ => False

/-- What is copied at once: `asym_eager_defer_pk.c` copies presses. -/
def Algorithm.Copies : Algorithm → Bool → Prop
  | .symEagerPr, _ => True
  | .symEagerPk, _ => True
  | .asymEagerDeferPk, raw => raw = true
  | _, _ => False

/-- A call copies the raw value of a key, unless the key or its row is locked before and after it, and then leaves it. -/
def Copied {fast start DEBOUNCE : Nat} (a : Algorithm) (x : World (a.file fast start DEBOUNCE : File rows cols)) (c : Call rows cols) : Prop :=
  ∀ r k, a.Copies (c.raw r k) → (x.step c).cooked r k = c.raw r k ∨
    a.Locked fast start DEBOUNCE x.state r k ∧ a.Locked fast start DEBOUNCE (x.step c).state r k ∧ (x.step c).cooked r k = x.cooked r k

/-- After a change that locks, the next one comes `DEBOUNCE` ms later or more. -/
def Apart {fast start DEBOUNCE : Nat} (a : Algorithm) (x : World (a.file fast start DEBOUNCE : File rows cols)) (c : Call rows cols)
    (middle : List (Call rows cols)) (c' : Call rows cols) : Prop :=
  let y := middle.foldl World.step (x.step c)
  ∀ r k, a.Locks (x.cooked r k) → a.Changed x.cooked (x.step c).cooked r k → a.Changed y.cooked (y.step c').cooked r k →
    c.now + a.window DEBOUNCE ≤ c'.now

/-- A file whose variables are those of the frame. `view` takes a matrix apart in its cells. -/
structure File.Cells (file : File rows cols) (bodies : Bodies V K) (state : file.State → Frame fast I K)
    (view : Matrix rows cols → I → V) : Prop where
  frame : ∀ raw cooked changed now s, state (file.debounce raw cooked changed now s).1 =
    ((state s).debounce bodies (view raw) (view cooked) changed now).1
  cooked : ∀ raw cooked changed now s, view (file.debounce raw cooked changed now s).2.1 =
    ((state s).debounce bodies (view raw) (view cooked) changed now).2.1

theorem cells_perKey (elapsed : K) (bodies : Bodies Bool K) : (perKey fast elapsed bodies : File rows cols).Cells bodies id
    fun m key => m key.1 key.2 :=
  ⟨fun _ _ _ _ _ => rfl, fun _ _ _ _ _ => rfl⟩

theorem cells_eagerPr (d : Nat) : (symEagerPr fast (d + 1) : File rows cols).Cells (eager acceptRow (min (d + 1) 255)) id id :=
  ⟨fun _ _ _ _ _ => rfl, fun _ _ _ _ _ => rfl⟩

section Cells

variable {file : File rows cols} {bodies : Bodies V K} {state : file.State → Frame fast I K} {view : Matrix rows cols → I → V}
  {locks : K → Nat} {d : Nat} {sound : V → K → Prop} {agree : V → V → Prop} {free : V → Prop} {x : World file}

/-- The cells that are not locked agree with the raw matrix. -/
def Settled (state : file.State → Frame fast I K) (view : Matrix rows cols → I → V) (locks : K → Nat) (sound : V → K → Prop)
    (agree : V → V → Prop) (x : World file) : Prop :=
  ∀ i, sound (view x.cooked i) ((state x.state).counters i) ∧
    (locks ((state x.state).counters i) = 0 → agree (view x.lastRaw i) (view x.cooked i))

variable (cells : file.Cells bodies state view) (eager : bodies.Eager locks d sound agree free)

include cells eager

theorem Settled.step (h : Settled state view locks sound agree x) (c : Call rows cols) :
    Settled state view locks sound agree (x.step c) ∧ ∀ i, agree (view c.raw i) (view (x.step c).cooked i) ∨
      locks ((state x.state).counters i) ≠ 0 ∧ locks ((state (x.step c).state).counters i) ≠ 0 ∧
        view (x.step c).cooked i = view x.cooked i := by
  have turn (i : I) := @Frame.debounce_copied fast I V K _ bodies locks d sound agree free (view c.raw) (view x.lastRaw)
    (view x.cooked) (decide (c.raw ≠ x.lastRaw)) c.now (state x.state) i eager
    (fun still => congrFun (congrArg view (not_not.1 (of_decide_eq_false still))) i) (h i).1 (h i).2
  unfold Settled World.step World.call
  dsimp only
  rw [cells.cooked, cells.frame]
  refine ⟨fun i => ⟨(turn i).2, fun unlocked => ?_⟩, fun i => (turn i).1⟩
  rcases (turn i).1 with agreed | ⟨-, locked, -⟩
  · exact agreed
  · exact absurd unlocked locked

theorem Settled.run (start : Settled state view locks sound agree (.start file)) (past : List (Call rows cols)) :
    Settled state view locks sound agree (past.foldl World.step (.start file)) :=
  List.foldlRecOn past World.step start fun _ h c _ => (Settled.step cells eager h c).1

/-- A cell that is locked changes when the time is over. -/
theorem Settled.again {t : Nat} {i : I} {past middle : List (Call rows cols)} {c' : Call rows cols}
    (h : Settled state view locks sound agree x) (order : InOrder (past ++ (middle ++ [c'])))
    (locked : Locked d t past (state x.state).lastTime (locks ((state x.state).counters i))) :
    let y := middle.foldl World.step x
    view (y.step c').cooked i ≠ view y.cooked i → t + d ≤ c'.now := by
  induction middle generalizing x past with
  | nil =>
    have turn := @Frame.debounce_again rows cols fast I V K _ bodies locks d sound agree free (view c'.raw) (view x.cooked)
      (decide (c'.raw ≠ x.lastRaw)) (state x.state) i eager t past c' (h i).1 (InOrder.later order) locked
    unfold World.step World.call
    dsimp only [List.foldl_nil]
    rw [cells.cooked]
    exact turn.2
  | cons e middle ih =>
    rw [List.cons_append, ← List.singleton_append, ← List.append_assoc] at order
    have turn := @Frame.debounce_again rows cols fast I V K _ bodies locks d sound agree free (view e.raw) (view x.cooked)
      (decide (e.raw ≠ x.lastRaw)) (state x.state) i eager t past e (h i).1 (InOrder.later (List.pairwise_append.1 order).1) locked
    refine ih (Settled.step cells eager h e).1 order ?_
    unfold World.step World.call
    dsimp only
    rw [cells.frame]
    exact turn.1

/-- After a change from a free value a cell changes again when the time is over. -/
theorem Settled.apart {i : I} {middle : List (Call rows cols)} {c c' : Call rows cols}
    (h : Settled state view locks sound agree x) (pos : d ≠ 0) (order : InOrder (c :: (middle ++ [c'])))
    (unlocked : free (view x.cooked i)) (changed : view (x.step c).cooked i ≠ view x.cooked i) :
    let y := middle.foldl World.step (x.step c)
    view (y.step c').cooked i ≠ view y.cooked i → c.now + d ≤ c'.now := by
  refine Settled.again cells eager (Settled.step cells eager h c).1 (show InOrder ([c] ++ (middle ++ [c'])) from order) ?_
  have turn := @Frame.debounce_locks rows cols fast I V K _ bodies locks d sound agree free (view c.raw) (view x.cooked)
    (decide (c.raw ≠ x.lastRaw)) (state x.state) i eager [] c (h i).1 unlocked pos
  unfold World.step World.call at changed ⊢
  dsimp only at changed ⊢
  rw [cells.cooked] at changed
  rw [cells.frame]
  exact turn changed

end Cells

theorem acceptKey_raw (raw cooked : Bool) (differs : raw ≠ cooked) : (acceptKey raw cooked).1 = raw :=
  (Bool.eq_not_of_ne differs).symm

section Files

variable {start d : Nat} {c : Call rows cols}

/-- A file that locks whole rows -/
theorem eagerPr_windows (past : List (Call rows cols)) :
    let x := past.foldl World.step (.start (Algorithm.symEagerPr.file fast start (d + 1)))
    Copied .symEagerPr x c ∧ ∀ middle c', InOrder (c :: (middle ++ [c'])) → Apart .symEagerPr x c middle c' := by
  have cells := @cells_eagerPr rows cols fast d
  have eager := @eager_eager (Fin cols → Bool) _ acceptRow (min (d + 1) 255) fun _ _ _ => rfl
  have settled := Settled.run cells eager (fun _ => ⟨trivial, fun _ => rfl⟩) past
  constructor
  · intro r k _
    rcases (Settled.step cells eager settled c).2 r with copied | ⟨before, after, same⟩
    · exact .inl (congrFun copied k).symm
    · exact .inr ⟨before, after, congrFun same k⟩
  · intro middle c' order r k _ changed again
    exact Settled.apart cells eager settled (i := r) (by omega) order trivial changed again

/-- A file that locks keys. -/
theorem eagerPk_windows (past : List (Call rows cols)) :
    let x := past.foldl World.step (.start (Algorithm.symEagerPk.file fast start (d + 1)))
    Copied .symEagerPk x c ∧ ∀ middle c', InOrder (c :: (middle ++ [c'])) → Apart .symEagerPk x c middle c' := by
  have cells := @cells_perKey rows cols fast Nat 0 (eager acceptKey (min (d + 1) 255))
  have eager := eager_eager (min (d + 1) 255) acceptKey_raw
  have settled := Settled.run cells eager (fun _ => ⟨trivial, fun _ => rfl⟩) past
  constructor
  · intro r k _
    exact ((Settled.step cells eager settled c).2 (r, k)).imp_left Eq.symm
  · intro middle c' order r k _ changed again
    exact Settled.apart cells eager settled (i := (r, k)) (by omega) order trivial changed again

/-- `asym_eager_defer_pk.c` locks keys that are pressed. -/
theorem asym_windows (past : List (Call rows cols)) :
    let x := past.foldl World.step (.start (Algorithm.asymEagerDeferPk.file fast start (d + 1)))
    Copied .asymEagerDeferPk x c ∧ ∀ middle c', InOrder (c :: (middle ++ [c'])) → Apart .asymEagerDeferPk x c middle c' := by
  have cells := @cells_perKey rows cols fast AsymCounter ⟨false, 0⟩ (asym (min (d + 1) 127))
  have eager := eager_asym (min (d + 1) 127)
  have settled := Settled.run cells eager (fun _ => ⟨fun _ runs => absurd rfl runs, fun _ held => held⟩) past
  constructor
  · intro r k held
    refine ((Settled.step cells eager settled c).2 (r, k)).imp_left fun copied => ?_
    exact (copied held).trans held.symm
  · intro middle c' order r k unlocked changed again
    exact Settled.apart cells eager settled (i := (r, k)) (by omega) order unlocked changed again

end Files

/-- **Eager changes**: after any calls, a call copies every key that is not locked, and from a change that locks to the next one
there are `DEBOUNCE` ms. -/
theorem eager_windows (a : Algorithm) (fast start DEBOUNCE : Nat) (past : List (Call rows cols)) (c : Call rows cols) :
    let x := past.foldl World.step (.start (a.file fast start DEBOUNCE))
    Copied a x c ∧ ∀ middle c', InOrder (c :: (middle ++ [c'])) → Apart a x c middle c' := by
  have order {middle : List (Call rows cols)} {c' : Call rows cols} (h : InOrder (c :: (middle ++ [c']))) : c.now ≤ c'.now :=
    (List.pairwise_cons.1 h).1 c' (by simp)
  match a, DEBOUNCE with
  | .none, _ => exact ⟨fun _ _ copies => copies.elim, fun _ _ _ _ _ locks => locks.elim⟩
  | .symDeferG, _ => exact ⟨fun _ _ copies => copies.elim, fun _ _ _ _ _ locks => locks.elim⟩
  | .symDeferPr, _ => exact ⟨fun _ _ copies => copies.elim, fun _ _ _ _ _ locks => locks.elim⟩
  | .symDeferPk, _ => exact ⟨fun _ _ copies => copies.elim, fun _ _ _ _ _ locks => locks.elim⟩
  | .symEagerPr, 0 => exact ⟨fun _ _ _ => .inl rfl, fun _ _ h _ _ _ _ _ => order h⟩
  | .symEagerPk, 0 => exact ⟨fun _ _ _ => .inl rfl, fun _ _ h _ _ _ _ _ => order h⟩
  | .asymEagerDeferPk, 0 => exact ⟨fun _ _ _ => .inl rfl, fun _ _ h _ _ _ _ _ => order h⟩
  | .symEagerPr, d + 1 => exact eagerPr_windows past
  | .symEagerPk, d + 1 => exact eagerPk_windows past
  | .asymEagerDeferPk, d + 1 => exact asym_windows past

/-- A key that bounces 2 ms after its press and is released 3 ms later -/
theorem eager_windows_bounce :
    let x : World (Algorithm.symEagerPk.file 16 0 5 : File 1 1) := .start (Algorithm.symEagerPk.file 16 0 5)
    Copied .symEagerPk x ⟨fun _ _ => true, 10⟩ ∧
      Apart .symEagerPk x ⟨fun _ _ => true, 10⟩ [⟨fun _ _ => false, 12⟩] ⟨fun _ _ => false, 15⟩ :=
  have windows := eager_windows .symEagerPk 16 0 5 [] (⟨fun _ _ => true, 10⟩ : Call 1 1)
  ⟨windows.1, windows.2 _ _ (by simp [InOrder])⟩

end QmkFirmware.Debounce
