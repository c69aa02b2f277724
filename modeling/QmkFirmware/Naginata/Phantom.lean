import QmkFirmware.Naginata.Bounds
import QmkFirmware.Naginata.Layers

/-!
# The set of pressed keys

A press puts a key of the input method into `keycomb`, and its release takes it out as long as the
mode stays on; a switch of the mode empties the set. A press that finds the buffer full is written
behind it, over whatever the linker has put there.
-/

namespace QmkFirmware.Naginata.Keyboard
open Lib

/-- A bit is set only for a key of the input method that is held or still in the buffer. -/
def NoPhantom (w : Keyboard) : Prop :=
  ∀ i, w.state.keycomb.getLsbD i = true →
    ∃ key : NgKey, key.ctorIdx = i ∧ ((∃ position, w.down position = some (.ng key)) ∨ key ∈ w.state.ninputs)

/-- The press is written behind the buffer. -/
def Overruns (w : Keyboard) (e : Event) : Prop :=
  e.pressed = true ∧ w.state.isNaginata = true ∧ isNg e.keycode = true ∧ ngBuffer ≤ w.state.ngChrcount

instance (w : Keyboard) (e : Event) : Decidable (Overruns w e) := inferInstanceAs (Decidable (_ ∧ _))

/-- An event, where a write behind the buffer changes the variables in some way -/
def stepWith (corrupt : State → State) (w : Keyboard) (e : Event) : Keyboard :=
  if Overruns w e then { w.step e with state := corrupt (w.step e).state } else w.step e

/-- Every bit is that of a key held, and there is none while the mode is off. -/
structure Held (w : Keyboard) : Prop where
  bit : ∀ i, w.state.keycomb.getLsbD i = true →
    ∃ key : NgKey, key.ctorIdx = i ∧ ∃ position, w.down position = some (.ng key)
  off : w.state.isNaginata = false → w.state.keycomb = 0

variable {w : Keyboard} {e : Event}

theorem Held.noPhantom (h : Held w) : NoPhantom w := by
  intro i set
  obtain ⟨key, index, held⟩ := h.bit i set
  exact ⟨key, index, .inl held⟩

theorem held_start : Held start := ⟨fun i set => by simp [start, boot] at set, fun _ => rfl⟩

/-- Only its own release lets a key go. -/
theorem still_down (physical : Physical w e) {position : Position} {key : NgKey} (down : w.down position = some (.ng key))
    (other : e.pressed = true ∨ e.keycode ≠ .ng key) : (w.step e).down position = some (.ng key) := by
  have elsewhere : position ≠ e.key := by
    rintro rfl
    rw [Physical, down] at physical
    cases pressed : e.pressed with
    | true => simp [pressed] at physical
    | false =>
      rw [pressed] at other physical
      exact other.elim Bool.false_ne_true fun ne => ne (Option.some.inj physical).symm
  rw [step]
  dsimp only
  rw [Function.update_of_ne elsewhere, down]

/-- What a key of the input method does to the set while the mode is on. -/
theorem record_keycomb {s : State} (on : s.isNaginata = true) {key : NgKey} (ng : e.keycode = .ng key) :
    (record s e).keycomb = (if e.pressed then s.keycomb ||| ngKey key else s.keycomb &&& ~~~(ngKey key)) ∧
      (record s e).isNaginata = true := by
  rw [record_ng ng on, processNaginata]
  cases e.pressed with
  | true =>
    simp only [if_true]
    split <;> simp [on]
  | false =>
    simp only [Bool.false_eq_true, if_false]
    split <;> simp [on]

/-- Every other key leaves the set and the mode alone, or empties it. -/
theorem record_other {s : State} (ng : ∀ key, e.keycode ≠ .ng key) :
    ((record s e).keycomb = s.keycomb ∧ (record s e).isNaginata = s.isNaginata) ∨ (record s e).keycomb = 0 := by
  by_cases switch : e.keycode = .swsgt ∨ e.keycode = .lng1 ∨ e.keycode = .lng2
  · rw [record]
    rcases switch with key | key | key <;> rw [key] <;> cases e.pressed
    · exact .inl ⟨rfl, rfl⟩
    · exact .inl ⟨rfl, rfl⟩
    · exact .inl ⟨rfl, rfl⟩
    · exact .inr rfl
    · exact .inl ⟨rfl, rfl⟩
    · exact .inr rfl
  · obtain ⟨swsgt, lng1, lng2⟩ := not_or.mp switch |>.imp_right not_or.mp
    have same := record_same (s := s) ng swsgt lng1 lng2
    exact .inl ⟨same.keycomb, same.isNaginata⟩

/-- Without the mode a key of the input method does nothing. -/
theorem record_off {s : State} (off : s.isNaginata = false) {key : NgKey} (ng : e.keycode = .ng key) : record s e = s := by
  unfold record processRecordUser
  simp [ng, off]

theorem Held.of_empty (empty : (w.step e).state.keycomb = 0) : Held (w.step e) :=
  ⟨fun i set => by simp [empty] at set, fun _ => empty⟩

theorem Held.step (h : Held w) (physical : Physical w e) : Held (w.step e) := by
  by_cases ng : ∃ key, e.keycode = .ng key
  · obtain ⟨key, ng⟩ := ng
    cases on : w.state.isNaginata with
    | false =>
      apply Held.of_empty
      rw [Keyboard.step]
      dsimp only
      rw [record_off on ng]
      exact h.off on
    | true =>
      obtain ⟨keycomb, mode⟩ := record_keycomb on ng
      refine ⟨fun i set => ?_, fun off => absurd (mode.symm.trans off) (by decide)⟩
      rw [Keyboard.step] at set
      dsimp only at set
      rw [keycomb] at set
      cases pressed : e.pressed with
      | true =>
        rw [if_pos pressed, BitVec.getLsbD_or, Bool.or_eq_true] at set
        rcases set with old | new
        · obtain ⟨other, index, position, down⟩ := h.bit i old
          exact ⟨other, index, position, still_down physical down (.inl pressed)⟩
        · rw [ngKey, BitVec.getLsbD_twoPow] at new
          refine ⟨key, by simpa using (Bool.and_eq_true_iff.mp new).2, e.key, ?_⟩
          rw [Keyboard.step]
          dsimp only
          rw [Function.update_self, if_pos pressed, ng]
      | false =>
        rw [pressed, if_neg Bool.false_ne_true, BitVec.getLsbD_and, Bool.and_eq_true] at set
        obtain ⟨other, index, position, down⟩ := h.bit i set.1
        refine ⟨other, index, position, still_down physical down (.inr ?_)⟩
        rintro same
        obtain rfl : key = other := Keycode.ng.inj (ng.symm.trans same)
        have gone := set.2
        rw [← index, BitVec.getLsbD_not, ngKey, BitVec.getLsbD_twoPow] at gone
        simp [ctorIdx_lt] at gone
  · have ng : ∀ key, e.keycode ≠ .ng key := fun key same => ng ⟨key, same⟩
    rcases record_other (s := w.state) ng with ⟨keycomb, mode⟩ | empty
    · constructor
      · intro i set
        obtain ⟨key, index, position, down⟩ := h.bit i (keycomb ▸ set)
        exact ⟨key, index, position, still_down physical down (.inr (ng key))⟩
      · exact fun off => keycomb.trans (h.off (mode.symm.trans off))
    · exact Held.of_empty empty

/-! ## Runs -/

/-- What a write behind the buffer may do -/
def fillKeycomb (s : State) : State := { s with keycomb := BitVec.allOnes 64 }

theorem not_noPhantom (down : Position → Option Keycode) (s : State) : ¬ NoPhantom ⟨fillKeycomb s, down⟩ := by
  intro none
  obtain ⟨key, index, -⟩ := none 63 (show (BitVec.allOnes 64).getLsbD 63 = true by decide)
  revert index
  cases key <;> decide

/-- The run from some state on -/
theorem run_noPhantom_iff (h : Held w) {events : List Event} (physical : Along step Physical w events) :
    (∀ corrupt, Along (stepWith corrupt) (fun w e => NoPhantom (w.stepWith corrupt e)) w events) ↔
      Along step (fun w e => ¬ Overruns w e) w events := by
  induction events generalizing w with
  | nil => exact iff_of_true (fun _ => trivial) trivial
  | cons e events ih =>
    have next := h.step physical.1
    by_cases room : ¬ Overruns w e
    · have same : ∀ corrupt, w.stepWith corrupt e = w.step e := fun _ => if_neg room
      simp only [Along, and_iff_right room, same, and_iff_right next.noPhantom]
      exact ih next physical.2
    · refine iff_of_false (fun none => ?_) fun fits => room fits.1
      have here : NoPhantom (w.stepWith fillKeycomb e) := (none fillKeycomb).1
      have filled : w.stepWith fillKeycomb e = ⟨fillKeycomb (w.step e).state, (w.step e).down⟩ := if_pos (not_not.mp room)
      rw [filled] at here
      exact not_noPhantom _ _ here

/-- **No phantom keys**: in a run from power-on every bit stays that of a key held or in the buffer, whatever a write
behind the buffer would change, exactly when there is no such write. -/
theorem no_phantom_iff {events : List Event} (physical : Along step Physical start events) :
    (∀ corrupt, Along (stepWith corrupt) (fun w e => NoPhantom (w.stepWith corrupt e)) start events) ↔
      Along step (fun w e => ¬ Overruns w e) start events :=
  run_noPhantom_iff held_start physical

/-- A chord of two keys, and a key pressed while the mode is switched -/
def chord : List Event :=
  switchOn ++ [⟨(2, 7), .ng .u, true⟩, ⟨(2, 8), .ng .i, true⟩, ⟨(2, 7), .ng .u, false⟩, ⟨(5, 10), .lng1, true⟩,
    ⟨(2, 8), .ng .i, false⟩]

theorem no_phantom_iff_chord :
    Along step Physical start chord ∧
      ∀ corrupt, Along (stepWith corrupt) (fun w e => NoPhantom (w.stepWith corrupt e)) start chord := by
  have physical : Along step Physical start chord := by decide
  exact ⟨physical, (no_phantom_iff physical).mpr (by decide)⟩

/-- The sixth key is written behind the buffer. -/
theorem sixth_key_phantom :
    Along step Physical start sixKeys ∧
      ¬ ∀ corrupt, Along (stepWith corrupt) (fun w e => NoPhantom (w.stepWith corrupt e)) start sixKeys := by
  have physical : Along step Physical start sixKeys := by decide
  refine ⟨physical, fun none => ?_⟩
  have room := (run_noPhantom_iff held_start physical).mp none
  revert room
  decide

/-- As long as what is written there is none of the variables of the keymap, there are no phantom keys in any run. -/
theorem no_phantom {events : List Event} (physical : Along step Physical start events) :
    NoPhantom (events.foldl step start) :=
  (Along.invariant Held (fun _ _ h physical => h.step physical) held_start physical).noPhantom

end QmkFirmware.Naginata.Keyboard
