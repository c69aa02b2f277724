import QmkFirmware.Lib.Run
import QmkFirmware.DynamicMacro.Code

/-!
# Stored macros

What dynamic macros are for: two lists of records, and a recording that becomes one of
them when it stops. The buffer refines them, each list in its own part of it.
-/

namespace QmkFirmware.DynamicMacro
open Lib

variable {R : Type}

def Slot.other : Slot → Slot
  | one => two
  | two => one

/-- The element of the buffer that is the `k`-th one of a macro -/
def Config.cell (cfg : Config R) : Slot → Nat → Int
  | .one, k => k
  | .two, k => cfg.size - 1 - k

/-- `macro_end` and `r_macro_end` -/
def State.ending (s : State R) : Slot → Int
  | .one => s.macroEnd
  | .two => s.rMacroEnd

/-- The stored macros, and the macro that is recorded with everything that was typed since the start of the recording -/
structure Macros (R : Type) where
  stored : Slot → List R
  recording : Option (Slot × List R)

namespace Macros

/-- What the other macro leaves -/
def capacity (cfg : Config R) (m : Macros R) (slot : Slot) : Nat := cfg.size - (m.stored slot.other).length

end Macros

namespace Config

variable (cfg : Config R)

/-- What a recording keeps: no leading releases, and no more than fits -/
def kept (capacity : Nat) (typed : List R) : List R := (typed.dropWhile fun r => !cfg.pressed r).take capacity

/-- What a recording stores: the presses at the end are trimmed. -/
def trimmed (capacity : Nat) (typed : List R) : List R := (cfg.kept capacity typed).rdropWhile cfg.pressed

end Config

/-- A key, as the user sees it -/
def Macros.call (cfg : Config R) (keycode : UInt16) (record : R) (m : Macros R) : Macros R :=
  match m.recording with
  | none =>
    if cfg.pressed record then m
    else if keycode = recordStart1 then { m with recording := some (.one, []) }
    else if keycode = recordStart2 then { m with recording := some (.two, []) }
    else m
  | some (slot, typed) =>
    if keycode = recordStart1 ∨ keycode = recordStart2 ∨ keycode = recordStop then
      if cfg.pressed record ^^ decide (keycode ≠ recordStop) then
        ⟨Function.update m.stored slot (cfg.trimmed (m.capacity cfg slot) typed), none⟩
      else m
    else if cfg.noNesting ∧ (keycode = play1 ∨ keycode = play2) then m
    else if cfg.validKeyUser keycode record then { m with recording := some (slot, typed ++ [record]) }
    else m

/-- A list is in the part of the buffer of a macro. -/
def Config.Holds (cfg : Config R) (buffer : Int → R) (slot : Slot) (l : List R) : Prop :=
  ∀ i (h : i < l.length), buffer (cfg.cell slot i) = l[i]

/-- The buffer holds the stored macros and what the recording keeps. -/
structure Refines (cfg : Config R) (s : State R) (m : Macros R) : Prop where
  ending : ∀ slot, s.ending slot = cfg.cell slot (m.stored slot).length
  room : (m.stored .one).length + (m.stored .two).length ≤ cfg.size
  macroId : s.macroId = m.recording.map Prod.fst
  stored : ∀ slot, s.macroId ≠ some slot → cfg.Holds s.buffer slot (m.stored slot)
  pointer : ∀ slot typed, m.recording = some (slot, typed) →
    s.macroPointer = cfg.cell slot (cfg.kept (m.capacity cfg slot) typed).length
  recorded : ∀ slot typed, m.recording = some (slot, typed) →
    cfg.Holds s.buffer slot (cfg.kept (m.capacity cfg slot) typed)

section

variable {cfg : Config R} {slot : Slot} {s : State R} {m : Macros R} {l : List R} {buffer : Int → R} {record : R}

/-! ## The cells of the buffer -/

theorem cell_zero : cfg.cell slot 0 = cfg.start slot := by
  cases slot <;> simp [Config.cell, Config.start]

theorem cell_succ {k : Nat} : cfg.cell slot (k + 1) = cfg.cell slot k + slot.direction := by
  cases slot with
  | one => rfl
  | two =>
    unfold Config.cell Slot.direction
    dsimp only
    omega

theorem cell_injective {j k : Nat} : cfg.cell slot j = cfg.cell slot k ↔ j = k := by
  cases slot <;> simp [Config.cell]

theorem cell_eq_start {k : Nat} : cfg.cell slot k = cfg.start slot ↔ k = 0 := by
  rw [← cell_zero, cell_injective]

/-- The cells of the two macros are different ones as long as the macros fit. -/
theorem cell_ne_other {j k : Nat} (fits : j + k + 1 < cfg.size) : cfg.cell slot.other j ≠ cfg.cell slot k := by
  cases slot <;> simp [Config.cell, Slot.other] <;> omega

theorem length_room (h : (m.stored .one).length + (m.stored .two).length ≤ cfg.size) (slot : Slot) :
    (m.stored slot).length + (m.stored slot.other).length ≤ cfg.size := by
  cases slot
  · exact h
  · exact (Nat.add_comm _ _).trans_le h

/-- The test of `dynamic_macro_record_key` -/
theorem room_iff {k n : Nat} (le : k + n ≤ cfg.size) :
    cfg.cell slot k - slot.direction ≠ cfg.cell slot.other n ↔ k < cfg.size - n := by
  cases slot <;> simp [Config.cell, Slot.other, Slot.direction] <;> omega

theorem Config.Holds.append (h : cfg.Holds buffer slot l) :
    cfg.Holds (Function.update buffer (cfg.cell slot l.length) record) slot (l ++ [record]) := by
  intro i bound
  by_cases last : i = l.length
  · subst last
    rw [Function.update_self, List.getElem_concat_length rfl]
  · have before : i < l.length := by
      rw [List.length_append, List.length_singleton] at bound
      omega
    rw [Function.update_of_ne (fun eq => last (cell_injective.mp eq)), List.getElem_append_left before]
    exact h i before

theorem Config.Holds.set (h : cfg.Holds buffer slot l) {index : Nat} :
    cfg.Holds (Function.update buffer (cfg.cell slot index) record) slot (l.set index record) := by
  intro i bound
  by_cases here : i = index
  · subst here
    rw [Function.update_self, List.getElem_set_self]
  · rw [Function.update_of_ne (fun eq => here (cell_injective.mp eq)), List.getElem_set_ne (Ne.symm here)]
    exact h i _

theorem Config.Holds.update_other {k : Nat} (h : cfg.Holds buffer slot.other l) (inside : k < cfg.size - l.length) :
    cfg.Holds (Function.update buffer (cfg.cell slot k) record) slot.other l := by
  intro i bound
  rw [Function.update_of_ne (cell_ne_other (by omega))]
  exact h i bound

/-! ## The functions -/

theorem kept_length_le {capacity : Nat} {typed : List R} : (cfg.kept capacity typed).length ≤ capacity :=
  List.length_take_le _ _

theorem kept_nil {capacity : Nat} : cfg.kept capacity [] = [] := List.take_nil

/-- One more record is dropped, kept or cut. -/
theorem kept_append {capacity : Nat} {typed : List R} :
    cfg.kept capacity (typed ++ [record]) =
      if cfg.pressed record = false ∧ (cfg.kept capacity typed).length = 0 then cfg.kept capacity typed
      else if (cfg.kept capacity typed).length < capacity then cfg.kept capacity typed ++ [record]
      else cfg.kept capacity typed := by
  unfold Config.kept
  rw [List.dropWhile_append]
  generalize typed.dropWhile (fun r => !cfg.pressed r) = l
  cases l with
  | nil =>
    cases pressed : cfg.pressed record with
    | false => simp [pressed]
    | true =>
      cases capacity with
      | zero => simp
      | succ n => simp [pressed]
  | cons r rest =>
    have some : ¬ (r :: rest).isEmpty = true := by simp
    rw [if_neg some, List.take_append, List.length_take]
    cases capacity with
    | zero => simp
    | succ n =>
      rw [if_neg (by simp)]
      by_cases room : (r :: rest).length < n + 1
      · rw [if_pos (by omega)]
        congr 1
        apply List.take_of_length_le
        simp only [List.length_singleton]
        omega
      · rw [if_neg (by omega), Nat.sub_eq_zero_of_le (not_lt.mp room), List.take_zero, List.append_nil]

/-- The loop of `dynamic_macro_record_end` trims the presses at the end. -/
theorem recordEnd_eq (h : cfg.Holds buffer slot l) {turns : Nat} (enough : l.length ≤ turns) :
    cfg.recordEnd (cfg.start slot) slot.direction buffer turns (cfg.cell slot l.length) =
      cfg.cell slot (l.rdropWhile cfg.pressed).length := by
  induction l using List.reverseRecOn generalizing turns with
  | nil =>
    rw [List.rdropWhile_nil]
    cases turns with
    | zero => rfl
    | succ turns =>
      unfold Config.recordEnd
      exact if_neg fun more => more.1 cell_zero
  | append_singleton l r ih =>
    rw [List.length_append, List.length_singleton] at enough ⊢
    obtain ⟨turns, rfl⟩ := Nat.exists_eq_add_one_of_ne_zero (Nat.ne_of_gt (Nat.lt_of_lt_of_le (Nat.succ_pos _) enough))
    have last : buffer (cfg.cell slot l.length) = r := by
      have here := h l.length (by simp)
      rwa [List.getElem_concat_length rfl] at here
    have rest : cfg.Holds buffer slot l := by
      intro i bound
      have here := h i (by simp; omega)
      rwa [List.getElem_append_left bound] at here
    unfold Config.recordEnd
    rw [cell_succ, add_sub_cancel_right, last, ← cell_succ, List.rdropWhile_concat]
    by_cases pressed : cfg.pressed r = true
    · rw [if_pos ⟨fun zero => absurd (cell_eq_start.mp zero) (Nat.succ_ne_zero _), pressed⟩, if_pos pressed]
      exact ih rest (by omega)
    · rw [if_neg fun more => pressed more.2, if_neg pressed, List.length_append, List.length_singleton]

theorem Config.Holds.mono (h : cfg.Holds buffer slot l) {l' : List R} (pre : l' <+: l) : cfg.Holds buffer slot l' := by
  intro i bound
  rw [pre.getElem bound]
  exact h i _

/-- `dynamic_macro_record_key` of a macro that is recorded -/
theorem recordKey_eq {capacity n : Nat} {typed : List R} (fits : capacity + n = cfg.size) :
    cfg.recordKey (cfg.start slot) (cfg.cell slot (cfg.kept capacity typed).length) (cfg.cell slot.other n) slot.direction
        record buffer =
      (if (cfg.kept capacity (typed ++ [record])).length = (cfg.kept capacity typed).length then buffer
        else Function.update buffer (cfg.cell slot (cfg.kept capacity typed).length) record,
      cfg.cell slot (cfg.kept capacity (typed ++ [record])).length) := by
  have le := @kept_length_le R cfg capacity typed
  have room := @room_iff R cfg slot (cfg.kept capacity typed).length n (by omega)
  rw [show cfg.size - n = capacity by omega] at room
  have leading_iff : (cfg.pressed record = false ∧ cfg.cell slot (cfg.kept capacity typed).length = cfg.start slot) ↔
      cfg.pressed record = false ∧ (cfg.kept capacity typed).length = 0 := and_congr_right fun _ => cell_eq_start
  unfold Config.recordKey
  rw [kept_append]
  by_cases leading : cfg.pressed record = false ∧ (cfg.kept capacity typed).length = 0
  · rw [if_pos (leading_iff.mpr leading), if_pos leading, if_pos rfl]
  · rw [if_neg (fun test => leading (leading_iff.mp test)), if_neg leading]
    by_cases more : (cfg.kept capacity typed).length < capacity
    · rw [if_pos more, if_pos (room.mpr more), List.length_append, List.length_singleton, if_neg (Nat.succ_ne_self _), cell_succ]
    · rw [if_neg more, if_neg (fun test => more (room.mp test)), if_pos rfl]

/-- What a recording keeps grows by the record that is written, if any is. -/
theorem Config.Holds.typed {capacity : Nat} {typed : List R} (h : cfg.Holds buffer slot (cfg.kept capacity typed)) :
    cfg.Holds (if (cfg.kept capacity (typed ++ [record])).length = (cfg.kept capacity typed).length then buffer
      else Function.update buffer (cfg.cell slot (cfg.kept capacity typed).length) record) slot
      (cfg.kept capacity (typed ++ [record])) := by
  rw [kept_append]
  split_ifs with leading same room same'
  · exact h
  · exact absurd rfl same
  · rw [List.length_append, List.length_singleton] at same'
    exact absurd same' (Nat.succ_ne_self _)
  · exact h.append
  · exact h
  · exact absurd rfl ‹_›

end

/-! ## Steps -/

/-- What happens: a call, or `process_record` changes a record of a stored macro that it is given by a playback. -/
inductive Event (R : Type) where
  | call (keycode : UInt16) (record : R)
  | change (slot : Slot) (index : Nat) (record : R)

/-- The buffer and the macros side by side -/
structure World (R : Type) where
  state : State R
  macros : Macros R

/-- A record of a stored macro is changed, not while the macro is recorded anew. -/
def Macros.change (slot : Slot) (index : Nat) (record : R) (m : Macros R) : Macros R :=
  if m.recording.map Prod.fst = some slot then m
  else { m with stored := Function.update m.stored slot ((m.stored slot).set index record) }

/-- The same in the buffer -/
def State.change (cfg : Config R) (slot : Slot) (index : Nat) (record : R) (s : State R) : State R :=
  if s.macroId = some slot ∨ (s.ending slot - cfg.start slot) * slot.direction ≤ index then s
  else { s with buffer := Function.update s.buffer (cfg.cell slot index) record }

def World.step (cfg : Config R) (x : World R) : Event R → World R
  | .call keycode record => ⟨(cfg.processDynamicMacro keycode record x.state).1, x.macros.call cfg keycode record⟩
  | .change slot index record => ⟨x.state.change cfg slot index record, x.macros.change slot index record⟩

/-- At the start there is nothing stored. -/
def World.initial (cfg : Config R) (buffer : Int → R) : World R := ⟨cfg.initial buffer, fun _ => [], none⟩

section

variable {cfg : Config R} {slot : Slot} {s : State R} {m : Macros R} {keycode : UInt16} {record : R}

theorem refines_initial {buffer : Int → R} : Refines cfg (cfg.initial buffer) ⟨fun _ => [], none⟩ where
  ending slot := by
    cases slot with
    | one => rfl
    | two =>
      change (cfg.size : Int) - 1 = cfg.size - 1 - (0 : Nat)
      omega
  room := Nat.zero_le _
  macroId := rfl
  stored _ _ _ bound := absurd bound (Nat.not_lt_zero _)
  pointer _ _ on := absurd on (by simp)
  recorded _ _ on := absurd on (by simp)

theorem capacity_add (h : Refines cfg s m) (slot : Slot) :
    m.capacity cfg slot + (m.stored slot.other).length = cfg.size := by
  have room := length_room h.room slot
  unfold Macros.capacity
  omega

/-- A recording starts. -/
theorem Refines.start (h : Refines cfg s m) (idle : m.recording = none) (slot : Slot) :
    Refines cfg { s with macroPointer := cfg.start slot, macroId := some slot } { m with recording := some (slot, []) } where
  ending := h.ending
  room := h.room
  macroId := rfl
  stored slot' _ := by
    apply h.stored slot'
    rw [h.macroId, idle]
    exact Option.some_ne_none slot' ∘ Eq.symm
  pointer slot' typed on := by
    obtain ⟨rfl, rfl⟩ := Prod.mk.inj (Option.some.inj on)
    rw [kept_nil]
    exact cell_zero.symm
  recorded slot' typed on := by
    obtain ⟨rfl, rfl⟩ := Prod.mk.inj (Option.some.inj on)
    rw [kept_nil]
    exact fun _ bound => absurd bound (Nat.not_lt_zero _)

/-- A recording goes on: a record is typed. -/
theorem Refines.typed (h : Refines cfg s m) {typed : List R} (on : m.recording = some (slot, typed)) :
    let written := cfg.recordKey (cfg.start slot) s.macroPointer (s.ending slot.other) slot.direction record s.buffer
    Refines cfg { s with buffer := written.1, macroPointer := written.2 } { m with recording := some (slot, typed ++ [record]) } := by
  intro written
  have id : s.macroId = some slot := by rw [h.macroId, on]; rfl
  have eq : written =
      (if (cfg.kept (m.capacity cfg slot) (typed ++ [record])).length = (cfg.kept (m.capacity cfg slot) typed).length
        then s.buffer
        else Function.update s.buffer (cfg.cell slot (cfg.kept (m.capacity cfg slot) typed).length) record,
      cfg.cell slot (cfg.kept (m.capacity cfg slot) (typed ++ [record])).length) := by
    change cfg.recordKey (cfg.start slot) s.macroPointer (s.ending slot.other) slot.direction record s.buffer = _
    rw [h.pointer slot typed on, h.ending slot.other]
    exact recordKey_eq (capacity_add h slot)
  have other : ∀ slot', some slot ≠ some slot' → slot' = slot.other := by
    intro slot' ne
    cases slot <;> cases slot' <;> first | rfl | exact absurd rfl ne
  constructor
  · exact h.ending
  · exact h.room
  · exact id
  · intro slot' ne
    change s.macroId ≠ some slot' at ne
    rw [id] at ne
    rw [other slot' ne, eq]
    have still := h.stored slot.other (by rw [id]; exact fun same => ne (same.trans (congrArg some (other slot' ne).symm)))
    dsimp only
    split
    · exact still
    next more =>
      apply still.update_other
      have le := @kept_length_le R cfg (m.capacity cfg slot) typed
      have full : (cfg.kept (m.capacity cfg slot) typed).length ≠ m.capacity cfg slot := by
        intro full
        apply more
        rw [kept_append]
        split
        · rfl
        · rw [if_neg (by omega)]
      exact Nat.lt_of_le_of_ne le full
  · intro slot' typed' on'
    obtain ⟨rfl, rfl⟩ := Prod.mk.inj (Option.some.inj on')
    rw [eq]
    rfl
  · intro slot' typed' on'
    obtain ⟨rfl, rfl⟩ := Prod.mk.inj (Option.some.inj on')
    rw [eq]
    exact (h.recorded slot typed on).typed

theorem Slot.eq_other {slot slot' : Slot} (ne : slot' ≠ slot) : slot' = slot.other := by
  cases slot <;> cases slot' <;> first | rfl | exact absurd rfl ne

theorem Slot.other_ne {slot : Slot} : slot.other ≠ slot := by
  cases slot <;> decide

theorem Slot.other_other {slot : Slot} : slot.other.other = slot := by
  cases slot <;> rfl

/-- The end of a macro moves. -/
def State.setEnding (slot : Slot) (ending : Int) (s : State R) : State R :=
  match slot with
  | .one => { s with macroEnd := ending }
  | .two => { s with rMacroEnd := ending }

theorem ending_setEnding {ending : Int} {slot' : Slot} :
    (s.setEnding slot ending).ending slot' = if slot' = slot then ending else s.ending slot' := by
  cases slot <;> cases slot' <;> rfl

theorem buffer_setEnding {ending : Int} : (s.setEnding slot ending).buffer = s.buffer := by
  cases slot <;> rfl

/-- The recording stops. -/
theorem Refines.stop (h : Refines cfg s m) {typed : List R} (on : m.recording = some (slot, typed)) :
    Refines cfg
      { s.setEnding slot (cfg.recordEnd (cfg.start slot) slot.direction s.buffer cfg.size s.macroPointer) with macroId := none }
      ⟨Function.update m.stored slot (cfg.trimmed (m.capacity cfg slot) typed), none⟩ := by
  have id : s.macroId = some slot := by rw [h.macroId, on]; rfl
  have recorded := h.recorded slot typed on
  have le := @kept_length_le R cfg (m.capacity cfg slot) typed
  have capacity := capacity_add h slot
  have trim : (cfg.trimmed (m.capacity cfg slot) typed) <+: cfg.kept (m.capacity cfg slot) typed := List.rdropWhile_prefix _ _
  have ended : cfg.recordEnd (cfg.start slot) slot.direction s.buffer cfg.size s.macroPointer =
      cfg.cell slot (cfg.trimmed (m.capacity cfg slot) typed).length := by
    rw [h.pointer slot typed on]
    exact recordEnd_eq recorded (by omega)
  have shorter := trim.length_le
  constructor
  · intro slot'
    change (s.setEnding slot _).ending slot' = _
    rw [ending_setEnding, ended]
    dsimp only
    by_cases same : slot' = slot
    · rw [if_pos same, same, Function.update_self]
    · rw [if_neg same, Function.update_of_ne same]
      exact h.ending slot'
  · cases slot with
    | one =>
      dsimp only
      rw [Function.update_self, Function.update_of_ne (by decide)]
      change _ + (m.stored .two).length = cfg.size at capacity
      omega
    | two =>
      dsimp only
      rw [Function.update_self, Function.update_of_ne (by decide)]
      change _ + (m.stored .one).length = cfg.size at capacity
      omega
  · rfl
  · intro slot' _
    change cfg.Holds (s.setEnding slot _).buffer slot' (Function.update m.stored slot _ slot')
    rw [buffer_setEnding]
    by_cases same : slot' = slot
    · rw [same, Function.update_self]
      exact recorded.mono trim
    · rw [Function.update_of_ne same]
      apply h.stored slot'
      rw [id]
      exact fun eq => same (Option.some.inj eq).symm
  · exact fun _ _ on => absurd on (by simp)
  · exact fun _ _ on => absurd on (by simp)

/-- A record of a stored macro changes. -/
theorem Refines.change (h : Refines cfg s m) {index : Nat} :
    Refines cfg (s.change cfg slot index record) (m.change slot index record) := by
  have length : (s.ending slot - cfg.start slot) * slot.direction = (m.stored slot).length := by
    rw [h.ending slot]
    cases slot <;> simp [Config.cell, Config.start, Slot.direction]
  unfold State.change Macros.change
  rw [length, ← h.macroId]
  by_cases recorded : s.macroId = some slot
  · rw [if_pos recorded, if_pos (.inl recorded)]
    exact h
  · rw [if_neg recorded]
    by_cases bound : (m.stored slot).length ≤ index
    · rw [if_pos (.inr (by exact_mod_cast bound)), List.set_eq_of_length_le bound, Function.update_eq_self]
      exact h
    · rw [if_neg (not_or.mpr ⟨recorded, by exact_mod_cast bound⟩)]
      have room := length_room h.room slot
      have set : ∀ slot', (Function.update m.stored slot ((m.stored slot).set index record) slot').length =
          (m.stored slot').length := by
        intro slot'
        by_cases same : slot' = slot
        · rw [same, Function.update_self, List.length_set]
        · rw [Function.update_of_ne same]
      have capacity : ∀ slot', Macros.capacity cfg { m with stored := Function.update m.stored slot ((m.stored slot).set index record) }
          slot' = m.capacity cfg slot' := by
        intro slot'
        unfold Macros.capacity
        rw [set]
      constructor
      · intro slot'
        dsimp only
        rw [set]
        exact h.ending slot'
      · dsimp only
        rw [set, set]
        exact h.room
      · exact h.macroId
      · intro slot' idle
        by_cases same : slot' = slot
        · dsimp only
          rw [same, Function.update_self]
          exact (h.stored slot recorded).set
        · dsimp only
          rw [Function.update_of_ne same]
          obtain rfl := Slot.eq_other same
          exact (h.stored _ idle).update_other (by omega)
      · intro slot' typed on
        rw [capacity]
        exact h.pointer slot' typed on
      · intro slot' typed on
        rw [capacity]
        have different : slot' ≠ slot := by
          rintro rfl
          apply recorded
          rw [h.macroId]
          exact congrArg (Option.map Prod.fst) on
        obtain rfl := Slot.eq_other different
        refine (h.recorded _ typed on).update_other ?_
        have kept := @kept_length_le R cfg (m.capacity cfg slot.other) typed
        have left : m.capacity cfg slot.other = cfg.size - (m.stored slot).length := by
          unfold Macros.capacity
          rw [Slot.other_other]
        omega

theorem recording_stop (stop : keycode = recordStart1 ∨ keycode = recordStart2 ∨ keycode = recordStop)
    (strike : (cfg.pressed record ^^ decide (keycode ≠ recordStop)) = true) :
    (cfg.recording slot keycode record s).1 =
      { s.setEnding slot (cfg.recordEnd (cfg.start slot) slot.direction s.buffer cfg.size s.macroPointer) with macroId := none } := by
  unfold Config.recording
  rw [if_pos stop, if_pos strike]
  cases slot <;> rfl

theorem recording_typed (other : ¬ (keycode = recordStart1 ∨ keycode = recordStart2 ∨ keycode = recordStop))
    (plays : ¬ (cfg.noNesting = true ∧ (keycode = play1 ∨ keycode = play2))) (valid : cfg.validKeyUser keycode record = true) :
    (cfg.recording slot keycode record s).1 =
      { s with
        buffer := (cfg.recordKey (cfg.start slot) s.macroPointer (s.ending slot.other) slot.direction record s.buffer).1
        macroPointer :=
          (cfg.recordKey (cfg.start slot) s.macroPointer (s.ending slot.other) slot.direction record s.buffer).2 } := by
  unfold Config.recording
  rw [if_neg other, if_neg plays, if_pos valid]
  cases slot <;> rfl

theorem Refines.call (h : Refines cfg s m) :
    Refines cfg (cfg.processDynamicMacro keycode record s).1 (m.call cfg keycode record) := by
  unfold Config.processDynamicMacro Macros.call
  rw [h.macroId]
  cases on : m.recording with
  | none =>
    dsimp only [Option.map_none]
    split_ifs
    · exact h
    · exact h.start on .one
    · exact h.start on .two
    · exact h
    · exact h
    · exact h
  | some recording =>
    obtain ⟨slot, typed⟩ := recording
    dsimp only [Option.map_some]
    by_cases stop : keycode = recordStart1 ∨ keycode = recordStart2 ∨ keycode = recordStop
    · rw [if_pos stop]
      by_cases strike : (cfg.pressed record ^^ decide (keycode ≠ recordStop)) = true
      · rw [if_pos strike, recording_stop stop strike]
        exact h.stop on
      · unfold Config.recording
        rw [if_pos stop, if_neg strike, if_neg strike]
        exact h
    · rw [if_neg stop]
      by_cases plays : cfg.noNesting = true ∧ (keycode = play1 ∨ keycode = play2)
      · unfold Config.recording
        rw [if_neg stop, if_pos plays, if_pos plays]
        exact h
      · rw [if_neg plays]
        by_cases valid : cfg.validKeyUser keycode record = true
        · rw [if_pos valid, recording_typed stop plays valid]
          exact h.typed on
        · unfold Config.recording
          rw [if_neg stop, if_neg plays, if_neg valid, if_neg valid]
          exact h

end

theorem refines_run (cfg : Config R) (buffer : Int → R) (events : List (Event R)) :
    let x := events.foldl (World.step cfg) (World.initial cfg buffer)
    Refines cfg x.state x.macros := by
  have any : Along (World.step cfg) (fun _ _ => True) (World.initial cfg buffer) events := Along.of_forall fun _ _ => trivial
  apply any.invariant (fun x : World R => Refines cfg x.state x.macros)
  · intro x event h _
    cases event with
    | call keycode record => exact h.call
    | change slot index record => exact h.change
  · exact refines_initial

/-! ## A recording from its start to its end -/

/-- The key that starts the recording of a macro -/
def Slot.recordStart : Slot → UInt16
  | one => recordStart1
  | two => recordStart2

/-- A key that is typed into a recording -/
def Typed (cfg : Config R) (key : UInt16 × R) : Prop :=
  ¬ (key.1 = recordStart1 ∨ key.1 = recordStart2 ∨ key.1 = recordStop) ∧
    ¬ (cfg.noNesting = true ∧ (key.1 = play1 ∨ key.1 = play2)) ∧ cfg.validKeyUser key.1 key.2 = true

/-- A key that stops a recording -/
def Stops (cfg : Config R) (key : UInt16 × R) : Prop :=
  (key.1 = recordStart1 ∨ key.1 = recordStart2 ∨ key.1 = recordStop) ∧
    (cfg.pressed key.2 ^^ decide (key.1 ≠ recordStop)) = true

instance (cfg : Config R) : DecidablePred (Typed cfg) := fun _ => inferInstanceAs (Decidable (_ ∧ _ ∧ _))

instance (cfg : Config R) : DecidablePred (Stops cfg) := fun _ => inferInstanceAs (Decidable (_ ∧ _))

def Event.ofKey (key : UInt16 × R) : Event R := .call key.1 key.2

theorem call_start {cfg : Config R} {m : Macros R} {slot : Slot} {record : R} (idle : m.recording = none)
    (released : cfg.pressed record = false) :
    m.call cfg slot.recordStart record = { m with recording := some (slot, []) } := by
  unfold Macros.call
  rw [idle, released]
  cases slot <;> rfl

theorem call_typed {cfg : Config R} {m : Macros R} {slot : Slot} {typed : List R} {key : UInt16 × R}
    (on : m.recording = some (slot, typed)) (h : Typed cfg key) :
    m.call cfg key.1 key.2 = { m with recording := some (slot, typed ++ [key.2]) } := by
  unfold Macros.call
  rw [on]
  dsimp only
  rw [if_neg h.1, if_neg h.2.1, if_pos h.2.2]

theorem call_stop {cfg : Config R} {m : Macros R} {slot : Slot} {typed : List R} {key : UInt16 × R}
    (on : m.recording = some (slot, typed)) (h : Stops cfg key) :
    m.call cfg key.1 key.2 = ⟨Function.update m.stored slot (cfg.trimmed (m.capacity cfg slot) typed), none⟩ := by
  unfold Macros.call
  rw [on]
  dsimp only
  rw [if_pos h.1, if_pos h.2]

theorem foldl_typed {cfg : Config R} {x : World R} {slot : Slot} {typed : List R} {keys : List (UInt16 × R)}
    (on : x.macros.recording = some (slot, typed)) (h : ∀ key ∈ keys, Typed cfg key) :
    ((keys.map Event.ofKey).foldl (World.step cfg) x).macros =
      { x.macros with recording := some (slot, typed ++ keys.map Prod.snd) } := by
  induction keys generalizing x typed with
  | nil =>
    simp only [List.map_nil, List.foldl_nil, List.append_nil, ← on]
  | cons key keys ih =>
    have first : (x.step cfg (.ofKey key)).macros = { x.macros with recording := some (slot, typed ++ [key.2]) } :=
      call_typed on (h key List.mem_cons_self)
    have rest := ih (congrArg Macros.recording first) fun key mem => h key (List.mem_cons_of_mem _ mem)
    rw [List.map_cons, List.map_cons, List.foldl_cons, rest, first, List.append_assoc]
    rfl

/-- **Dynamic macros do not corrupt each other.** In every state reached the buffer holds the stored macros, the first
below the end of the second one, and what a recording keeps between them. A recording changes its own macro only, and
stores what was typed without leading releases, cut at what the other macro leaves, without the presses at its end. -/
theorem macros_apart (cfg : Config R) (buffer : Int → R) (events : List (Event R)) :
    let x := events.foldl (World.step cfg) (World.initial cfg buffer)
    Refines cfg x.state x.macros ∧
      (0 ≤ x.state.macroEnd ∧ x.state.macroEnd ≤ x.state.rMacroEnd + 1 ∧ x.state.rMacroEnd + 1 ≤ cfg.size) ∧
      ∀ (slot : Slot) (record : R) (keys : List (UInt16 × R)) (stop : UInt16 × R), x.macros.recording = none → cfg.pressed record = false → (∀ key ∈ keys, Typed cfg key) →
        Stops cfg stop →
        let y := (.ofKey (slot.recordStart, record) :: (keys.map Event.ofKey ++ [.ofKey stop])).foldl (World.step cfg) x
        Refines cfg y.state y.macros ∧ y.macros =
          ⟨Function.update x.macros.stored slot (cfg.trimmed (x.macros.capacity cfg slot) (keys.map Prod.snd)), none⟩ := by
  intro x
  have refines : Refines cfg x.state x.macros := refines_run cfg buffer events
  refine ⟨refines, ?_, ?_⟩
  · have one : x.state.macroEnd = (x.macros.stored .one).length := refines.ending .one
    have two : x.state.rMacroEnd = cfg.size - 1 - (x.macros.stored .two).length := refines.ending .two
    have room := refines.room
    exact ⟨by omega, by omega, by omega⟩
  · intro slot record keys stop idle released typed stops y
    constructor
    · have all := refines_run cfg buffer (events ++ (.ofKey (slot.recordStart, record) :: (keys.map Event.ofKey ++ [.ofKey stop])))
      rw [List.foldl_append] at all
      exact all
    · have started : (x.step cfg (.ofKey (slot.recordStart, record))).macros = { x.macros with recording := some (slot, []) } :=
        call_start idle released
      have recorded := foldl_typed (congrArg Macros.recording started) typed
      rw [started, List.nil_append] at recorded
      have ended := call_stop (congrArg Macros.recording recorded) stops
      change (((.ofKey (slot.recordStart, record) :: (keys.map Event.ofKey ++ [.ofKey stop])).foldl (World.step cfg) x)).macros = _
      rw [List.foldl_cons, List.foldl_append, List.foldl_cons, List.foldl_nil]
      refine ended.trans ?_
      rw [recorded]
      rfl

/-- A key is tapped into the first macro, and another one is held when the recording stops. -/
theorem macros_apart_tap :
    let cfg : Config (Bool × Nat) := ⟨128, false, fun _ _ => true, Prod.fst⟩
    let x := [.call recordStart1 (false, 0), .call 4 (true, 1), .call 4 (false, 1), .call 5 (true, 2),
      .call recordStop (true, 3)].foldl (World.step cfg) (World.initial cfg fun _ => (false, 0))
    x.macros.stored .one = [(true, 1), (false, 1)] := by
  intro cfg x
  have all := (macros_apart cfg (fun _ => (false, 0)) []).2.2 .one (false, 0) [(4, (true, 1)), (4, (false, 1)), (5, (true, 2))]
    (recordStop, (true, 3)) rfl rfl (by decide) (by decide)
  exact congrFun (congrArg Macros.stored all.2) .one

end QmkFirmware.DynamicMacro
