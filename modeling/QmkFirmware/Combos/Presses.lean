import QmkFirmware.Lib.Run
import QmkFirmware.Combos.Event

/-!
# No press is lost

What was processed and what is in the key buffer is what came in, in order, and each
dump settles the presses that were gathered for it.
-/

namespace QmkFirmware.Combos
open Lib

variable {n w : Nat}

/-- The presses that an entry of the log is about -/
def Entry.presses : Entry n → List Event
  | .dump gathered _ => gathered
  | .pass e => if e.pressed then [e] else []
  | .release _ _ => []

/-- A dump settles its presses. -/
def Entry.Settles (cfg : Config n) : Entry n → Prop
  | .dump gathered out => Settled cfg gathered out
  | _ => True

/-- The press that comes in -/
def Input.presses : Input → List Event
  | .event e => if e.pressed then [e] else []
  | .task _ => []

/-- Every press that came in was settled or passed, in order, or waits in the key buffer. -/
structure Logged (cfg : Config n) (entered : List Event) (s : State n w) : Prop where
  presses : s.log.flatMap Entry.presses ++ s.keyBuffer.map (·.press) = entered
  settles : ∀ entry ∈ s.log, entry.Settles cfg

/-- The combos are not switched on while presses wait. -/
def OrderOk (s : State n w) : Input → Prop
  | .event e => e.pressed = true ∧ (e.keycode = qkComboOn ∨ e.keycode = qkComboToggle ∧ s.enabled = false) →
      s.keyBuffer = []
  | .task _ => True

instance (s : State n w) : ∀ input, Decidable (OrderOk s input)
  | .event e => inferInstanceAs (Decidable (e.pressed = true ∧
      (e.keycode = qkComboOn ∨ e.keycode = qkComboToggle ∧ s.enabled = false) → s.keyBuffer = []))
  | .task _ => isTrue trivial

/-- The conditions of a step -/
def PressOk (cfg : Config n) (s : State n w) (input : Input) : Prop := InputOk cfg s input ∧ OrderOk s input

instance (cfg : Config n) (s : State n w) (input : Input) : Decidable (PressOk cfg s input) :=
  inferInstanceAs (Decidable (_ ∧ _))

variable {cfg : Config n} {entered : List Event} {s s' : State n w}

theorem Logged.of_eq (h : Logged cfg entered s) (log : s'.log = s.log)
    (keyBuffer : s'.keyBuffer.map (·.press) = s.keyBuffer.map (·.press)) : Logged cfg entered s' := by
  constructor
  · rw [log, keyBuffer]
    exact h.presses
  · rw [log]
    exact h.settles

theorem Logged.release {c : Fin n} (h : Logged cfg entered s) : Logged cfg entered (cfg.releaseCombo c s) := by
  constructor
  · change (s.log ++ [_]).flatMap Entry.presses ++ s.keyBuffer.map (·.press) = entered
    rw [List.flatMap_append]
    simpa [Entry.presses] using h.presses
  · intro entry mem
    obtain mem | mem := List.mem_append.mp (by exact mem)
    · exact h.settles entry mem
    · rw [List.mem_singleton.mp mem]
      trivial

theorem Logged.flushed {fired : List (Fin n)} (h : Logged cfg entered s) (flushed : Flushed cfg s s' fired) :
    Logged cfg entered s' ∧ s'.keyBuffer = [] := by
  obtain ⟨out, settled, -, -, log⟩ := flushed.log
  refine ⟨⟨?_, fun entry mem => ?_⟩, flushed.keyBuffer⟩
  · rw [log, flushed.keyBuffer, List.map_nil, List.append_nil, List.flatMap_append, ← h.presses]
    split
    next none => simp [none]
    next => simp [Entry.presses]
  · rw [log, List.mem_append] at mem
    obtain old | new := mem
    · exact h.settles entry old
    · split at new
      · exact absurd new List.not_mem_nil
      · rw [List.mem_singleton.mp new]
        exact settled

theorem Logged.change {e : Event} {c : Fin n} {part : Bool} (h : Logged cfg entered s)
    (change : Change cfg e c s part s') : Logged cfg entered s' := by
  cases change with
  | skip _ => exact h
  | press _ _ _ _ _ _ _ pressed => exact h.of_eq pressed.log (by rw [pressed.keyBuffer])
  | up _ _ _ _ _ => exact h.of_eq rfl rfl
  | drop _ _ _ _ => exact h.of_eq drop_log (congrArg _ drop_keyBuffer)
  | release _ _ _ => exact h.release.of_eq rfl rfl
  | tap _ _ _ _ _ _ _ flushed _ after =>
    have flushed := (h.flushed flushed).1
    obtain rfl | rfl := after
    · exact flushed.of_eq rfl rfl
    · exact flushed.release.of_eq rfl rfl

/-- A press goes to the buffer. -/
theorem Logged.bufferPress {e : Event} (h : Logged cfg entered s) (room : s.keyBuffer.length < cfg.keyBufferLength) :
    Logged cfg (entered ++ [e]) (cfg.bufferPress e s) := by
  obtain ⟨-, -, log, -⟩ := @bufferPress_flags n w cfg e s
  constructor
  · rw [log, bufferPress_keyBuffer room, List.map_append, ← List.append_assoc, h.presses]
    rfl
  · rw [log]
    exact h.settles

/-- An event passes when nothing waits, or when it is a release. -/
theorem Logged.pass {e : Event} (h : Logged cfg entered s) (none : e.pressed = true → s.keyBuffer = []) :
    Logged cfg (entered ++ Input.presses (.event e)) { s with log := s.log ++ [.pass e] } := by
  constructor
  · change (s.log ++ [_]).flatMap Entry.presses ++ s.keyBuffer.map (·.press) = _
    rw [← h.presses, List.flatMap_append]
    cases down : e.pressed with
    | true =>
      rw [none down]
      simp [Entry.presses, Input.presses, down]
    | false => simp [Entry.presses, Input.presses, down]
  · intro entry mem
    obtain mem | mem := List.mem_append.mp (by exact mem)
    · exact h.settles entry mem
    · rw [List.mem_singleton.mp mem]
      trivial

theorem step_event (cfg : Config n) (s : State n w) (e : Event) :
    cfg.step s (.event e) = if (cfg.processCombo e s).1 then
      { (cfg.processCombo e s).2 with log := (cfg.processCombo e s).2.log ++ [.pass e] }
    else (cfg.processCombo e s).2 := rfl

/-- **What one step does** to the presses. -/
theorem Logged.step {input : Input} (h : Inv cfg [] s) (logged : Logged cfg entered s) (ok : PressOk cfg s input) :
    Logged cfg (entered ++ input.presses) (cfg.step s input) := by
  cases input with
  | event e =>
    rw [step_event]
    obtain ⟨down, switch, eq⟩ | ⟨down, s', flushed, eq⟩ | ⟨down, t, -, logged, room, eq⟩ |
        ⟨t, part, fired, s', inv, logged, flushed, passes, eq⟩ :=
      processCombo_cases (fun _ => Logged cfg entered) h ok.1 (fun _ _ _ _ _ _ _ _ change logged => logged.change change)
        logged
    · have none := ok.2 ⟨down, switch⟩
      rw [eq]
      exact Logged.pass (s := Config.comboEnable s) (logged.of_eq rfl rfl) fun _ => none
    · rw [eq]
      have off : Logged cfg entered { s with enabled := false } := logged.of_eq rfl rfl
      obtain ⟨logged', none⟩ := off.flushed flushed
      exact logged'.pass fun _ => none
    · rw [eq]
      have pressed : Input.presses (.event e) = [e] := if_pos down
      rw [pressed]
      exact logged.bufferPress room
    · rw [eq]
      obtain ⟨logged', none⟩ := logged.flushed flushed
      cases counts : part with
      | true =>
        have up : Input.presses (.event e) = [] := by
          refine if_neg fun down => ?_
          exact absurd (counts.symm.trans (passes down)) (by decide)
        rw [up, List.append_nil]
        exact logged'
      | false => exact logged'.pass fun _ => none
  | task now =>
    change Logged cfg (entered ++ []) (cfg.comboTask now s)
    rw [List.append_nil]
    obtain eq | ⟨fired, flushed⟩ := comboTask_cases h ok.1 now
    · rw [eq]
      exact logged
    · exact (logged.flushed flushed).1

/-- **No press is lost**: in every run that meets the conditions, what was dumped or passed, followed
by what waits in the key buffer, is what came in, in order, and each dump processes its presses once,
in order, or fires a combo for them, once and with all its keys. -/
theorem presses_settled {inputs : List Input} (ok : Along cfg.step (PressOk cfg) (initial : State n w) inputs) :
    Logged cfg (inputs.flatMap Input.presses) (inputs.foldl cfg.step (initial : State n w)) := by
  have run := Along.run (s := (initial : State n w)) (p := PressOk cfg)
    (fun s past => Inv cfg [] s ∧ Logged cfg (past.flatMap Input.presses) s)
    (fun s past input h ok => ⟨h.1.step ok.1, by
      rw [List.flatMap_append, List.flatMap_singleton]
      exact Logged.step h.1 h.2 ok⟩) []
    ⟨inv_initial, rfl, fun _ mem => absurd mem List.not_mem_nil⟩ ok
  exact run.2

section Examples

/-- Combos with these keys, in the order of their keycodes, and their settings -/
def sample (combos : Fin n → Combo) : Config n where
  combos := combos
  comboTerm := fun _ => 50
  holdTerm := 200
  mustHold := fun _ => false
  mustTap := fun _ => false
  mustPressInOrder := fun _ => false
  shouldTrigger := fun _ _ => true
  processKeyRelease := fun _ _ _ => false
  noTimer := false
  strictTimer := false
  keyBufferLength := 8
  comboBufferLength := 4

/-- `KC_A` to `KC_E`, alone and nested -/
def nested : Fin 3 → Combo :=
  ![⟨[4, 5], 41, by decide⟩, ⟨[6, 7], 42, by decide⟩, ⟨[6, 7, 8], 43, by decide⟩]

def key (keycode time : Nat) (pressed : Bool) : Input :=
  .event ⟨(0, keycode), pressed, keycode, keycode, BitVec.ofNat 16 time⟩

/-- A combo fires for its two keys, and a third key is typed. -/
def chord : List Input :=
  [key 4 10 true, key 5 11 true, .task 100, key 4 110 false, key 5 111 false, key 6 120 true, .task 200,
    key 6 210 false]

theorem presses_settled_chord :
    Logged (sample nested) (chord.flatMap Input.presses) (chord.foldl (sample nested).step (initial : State 3 8)) :=
  presses_settled (by decide)

/-- Three combos are pressed in one gathering period, one of them over another. -/
def overlapping : List Input :=
  [key 4 10 true, key 5 11 true, key 6 12 true, key 7 13 true, key 8 14 true, .task 100,
    key 4 110 false, key 5 111 false, key 6 112 false, key 7 113 false, key 8 114 false]

/-- A dump of nothing settles no press. -/
theorem settled_nothing {gathered : List Event} (h : Settled cfg gathered []) : gathered = [] := by
  obtain ⟨fates, rfl, fates⟩ := h
  rw [List.map_eq_nil_iff, List.eq_nil_iff_forall_not_mem]
  rintro ⟨e, c⟩ mem
  cases c with
  | none =>
    have processed := fates.processed
    rw [List.filterMap_nil, eq_comm, List.map_eq_nil_iff] at processed
    exact List.not_mem_nil (processed ▸ List.mem_filter.mpr ⟨mem, rfl⟩)
  | some c => exact absurd (fates.taken e c mem).1 List.not_mem_nil

/-- A combo that was left in the buffer swallows a lone key. -/
theorem lone_key_swallowed :
    ((overlapping ++ [key 6 300 true, .task 400]).foldl (sample nested).step (initial : State 3 8)).keyBuffer = [] ∧
      ¬ Logged (sample nested) ((overlapping ++ [key 6 300 true, .task 400]).flatMap Input.presses)
        ((overlapping ++ [key 6 300 true, .task 400]).foldl (sample nested).step (initial : State 3 8)) := by
  have dump : Entry.dump [⟨(0, 6), true, 6, 6, 300⟩] [] ∈
      ((overlapping ++ [key 6 300 true, .task 400]).foldl (sample nested).step (initial : State 3 8)).log := by
    decide +kernel
  refine ⟨by decide +kernel, fun logged => ?_⟩
  have settled : Settled (sample nested) [⟨(0, 6), true, 6, 6, 300⟩] [] := logged.settles _ dump
  exact absurd (settled_nothing settled) (List.cons_ne_nil _ _)

end Examples

end QmkFirmware.Combos
