import QmkFirmware.TapDance.Code
import QmkFirmware.Lib.Run

/-!
# Taps, finishes and resets

Every dance that is finished is reset before it begins again, and the reset unregisters what was
registered, as long as no second key with the same keycode is pressed while the dance is finished and
its first key still held.
-/

namespace QmkFirmware.TapDance
open Lib

/-- The keycode of a dance -/
def keycodeOf (d : Nat) : Nat := 0x5700 + d

/-! ## What the calls are to be -/

/-- How far a dance is -/
inductive Phase where
  | idle
  | tapping
  | done
  deriving DecidableEq

/-- What a call of the functions of a dance does to its phase, none if it comes at the wrong time. -/
def Phase.next (d : Nat) (phase : Phase) : Call → Option Phase
  | .onEachTap other => if other = d then if phase = .done then none else some .tapping else some phase
  | .onDanceFinished other => if other = d then if phase = .tapping then some .done else none else some phase
  | .onReset other => if other = d then if phase = .idle then none else some .idle else some phase
  | _ => some phase

/-- The phase of a dance after the calls -/
def phaseOf (d : Nat) (calls : List Call) : Option Phase := calls.foldlM (Phase.next d) .idle

/-- Whether a keycode is registered after the calls. -/
def registered (keycode : Nat) (calls : List Call) : Bool :=
  calls.foldl (fun on call =>
    match call with
    | .register kc => on || kc == keycode
    | .unregister kc => on && kc != keycode
    | _ => on) false

/-- The dance is finished, and its reset is to unregister the keycode. -/
def Owes (dance : Dance) (state : DanceState) (keycode : Nat) : Prop :=
  state.finished = true ∧ .unregister keycode ∈ resetCalls state.count dance

/-! ## Runs -/

/-- What can happen: a press has the keycode of the key, and the one that is looked up again if a dance is finished
first. `others` is what the rest of the firmware does to the modifiers, and the time. -/
inductive Event (K : Type) where
  | press (key : K) (keycode again : Nat)
  | release (key : K)
  | task
  | others (mods weakMods oneshotMods : BitVec 8) (now : Nat)

/-- The state, and the keycodes of the keys that are down -/
structure World (K : Type) where
  state : State
  down : K → Option Nat

variable {K : Type} [DecidableEq K]

def World.step (dances : Nat → Dance) (tappingTerm : Nat → Nat) (w : World K) : Event K → World K
  | .press key keycode again =>
    let (s, lookUp) := preprocessTapDance dances keycode true w.state
    let keycode := if lookUp then again else keycode
    ⟨processTapDance dances keycode true s, Function.update w.down key (some keycode)⟩
  | .release key =>
    match w.down key with
    | some keycode =>
      let (s, _) := preprocessTapDance dances keycode false w.state
      ⟨processTapDance dances keycode false s, Function.update w.down key none⟩
    | none => w
  | .task => { w with state := tapDanceTask dances tappingTerm w.state }
  | .others mods weakMods oneshotMods now => { w with state := { w.state with mods, weakMods, oneshotMods, now } }

/-- A key that is pressed was up. -/
def Physical (w : World K) : Event K → Prop
  | .press key _ _ => w.down key = none
  | _ => True

/-- A press finishes the dance that is active. -/
def Interrupts (w : World K) (keycode : Nat) : Prop := w.state.activeTd ≠ 0 ∧ keycode ≠ w.state.activeTd

/-- No dance is tapped that is finished, or that the press finishes with its key held. -/
def Calm (w : World K) : Event K → Prop
  | .press _ keycode again => ∀ d < 256,
    (¬ Interrupts w keycode → keycode = keycodeOf d → (w.state.dances d).finished = false) ∧
      (Interrupts w keycode → again = keycodeOf d →
        (w.state.dances d).finished = false ∧ (w.state.activeTd = keycodeOf d → (w.state.dances d).pressed = false))
  | _ => True

instance (w : World K) : DecidablePred (Physical w) := fun
  | .press key _ _ => inferInstanceAs (Decidable (w.down key = none))
  | .release _ | .task | .others .. => .isTrue trivial

instance (w : World K) (keycode : Nat) : Decidable (Interrupts w keycode) := inferInstanceAs (Decidable (_ ∧ _))

instance (w : World K) : DecidablePred (Calm w) := fun
  | .press .. => Nat.decidableBallLT 256 _
  | .release _ | .task | .others .. => .isTrue trivial

/-- The calls for every dance come in turn; what is registered is owed by a dance that is finished, with a key of it held;
and a dance with all keys up, and that is not active, is over. -/
structure Paired (dances : Nat → Dance) (w : World K) : Prop where
  inTurn : ∀ d, (phaseOf d w.state.calls).isSome
  owed : ∀ keycode, registered keycode w.state.calls = true →
    ∃ d < 256, Owes (dances d) (w.state.dances d) keycode ∧ ∃ key, w.down key = some (keycodeOf d)
  settled : ∀ d < 256, (∀ key, w.down key ≠ some (keycodeOf d)) → w.state.activeTd ≠ keycodeOf d →
    phaseOf d w.state.calls = some .idle

/-- Nothing has happened. -/
def World.start : World K := ⟨⟨fun _ => .zero, 0, 0, 0, 0, 0, 0, []⟩, fun _ => none⟩

/-! ## Calls -/

section
variable {d other : Nat} {calls more : List Call} {phase : Phase} {keycode : Nat}

theorem phaseOf_snoc (h : phaseOf d calls = some phase) (call : Call) :
    phaseOf d (calls ++ [call]) = phase.next d call := by
  rw [phaseOf, List.foldlM_append, ← phaseOf, h]
  simp

/-- Calls of no function of a dance do not change its phase. -/
theorem phaseOf_append (h : phaseOf d calls = some phase) (quiet : ∀ call ∈ more, ∀ phase, Phase.next d phase call = some phase) :
    phaseOf d (calls ++ more) = some phase := by
  induction more generalizing calls with
  | nil => rwa [List.append_nil]
  | cons call more ih =>
    rw [← List.singleton_append, ← List.append_assoc]
    apply ih
    · rw [phaseOf_snoc h, quiet call List.mem_cons_self]
    · exact fun call mem => quiet call (List.mem_cons_of_mem _ mem)

theorem resetCalls_quiet (count : Nat) (dance : Dance) : ∀ call ∈ resetCalls count dance, ∀ phase,
    Phase.next d phase call = some phase := by
  intro call mem phase
  have : ∃ kc, call = .unregister kc := by
    cases dance <;> simp only [resetCalls] at mem <;> repeat' split at mem
    all_goals simp at mem
    all_goals exact ⟨_, mem⟩
  obtain ⟨kc, rfl⟩ := this
  rfl

theorem finishedCalls_quiet (count : Nat) (dance : Dance) : ∀ call ∈ finishedCalls count dance, ∀ phase,
    Phase.next d phase call = some phase := by
  intro call mem phase
  cases dance <;> simp only [finishedCalls] at mem <;> repeat' split at mem
  all_goals simp at mem
  all_goals subst mem; rfl

theorem registered_snoc (call : Call) :
    registered keycode (calls ++ [call]) =
      match call with
      | .register kc => registered keycode calls || kc == keycode
      | .unregister kc => registered keycode calls && kc != keycode
      | _ => registered keycode calls := by
  rw [registered, List.foldl_append]
  rfl

/-- A keycode that is registered was before, or one of the calls registers it; and none of them unregisters it if they
register nothing. -/
theorem registered_append (h : registered keycode (calls ++ more) = true) :
    registered keycode calls = true ∨ .register keycode ∈ more := by
  induction more using List.reverseRecOn with
  | nil => exact .inl (by rwa [List.append_nil] at h)
  | append_singleton more call ih =>
    rw [← List.append_assoc, registered_snoc] at h
    have later : registered keycode (calls ++ more) = true ∨ call = .register keycode := by
      cases call with
      | register kc =>
        rcases Bool.or_eq_true_iff.mp h with h | h
        · exact .inl h
        · exact .inr (by rw [beq_iff_eq.mp h])
      | unregister kc => exact .inl (Bool.and_eq_true_iff.mp h).1
      | _ => exact .inl h
    rcases later with before | rfl
    · exact (ih before).imp_right fun mem => List.mem_append_left _ mem
    · exact .inr (by simp)

theorem not_registered_of_reset {count : Nat} {dance : Dance} (mem : .unregister keycode ∈ resetCalls count dance) :
    registered keycode (calls ++ .onReset d :: resetCalls count dance) = false := by
  have single : resetCalls count dance = [.unregister keycode] := by
    cases dance <;> simp only [resetCalls] at mem ⊢ <;> repeat' split at mem
    all_goals simp_all
  rw [single, ← List.singleton_append, ← List.append_assoc, registered_snoc]
  simp

end

/-- A dance that its second tap finishes has had one tap. -/
def FirstTap (dance : Dance) (count : Nat) : Prop :=
  match dance with
  | .pair _ _ | .layerMove _ _ => count = 1
  | _ => True

/-- How the state of a dance goes with its phase -/
def Agrees (dance : Dance) (state : DanceState) (active : Prop) : Phase → Prop
  | .idle => state.finished = false ∧ state.count = 0 ∧ ¬ active
  | .tapping =>
    state.finished = true ∧ state.pressed = true ∧ ¬ active ∨
      state.finished = false ∧ active ∧ FirstTap dance state.count
  | .done => state.finished = true ∧ state.pressed = true ∧ ¬ active

/-- The state of a dance goes with the calls for it and with the keys that are down. -/
structure Fine (dances : Nat → Dance) (down : K → Option Nat) (s : State) (d : Nat) : Prop where
  phase : ∃ phase, phaseOf d s.calls = some phase ∧ Agrees (dances d) (s.dances d) (s.activeTd = keycodeOf d) phase
  held : (s.dances d).pressed = true → ∃ key, down key = some (keycodeOf d)

/-- All of the invariant but for one dance -/
structure InvBut (dances : Nat → Dance) (down : K → Option Nat) (d : Nat) (s : State) : Prop where
  fine : ∀ other < 256, other ≠ d → Fine dances down s other
  far : ∀ d, 256 ≤ d → phaseOf d s.calls = some .idle
  owed : ∀ keycode, registered keycode s.calls = true → ∃ d < 256, Owes (dances d) (s.dances d) keycode
  active : s.activeTd = 0 ∨ ∃ d < 256, s.activeTd = keycodeOf d

/-- Every dance is fine, and what is registered is owed. -/
structure Inv (dances : Nat → Dance) (down : K → Option Nat) (s : State) : Prop where
  fine : ∀ d < 256, Fine dances down s d
  far : ∀ d, 256 ≤ d → phaseOf d s.calls = some .idle
  owed : ∀ keycode, registered keycode s.calls = true → ∃ d < 256, Owes (dances d) (s.dances d) keycode
  active : s.activeTd = 0 ∨ ∃ d < 256, s.activeTd = keycodeOf d

/-- No function of the dance calls `reset_tap_dance`. -/
def Dance.Stays : Dance → Prop
  | .user onEachTap resets => ∀ state, (onEachTap state).resets = false ∧ resets state = false
  | _ => True

theorem Dance.Stays.finished {dance : Dance} (stays : dance.Stays) : dance.resetsWhenFinished = fun _ => false := by
  funext state
  cases dance with
  | user onEachTap resets => exact (stays state).2
  | _ => rfl

section
variable {dances : Nat → Dance} {down down' : K → Option Nat} {d other : Nat} {s s' : State} {more : List Call}

theorem keycodeOf_ne_zero (d : Nat) : keycodeOf d ≠ 0 := by
  rw [keycodeOf]
  omega

theorem keycodeOf_inj (h : keycodeOf d = keycodeOf other) : d = other := Nat.add_left_cancel h

omit [DecidableEq K]

/-- A dance that nothing is done to stays fine. -/
theorem Fine.frame (h : Fine dances down s d) (state : s'.dances d = s.dances d)
    (active : s'.activeTd = keycodeOf d ↔ s.activeTd = keycodeOf d) (calls : s'.calls = s.calls ++ more)
    (quiet : ∀ call ∈ more, ∀ phase, Phase.next d phase call = some phase)
    (still : ∀ key, down key = some (keycodeOf d) → ∃ key, down' key = some (keycodeOf d)) : Fine dances down' s' d := by
  obtain ⟨⟨phase, turn, agrees⟩, held⟩ := h
  constructor
  · exact ⟨phase, by rw [calls, phaseOf_append turn quiet], by rwa [state, active]⟩
  · intro pressed
    obtain ⟨key, down⟩ := held (state ▸ pressed)
    exact still key down

theorem quiet_cons (ne : other ≠ d) {call : Nat → Call} (own : call = .onEachTap ∨ call = .onDanceFinished ∨ call = .onReset)
    (quiet : ∀ call ∈ more, ∀ phase, Phase.next d phase call = some phase) :
    ∀ c ∈ call other :: more, ∀ phase, Phase.next d phase c = some phase := by
  intro c mem phase
  rcases List.mem_cons.mp mem with rfl | mem
  · rcases own with rfl | rfl | rfl <;> simp [Phase.next, ne]
  · exact quiet c mem phase

/-- A dance that has begun is reset. -/
theorem InvBut.reset (h : InvBut dances down d s) {phase : Phase} (turn : phaseOf d s.calls = some phase)
    (begun : phase ≠ .idle) (inactive : s.activeTd ≠ keycodeOf d) : Inv dances down (actionOnReset dances d s) := by
  have quiet : ∀ other, other ≠ d → ∀ call ∈ .onReset d :: resetCalls (s.dances d).count (dances d), ∀ phase,
      Phase.next other phase call = some phase := fun other ne =>
    quiet_cons ne.symm (.inr (.inr rfl)) (resetCalls_quiet _ _)
  constructor
  · intro other lt
    by_cases same : other = d
    · subst same
      constructor
      · refine ⟨.idle, ?_, ?_⟩
        · change phaseOf other (s.calls ++ .onReset other :: _) = _
          rw [← List.singleton_append, ← List.append_assoc]
          apply phaseOf_append _ (resetCalls_quiet _ _)
          rw [phaseOf_snoc turn]
          simp [Phase.next, begun]
        · simp [Agrees, actionOnReset, DanceState.zero, inactive]
      · simp [actionOnReset, DanceState.zero]
    · exact (h.fine other lt same).frame (by simp [actionOnReset, same]) Iff.rfl rfl (quiet other same)
        fun key down => ⟨key, down⟩
  · intro other far
    by_cases same : other = d
    · subst same
      rw [h.far other far] at turn
      exact absurd (Option.some.inj turn).symm begun
    · exact phaseOf_append (h.far other far) (quiet other same)
  · intro keycode on
    rcases registered_append on with before | new
    · obtain ⟨other, lt, owes⟩ := h.owed keycode before
      by_cases same : other = d
      · subst same
        have off : registered keycode (s.calls ++ .onReset other :: _) = false := not_registered_of_reset owes.2
        exact absurd (on.symm.trans off) (by decide)
      · exact ⟨other, lt, by simpa [actionOnReset, same] using owes⟩
    · exfalso
      rcases List.mem_cons.mp new with wrong | mem
      · cases wrong
      · cases dances d <;> simp only [resetCalls] at mem <;> repeat' split at mem
        all_goals simp at mem
  · exact h.active

/-- The dance that is active has been tapped and is not finished. -/
theorem Fine.tapping (h : Fine dances down s d) (active : s.activeTd = keycodeOf d) :
    phaseOf d s.calls = some .tapping ∧ (s.dances d).finished = false ∧ FirstTap (dances d) (s.dances d).count := by
  obtain ⟨⟨phase, turn, agrees⟩, -⟩ := h
  cases phase with
  | idle => exact absurd active agrees.2.2
  | tapping =>
    rcases agrees with ⟨-, -, inactive⟩ | ⟨unfinished, -, first⟩
    · exact absurd active inactive
    · exact ⟨turn, unfinished, first⟩
  | done => exact absurd active agrees.2.2

/-- What is registered when a dance is finished is what its reset unregisters. -/
theorem owes_of_finished {dance : Dance} {state : DanceState} {keycode : Nat} (finished : state.finished = true)
    (first : FirstTap dance state.count)
    (mem : .register keycode ∈ finishedCalls state.count dance) : Owes dance state keycode := by
  refine ⟨finished, ?_⟩
  cases dance with
  | pair kc1 kc2 =>
    obtain rfl : keycode = kc1 := by simpa [finishedCalls] using mem
    rw [FirstTap] at first
    simp [resetCalls, first]
  | layerMove kc layer =>
    rw [FirstTap] at first
    obtain rfl : keycode = kc := by simpa [finishedCalls, first] using mem
    simp [resetCalls, first]
  | layerToggle kc layer =>
    rw [finishedCalls] at mem
    split at mem
    · rename_i one
      obtain rfl : keycode = kc := by simpa using mem
      simp [resetCalls, one]
    · split at mem <;> simp at mem
  | user _ _ => simp [finishedCalls] at mem

/-- The active dance is finished. -/
theorem Inv.finish (h : Inv dances down s) (stays : (dances d).Stays) (lt : d < 256) (active : s.activeTd = keycodeOf d) :
    Inv dances down (actionOnDanceFinished dances d s) ∧ (actionOnDanceFinished dances d s).activeTd = 0 := by
  obtain ⟨turn, unfinished, first⟩ := (h.fine d lt).tapping active
  obtain ⟨after, eq⟩ : ∃ after : State, after =
      { s with
        calls := s.calls ++ .onDanceFinished d :: finishedCalls (s.dances d).count (dances d)
        weakMods := s.weakMods ||| (s.dances d).weakMods
        mods := s.mods ||| (s.dances d).oneshotMods
        dances := Function.update s.dances d { s.dances d with finished := true }
        activeTd := 0 } := ⟨_, rfl⟩
  have calls : after.calls = s.calls ++ .onDanceFinished d :: finishedCalls (s.dances d).count (dances d) := by rw [eq]
  have state : after.dances d = { s.dances d with finished := true } := by
    rw [eq]
    exact Function.update_self ..
  have elsewhere : ∀ other, other ≠ d → after.dances other = s.dances other := fun other ne => by
    rw [eq]
    exact Function.update_of_ne ne ..
  have idle : after.activeTd = 0 := by rw [eq]
  have quiet : ∀ other, other ≠ d → ∀ call ∈ .onDanceFinished d :: finishedCalls (s.dances d).count (dances d), ∀ phase,
      Phase.next other phase call = some phase := fun other ne =>
    quiet_cons ne.symm (.inr (.inl rfl)) (finishedCalls_quiet _ _)
  have done : phaseOf d after.calls = some .done := by
    rw [calls, ← List.singleton_append, ← List.append_assoc]
    apply phaseOf_append _ (finishedCalls_quiet _ _)
    rw [phaseOf_snoc turn]
    simp [Phase.next]
  have but : InvBut dances down d after := by
    constructor
    · intro other lt ne
      apply (h.fine other lt).frame (elsewhere other ne) _ calls (quiet other ne) fun key down => ⟨key, down⟩
      rw [idle, active]
      exact iff_of_false (keycodeOf_ne_zero other).symm fun same => ne (keycodeOf_inj same).symm
    · intro other far
      rw [calls]
      exact phaseOf_append (h.far other far) (quiet other (by omega))
    · intro keycode on
      rw [calls] at on
      rcases registered_append on with before | new
      · obtain ⟨other, lt, owes⟩ := h.owed keycode before
        have ne : other ≠ d := by
          rintro rfl
          exact absurd (owes.1.symm.trans unfinished) (by decide)
        exact ⟨other, lt, by rwa [elsewhere other ne]⟩
      · have mem : .register keycode ∈ finishedCalls (s.dances d).count (dances d) := by simpa using new
        refine ⟨d, lt, ?_⟩
        rw [state]
        exact owes_of_finished rfl first mem
    · exact .inl idle
  have run : actionOnDanceFinished dances d s =
      if (s.dances d).pressed = false then actionOnReset dances d after else after := by
    rw [actionOnDanceFinished, stays.finished, eq]
    simp [unfinished]
  rw [run]
  split
  · exact ⟨but.reset done (by decide) (by rw [idle]; exact (keycodeOf_ne_zero d).symm), idle⟩
  · rename_i pressed
    refine ⟨⟨fun other lt => ?_, but.far, but.owed, but.active⟩, idle⟩
    by_cases same : other = d
    · subst same
      constructor
      · refine ⟨.done, done, ?_⟩
        rw [Agrees, state, idle]
        exact ⟨rfl, by simpa using pressed, (keycodeOf_ne_zero other).symm⟩
      · intro held
        rw [state] at held
        exact (h.fine other lt).held held
    · exact but.fine other lt same

/-- The fields that the invariant is not about -/
theorem Inv.change (h : Inv dances down s) (calls : s'.calls = s.calls) (activeTd : s'.activeTd = s.activeTd)
    (state : ∀ d, (s'.dances d).finished = (s.dances d).finished ∧ (s'.dances d).pressed = (s.dances d).pressed ∧
      (s'.dances d).count = (s.dances d).count) : Inv dances down s' := by
  constructor
  · intro d lt
    obtain ⟨⟨phase, turn, agrees⟩, held⟩ := h.fine d lt
    obtain ⟨finished, pressed, count⟩ := state d
    constructor
    · refine ⟨phase, by rw [calls, turn], ?_⟩
      rw [activeTd]
      cases phase <;> simpa only [Agrees, finished, pressed, count] using agrees
    · rwa [pressed]
  · rw [calls]
    exact h.far
  · intro keycode on
    rw [calls] at on
    obtain ⟨d, lt, owes⟩ := h.owed keycode on
    refine ⟨d, lt, ?_⟩
    rwa [Owes, (state d).1, (state d).2.2]
  · rw [activeTd]
    exact h.active

theorem Inv.keys (h : Inv dances down s)
    (still : ∀ d < 256, ∀ key, down key = some (keycodeOf d) → ∃ key, down' key = some (keycodeOf d)) :
    Inv dances down' s := by
  refine ⟨fun d lt => ⟨(h.fine d lt).phase, fun pressed => ?_⟩, h.far, h.owed, h.active⟩
  obtain ⟨key, down⟩ := (h.fine d lt).held pressed
  exact still d lt key down

theorem keycodeOf_and (lt : d < 256) : keycodeOf d &&& 0xFF = d := by
  rw [keycodeOf, show 0xFF = 2 ^ 8 - 1 from rfl, Nat.and_two_pow_sub_one_eq_mod]
  omega

theorem keycodeOf_range (lt : d < 256) : 0x5700 ≤ keycodeOf d ∧ keycodeOf d ≤ 0x57FF := by
  rw [keycodeOf]
  omega

theorem actionOnDanceFinished_finished (stays : (dances d).Stays) (s : State) (other : Nat) :
    ((actionOnDanceFinished dances d s).dances other).finished =
      if other = d then (s.dances d).pressed else (s.dances other).finished := by
  rw [actionOnDanceFinished, stays.finished]
  by_cases same : other = d
  · subst same
    cases pressed : (s.dances other).pressed <;> cases finished : (s.dances other).finished <;>
      simp [pressed, finished, actionOnReset, DanceState.zero]
  · cases pressed : (s.dances d).pressed <;> cases (s.dances d).finished <;> simp [pressed, same, actionOnReset]

/-- Before a press another dance is finished. -/
theorem Inv.preprocess (h : Inv dances down s) (stays : (dances d).Stays) (lt : d < 256) (active : s.activeTd = keycodeOf d) {keycode : Nat}
    (ne : keycode ≠ s.activeTd) :
    ∃ s', preprocessTapDance dances keycode true s = (s', true) ∧ Inv dances down s' ∧ s'.activeTd = 0 ∧
      ∀ other, (s'.dances other).finished = if other = d then (s.dances d).pressed else (s.dances other).finished := by
  have some_active : ¬ (s.activeTd = 0 ∨ keycode = s.activeTd) := by
    rw [not_or, active]
    exact ⟨keycodeOf_ne_zero d, active ▸ ne⟩
  obtain ⟨marked, eq⟩ : ∃ marked, marked = s.setDance d fun state =>
    { state with interrupted := true, interruptingKeycode := keycode } := ⟨_, rfl⟩
  have same : ∀ other, (marked.dances other).finished = (s.dances other).finished ∧
      (marked.dances other).pressed = (s.dances other).pressed ∧ (marked.dances other).count = (s.dances other).count := by
    intro other
    rw [eq, State.setDance]
    dsimp only
    by_cases same : other = d
    · subst same
      rw [Function.update_self]
      exact ⟨rfl, rfl, rfl⟩
    · rw [Function.update_of_ne same]
      exact ⟨rfl, rfl, rfl⟩
  have inv : Inv dances down marked := h.change (by rw [eq]; rfl) (by rw [eq]; rfl) same
  obtain ⟨finished, idle⟩ := inv.finish stays lt (by rw [eq]; exact active)
  refine ⟨{ actionOnDanceFinished dances d marked with weakMods := 0 }, ?_, ?_, idle, ?_⟩
  · rw [preprocessTapDance, if_neg (by decide), if_neg some_active, active, keycodeOf_and lt, eq]
  · exact finished.change rfl rfl fun _ => ⟨rfl, rfl, rfl⟩
  · intro other
    dsimp only
    rw [actionOnDanceFinished_finished stays, (same d).2.1, (same other).1]

/-- What a tap comes to -/
structure Tapped (dances : Nat → Dance) (d : Nat) (s after : State) (more : List Call) : Prop where
  calls : after.calls = s.calls ++ .onEachTap d :: more
  quiet : ∀ call ∈ more, ∀ d phase, Phase.next d phase call = some phase
  elsewhere : ∀ other, other ≠ d → after.dances other = s.dances other
  pressed : (after.dances d).pressed = true
  active : after.activeTd = if (after.dances d).finished then 0 else keycodeOf d
  owes : ∀ keycode, .register keycode ∈ more → Owes (dances d) (after.dances d) keycode
  first : (after.dances d).finished = false → FirstTap (dances d) (after.dances d).count

theorem tapped (stays : (dances d).Stays) (lt : d < 256) (s : State) (unfinished : (s.dances d).finished = false)
    (before : (s.dances d).count = 0 ∨ FirstTap (dances d) (s.dances d).count) :
    ∃ more, Tapped dances d s (processTapDance dances (keycodeOf d) true s) more := by
  rw [processTapDance, if_pos (keycodeOf_range lt), keycodeOf_and lt]
  simp only [if_true, actionOnEachTap]
  cases dance : dances d with
  | pair kc1 kc2 =>
    rw [dance, FirstTap] at before
    by_cases two : (s.dances d).count = 1
    · refine ⟨[.register kc2], ?_⟩
      constructor <;> simp [State.setDance, State.call, two, Phase.next, Owes, resetCalls, dance]
      intro other ne
      simp [ne]
    · have none : (s.dances d).count = 0 := before.resolve_right two
      refine ⟨[], ?_⟩
      constructor <;> simp [State.setDance, State.call, none, FirstTap, unfinished, dance]
      intro other ne
      simp [ne]
  | layerMove kc layer =>
    rw [dance, FirstTap] at before
    by_cases two : (s.dances d).count = 1
    · refine ⟨[.layerMove layer], ?_⟩
      constructor <;> simp [State.setDance, State.call, two, Phase.next]
      intro other ne
      simp [ne]
    · have none : (s.dances d).count = 0 := before.resolve_right two
      refine ⟨[], ?_⟩
      constructor <;> simp [State.setDance, State.call, none, FirstTap, unfinished, dance]
      intro other ne
      simp [ne]
  | layerToggle kc layer =>
    refine ⟨[], ?_⟩
    constructor <;> simp [State.setDance, State.call, FirstTap, unfinished, dance]
    intro other ne
    simp [ne]
  | user onEachTap resets =>
    rw [dance] at stays
    refine ⟨[], ?_⟩
    dsimp only
    simp only [(stays _).1, Bool.false_eq_true, if_false]
    split
    · constructor <;> simp [State.setDance, State.call]
      intro other ne
      simp [ne]
    · constructor <;> simp [State.setDance, State.call, FirstTap, unfinished, dance]
      intro other ne
      simp [ne]

/-- A dance that is not finished is tapped, and no other one is active. -/
theorem Inv.tap (h : Inv dances down s) (stays : (dances d).Stays) (lt : d < 256) (free : s.activeTd = 0 ∨ s.activeTd = keycodeOf d)
    (unfinished : (s.dances d).finished = false) {key : K} (here : down' key = some (keycodeOf d))
    (still : ∀ d < 256, ∀ key, down key = some (keycodeOf d) → ∃ key, down' key = some (keycodeOf d)) :
    Inv dances down' (processTapDance dances (keycodeOf d) true s) := by
  obtain ⟨phase, turn, agrees⟩ := (h.fine d lt).phase
  have begun : phase ≠ .done ∧ ((s.dances d).count = 0 ∨ FirstTap (dances d) (s.dances d).count) := by
    cases phase with
    | idle => exact ⟨by decide, .inl agrees.2.1⟩
    | tapping =>
      rcases agrees with ⟨finished, -⟩ | ⟨-, -, first⟩
      · exact absurd (finished.symm.trans unfinished) (by decide)
      · exact ⟨by decide, .inr first⟩
    | done => exact absurd (agrees.1.symm.trans unfinished) (by decide)
  obtain ⟨more, tap⟩ := tapped stays lt s unfinished begun.2
  have quiet : ∀ other, other ≠ d → ∀ call ∈ .onEachTap d :: more, ∀ phase, Phase.next other phase call = some phase :=
    fun other ne => quiet_cons ne.symm (.inl rfl) fun call mem => tap.quiet call mem other
  constructor
  · intro other lt'
    by_cases same : other = d
    · subst same
      constructor
      · refine ⟨.tapping, ?_, ?_⟩
        · rw [tap.calls, ← List.singleton_append, ← List.append_assoc]
          apply phaseOf_append _ fun call mem => tap.quiet call mem other
          rw [phaseOf_snoc turn]
          simp [Phase.next, begun.1]
        · rw [Agrees, tap.active]
          cases finished : ((processTapDance dances (keycodeOf other) true s).dances other).finished with
          | true => exact .inl ⟨rfl, tap.pressed, (keycodeOf_ne_zero other).symm⟩
          | false => exact .inr ⟨rfl, rfl, tap.first finished⟩
      · exact fun _ => ⟨key, here⟩
    · apply (h.fine other lt').frame (tap.elsewhere other same) _ tap.calls (quiet other same) (still other lt')
      have other_ne : keycodeOf d ≠ keycodeOf other := fun wrong => same (keycodeOf_inj wrong).symm
      have before : ¬ s.activeTd = keycodeOf other := by
        rcases free with none | own
        · rw [none]
          exact (keycodeOf_ne_zero other).symm
        · rwa [own]
      refine iff_of_false ?_ before
      rw [tap.active]
      split
      · exact (keycodeOf_ne_zero other).symm
      · exact other_ne
  · intro other far
    rw [tap.calls]
    exact phaseOf_append (h.far other far) (quiet other (by omega))
  · intro keycode on
    rw [tap.calls] at on
    rcases registered_append on with before | new
    · obtain ⟨other, lt', owes⟩ := h.owed keycode before
      have ne : other ≠ d := by
        rintro rfl
        exact absurd (owes.1.symm.trans unfinished) (by decide)
      exact ⟨other, lt', by rwa [tap.elsewhere other ne]⟩
    · exact ⟨d, lt, tap.owes keycode (by simpa using new)⟩
  · rw [tap.active]
    split
    · exact .inl rfl
    · exact .inr ⟨d, lt, rfl⟩

/-- A key of a dance is released. -/
theorem Inv.release (h : Inv dances down s) (lt : d < 256)
    (still : ∀ other < 256, other ≠ d → ∀ key, down key = some (keycodeOf other) → ∃ key, down' key = some (keycodeOf other)) :
    Inv dances down' (processTapDance dances (keycodeOf d) false s) := by
  obtain ⟨after, eq⟩ : ∃ after, after = s.setDance d fun state => { state with pressed := false } := ⟨_, rfl⟩
  have calls : after.calls = s.calls := by rw [eq]; rfl
  have active : after.activeTd = s.activeTd := by rw [eq]; rfl
  have state : after.dances d = { s.dances d with pressed := false } := by
    rw [eq]
    exact Function.update_self ..
  have elsewhere : ∀ other, other ≠ d → after.dances other = s.dances other := fun other ne => by
    rw [eq]
    exact Function.update_of_ne ne ..
  have but : InvBut dances down' d after := by
    constructor
    · intro other lt' ne
      exact (h.fine other lt').frame (elsewhere other ne) (by rw [active]) (by rw [calls, List.append_nil]) (by simp)
        (still other lt' ne)
    · rw [calls]
      exact h.far
    · intro keycode on
      rw [calls] at on
      obtain ⟨other, lt', owes⟩ := h.owed keycode on
      refine ⟨other, lt', ?_⟩
      by_cases same : other = d
      · subst same
        rw [state]
        exact owes
      · rwa [elsewhere other same]
    · rw [active]
      exact h.active
  obtain ⟨phase, turn, agrees⟩ := (h.fine d lt).phase
  have run : processTapDance dances (keycodeOf d) false s =
      if (s.dances d).finished then actionOnReset dances d after else after := by
    rw [processTapDance, if_pos (keycodeOf_range lt), keycodeOf_and lt]
    simp only [Bool.false_eq_true, if_false, ← eq, state]
  rw [run]
  split
  · rename_i finished
    apply but.reset (calls ▸ turn)
    · rintro rfl
      exact absurd (finished.symm.trans agrees.1) (by decide)
    · rw [active]
      cases phase with
      | idle => exact agrees.2.2
      | tapping =>
        rcases agrees with ⟨-, -, inactive⟩ | ⟨unfinished, -⟩
        · exact inactive
        · exact absurd (finished.symm.trans unfinished) (by decide)
      | done => exact agrees.2.2
  · rename_i unfinished
    refine ⟨fun other lt' => ?_, but.far, but.owed, but.active⟩
    by_cases same : other = d
    · subst same
      constructor
      · refine ⟨phase, by rw [calls, turn], ?_⟩
        rw [state, active]
        cases phase with
        | idle => exact agrees
        | tapping => exact .inr (agrees.resolve_left fun finished => unfinished finished.1)
        | done => exact absurd agrees.1 unfinished
      · intro pressed
        rw [state] at pressed
        cases pressed
    · exact but.fine other lt' same

end

/-! ## Runs -/

section
variable {dances : Nat → Dance} {tappingTerm : Nat → Nat} {w : World K} {e : Event K}

/-- Another keycode is nothing to a dance. -/
theorem processTapDance_other {keycode : Nat} (other : ∀ d < 256, keycode ≠ keycodeOf d) (pressed : Bool) (s : State) :
    processTapDance dances keycode pressed s = s := by
  rw [processTapDance, if_neg]
  rintro ⟨low, high⟩
  exact other (keycode - 0x5700) (by omega) (by rw [keycodeOf]; omega)

theorem Inv.press {s : State} (h : Inv dances w.down s) (stays : ∀ d < 256, (dances d).Stays) {key : K} (up : w.down key = none) {keycode : Nat}
    (free : ∀ d < 256, keycode = keycodeOf d →
      (s.activeTd = 0 ∨ s.activeTd = keycodeOf d) ∧ (s.dances d).finished = false) :
    Inv dances (Function.update w.down key (some keycode)) (processTapDance dances keycode true s) := by
  have still : ∀ d < 256, ∀ other, w.down other = some (keycodeOf d) →
      ∃ other, Function.update w.down key (some keycode) other = some (keycodeOf d) := by
    intro d lt other down
    refine ⟨other, ?_⟩
    rw [Function.update_of_ne, down]
    rintro rfl
    rw [up] at down
    cases down
  by_cases dance : ∃ d < 256, keycode = keycodeOf d
  · obtain ⟨d, lt, rfl⟩ := dance
    obtain ⟨active, unfinished⟩ := free d lt rfl
    exact h.tap (stays d lt) lt active unfinished (Function.update_self ..) still
  · rw [processTapDance_other fun d lt same => dance ⟨d, lt, same⟩]
    exact h.keys still

theorem Inv.step (h : Inv dances w.down w.state) (stays : ∀ d < 256, (dances d).Stays) (physical : Physical w e) (calm : Calm w e) :
    Inv dances (w.step dances tappingTerm e).down (w.step dances tappingTerm e).state := by
  cases e with
  | press key keycode again =>
    rw [World.step]
    by_cases interrupts : Interrupts w keycode
    · obtain ⟨d, lt, active⟩ := h.active.resolve_left interrupts.1
      obtain ⟨s', run, inv, idle, finished⟩ := h.preprocess (stays d lt) lt active interrupts.2
      rw [run]
      apply inv.press stays physical
      intro other lt' same
      obtain ⟨unfinished, up⟩ := (calm other lt').2 interrupts same
      refine ⟨.inl idle, ?_⟩
      rw [finished]
      split
      · rename_i own
        exact own ▸ up (own ▸ active)
      · exact unfinished
    · have quiet : w.state.activeTd = 0 ∨ keycode = w.state.activeTd := by
        by_contra both
        exact interrupts (not_or.mp both)
      have run : preprocessTapDance dances keycode true w.state = (w.state, false) := by
        rw [preprocessTapDance, if_neg (by decide), if_pos quiet]
      rw [run]
      apply h.press stays physical
      intro d lt same
      refine ⟨quiet.imp_right fun own => own.symm.trans same, (calm d lt).1 interrupts same⟩
  | release key =>
    rw [World.step]
    cases down : w.down key with
    | none => exact h
    | some keycode =>
      have run : preprocessTapDance dances keycode false w.state = (w.state, false) := by
        rw [preprocessTapDance, if_pos (by decide)]
      dsimp only
      rw [run]
      have still : ∀ d < 256, keycode ≠ keycodeOf d → ∀ other, w.down other = some (keycodeOf d) →
          ∃ other, Function.update w.down key none other = some (keycodeOf d) := by
        intro d lt ne other held
        refine ⟨other, ?_⟩
        rw [Function.update_of_ne, held]
        rintro rfl
        exact ne (Option.some.inj (down.symm.trans held))
      by_cases dance : ∃ d < 256, keycode = keycodeOf d
      · obtain ⟨d, lt, rfl⟩ := dance
        exact h.release lt fun other lt' ne => still other lt' fun same => ne (keycodeOf_inj same).symm
      · have other : ∀ d < 256, keycode ≠ keycodeOf d := fun d lt same => dance ⟨d, lt, same⟩
        rw [processTapDance_other other]
        exact h.keys fun d lt => still d lt (other d lt)
  | task =>
    rw [World.step, tapDanceTask]
    dsimp only
    split
    · exact h
    · rename_i due
      obtain ⟨d, lt, active⟩ := h.active.resolve_left fun none => due (.inl none)
      rw [active, keycodeOf_and lt]
      split
      · exact (h.finish (stays d lt) lt active).1
      · exact h
  | others mods weakMods oneshotMods now => exact h.change rfl rfl fun _ => ⟨rfl, rfl, rfl⟩

omit [DecidableEq K] in
theorem Inv.paired (h : Inv dances w.down w.state) : Paired dances w := by
  constructor
  · intro d
    rcases Nat.lt_or_ge d 256 with lt | far
    · obtain ⟨phase, turn, -⟩ := (h.fine d lt).phase
      rw [turn]
      rfl
    · rw [h.far d far]
      rfl
  · intro keycode on
    obtain ⟨d, lt, owes⟩ := h.owed keycode on
    refine ⟨d, lt, owes, (h.fine d lt).held ?_⟩
    obtain ⟨phase, -, agrees⟩ := (h.fine d lt).phase
    cases phase with
    | idle => exact absurd (owes.1.symm.trans agrees.1) (by decide)
    | tapping =>
      rcases agrees with ⟨-, pressed, -⟩ | ⟨unfinished, -⟩
      · exact pressed
      · exact absurd (owes.1.symm.trans unfinished) (by decide)
    | done => exact agrees.2.1
  · intro d lt up inactive
    obtain ⟨phase, turn, agrees⟩ := (h.fine d lt).phase
    have released : ¬ (w.state.dances d).pressed = true := fun pressed => by
      obtain ⟨key, down⟩ := (h.fine d lt).held pressed
      exact up key down
    cases phase with
    | idle => exact turn
    | tapping =>
      rcases agrees with ⟨-, pressed, -⟩ | ⟨-, active, -⟩
      · exact absurd pressed released
      · exact absurd active inactive
    | done => exact absurd agrees.2.1 released

omit [DecidableEq K] in
theorem inv_start : Inv dances (World.start : World K).down (World.start : World K).state := by
  refine ⟨fun d lt => ⟨⟨.idle, rfl, rfl, rfl, (keycodeOf_ne_zero d).symm⟩, fun pressed => ?_⟩, fun _ _ => rfl, ?_, .inl rfl⟩
  · cases pressed
  · intro keycode on
    cases on

/-- In every run in which no dance is tapped that is finished, of dances whose functions do not call `reset_tap_dance`, the calls for
every dance come in turn, and what is registered is unregistered by the reset that follows. -/
theorem dances_paired (dances : Nat → Dance) (stays : ∀ d < 256, (dances d).Stays) (tappingTerm : Nat → Nat)
    {events : List (Event K)}
    (physical : Along (World.step dances tappingTerm) Physical .start events)
    (calm : Along (World.step dances tappingTerm) Calm .start events) :
    Paired dances (events.foldl (World.step dances tappingTerm) .start) := by
  apply Inv.paired
  exact Along.invariant (fun w : World K => Inv dances w.down w.state) (fun _ _ h both => h.step stays both.1 both.2) inv_start
    (physical.and calm)

end

/-- **A dance that resets itself is reset twice**, if the function that is called when it is finished does so: `pressed` is clear
then. -/
theorem reset_twice {dances : Nat → Dance} {d : Nat} {s : State} {onEachTap : DanceState → Effect} {resets : DanceState → Bool}
    (user : dances d = .user onEachTap resets) (unfinished : (s.dances d).finished = false)
    (calls : resets { s.dances d with finished := true } = true) :
    (actionOnDanceFinished dances d s).calls = s.calls ++ [.onDanceFinished d, .onReset d, .onReset d] := by
  simp [actionOnDanceFinished, resetTapDance, actionOnReset, Dance.resetsWhenFinished, finishedCalls, resetCalls, DanceState.zero,
    user, unfinished, calls]

/-- A pair, one key for every dance -/
def pairOf (kc1 kc2 : Nat) : Nat → Dance := fun _ => .pair kc1 kc2

/-- A tap and the tapping term -/
def oneTap : List (Event Nat) :=
  [.press 0 (keycodeOf 0) (keycodeOf 0), .release 0, .others 0 0 0 300, .task]

theorem dances_paired_oneTap :
    Along (World.step (pairOf 4 5) fun _ => 200) Physical .start oneTap ∧
      Along (World.step (pairOf 4 5) fun _ => 200) Calm .start oneTap ∧
        Paired (pairOf 4 5) (oneTap.foldl (World.step (pairOf 4 5) fun _ => 200) .start) :=
  ⟨by decide +kernel, by decide +kernel, dances_paired (pairOf 4 5) (fun _ _ => trivial) (fun _ => 200) (by decide +kernel) (by decide +kernel)⟩

/-- The key is held for the tapping term; then another key with the same keycode is pressed. -/
def tapOfSecondKey : List (Event Nat) :=
  [.press 0 (keycodeOf 0) (keycodeOf 0), .others 0 0 0 300, .task,
    .press 1 (keycodeOf 0) (keycodeOf 0), .release 0, .release 1]

/-- The second tap makes the count two, for which the reset unregisters the other keycode of the pair: the first
stays registered when all keys are up. -/
theorem second_key_stuck :
    ¬ ∀ (dances : Nat → Dance) (tappingTerm : Nat → Nat) (events : List (Event Nat)),
      Along (World.step dances tappingTerm) Physical .start events →
        Paired dances (events.foldl (World.step dances tappingTerm) .start) := by
  intro all
  have paired := all (pairOf 4 5) (fun _ => 200) tapOfSecondKey (by decide)
  obtain ⟨d, lt, ⟨finished, -⟩, -⟩ := paired.owed 4 (by decide)
  have ended : ∀ d < 256, ((tapOfSecondKey.foldl (World.step (pairOf 4 5) fun _ => 200) .start).state.dances d).finished = false := by
    decide +kernel
  exact absurd (finished.symm.trans (ended d lt)) (by decide)

end QmkFirmware.TapDance
