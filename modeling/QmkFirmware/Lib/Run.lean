import Mathlib

/-!
# Runs of a state machine

A state machine takes an event at a time, and a run is a fold over the events.
`Along` says that every step of a run meets a condition, and `Along.run` is the
rule for invariants that also speak of the events taken so far.
-/

namespace QmkFirmware.Lib

variable {S E : Type}

/-- Every step of the run of `events` from `s` meets `p`. -/
def Along (step : S → E → S) (p : S → E → Prop) : S → List E → Prop
  | _, [] => True
  | s, e :: events => p s e ∧ Along step p (step s e) events

namespace Along

variable {step : S → E → S} {p q : S → E → Prop} {s : S} {events : List E}

instance decidable [∀ s e, Decidable (p s e)] : ∀ s events, Decidable (Along step p s events)
  | _, [] => isTrue trivial
  | s, e :: events =>
    haveI := decidable (step s e) events
    inferInstanceAs (Decidable (p s e ∧ Along step p (step s e) events))

/-- An invariant of the state and the events taken so far holds after every run whose
steps keep it. -/
theorem run (Inv : S → List E → Prop)
    (keep : ∀ s past e, Inv s past → p s e → Inv (step s e) (past ++ [e]))
    (past : List E) (start : Inv s past) (h : Along step p s events) :
    Inv (events.foldl step s) (past ++ events) := by
  induction events generalizing s past with
  | nil => simpa using start
  | cons e events ih =>
    have := ih (past ++ [e]) (keep s past e start h.1) h.2
    simpa using this

/-- The rule for an invariant of the state alone. -/
theorem invariant (Inv : S → Prop) (keep : ∀ s e, Inv s → p s e → Inv (step s e)) (start : Inv s)
    (h : Along step p s events) : Inv (events.foldl step s) :=
  run (fun s _ => Inv s) (fun s _ e hs => keep s e hs) [] start h

/-- What every step does as long as an invariant holds. -/
theorem each (Inv : S → Prop) (keep : ∀ s e, Inv s → p s e → Inv (step s e) ∧ q s e) (start : Inv s)
    (h : Along step p s events) : Along step q s events := by
  induction events generalizing s with
  | nil => trivial
  | cons e events ih =>
    obtain ⟨next, here⟩ := keep s e start h.1
    exact ⟨here, ih next h.2⟩

/-- A property that no later step can restore holds at the end if and only if every step
meets the condition that keeps it. -/
theorem iff_good (Inv Good : S → Prop) (good : ∀ s, Inv s → Good s)
    (keep : ∀ s e, Inv s → p s e → Inv (step s e)) (violate : ∀ s e, Inv s → ¬ p s e → ¬ Good (step s e))
    (lost : ∀ s e, Good (step s e) → Good s) (start : Inv s) :
    Good (events.foldl step s) ↔ Along step p s events := by
  constructor
  · intro h
    have earlier : ∀ s events, Good (List.foldl step s events) → Good s := by
      intro s events
      induction events generalizing s with
      | nil => exact id
      | cons e events ih => exact fun h => lost s e (ih _ h)
    induction events generalizing s with
    | nil => trivial
    | cons e events ih =>
      have here : p s e := by
        by_contra violated
        exact violate s e start violated (earlier _ _ h)
      exact ⟨here, ih (keep s e start here) h⟩
  · exact fun h => good _ (invariant Inv keep start h)

/-- Two conditions that agree as long as an invariant holds, which the first one keeps. -/
theorem congr (Inv : S → Prop) (same : ∀ s e, Inv s → (p s e ↔ q s e)) (keep : ∀ s e, Inv s → p s e → Inv (step s e))
    (start : Inv s) : Along step p s events ↔ Along step q s events := by
  induction events generalizing s with
  | nil => exact Iff.rfl
  | cons e events ih =>
    by_cases here : p s e
    · exact and_congr (same s e start) (ih (keep s e start here))
    · exact iff_of_false (fun h => here h.1) fun h => here ((same s e start).2 h.1)

theorem mono (weaken : ∀ s e, p s e → q s e) (h : Along step p s events) : Along step q s events := by
  induction events generalizing s with
  | nil => trivial
  | cons e events ih => exact ⟨weaken s e h.1, ih h.2⟩

theorem and (h : Along step p s events) (h' : Along step q s events) :
    Along step (fun s e => p s e ∧ q s e) s events := by
  induction events generalizing s with
  | nil => trivial
  | cons e events ih => exact ⟨⟨h.1, h'.1⟩, ih h.2 h'.2⟩

theorem append {more : List E} :
    Along step p s (events ++ more) ↔ Along step p s events ∧ Along step p (events.foldl step s) more := by
  induction events generalizing s with
  | nil => exact (and_iff_right trivial).symm
  | cons e events ih =>
    simp only [List.cons_append, List.foldl_cons, Along, ih, and_assoc]

/-- A condition on the events alone. -/
theorem of_forall {r : E → Prop} (h : ∀ e ∈ events, r e) : Along step (fun _ e => r e) s events := by
  induction events generalizing s with
  | nil => trivial
  | cons e events ih =>
    exact ⟨h e List.mem_cons_self, ih fun e he => h e (List.mem_cons_of_mem _ he)⟩

end Along

end QmkFirmware.Lib
