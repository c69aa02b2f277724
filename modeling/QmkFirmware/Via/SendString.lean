import Mathlib

/-!
# Strings that are sent

`send_string_with_delay` of `send_string.c`. A string is the bytes from the pointer up to the end of the object that
it points into; what reads past that gives none.
-/

namespace QmkFirmware.Via

/-- `SS_QMK_PREFIX` -/
def ssQmkPrefix : UInt8 := 1

/-- `SS_TAP_CODE` -/
def ssTapCode : UInt8 := 1

/-- `SS_DOWN_CODE` -/
def ssDownCode : UInt8 := 2

/-- `SS_UP_CODE` -/
def ssUpCode : UInt8 := 3

/-- `SS_DELAY_CODE` -/
def ssDelayCode : UInt8 := 4

/-- The calls that send: `tap_code`, `register_code`, `unregister_code`, `send_char` and `wait_ms(1)` -/
inductive Sent where
  | tap (keycode : UInt8)
  | down (keycode : UInt8)
  | up (keycode : UInt8)
  | char (asciiCode : UInt8)
  | wait
  deriving DecidableEq, Repr

def isdigit (c : UInt8) : Bool := 48 ≤ c && c ≤ 57

/-- The digits of a delay: the milliseconds, and what is behind the byte that ends them. The sum is an `int`, which a delay
of nine digits fits. -/
def readDelay : Nat → List UInt8 → Option (Nat × List UInt8)
  | _, [] => none
  | ms, keycode :: string => if isdigit keycode then readDelay (ms * 10 + (keycode.toNat - 48)) string else some (ms, string)

/-- What the keycode behind a code is sent as -/
def keyCall (code : UInt8) : Option (UInt8 → Sent) :=
  if code = ssTapCode then some .tap else if code = ssDownCode then some .down else if code = ssUpCode then some .up else none

/-- The part of the loop that is about one character or escape: what is sent, and the string behind it -/
def sendNext : List UInt8 → Option (List Sent × List UInt8)
  | [] => none
  | asciiCode :: string =>
    if asciiCode = ssQmkPrefix then
      match string with
      | [] => none
      | code :: string =>
        match keyCall code with
        | some call =>
          match string with
          | [] => none
          | keycode :: string => some ([call keycode], string)
        | none =>
          if code = ssDelayCode then (readDelay 0 string).map fun (ms, string) => (List.replicate ms .wait, string)
          else some ([], string)
    else some ([.char asciiCode], string)

/-- The loop of `send_string_with_delay` -/
def sendLoop (interval : UInt8) : Nat → List UInt8 → Option (List Sent)
  | 0, _ => none
  | fuel + 1, string =>
    if string.head? = some 0 then some []
    else do
      let (sent, string) ← sendNext string
      let later ← sendLoop interval fuel string
      some (sent ++ List.replicate interval.toNat .wait ++ later)

/-- `send_string_with_delay`; each turn of the loop takes a byte or more. -/
def sendStringWithDelay (string : List UInt8) (interval : UInt8) : Option (List Sent) :=
  sendLoop interval (string.length + 1) string

/-! ## One character or escape -/

section Next

variable {c code k : UInt8} {call : UInt8 → Sent} {l : List UInt8}

theorem sendNext_char (plain : c ≠ ssQmkPrefix) : sendNext (c :: l) = some ([.char c], l) := if_neg plain

theorem sendNext_key (known : keyCall code = some call) : sendNext (ssQmkPrefix :: code :: k :: l) = some ([call k], l) := by
  unfold sendNext
  simp only [if_true, known]

theorem sendNext_delay : sendNext (ssQmkPrefix :: ssDelayCode :: l) =
    (readDelay 0 l).map fun (ms, string) => (List.replicate ms .wait, string) := rfl

theorem sendNext_other (unknown : keyCall code = none) (timeless : code ≠ ssDelayCode) :
    sendNext (ssQmkPrefix :: code :: l) = some ([], l) := by
  unfold sendNext
  simp only [if_true, unknown, if_neg timeless]

end Next

/-! ## Whole turns -/

theorem readDelay_append {l r rest : List UInt8} {ms t : Nat} (h : readDelay ms l = some (t, rest)) :
    readDelay ms (l ++ r) = some (t, rest ++ r) := by
  induction l generalizing ms with
  | nil => cases h
  | cons a l ih =>
    unfold readDelay at h
    rw [List.cons_append, readDelay]
    split_ifs at h ⊢ with digit
    · exact ih h
    · cases h
      rfl

theorem readDelay_length {l rest : List UInt8} {ms t : Nat} (h : readDelay ms l = some (t, rest)) : rest.length < l.length := by
  induction l generalizing ms with
  | nil => cases h
  | cons a l ih =>
    unfold readDelay at h
    split_ifs at h with digit
    · exact Nat.lt_succ_of_lt (ih h)
    · cases h
      exact Nat.lt_succ_self _

/-- What is behind the string does not matter. -/
theorem sendNext_append {l r rest : List UInt8} {sent : List Sent} (h : sendNext l = some (sent, rest)) :
    sendNext (l ++ r) = some (sent, rest ++ r) := by
  cases l with
  | nil => cases h
  | cons a l =>
    simp only [List.cons_append, sendNext] at h ⊢
    split_ifs at h ⊢ with escape
    · cases l with
      | nil => cases h
      | cons code l =>
        simp only [List.cons_append] at h ⊢
        cases call : keyCall code with
        | some key =>
          simp only [call] at h ⊢
          cases l with
          | nil => cases h
          | cons k l =>
            cases h
            rfl
        | none =>
          simp only [call] at h ⊢
          split_ifs at h ⊢ with delay
          · obtain ⟨⟨ms, string⟩, read, eq⟩ := Option.map_eq_some_iff.1 h
            rw [readDelay_append read]
            cases eq
            rfl
          · cases h
            rfl
    · cases h
      rfl

theorem sendNext_length {l rest : List UInt8} {sent : List Sent} (h : sendNext l = some (sent, rest)) :
    rest.length < l.length := by
  cases l with
  | nil => cases h
  | cons a l =>
    simp only [sendNext] at h
    split_ifs at h with escape
    · cases l with
      | nil => cases h
      | cons code l =>
        cases call : keyCall code with
        | some key =>
          simp only [call] at h
          cases l with
          | nil => cases h
          | cons k l =>
            cases h
            simp only [List.length_cons]
            omega
        | none =>
          simp only [call] at h
          split_ifs at h with delay
          · obtain ⟨⟨ms, string⟩, read, eq⟩ := Option.map_eq_some_iff.1 h
            cases eq
            have shorter := readDelay_length read
            simp only [List.length_cons]
            omega
          · cases h
            simp only [List.length_cons]
            omega
    · cases h
      exact Nat.lt_succ_self _

/-- Turns of the loop that send something and come to the rest of the string -/
inductive Sends (interval : UInt8) : List UInt8 → List Sent → List UInt8 → Prop where
  | refl (string : List UInt8) : Sends interval string [] string
  | turn {string next rest : List UInt8} {sent later : List Sent} (head : string.head? ≠ some 0)
      (first : sendNext string = some (sent, next)) (more : Sends interval next later rest) :
      Sends interval string (sent ++ List.replicate interval.toNat .wait ++ later) rest

namespace Sends

variable {interval : UInt8} {l l' l'' : List UInt8} {sent sent' : List Sent}

theorem trans (h : Sends interval l sent l') (h' : Sends interval l' sent' l'') : Sends interval l (sent ++ sent') l'' := by
  induction h with
  | refl => exact h'
  | turn head first _ ih =>
    rw [List.append_assoc]
    exact .turn head first (ih h')

theorem append (h : Sends interval l sent l') (r : List UInt8) : Sends interval (l ++ r) sent (l' ++ r) := by
  induction h with
  | refl => exact .refl _
  | @turn string next rest sent later head first _ ih =>
    refine .turn ?_ (sendNext_append first) ih
    cases string with
    | nil => cases first
    | cons a string => exact head

theorem of_next {rest : List UInt8} (head : l.head? ≠ some 0) (first : sendNext l = some (sent, rest)) :
    Sends interval l (sent ++ List.replicate interval.toNat .wait) rest := by
  have one : Sends interval l (sent ++ List.replicate interval.toNat .wait ++ []) rest := .turn head first (.refl rest)
  rwa [List.append_nil] at one

/-- Turns up to the null are the whole run. -/
theorem loop {behind : List UInt8} (h : Sends interval l sent (0 :: behind)) :
    ∀ {fuel : Nat}, l.length < fuel → sendLoop interval fuel l = some sent := by
  generalize stop : 0 :: behind = rest at h
  induction h with
  | refl =>
    rintro (_ | fuel) lt
    · exact absurd lt (Nat.not_lt_zero _)
    · rw [← stop, sendLoop]
      rfl
  | turn head first _ ih =>
    rintro (_ | fuel) lt
    · exact absurd lt (Nat.not_lt_zero _)
    · have shorter := sendNext_length first
      rw [sendLoop, if_neg head, first, Option.bind_eq_bind, Option.bind_some]
      dsimp only
      rw [ih stop (by omega)]
      rfl

theorem whole {behind : List UInt8} (h : Sends interval l sent []) :
    sendStringWithDelay (l ++ 0 :: behind) interval = some sent :=
  (h.append (0 :: behind)).loop (Nat.lt_succ_self _)

end Sends

/-! ## Pieces -/

section Pieces

variable {interval : UInt8}

/-- `'|'` -/
def bar : UInt8 := 124

theorem sends_char {c : UInt8} (key : c ≠ 0) (plain : c ≠ ssQmkPrefix) : ∃ sent, Sends interval [c] sent [] :=
  ⟨_, Sends.of_next (by simpa using key) (sendNext_char plain)⟩

theorem sends_key {code k : UInt8} {call : UInt8 → Sent} (known : keyCall code = some call) :
    ∃ sent, Sends interval [ssQmkPrefix, code, k] sent [] :=
  ⟨_, Sends.of_next (by simp [ssQmkPrefix]) (sendNext_key known)⟩

theorem sends_other {code : UInt8} (unknown : keyCall code = none) (timeless : code ≠ ssDelayCode) :
    ∃ sent, Sends interval [ssQmkPrefix, code] sent [] :=
  ⟨_, Sends.of_next (by simp [ssQmkPrefix]) (sendNext_other unknown timeless)⟩

/-- A delay ends at a bar, or earlier. -/
theorem readDelay_bar (ms : Nat) : ∀ {l : List UInt8}, (∀ b ∈ l, b ≠ 0) →
    ∃ t rest, readDelay ms (l ++ [bar]) = some (t, rest) ∧ (rest = [] ∨ ∃ l', rest = l' ++ [bar] ∧ ∀ b ∈ l', b ≠ 0) := by
  intro l
  induction l generalizing ms with
  | nil => exact fun _ => ⟨ms, [], rfl, Or.inl rfl⟩
  | cons a l ih =>
    intro full
    have rest : ∀ b ∈ l, b ≠ 0 := fun b mem => full b (List.mem_cons_of_mem _ mem)
    rw [List.cons_append, readDelay]
    split
    · exact ih _ rest
    · exact ⟨ms, l ++ [bar], rfl, Or.inr ⟨l, rfl, rest⟩⟩

/-- No character or escape goes past a bar that ends the string. -/
theorem sendNext_bar {l : List UInt8} (full : ∀ b ∈ l, b ≠ 0) :
    ∃ sent rest, sendNext (l ++ [bar]) = some (sent, rest) ∧ (rest = [] ∨ ∃ l', rest = l' ++ [bar] ∧ ∀ b ∈ l', b ≠ 0) := by
  rcases l with _ | ⟨a, l⟩
  · exact ⟨_, _, rfl, Or.inl rfl⟩
  have tail : ∀ b ∈ l, b ≠ 0 := fun b mem => full b (List.mem_cons_of_mem _ mem)
  by_cases escape : a = ssQmkPrefix
  case neg => exact ⟨_, _, sendNext_char escape, Or.inr ⟨l, rfl, tail⟩⟩
  subst escape
  rcases l with _ | ⟨code, l⟩
  · exact ⟨_, _, rfl, Or.inl rfl⟩
  replace tail : ∀ b ∈ l, b ≠ 0 := fun b mem => tail b (List.mem_cons_of_mem _ mem)
  cases known : keyCall code with
  | some call =>
    rcases l with _ | ⟨k, l⟩
    · exact ⟨_, _, sendNext_key known, Or.inl rfl⟩
    · exact ⟨_, _, sendNext_key known, Or.inr ⟨l, rfl, fun b mem => tail b (List.mem_cons_of_mem _ mem)⟩⟩
  | none =>
    by_cases delay : code = ssDelayCode
    · subst delay
      obtain ⟨t, rest, read, ends⟩ := readDelay_bar 0 tail
      refine ⟨List.replicate t .wait, rest, ?_, ends⟩
      rw [List.cons_append, List.cons_append, sendNext_delay, read, Option.map_some]
    · exact ⟨_, _, sendNext_other known delay, Or.inr ⟨l, rfl, tail⟩⟩

/-- A string without nulls that ends with a bar is whole turns, whatever is in it. -/
theorem sends_bar {l : List UInt8} (full : ∀ b ∈ l, b ≠ 0) : ∃ sent, Sends interval (l ++ [bar]) sent [] := by
  induction shorter : l.length using Nat.strong_induction_on generalizing l with
  | _ n ih =>
    obtain ⟨sent, rest, first, ends⟩ := sendNext_bar full
    have less := sendNext_length first
    have head : (l ++ [bar]).head? ≠ some 0 := by
      cases l with
      | nil => decide
      | cons a l => simpa using full a List.mem_cons_self
    rcases ends with rfl | ⟨l', rfl, tail⟩
    · exact ⟨_, Sends.of_next head first⟩
    · rw [List.length_append, List.length_append] at less
      obtain ⟨later, more⟩ := ih l'.length (by omega) tail rfl
      exact ⟨_, .turn head first more⟩

end Pieces

end QmkFirmware.Via
