import QmkFirmware.Via.Packet
import QmkFirmware.Via.SendString
import QmkFirmware.Lib.Memory

/-!
# Dynamic keymap macros

`dynamic_keymap_macro_send`: the macro area of the EEPROM holds strings, one behind the other, each with its
null. The function looks for one of them and sends it, a character or escape at a time.
-/

namespace QmkFirmware.Via
open Lib

/-- The pointer and the temporary string of `dynamic_keymap_macro_send`, the addresses it has read, and what it has sent;
none when it had sent what is not in the temporary string. -/
structure Sender where
  p : Nat
  data : Nat → UInt8
  reads : List Nat
  sent : Option (List Sent)

namespace Sender

variable (eeprom : Nat → UInt8)

/-- `eeprom_read_byte(p++)` -/
def advance (s : Sender) : Sender := { s with p := s.p + 1, reads := s.reads ++ [s.p] }

/-- `data[i] = eeprom_read_byte(p++)` -/
def pull (s : Sender) (i : Nat) : Sender := { s.advance with data := Function.update s.data i (eeprom s.p) }

/-- `data[i] = 0` -/
def terminate (s : Sender) (i : Nat) : Sender := { s with data := Function.update s.data i 0 }

/-- `send_string_with_delay(data, DYNAMIC_KEYMAP_MACRO_DELAY)` -/
def send (interval : UInt8) (s : Sender) : Sender :=
  { s with sent := do
    let past ← s.sent
    let now ← sendStringWithDelay (slice s.data 0 8) interval
    some (past ++ now) }

/-- The loop that skips strings, where so many bytes are left up to the end: is there an `id`-th string? -/
def skip : Nat → Nat → Sender → Bool × Sender
  | 0, id, s => (id == 0, s)
  | left + 1, id, s =>
    if id = 0 then (true, s) else skip left (if eeprom s.p = 0 then id - 1 else id) s.advance

/-- The loop that gets the number of a delay and its bar, where `i` may go up by so many; false is a return. -/
def pullDelay : Nat → Sender → Bool × Sender
  | left, s =>
    let i := 6 - left
    let s := s.pull eeprom i
    if s.data i = 0 then (false, s)
    else if s.data i = bar then (true, s.terminate (i + 1))
    else match left with
      | 0 => (false, s)
      | left + 1 => pullDelay left s

/-- One turn of the loop that sends; false where the function returns. -/
def turn (interval : UInt8) (s : Sender) : Bool × Sender :=
  let s := (s.pull eeprom 0).terminate 1
  if s.data 0 = 0 then (false, s)
  else if s.data 0 = ssQmkPrefix then
    let s := s.pull eeprom 1
    if s.data 1 = 0 then (false, s)
    else if s.data 1 = ssTapCode ∨ s.data 1 = ssDownCode ∨ s.data 1 = ssUpCode then
      let s := s.pull eeprom 2
      if s.data 2 = 0 then (false, s) else (true, (s.terminate 3).send interval)
    else if s.data 1 = ssDelayCode then
      let (found, s) := s.pullDelay eeprom 4
      if found then (true, s.send interval) else (false, s)
    else (true, s.send interval)
  else (true, s.send interval)

/-- The loop that sends -/
def turns (interval : UInt8) : Nat → Sender → Option Sender
  | 0, _ => none
  | fuel + 1, s =>
    let (more, s) := s.turn eeprom interval
    if more then turns interval fuel s else some s

end Sender

/-- `dynamic_keymap_macro_send`; none is a run that has not ended. -/
def dynamicKeymapMacroSend (c : Config) (interval : UInt8) (eeprom : Nat → UInt8) (fuel : Nat) (id : UInt8) :
    Option Sender :=
  let s : Sender := { p := c.macroAddr + c.macroSize - 1, data := fun _ => 0, reads := [], sent := some [] }
  if c.macroCount ≤ id then some s
  else
    let last := eeprom s.p
    let s := s.advance
    if last ≠ 0 then some s
    else
      let (found, s) := Sender.skip eeprom c.macroSize id.toNat { s with p := c.macroAddr }
      if found then s.turns eeprom interval fuel else some s

/-! ## The addresses that are read -/

namespace Sender

variable {eeprom : Nat → UInt8} {interval : UInt8} {lo hi i left id : Nat} {s s' : Sender}

@[simp] theorem terminate_reads : (s.terminate i).reads = s.reads := rfl

@[simp] theorem terminate_p : (s.terminate i).p = s.p := rfl

@[simp] theorem send_reads : (s.send interval).reads = s.reads := rfl

@[simp] theorem send_p : (s.send interval).p = s.p := rfl

@[simp] theorem pull_p : (s.pull eeprom i).p = s.p + 1 := rfl

@[simp] theorem pull_data : (s.pull eeprom i).data i = eeprom s.p := Function.update_self ..

@[simp] theorem pull_terminate_data : ((s.pull eeprom 0).terminate 1).data 0 = eeprom s.p := by
  simp [terminate, pull]

/-- What has been read is in the area. -/
def Inside (lo hi : Nat) (s : Sender) : Prop := ∀ a ∈ s.reads, lo ≤ a ∧ a < hi

/-- And so is what is read next. -/
structure Ahead (lo hi : Nat) (s : Sender) : Prop where
  inside : s.Inside lo hi
  le : lo ≤ s.p
  lt : s.p < hi

theorem Ahead.congr (h : s.Ahead lo hi) (reads : s'.reads = s.reads) (p : s'.p = s.p) : s'.Ahead lo hi :=
  ⟨by unfold Inside; rw [reads]; exact h.inside, by rw [p]; exact h.le, by rw [p]; exact h.lt⟩

theorem Ahead.advance (h : s.Ahead lo hi) : s.advance.Inside lo hi := by
  intro a mem
  rcases List.mem_append.1 mem with mem | mem
  · exact h.inside a mem
  · rw [List.mem_singleton.1 mem]
    exact ⟨h.le, h.lt⟩

/-- What is not the null at the end is not the end. -/
theorem Ahead.pull (h : s.Ahead lo hi) (last : eeprom (hi - 1) = 0) (key : eeprom s.p ≠ 0) :
    (s.pull eeprom i).Ahead lo hi := by
  have lt := h.lt
  have before : s.p ≠ hi - 1 := by
    intro eq
    rw [eq] at key
    exact key last
  exact ⟨h.advance, Nat.le_succ_of_le h.le, by rw [pull_p]; omega⟩

/-- How a part of a turn ends: what it read is in the area, and if it goes on, what is read next is too, and is further. -/
structure Ends (lo hi : Nat) (s : Sender) (result : Bool × Sender) : Prop where
  inside : result.2.Inside lo hi
  ahead : result.1 = true → result.2.Ahead lo hi ∧ s.p < result.2.p

theorem ends_pullDelay (last : eeprom (hi - 1) = 0) (left : Nat) : ∀ {s : Sender}, s.Ahead lo hi →
    Ends lo hi s (s.pullDelay eeprom left) := by
  induction left with
  | zero =>
    intro s h
    unfold pullDelay
    simp only [pull_data]
    split_ifs with null found
    · exact ⟨h.advance, by rintro ⟨⟩⟩
    · have next : (s.pull eeprom 6).Ahead lo hi := h.pull last null
      exact ⟨h.advance, fun _ => ⟨⟨next.inside, next.le, next.lt⟩, Nat.lt_succ_self _⟩⟩
    · exact ⟨h.advance, by rintro ⟨⟩⟩
  | succ left ih =>
    intro s h
    unfold pullDelay
    simp only [pull_data]
    split_ifs with null found
    · exact ⟨h.advance, by rintro ⟨⟩⟩
    · have next : (s.pull eeprom (6 - (left + 1))).Ahead lo hi := h.pull last null
      exact ⟨h.advance, fun _ => ⟨⟨next.inside, next.le, next.lt⟩, Nat.lt_succ_self _⟩⟩
    · have rest := ih (s := s.pull eeprom (6 - (left + 1))) (h.pull last null)
      exact ⟨rest.inside, fun more => ⟨(rest.ahead more).1, Nat.lt_trans (Nat.lt_succ_self _) (rest.ahead more).2⟩⟩

theorem ends_turn (last : eeprom (hi - 1) = 0) (h : s.Ahead lo hi) : Ends lo hi s (s.turn eeprom interval) := by
  have stop (t : Sender) (inside : t.Inside lo hi) : Ends lo hi s (false, t) := ⟨inside, by rintro ⟨⟩⟩
  have go (t : Sender) (ahead : t.Ahead lo hi) (lt : s.p < t.p) : Ends lo hi s (true, t) := ⟨ahead.inside, fun _ => ⟨ahead, lt⟩⟩
  unfold turn
  simp only [pull_data, pull_terminate_data, terminate_p, pull_p]
  split_ifs with null escape null' key null'' delay found
  · exact stop _ h.advance
  -- from here on there is a first byte
  all_goals have first : ((s.pull eeprom 0).terminate 1).Ahead lo hi := (h.pull (i := 0) last null).congr rfl rfl
  · exact stop _ first.advance
  · exact stop _ (first.pull (i := 1) last null').advance
  · have third := ((first.pull (i := 1) last null').pull (i := 2) last null'')
    exact go _ (third.congr rfl rfl) (by simp; omega)
  · have rest := ends_pullDelay last 4 (first.pull (i := 1) last null')
    have ahead := rest.ahead found
    exact go _ (ahead.1.congr rfl rfl) (Nat.lt_trans (by simp) ahead.2)
  · exact stop _ (ends_pullDelay last 4 (first.pull (i := 1) last null')).inside
  · exact go _ ((first.pull (i := 1) last null').congr rfl rfl) (by simp)
  · exact go _ (first.congr rfl rfl) (by simp)

/-- The loop ends before the end of the area, where the null is. -/
theorem ends_turns (last : eeprom (hi - 1) = 0) (h : s.Ahead lo hi) :
    ∃ fuel s', s.turns eeprom interval fuel = some s' ∧ s'.Inside lo hi := by
  induction closer : hi - s.p using Nat.strong_induction_on generalizing s with
  | _ n ih =>
    have one := @ends_turn eeprom interval lo hi s last h
    cases more : (s.turn eeprom interval).1 with
    | false => exact ⟨1, (s.turn eeprom interval).2, by simp [turns, more], one.inside⟩
    | true =>
      obtain ⟨ahead, lt⟩ := one.ahead more
      have lt' := h.lt
      obtain ⟨fuel, s', run, inside⟩ := ih _ (by omega) ahead rfl
      exact ⟨fuel + 1, s', by simpa [turns, more] using run, inside⟩

/-- What was read stays read. -/
theorem pullDelay_reads {a : Nat} (left : Nat) : ∀ {s : Sender}, a ∈ s.reads → a ∈ (s.pullDelay eeprom left).2.reads := by
  induction left with
  | zero =>
    intro s mem
    unfold pullDelay
    dsimp only
    split_ifs <;> exact List.mem_append_left _ mem
  | succ left ih =>
    intro s mem
    unfold pullDelay
    dsimp only
    split_ifs
    · exact List.mem_append_left _ mem
    · exact List.mem_append_left _ mem
    · exact ih (List.mem_append_left _ mem)

theorem turn_reads {a : Nat} (h : a = s.p ∨ a ∈ s.reads) : a ∈ (s.turn eeprom interval).2.reads := by
  have first : a ∈ ((s.pull eeprom 0).terminate 1).reads := by
    rcases h with rfl | mem
    · exact List.mem_append_right _ (List.mem_singleton_self _)
    · exact List.mem_append_left _ mem
  unfold turn
  dsimp only
  split_ifs
  · exact first
  · exact List.mem_append_left _ first
  · exact List.mem_append_left _ (List.mem_append_left _ first)
  · exact List.mem_append_left _ (List.mem_append_left _ first)
  · exact pullDelay_reads 4 (List.mem_append_left _ first)
  · exact pullDelay_reads 4 (List.mem_append_left _ first)
  · exact List.mem_append_left _ first
  · exact first

theorem turns_reads {a : Nat} (fuel : Nat) : ∀ {s s' : Sender}, a = s.p ∨ a ∈ s.reads →
    s.turns eeprom interval fuel = some s' → a ∈ s'.reads := by
  induction fuel with
  | zero => rintro s s' - ⟨⟩
  | succ fuel ih =>
    intro s s' h run
    unfold turns at run
    dsimp only at run
    split_ifs at run
    · exact ih (Or.inr (turn_reads h)) run
    · cases run
      exact turn_reads h

/-! ## The strings that are skipped -/

/-- What `skip` does: it reads the bytes up to the `id`-th null, or all that are left if there are fewer. -/
theorem skip_spec (left : Nat) : ∀ {id : Nat} {s : Sender}, ∃ n ≤ left,
    (s.skip eeprom left id).2 = { s with p := s.p + n, reads := s.reads ++ (List.range n).map (s.p + ·) } ∧
    ((s.skip eeprom left id).1 = true ∧ (slice eeprom s.p n).count 0 = id ∨
      (s.skip eeprom left id).1 = false ∧ n = left ∧ (slice eeprom s.p n).count 0 < id) := by
  induction left with
  | zero =>
    intro id s
    refine ⟨0, Nat.le_refl 0, by simp [skip], ?_⟩
    rcases Nat.eq_zero_or_pos id with rfl | pos
    · exact Or.inl ⟨rfl, rfl⟩
    · exact Or.inr ⟨by simp [skip]; omega, rfl, pos⟩
  | succ left ih =>
    intro id s
    by_cases none : id = 0
    · subst none
      exact ⟨0, Nat.zero_le _, by simp [skip], Or.inl ⟨by simp [skip], rfl⟩⟩
    have next : s.skip eeprom (left + 1) id = s.advance.skip eeprom left (if eeprom s.p = 0 then id - 1 else id) := by
      rw [skip, if_neg none]
    have one (n : Nat) : (slice eeprom s.p (n + 1)).count 0 =
        (slice eeprom s.advance.p n).count 0 + if eeprom s.p = 0 then 1 else 0 := by
      rw [slice_succ, List.count_cons]
      simp only [beq_iff_eq]
      rfl
    obtain ⟨n, le, eq, result⟩ := @ih (if eeprom s.p = 0 then id - 1 else id) s.advance
    refine ⟨n + 1, Nat.succ_le_succ le, ?_, ?_⟩
    · rw [next, eq, List.range_succ_eq_map]
      simp [advance, Nat.add_comm, Nat.add_left_comm, Function.comp_def]
    · rw [next, one]
      rcases result with ⟨found, count⟩ | ⟨gone, rfl, count⟩
      · refine Or.inl ⟨found, ?_⟩
        rw [count]
        split_ifs <;> omega
      · refine Or.inr ⟨gone, rfl, ?_⟩
        split_ifs at count ⊢ <;> omega

end Sender

/-- The null at the end is counted last. -/
theorem count_lt_of_last {m : Nat → UInt8} {a n size : Nat} (lt : n < size) (last : m (a + size - 1) = 0) :
    (slice m a n).count 0 < (slice m a size).count 0 := by
  obtain ⟨rest, rfl⟩ := Nat.exists_eq_add_of_lt lt
  have at_last : m (a + (n + rest)) = 0 := by
    rw [← last]
    congr 1
  have pieces : slice m a (n + rest + 1) = slice m a n ++ slice m (a + n) rest ++ [0] := by
    rw [slice_add, slice_add]
    congr 1
    exact congrArg (fun b => [b]) at_last
  rw [pieces, List.count_append, List.count_append, List.count_singleton_self]
  omega

section Search

variable {c : Config} {interval : UInt8} {eeprom : Nat → UInt8} {fuel : Nat} {id : UInt8}

/-- The state in which the search for the string starts -/
def searching (c : Config) : Sender :=
  { p := c.macroAddr, data := fun _ => 0, reads := [c.macroAddr + c.macroSize - 1], sent := some [] }

theorem send_of_none (none : c.macroCount ≤ id) : ∃ s, dynamicKeymapMacroSend c interval eeprom fuel id = some s ∧ s.reads = [] := by
  unfold dynamicKeymapMacroSend
  dsimp only
  rw [if_pos none]
  exact ⟨_, rfl, rfl⟩

theorem send_of_writing (one : ¬ c.macroCount ≤ id) (last : eeprom (c.macroAddr + c.macroSize - 1) ≠ 0) :
    ∃ s, dynamicKeymapMacroSend c interval eeprom fuel id = some s ∧ s.reads = [c.macroAddr + c.macroSize - 1] := by
  unfold dynamicKeymapMacroSend
  dsimp only
  rw [if_neg one, if_pos last]
  exact ⟨_, rfl, rfl⟩

theorem send_of_last (one : ¬ c.macroCount ≤ id) (last : eeprom (c.macroAddr + c.macroSize - 1) = 0) :
    dynamicKeymapMacroSend c interval eeprom fuel id =
      if ((searching c).skip eeprom c.macroSize id.toNat).1 then
        ((searching c).skip eeprom c.macroSize id.toNat).2.turns eeprom interval fuel
      else some ((searching c).skip eeprom c.macroSize id.toNat).2 := by
  unfold dynamicKeymapMacroSend
  dsimp only
  rw [if_neg one, if_neg (not_not.2 last)]
  rfl

/-- The byte that is read first -/
theorem last_read (one : ¬ c.macroCount ≤ id) {s : Sender} (run : dynamicKeymapMacroSend c interval eeprom fuel id = some s) :
    c.macroAddr + c.macroSize - 1 ∈ s.reads := by
  by_cases last : eeprom (c.macroAddr + c.macroSize - 1) = 0
  · rw [send_of_last one last] at run
    obtain ⟨n, -, eq, -⟩ := @Sender.skip_spec eeprom c.macroSize id.toNat (searching c)
    rw [eq] at run
    have first : c.macroAddr + c.macroSize - 1 ∈ (searching c).reads := List.mem_singleton_self _
    split_ifs at run
    · exact Sender.turns_reads fuel (Or.inr (List.mem_append_left _ first)) run
    · cases run
      exact List.mem_append_left _ first
  · obtain ⟨t, run', reads⟩ := @send_of_writing c interval eeprom fuel id one last
    cases run'.symm.trans run
    rw [reads]
    exact List.mem_singleton_self _

/-- **Sending a macro stays in the macro area** and ends, if and only if there is no such macro, or the last byte of the area
is not a null, or the macro is the first one, or the number of nulls in the area is not that of the macro: that
many strings end at the last byte of the area, and the code goes on behind it. -/
theorem macro_stays_inside (c : Config) (interval : UInt8) (eeprom : Nat → UInt8) (id : UInt8) :
    (∃ fuel s, dynamicKeymapMacroSend c interval eeprom fuel id = some s ∧ s.Inside c.macroAddr (c.macroAddr + c.macroSize)) ↔
      c.macroCount ≤ id ∨ 0 < c.macroSize ∧ (eeprom (c.macroAddr + c.macroSize - 1) ≠ 0 ∨ id = 0 ∨
        (slice eeprom c.macroAddr c.macroSize).count 0 ≠ id.toNat) := by
  by_cases one : c.macroCount ≤ id
  · obtain ⟨s, run, reads⟩ := @send_of_none c interval eeprom 0 id one
    exact ⟨fun _ => Or.inl one, fun _ => ⟨0, s, run, fun a mem => absurd (reads ▸ mem) List.not_mem_nil⟩⟩
  rw [or_iff_right one]
  obtain ⟨n, le, eq, result⟩ := @Sender.skip_spec eeprom c.macroSize id.toNat (searching c)
  constructor
  · rintro ⟨fuel, s, run, inside⟩
    have first := inside _ (last_read one run)
    refine ⟨by omega, ?_⟩
    by_contra none
    simp only [not_or, not_not] at none
    obtain ⟨last, key, count⟩ := none
    -- all strings are skipped, and the next byte is behind the area
    have whole : n = c.macroSize := by
      refine Nat.le_antisymm le (Nat.le_of_not_lt fun lt => ?_)
      have more := count_lt_of_last lt last
      rcases result with ⟨-, same⟩ | ⟨-, rfl, -⟩
      · rw [count, ← same] at more
        exact Nat.lt_irrefl _ more
      · exact Nat.lt_irrefl _ lt
    subst whole
    have found : ((searching c).skip eeprom c.macroSize id.toNat).1 = true := by
      rcases result with ⟨found, -⟩ | ⟨-, -, less⟩
      · exact found
      · exact absurd count (Nat.ne_of_lt less)
    rw [send_of_last one last, if_pos found, eq] at run
    have behind := inside _ (Sender.turns_reads fuel (Or.inl rfl) run)
    exact Nat.lt_irrefl _ behind.2
  · rintro ⟨size, cond⟩
    have inside : Sender.Inside c.macroAddr (c.macroAddr + c.macroSize) (searching c) := by
      intro a mem
      rw [List.mem_singleton.1 mem]
      omega
    by_cases last : eeprom (c.macroAddr + c.macroSize - 1) = 0
    case neg =>
      obtain ⟨s, run, reads⟩ := @send_of_writing c interval eeprom 0 id one last
      refine ⟨0, s, run, ?_⟩
      unfold Sender.Inside
      rw [reads]
      exact inside
    have skipped : ((searching c).skip eeprom c.macroSize id.toNat).2.Inside c.macroAddr (c.macroAddr + c.macroSize) := by
      rw [eq]
      intro a mem
      rcases List.mem_append.1 mem with mem | mem
      · exact inside a mem
      · obtain ⟨k, lt, rfl⟩ := List.mem_map.1 mem
        have lt := List.mem_range.1 lt
        change c.macroAddr ≤ c.macroAddr + k ∧ c.macroAddr + k < _
        omega
    rcases result with ⟨found, count⟩ | ⟨gone, -, -⟩
    · have before : n < c.macroSize := by
        refine Nat.lt_of_le_of_ne le ?_
        rintro rfl
        rcases cond with full | rfl | other
        · exact full last
        · have none := count_lt_of_last (m := eeprom) (a := c.macroAddr) size last
          change (slice eeprom c.macroAddr c.macroSize).count 0 = 0 at count
          rw [count] at none
          exact Nat.not_lt_zero _ none
        · exact other count
      have ahead : ((searching c).skip eeprom c.macroSize id.toNat).2.Ahead c.macroAddr (c.macroAddr + c.macroSize) := by
        refine ⟨skipped, ?_, ?_⟩
        · rw [eq]
          exact Nat.le_add_right _ _
        · rw [eq]
          exact Nat.add_lt_add_left before _
      obtain ⟨fuel, s, run, stays⟩ := @Sender.ends_turns eeprom interval _ _ _ last ahead
      exact ⟨fuel, s, by rw [send_of_last one last, if_pos found, run], stays⟩
    · refine ⟨0, _, ?_, skipped⟩
      rw [send_of_last one last, if_neg (by rw [gone]; decide)]

end Search

/-! ## What is sent -/

/-- The memory has these bytes from an address on. -/
def Spells (m : Nat → UInt8) (p : Nat) (l : List UInt8) : Prop := slice m p l.length = l

section Spells

variable {m : Nat → UInt8} {p : Nat} {a : UInt8} {l l' : List UInt8}

theorem spells_nil : Spells m p [] := rfl

theorem spells_cons : Spells m p (a :: l) ↔ m p = a ∧ Spells m (p + 1) l := by
  unfold Spells
  rw [List.length_cons, slice_succ, List.cons.injEq]

theorem spells_append : Spells m p (l ++ l') ↔ Spells m p l ∧ Spells m (p + l.length) l' := by
  unfold Spells
  rw [List.length_append, slice_add]
  exact ⟨fun eq => List.append_inj eq (length_slice _ _ _), fun ⟨eq, eq'⟩ => by rw [eq, eq']⟩

end Spells

/-- A string of characters and complete escapes. A delay has at most four bytes before its bar. What is behind a code that is
not known is not in the temporary string, so such an escape comes before all others (while `data[2]` is null). -/
inductive Complete : Bool → List UInt8 → Prop where
  | nil {fresh : Bool} : Complete fresh []
  | char {fresh : Bool} {c : UInt8} {l : List UInt8} (key : c ≠ 0) (plain : c ≠ ssQmkPrefix) (rest : Complete fresh l) :
      Complete fresh (c :: l)
  | key {fresh : Bool} {code k : UInt8} {call : UInt8 → Sent} {l : List UInt8} (known : keyCall code = some call) (key : k ≠ 0)
      (rest : Complete false l) : Complete fresh (ssQmkPrefix :: code :: k :: l)
  | delay {fresh : Bool} {digits l : List UInt8} (short : digits.length ≤ 4) (inside : ∀ d ∈ digits, d ≠ 0 ∧ d ≠ bar)
      (rest : Complete false l) : Complete fresh (ssQmkPrefix :: ssDelayCode :: digits ++ bar :: l)
  | other {code : UInt8} {l : List UInt8} (key : code ≠ 0) (unknown : keyCall code = none) (timeless : code ≠ ssDelayCode)
      (rest : Complete true l) : Complete true (ssQmkPrefix :: code :: l)

namespace Sender

variable {eeprom : Nat → UInt8} {interval : UInt8} {s : Sender}

theorem skip_string {str : List UInt8} (full : ∀ b ∈ str, b ≠ 0) : ∀ {s : Sender} {left id : Nat},
    Spells eeprom s.p (str ++ [0]) → str.length < left →
    ∃ reads, s.skip eeprom left (id + 1) =
      ({ s with p := s.p + (str.length + 1), reads := reads } : Sender).skip eeprom (left - (str.length + 1)) id := by
  induction str with
  | nil =>
    intro s left id spells lt
    obtain ⟨left, rfl⟩ := Nat.exists_eq_add_of_lt lt
    refine ⟨s.advance.reads, ?_⟩
    have null : eeprom s.p = 0 := (spells_cons.1 spells).1
    rw [List.length_nil, Nat.zero_add, skip, if_neg (Nat.succ_ne_zero id), if_pos null]
    rfl
  | cons a str ih =>
    intro s left id spells lt
    obtain ⟨left, rfl⟩ := Nat.exists_eq_add_of_lt lt
    rw [List.cons_append, spells_cons] at spells
    have key : eeprom s.p ≠ 0 := spells.1 ▸ full a List.mem_cons_self
    obtain ⟨reads, eq⟩ := @ih (fun b mem => full b (List.mem_cons_of_mem _ mem)) s.advance ((a :: str).length + left) id spells.2
      (by simp; omega)
    refine ⟨reads, ?_⟩
    rw [skip, if_neg (Nat.succ_ne_zero id), if_neg key, eq]
    simp [advance, Nat.add_comm, Nat.add_left_comm]

theorem skip_strings {strings : List (List UInt8)} (full : ∀ str ∈ strings, ∀ b ∈ str, b ≠ 0) : ∀ {s : Sender} {left id : Nat}
    {str : List UInt8}, Spells eeprom s.p (strings.flatMap (· ++ [0])) → (strings.flatMap (· ++ [0])).length ≤ left →
    strings[id]? = some str →
    ∃ s', s.skip eeprom left id = (true, s') ∧ Spells eeprom s'.p (str ++ [0]) ∧ s'.data = s.data ∧ s'.sent = s.sent := by
  induction strings with
  | nil => exact fun _ _ nth => absurd nth (by simp)
  | cons first strings ih =>
    intro s left id str spells le nth
    rw [List.flatMap_cons, spells_append] at spells
    rw [List.flatMap_cons, List.length_append, List.length_append, List.length_singleton] at le
    cases id with
    | zero =>
      cases nth
      cases left with
      | zero => omega
      | succ left => exact ⟨s, rfl, spells.1, rfl, rfl⟩
    | succ id =>
      obtain ⟨reads, eq⟩ := @skip_string eeprom first (full first List.mem_cons_self) s left id spells.1 (by omega)
      rw [eq]
      have le' : (strings.flatMap (· ++ [0])).length ≤ left - (first.length + 1) := by omega
      exact @ih (fun str mem => full str (List.mem_cons_of_mem _ mem))
        { s with p := s.p + (first.length + 1), reads := reads } (left - (first.length + 1)) id str
        (by simpa using spells.2) le' (by simpa using nth)

/-- A piece in the temporary string is sent as such. -/
theorem send_piece {piece : List UInt8} {past now : List Sent} (data : Spells s.data 0 piece) (null : s.data piece.length = 0)
    (short : piece.length ≤ 7) (before : s.sent = some past) (sends : Sends interval piece now []) :
    (s.send interval).sent = some (past ++ now) := by
  obtain ⟨rest, eight⟩ := Nat.exists_eq_add_of_le short
  have whole : slice s.data 0 8 = piece ++ 0 :: slice s.data (piece.length + 1) rest := by
    rw [show 8 = piece.length + (rest + 1) by omega, slice_add, slice_succ, Nat.zero_add, null]
    rw [show slice s.data 0 piece.length = piece from data]
  unfold send
  simp only [whole, sends.whole, before, Option.bind_eq_bind, Option.bind_some]

/-- What a turn did with a piece of the string -/
structure Took (eeprom : Nat → UInt8) (interval : UInt8) (piece : List UInt8) (s s' : Sender) : Prop where
  turn : s.turn eeprom interval = (true, s')
  p : s'.p = s.p + piece.length
  sent : ∀ past now, s.sent = some past → Sends interval piece now [] → s'.sent = some (past ++ now)

theorem spells_three {m : Nat → UInt8} {a b d : UInt8} (h0 : m 0 = a) (h1 : m 1 = b) (h2 : m 2 = d) : Spells m 0 [a, b, d] :=
  spells_cons.2 ⟨h0, spells_cons.2 ⟨h1, spells_cons.2 ⟨h2, spells_nil⟩⟩⟩

theorem took_char {a : UInt8} (here : eeprom s.p = a) (key : a ≠ 0) (plain : a ≠ ssQmkPrefix) :
    ∃ s', Took eeprom interval [a] s s' ∧ s'.data 2 = s.data 2 := by
  refine ⟨((s.pull eeprom 0).terminate 1).send interval, ⟨?_, rfl, fun past now before sends => ?_⟩, ?_⟩
  · unfold turn
    simp only [pull_terminate_data]
    rw [if_neg (here ▸ key), if_neg (here ▸ plain)]
  · have data : Spells ((s.pull eeprom 0).terminate 1).data 0 [a] := spells_cons.2 ⟨pull_terminate_data.trans here, spells_nil⟩
    exact send_piece data (by simp [terminate]) (Nat.le_of_ble_eq_true rfl) before sends
  · simp [send, terminate, pull]

/-- The turn after it has read the prefix and a code -/
def escaped (eeprom : Nat → UInt8) (s : Sender) : Sender := ((s.pull eeprom 0).terminate 1).pull eeprom 1

theorem turn_escape {code : UInt8} (first : eeprom s.p = ssQmkPrefix) (second : eeprom (s.p + 1) = code) (key : code ≠ 0) :
    (escaped eeprom s).data 0 = ssQmkPrefix ∧ (escaped eeprom s).data 1 = code ∧ (escaped eeprom s).data 2 = s.data 2 ∧
    s.turn eeprom interval =
      if code = ssTapCode ∨ code = ssDownCode ∨ code = ssUpCode then
        if eeprom (s.p + 2) = 0 then (false, (escaped eeprom s).pull eeprom 2)
        else (true, (((escaped eeprom s).pull eeprom 2).terminate 3).send interval)
      else if code = ssDelayCode then
        if ((escaped eeprom s).pullDelay eeprom 4).1 then (true, ((escaped eeprom s).pullDelay eeprom 4).2.send interval)
        else (false, ((escaped eeprom s).pullDelay eeprom 4).2)
      else (true, (escaped eeprom s).send interval) := by
  refine ⟨?_, ?_, ?_, ?_⟩
  · simp [escaped, pull, terminate, first]
  · simp [escaped, pull, terminate, second, advance]
  · simp [escaped, pull, terminate]
  · unfold turn escaped
    simp only [pull_data, pull_terminate_data, terminate_p, pull_p, first, second]
    rw [if_neg (by decide), if_pos trivial, if_neg key]

theorem known_code {code : UInt8} {call : UInt8 → Sent} (known : keyCall code = some call) :
    code ≠ 0 ∧ (code = ssTapCode ∨ code = ssDownCode ∨ code = ssUpCode) := by
  unfold keyCall at known
  split_ifs at known with tap down up
  · subst tap
    decide
  · subst down
    decide
  · subst up
    decide

theorem unknown_code {code : UInt8} (unknown : keyCall code = none) : ¬ (code = ssTapCode ∨ code = ssDownCode ∨ code = ssUpCode) := by
  unfold keyCall at unknown
  split_ifs at unknown with tap down up
  rintro (h | h | h)
  · exact tap h
  · exact down h
  · exact up h

theorem took_key {code k : UInt8} {call : UInt8 → Sent} (here : Spells eeprom s.p [ssQmkPrefix, code, k])
    (known : keyCall code = some call) (key : k ≠ 0) : ∃ s', Took eeprom interval [ssQmkPrefix, code, k] s s' := by
  obtain ⟨first, second, third, -⟩ := (spells_cons.trans (and_congr_right' (spells_cons.trans (and_congr_right' spells_cons)))).1 here
  obtain ⟨code_ne, code_key⟩ := known_code known
  obtain ⟨d0, d1, -, turn⟩ := @turn_escape eeprom interval s code first second code_ne
  rw [if_pos code_key, if_neg (third ▸ key)] at turn
  refine ⟨_, turn, rfl, fun past now before sends => ?_⟩
  have data : Spells (((escaped eeprom s).pull eeprom 2).terminate 3).data 0 [ssQmkPrefix, code, k] := by
    apply spells_three
    · simp [terminate, pull, d0]
    · simp [terminate, pull, d1]
    · simpa [terminate, pull, escaped, advance] using third
  exact send_piece data (by simp [terminate]) (Nat.le_of_ble_eq_true rfl) before sends

theorem took_other {code : UInt8} (here : Spells eeprom s.p [ssQmkPrefix, code]) (key : code ≠ 0) (unknown : keyCall code = none)
    (timeless : code ≠ ssDelayCode) (fresh : s.data 2 = 0) :
    ∃ s', Took eeprom interval [ssQmkPrefix, code] s s' ∧ s'.data 2 = 0 := by
  obtain ⟨first, second, -⟩ := (spells_cons.trans (and_congr_right' spells_cons)).1 here
  obtain ⟨d0, d1, d2, turn⟩ := @turn_escape eeprom interval s code first second key
  rw [if_neg (unknown_code unknown), if_neg timeless] at turn
  refine ⟨_, ⟨turn, rfl, fun past now before sends => ?_⟩, d2.trans fresh⟩
  have data : Spells (escaped eeprom s).data 0 [ssQmkPrefix, code] := spells_cons.2 ⟨d0, spells_cons.2 ⟨d1, spells_nil⟩⟩
  exact send_piece data (d2.trans fresh) (Nat.le_of_ble_eq_true rfl) before sends

/-- The number of a delay gets into the temporary string behind what is there. -/
theorem pullDelay_bar {digits : List UInt8} (inside : ∀ d ∈ digits, d ≠ 0 ∧ d ≠ bar) : ∀ {s : Sender} {left : Nat},
    left ≤ 4 → digits.length ≤ left → Spells eeprom s.p (digits ++ [bar]) →
    ∃ s', s.pullDelay eeprom left = (true, s') ∧ s'.p = s.p + (digits.length + 1) ∧ s'.sent = s.sent ∧
      Spells s'.data (6 - left) (digits ++ [bar]) ∧ s'.data (6 - left + digits.length + 1) = 0 ∧
      ∀ j < 6 - left, s'.data j = s.data j := by
  induction digits with
  | nil =>
    intro s left le _ spells
    have here : eeprom s.p = bar := (spells_cons.1 spells).1
    refine ⟨(s.pull eeprom (6 - left)).terminate (6 - left + 1), ?_, rfl, rfl, ?_, ?_, fun j lt => ?_⟩
    · unfold pullDelay
      simp only [pull_data]
      rw [if_neg (by rw [here]; decide), if_pos here]
    · refine spells_cons.2 ⟨?_, spells_nil⟩
      simpa [terminate, pull] using here
    · simp [terminate]
    · simp only [terminate, pull, advance]
      rw [Function.update_of_ne (by omega), Function.update_of_ne (by omega)]
  | cons d digits ih =>
    intro s left le short spells
    rw [List.cons_append, spells_cons] at spells
    obtain ⟨here, rest⟩ := spells
    obtain ⟨key, plain⟩ := inside d List.mem_cons_self
    rw [List.length_cons] at short
    obtain ⟨left, rfl⟩ : ∃ m, left = m + 1 := ⟨left - 1, by omega⟩
    obtain ⟨s', eq, p, sent, data, null, kept⟩ := @ih (fun b mem => inside b (List.mem_cons_of_mem _ mem))
      (s.pull eeprom (6 - (left + 1))) left (by omega) (by omega) rest
    have next : 6 - left = 6 - (left + 1) + 1 := by omega
    refine ⟨s', ?_, ?_, sent, ?_, ?_, fun j lt => ?_⟩
    · unfold pullDelay
      simp only [pull_data]
      rw [if_neg (here ▸ key), if_neg (here ▸ plain), eq]
    · rw [p, pull_p, List.length_cons]
      omega
    · rw [List.cons_append]
      refine spells_cons.2 ⟨?_, next ▸ data⟩
      rw [kept _ (by omega), pull_data, here]
    · rw [List.length_cons, ← null, next]
      congr 1
      omega
    · rw [kept j (by omega)]
      simp only [pull, advance]
      rw [Function.update_of_ne (by omega)]

theorem took_delay {digits : List UInt8} (here : Spells eeprom s.p (ssQmkPrefix :: ssDelayCode :: digits ++ [bar]))
    (short : digits.length ≤ 4) (inside : ∀ d ∈ digits, d ≠ 0 ∧ d ≠ bar) :
    ∃ s', Took eeprom interval (ssQmkPrefix :: ssDelayCode :: digits ++ [bar]) s s' := by
  obtain ⟨first, second, rest⟩ := (spells_cons.trans (and_congr_right' spells_cons)).1 here
  obtain ⟨d0, d1, -, turn⟩ := @turn_escape eeprom interval s ssDelayCode first second (by decide)
  obtain ⟨s', eq, p, sent, data, null, kept⟩ := @pullDelay_bar eeprom digits inside (escaped eeprom s) 4 (Nat.le_refl 4) short rest
  rw [if_neg (by decide), if_pos rfl, eq, if_pos rfl] at turn
  refine ⟨_, turn, ?_, fun past now before sends => ?_⟩
  · rw [send_p, p]
    simp [escaped, advance, pull]
    omega
  · have whole : Spells s'.data 0 (ssQmkPrefix :: ssDelayCode :: digits ++ [bar]) :=
      spells_cons.2 ⟨(kept 0 (by decide)).trans d0, spells_cons.2 ⟨(kept 1 (by decide)).trans d1, data⟩⟩
    refine send_piece whole ?_ ?_ (sent.trans before) sends
    · rw [← null]
      congr 1
      simp
      omega
    · simp
      omega

/-- The loop sends what `send_string_with_delay` sends for the same string. -/
theorem turns_complete {fresh : Bool} {str : List UInt8} (complete : Complete fresh str) :
    ∃ now, Sends interval str now [] ∧ ∀ {s : Sender} {past : List Sent}, Spells eeprom s.p (str ++ [0]) →
      (fresh = true → s.data 2 = 0) → s.sent = some past →
      ∃ fuel s', s.turns eeprom interval fuel = some s' ∧ s'.sent = some (past ++ now) := by
  -- a piece, and what the induction says of the rest
  have step {piece l : List UInt8} {now : List Sent} {fresh fresh' : Bool} (whole : Sends interval piece now [])
      (take : ∀ {s : Sender}, Spells eeprom s.p (piece ++ (l ++ [0])) → (fresh = true → s.data 2 = 0) →
        ∃ s', Took eeprom interval piece s s' ∧ (fresh' = true → s'.data 2 = 0))
      (ih : ∃ now, Sends interval l now [] ∧ ∀ {s : Sender} {past : List Sent}, Spells eeprom s.p (l ++ [0]) →
        (fresh' = true → s.data 2 = 0) → s.sent = some past →
        ∃ fuel s', s.turns eeprom interval fuel = some s' ∧ s'.sent = some (past ++ now)) :
      ∃ now, Sends interval (piece ++ l) now [] ∧ ∀ {s : Sender} {past : List Sent}, Spells eeprom s.p (piece ++ (l ++ [0])) →
        (fresh = true → s.data 2 = 0) → s.sent = some past →
        ∃ fuel s', s.turns eeprom interval fuel = some s' ∧ s'.sent = some (past ++ now) := by
    obtain ⟨later, sends, run⟩ := ih
    refine ⟨now ++ later, (whole.append l).trans sends, fun {s past} here clear before => ?_⟩
    obtain ⟨s', took, clear'⟩ := take here clear
    have there : Spells eeprom s'.p (l ++ [0]) := took.p ▸ (spells_append.1 here).2
    obtain ⟨fuel, s'', turns, sent⟩ := run there clear' (took.sent past now before whole)
    refine ⟨fuel + 1, s'', ?_, by rw [sent, List.append_assoc]⟩
    rw [Sender.turns, took.turn]
    exact turns
  induction complete with
  | nil =>
    refine ⟨[], .refl [], fun {s past} here _ before => ⟨1, (s.turn eeprom interval).2, ?_, ?_⟩⟩
    · have null : eeprom s.p = 0 := (spells_cons.1 here).1
      simp [turns, turn, null]
    · have null : eeprom s.p = 0 := (spells_cons.1 here).1
      simpa [turn, null, terminate, pull, advance] using before
  | @char fresh c l key plain rest ih =>
    obtain ⟨now, whole⟩ := @sends_char interval c key plain
    refine step whole (fun here clear => ?_) ih
    obtain ⟨s', took, same⟩ := took_char (spells_cons.1 here).1 key plain
    exact ⟨s', took, fun f => same.trans (clear f)⟩
  | @key fresh code k call l known key rest ih =>
    obtain ⟨now, whole⟩ := @sends_key interval code k call known
    refine step whole (fun here clear => ?_) ih
    obtain ⟨s', took⟩ := took_key (spells_append.1 here).1 known key
    exact ⟨s', took, by rintro ⟨⟩⟩
  | @delay fresh digits l short inside rest ih =>
    have keys : ∀ b ∈ ssQmkPrefix :: ssDelayCode :: digits, b ≠ 0 := by
      simp only [List.mem_cons]
      rintro b (rfl | rfl | mem)
      · decide
      · decide
      · exact (inside b mem).1
    obtain ⟨now, whole⟩ := @sends_bar interval _ keys
    have pieces : ssQmkPrefix :: ssDelayCode :: digits ++ bar :: l = ssQmkPrefix :: ssDelayCode :: digits ++ [bar] ++ l := by simp
    have longer : ssQmkPrefix :: ssDelayCode :: digits ++ bar :: l ++ [0] =
        ssQmkPrefix :: ssDelayCode :: digits ++ [bar] ++ (l ++ [0]) := by simp
    rw [longer, pieces]
    refine step whole (fun here clear => ?_) ih
    obtain ⟨s', took⟩ := took_delay (spells_append.1 here).1 short inside
    exact ⟨s', took, by rintro ⟨⟩⟩
  | @other code l key unknown timeless rest ih =>
    obtain ⟨now, whole⟩ := @sends_other interval code unknown timeless
    refine step whole (fun here clear => ?_) ih
    obtain ⟨s', took, same⟩ := took_other (spells_append.1 here).1 key unknown timeless (clear rfl)
    exact ⟨s', took, fun _ => same⟩

end Sender

/-- **A macro is sent as its string would be**: where the macro area is strings with their nulls, and the one asked for is
complete, the calls are those of `send_string_with_delay` for it. -/
theorem macro_sends_string (c : Config) (interval : UInt8) {eeprom : Nat → UInt8} {id : UInt8} {strings : List (List UInt8)}
    {str : List UInt8} (area : slice eeprom c.macroAddr c.macroSize = strings.flatMap (· ++ [0]))
    (full : ∀ str ∈ strings, ∀ b ∈ str, b ≠ 0) (one : ¬ c.macroCount ≤ id) (nth : strings[id.toNat]? = some str)
    (complete : Complete true str) (behind : List UInt8) :
    ∃ fuel s now, dynamicKeymapMacroSend c interval eeprom fuel id = some s ∧ s.sent = some now ∧
      sendStringWithDelay (str ++ 0 :: behind) interval = some now := by
  have length : c.macroSize = (strings.flatMap (· ++ [0])).length := by rw [← area, length_slice]
  have spells : Spells eeprom c.macroAddr (strings.flatMap (· ++ [0])) := by
    unfold Spells
    rw [← length, area]
  have last : eeprom (c.macroAddr + c.macroSize - 1) = 0 := by
    rcases List.eq_nil_or_concat strings with rfl | ⟨before, final, rfl⟩
    · cases nth
    · rw [List.concat_eq_append, List.flatMap_append, List.flatMap_singleton, ← List.append_assoc] at spells length
      rw [List.length_append, List.length_singleton] at length
      have null := (spells_cons.1 (spells_append.1 spells).2).1
      rw [← null]
      congr 1
      omega
  obtain ⟨now, sends, run⟩ := @Sender.turns_complete eeprom interval true str complete
  obtain ⟨s, found, here, data, sent⟩ := @Sender.skip_strings eeprom strings full (searching c) c.macroSize id.toNat str spells
    (Nat.le_of_eq length.symm) nth
  obtain ⟨fuel, s', turns, sent'⟩ := @run s [] here (fun _ => by rw [data]; rfl) sent
  refine ⟨fuel, s', now, ?_, sent', sends.whole⟩
  rw [send_of_last one last, found, if_pos rfl]
  exact turns

section Examples

/-- A macro area of 101 bytes, at the end of the EEPROM -/
def macroArea : Config :=
  { keyboard with
    macroAddr := 1947
    macroSize := 101 }

/-- The EEPROM with these bytes in the macro area -/
def stored (bytes : List UInt8) : Nat → UInt8 := patch (fun _ => 0) 1947 bytes

/-- `a`, then a shift key around `b`, and a delay of 10 ms -/
def spoken : List (List UInt8) := [[97], [1, 2, 225, 98, 1, 3, 225, 1, 4, 49, 48, 124]] ++ List.replicate 86 []

/-- The second macro is sent as its string. -/
theorem macro_sends_string_spoken :
    ∃ fuel s now, dynamicKeymapMacroSend macroArea 5 (stored (spoken.flatMap (· ++ [0]))) fuel 1 = some s ∧ s.sent = some now ∧
      sendStringWithDelay ([1, 2, 225, 98, 1, 3, 225, 1, 4, 49, 48, 124] ++ 0 :: []) 5 = some now := by
  have digits : Complete false [1, 4, 49, 48, 124] := @Complete.delay false [49, 48] [] (by decide) (by decide +kernel) .nil
  have up : Complete false (1 :: 3 :: 225 :: [1, 4, 49, 48, 124]) := @Complete.key false 3 225 Sent.up _ rfl (by decide) digits
  have typed : Complete false (98 :: 1 :: 3 :: 225 :: [1, 4, 49, 48, 124]) := .char (by decide) (by decide) up
  have down : Complete true (1 :: 2 :: 225 :: 98 :: 1 :: 3 :: 225 :: [1, 4, 49, 48, 124]) :=
    @Complete.key true 2 225 Sent.down _ rfl (by decide) typed
  exact @macro_sends_string macroArea 5 (stored (spoken.flatMap (· ++ [0]))) 1 spoken _ (by decide +kernel) (by decide +kernel)
    (by decide) rfl down []

/-- The first macro fills the area: the second one is read from behind it. -/
theorem macro_leaves_area :
    (dynamicKeymapMacroSend macroArea 0 (stored (List.replicate 100 65)) 1 1).map (·.reads.getLast?) = some (some 2048) ∧
      macroArea.macroAddr + macroArea.macroSize = 2048 := by
  decide +kernel

/-- A delay of five digits stops the macro, not the string; and behind a code that is not known, the macro sends what is left
in the temporary string. -/
theorem macro_differs :
    ((dynamicKeymapMacroSend macroArea 0 (stored [1, 4, 48, 48, 48, 48, 49, 124, 65]) 1 0).map (·.sent) = some (some []) ∧
      sendStringWithDelay [1, 4, 48, 48, 48, 48, 49, 124, 65, 0] 0 = some [.wait, .char 65]) ∧
    (dynamicKeymapMacroSend macroArea 0 (stored [1, 1, 65, 1, 5]) 3 0).map (·.sent) = some (some [.tap 65, .char 65]) ∧
      sendStringWithDelay [1, 1, 65, 1, 5, 0] 0 = some [.tap 65] := by
  decide

end Examples

end QmkFirmware.Via
