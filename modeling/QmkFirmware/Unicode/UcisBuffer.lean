import QmkFirmware.Lib.Run
import QmkFirmware.Unicode.Ucis

/-!
# The buffer of UCIS

Ordinary keys are kept as long as there is room. The special keys are kept too, whether there is
room or not.
-/

namespace QmkFirmware.Unicode.Ucis
open Lib

/-! ## What a comparison uses -/

section
variable {s : State} {seq : List UInt8} {i m : Nat}

/-- The name agrees with the codes from one index up to another. -/
def Agrees (s : State) (seq : List UInt8) (i m : Nat) : Prop :=
  ∀ j, i ≤ j → j < m → j ≤ s.count ∧ seq[j]?.map keycodeOf = some (s.codes j)

/-- An index is used when the name has agreed so far, and either ends there or is no longer than
what `count` says. -/
theorem mem_used_isUniSeqFrom (rounds : Nat) (all : i + rounds = 256) (start : i ≤ seq.length) :
    m ∈ (isUniSeqFrom s seq rounds i).used ↔
      i ≤ m ∧ m < 256 ∧ Agrees s seq i m ∧ m ≤ seq.length ∧ (m < seq.length → m ≤ s.count) := by
  induction rounds generalizing i with
  | zero =>
    simp only [isUniSeqFrom, List.not_mem_nil, false_iff]
    omega
  | succ rounds ih =>
    rw [isUniSeqFrom]
    split
    · rename_i c there
      have lt : i < seq.length := (List.getElem?_eq_some_iff.mp there).1
      split
      · rename_i past
        simp only [List.not_mem_nil, false_iff]
        rintro ⟨le, -, agrees, -, room⟩
        rcases le.eq_or_lt with rfl | less
        · exact absurd (room lt) (by omega)
        · exact absurd (agrees i le_rfl less).1 (by omega)
      · rename_i room
        split
        · rename_i differs
          rw [List.mem_singleton]
          constructor
          · rintro rfl
            exact ⟨le_rfl, by omega, fun j low high => absurd high (by omega), lt.le, fun _ => by omega⟩
          · rintro ⟨le, -, agrees, -, -⟩
            rcases le.eq_or_lt with rfl | less
            · rfl
            · have := (agrees i le_rfl less).2
              rw [there] at this
              exact absurd (Option.some.inj this).symm differs
        · rename_i same
          have same : s.codes i = keycodeOf c := not_not.mp same
          rw [List.mem_cons]
          rcases Nat.lt_or_ge (i + 1) 256 with more | last
          · rw [Nat.mod_eq_of_lt more, ih (by omega) lt]
            constructor
            · rintro (rfl | ⟨le, high, agrees, length, count⟩)
              · exact ⟨le_rfl, by omega, fun j low high => absurd high (by omega), lt.le, fun _ => by omega⟩
              · refine ⟨by omega, high, fun j low up => ?_, length, count⟩
                rcases low.eq_or_lt with rfl | less
                · exact ⟨by omega, by rw [there, same]; rfl⟩
                · exact agrees j less up
            · rintro ⟨le, high, agrees, length, count⟩
              rcases le.eq_or_lt with rfl | less
              · exact Or.inl rfl
              · exact Or.inr ⟨less, high, fun j low up => agrees j (by omega) up, length, count⟩
          · obtain rfl : rounds = 0 := by omega
            simp only [isUniSeqFrom, List.not_mem_nil, or_false]
            constructor
            · rintro rfl
              exact ⟨le_rfl, by omega, fun j low high => absurd high (by omega), lt.le, fun _ => by omega⟩
            · rintro ⟨le, high, -⟩
              omega
    · rename_i ended
      have length := List.getElem?_eq_none_iff.mp ended
      rw [List.mem_singleton]
      constructor
      · rintro rfl
        exact ⟨le_rfl, by omega, fun j low high => absurd high (by omega), start, fun lt => by omega⟩
      · rintro ⟨le, high, agrees, length', -⟩
        omega

/-- The comparison gets as far as index `limit`: the name has agreed with all codes below it. -/
def Overruns (limit : Nat) (s : State) (seq : List UInt8) : Prop :=
  limit < 256 ∧ Agrees s seq 0 limit ∧ limit ≤ seq.length ∧ (limit < seq.length → limit ≤ s.count)

/-- Nothing beyond an index is used unless that index is. -/
theorem used_lt_iff {limit : Nat} : (∀ m ∈ (isUniSeq s seq).used, m < limit) ↔ ¬ Overruns limit s seq := by
  have used {m : Nat} := @mem_used_isUniSeqFrom s seq 0 m 256 rfl (Nat.zero_le _)
  constructor
  · rintro below ⟨lt, agrees, length, count⟩
    exact absurd (below limit (used.mpr ⟨Nat.zero_le _, lt, agrees, length, count⟩)) (Nat.lt_irrefl _)
  · intro within m mem
    by_contra beyond
    obtain ⟨-, lt, agrees, length, -⟩ := used.mp mem
    apply within
    refine ⟨by omega, fun j low high => agrees j low (by omega), by omega, fun more => ?_⟩
    rcases (show limit ≤ m by omega).eq_or_lt with rfl | less
    · exact (used.mp mem).2.2.2.2 more
    · exact (agrees limit (Nat.zero_le _) less).1

/-- The search comes to the entry: none of those before it is found equal. -/
def Reached (table : List Symbol) (s : State) (i : Nat) : Prop :=
  i < 256 ∧ ∀ j < i, ∀ entry, table[j]? = some entry → (isUniSeq s entry.symbol).equal = some false

variable {table : List Symbol}

theorem mem_used_searchFrom (rounds : Nat) (all : i + rounds = 256) :
    m ∈ (searchFrom table s rounds i).used ↔ ∃ k entry, i ≤ k ∧ k < 256 ∧ table[k]? = some entry ∧
      (∀ j, i ≤ j → j < k → ∀ entry, table[j]? = some entry → (isUniSeq s entry.symbol).equal = some false) ∧
      m ∈ (isUniSeq s entry.symbol).used := by
  induction rounds generalizing i with
  | zero =>
    simp only [searchFrom, List.not_mem_nil, false_iff]
    rintro ⟨k, entry, le, lt, -⟩
    omega
  | succ rounds ih =>
    rw [searchFrom]
    split
    · rename_i ended
      simp only [List.not_mem_nil, false_iff]
      rintro ⟨k, entry, le, -, there, -⟩
      have := List.getElem?_eq_none_iff.mp ended
      have := (List.getElem?_eq_some_iff.mp there).1
      omega
    · rename_i entry there
      have here : m ∈ (isUniSeq s entry.symbol).used → ∃ k entry, i ≤ k ∧ k < 256 ∧ table[k]? = some entry ∧
          (∀ j, i ≤ j → j < k → ∀ entry, table[j]? = some entry → (isUniSeq s entry.symbol).equal = some false) ∧
          m ∈ (isUniSeq s entry.symbol).used := fun mem =>
        ⟨i, entry, le_rfl, by omega, there, fun j low high => absurd high (by omega), mem⟩
      have only (stop : (isUniSeq s entry.symbol).equal ≠ some false) {k : Nat} {entry' : Symbol} (le : i ≤ k)
          (there' : table[k]? = some entry') (differ : ∀ j, i ≤ j → j < k → ∀ entry, table[j]? = some entry →
            (isUniSeq s entry.symbol).equal = some false) : entry' = entry := by
        rcases le.eq_or_lt with rfl | less
        · exact Option.some.inj (there'.symm.trans there)
        · exact absurd (differ i le_rfl less entry there) stop
      dsimp only
      cases equal : (isUniSeq s entry.symbol).equal with
      | none =>
        constructor
        · exact here
        · rintro ⟨k, entry', le, -, there', differ, mem⟩
          rwa [only (by rw [equal]; simp) le there' differ] at mem
      | some found =>
        cases found with
        | true =>
          constructor
          · exact here
          · rintro ⟨k, entry', le, -, there', differ, mem⟩
            rwa [only (by rw [equal]; simp) le there' differ] at mem
        | false =>
          dsimp only
          rw [List.mem_append]
          rcases Nat.lt_or_ge (i + 1) 256 with more | last
          · rw [Nat.mod_eq_of_lt more, ih (by omega)]
            constructor
            · rintro (mem | ⟨k, entry', le, lt, there', differ, mem⟩)
              · exact here mem
              · refine ⟨k, entry', by omega, lt, there', fun j low high => ?_, mem⟩
                rcases low.eq_or_lt with rfl | less
                · intro entry'' there''
                  rwa [← Option.some.inj (there.symm.trans there'')]
                · exact differ j less high
            · rintro ⟨k, entry', le, lt, there', differ, mem⟩
              rcases le.eq_or_lt with rfl | less
              · rw [← Option.some.inj (there.symm.trans there')] at mem
                exact Or.inl mem
              · exact Or.inr ⟨k, entry', less, lt, there', fun j low high => differ j (by omega) high, mem⟩
          · obtain rfl : rounds = 0 := by omega
            simp only [searchFrom, List.not_mem_nil, or_false]
            constructor
            · exact here
            · rintro ⟨k, entry', le, lt, there', -, mem⟩
              obtain rfl : k = i := by omega
              rwa [← Option.some.inj (there.symm.trans there')] at mem

/-- The search uses nothing beyond an index when no entry that it comes to gets as far. -/
theorem searched_lt_iff {limit : Nat} : (∀ m ∈ (searchFrom table s 256 0).used, m < limit) ↔
    ∀ k entry, table[k]? = some entry → Reached table s k → ¬ Overruns limit s entry.symbol := by
  constructor
  · intro below k entry there reached
    rw [← used_lt_iff]
    intro m mem
    apply below
    rw [mem_used_searchFrom 256 rfl]
    exact ⟨k, entry, Nat.zero_le _, reached.1, there, fun j _ high => reached.2 j high, mem⟩
  · intro within m mem
    obtain ⟨k, entry, -, lt, there, differ, mem⟩ := (mem_used_searchFrom 256 rfl).mp mem
    exact used_lt_iff.mpr (within k entry there ⟨lt, fun j high => differ j (Nat.zero_le _) high⟩) m mem

end

/-! ## What a press uses -/

/-- The state after a press. Nothing comes after a search that never ends; here later keys are ignored. -/
def State.next (c : Config) (s : State) (keycode : Nat) : State :=
  ((processUcis c keycode s).done.map Prod.fst).getD { s.keep keycode with inProgress := false }

/-- Every index that the press uses is in the array, and `count` is no more than its length. -/
def InBuffer (c : Config) (s : State) (keycode : Nat) : Prop :=
  (∀ i ∈ (processUcis c keycode s).used, i < c.maxSymbolLength) ∧ (s.next c keycode).count ≤ c.maxSymbolLength

/-- There is room for a special key, and if it is one that looks the keys up, no name that is compared
spells out the whole array. -/
def Room (c : Config) (s : State) (keycode : Nat) : Prop :=
  s.inProgress = true → isSpecial keycode = true → s.count < c.maxSymbolLength ∧
    (keycode = kcSpace ∨ keycode = kcEnter → ∀ k entry, c.symbolTable[k]? = some entry →
      Reached c.symbolTable (s.keep keycode) k → ¬ Overruns c.maxSymbolLength (s.keep keycode) entry.symbol)

section
variable {c : Config} {s : State} {keycode : Nat}

theorem isSpecial_cases (h : isSpecial keycode = true) :
    keycode = kcBackspace ∨ keycode = kcEscape ∨ (keycode = kcSpace ∨ keycode = kcEnter) := by
  have : keycode = kcSpace ∨ keycode = kcEnter ∨ keycode = kcEscape ∨ keycode = kcBackspace := by
    simpa only [isSpecial, decide_eq_true_eq] using h
  omega

theorem press_idle (idle : s.inProgress = false) : processUcis c keycode s = ⟨some (s, [], true), []⟩ := by
  rw [processUcis, if_pos (by rw [idle]; exact Bool.false_ne_true)]

theorem press_full (on : s.inProgress = true) (full : c.maxSymbolLength ≤ s.count) (plain : isSpecial keycode = false) :
    processUcis c keycode s = ⟨some (s, [], false), []⟩ := by
  rw [processUcis, if_neg (by rw [on]; exact not_not.mpr rfl), if_pos ⟨full, by rw [plain]; exact Bool.false_ne_true⟩]

theorem press_plain (on : s.inProgress = true) (room : s.count < c.maxSymbolLength) (plain : isSpecial keycode = false) :
    processUcis c keycode s = ⟨some (s.keep keycode, [], true), [s.count]⟩ := by
  have other : keycode ≠ kcBackspace := by
    rintro rfl
    exact absurd plain (by decide)
  rw [processUcis, if_neg (by rw [on]; exact not_not.mpr rfl), if_neg (by omega), if_neg other,
    if_neg (by rw [plain]; exact Bool.false_ne_true)]

theorem press_backspace (on : s.inProgress = true) : processUcis c kcBackspace s =
    if 2 ≤ (s.keep kcBackspace).count then
      ⟨some ({ s.keep kcBackspace with count := (s.keep kcBackspace).count - 2 }, [], true), [s.count]⟩
    else ⟨some ({ s.keep kcBackspace with count := ((s.keep kcBackspace).count + 255) % 256 }, [], false), [s.count]⟩ := by
  rw [processUcis, if_neg (by rw [on]; exact not_not.mpr rfl), if_neg (by rintro ⟨-, plain⟩; exact plain (by decide)),
    if_pos rfl]

theorem press_escape (on : s.inProgress = true) : processUcis c kcEscape s =
    ⟨some ({ s.keep kcEscape with inProgress := false },
      List.replicate (s.keep kcEscape).count (.tap kcBackspace), false), [s.count]⟩ := by
  rw [processUcis, if_neg (by rw [on]; exact not_not.mpr rfl), if_neg (by rintro ⟨-, plain⟩; exact plain (by decide)),
    if_neg (by decide), if_pos (by decide), if_pos rfl]

/-- A key that looks the keys up: all indexes below `limit` if those of the search are. -/
theorem press_lookup (on : s.inProgress = true) (closing : keycode = kcSpace ∨ keycode = kcEnter) :
    processUcis c keycode s =
      match (searchFrom c.symbolTable (s.keep keycode) 256 0).found with
      | none => ⟨none, s.count :: (searchFrom c.symbolTable (s.keep keycode) 256 0).used⟩
      | some (some i) =>
        ⟨some ({ s.keep keycode with inProgress := false },
          List.replicate (s.keep keycode).count (.tap kcBackspace) ++
            ((c.symbolTable[i]?).map fun entry => registerUcis c entry.codePoints).getD [], false),
          s.count :: (searchFrom c.symbolTable (s.keep keycode) 256 0).used⟩
      | some none =>
        ⟨some ({ s.keep keycode with inProgress := false },
          List.replicate (s.keep keycode).count (.tap kcBackspace) ++ symbolFallback (s.keep keycode), false),
          s.count :: (searchFrom c.symbolTable (s.keep keycode) 256 0).used ++ List.range ((s.keep keycode).count - 1)⟩ := by
  have special : isSpecial keycode = true := by rcases closing with rfl | rfl <;> decide
  have no_backspace : keycode ≠ kcBackspace := by rcases closing with rfl | rfl <;> decide
  have no_escape : keycode ≠ kcEscape := by rcases closing with rfl | rfl <;> decide
  have run := processUcis.eq_1 c keycode s
  rw [if_neg (by rw [on]; exact not_not.mpr rfl), if_neg (fun h => h.2 special), if_neg no_backspace, if_pos special,
    if_neg no_escape] at run
  exact run

theorem next_lookup (on : s.inProgress = true) (closing : keycode = kcSpace ∨ keycode = kcEnter) :
    s.next c keycode = { s.keep keycode with inProgress := false } := by
  rw [State.next, press_lookup on closing]
  split <;> rfl

/-- The indexes that looking up uses are below a limit that the buffer fits if those of the search are. -/
theorem used_lookup_iff {limit : Nat} (on : s.inProgress = true) (closing : keycode = kcSpace ∨ keycode = kcEnter)
    (fits : s.count < limit) : (∀ i ∈ (processUcis c keycode s).used, i < limit) ↔
      ∀ i ∈ (searchFrom c.symbolTable (s.keep keycode) 256 0).used, i < limit := by
  have kept : (s.keep keycode).count ≤ s.count + 1 := Nat.mod_le _ _
  rw [press_lookup on closing]
  split
  · rw [List.forall_mem_cons, and_iff_right fits]
  · rw [List.forall_mem_cons, and_iff_right fits]
  · rw [List.cons_append, List.forall_mem_cons, and_iff_right fits, List.forall_mem_append, and_iff_left_iff_imp]
    intro _ i mem
    have := List.mem_range.mp mem
    omega

/-- `count` is a `uint8_t` and no more than the buffer holds. -/
def Counted (c : Config) (s : State) : Prop := s.count < 256 ∧ s.count ≤ c.maxSymbolLength

theorem keep_count_le (s : State) (keycode : Nat) : (s.keep keycode).count < 256 ∧ (s.keep keycode).count ≤ s.count + 1 :=
  ⟨Nat.mod_lt _ (by decide), Nat.mod_le _ _⟩

theorem next_backspace_count (on : s.inProgress = true) (counted : s.count < 256) :
    (s.next c kcBackspace).count ≤ s.count := by
  rw [State.next, press_backspace on]
  have kept : (s.keep kcBackspace).count = (s.count + 1) % 256 := rfl
  split
  · simp only [Option.map_some, Option.getD_some, kept]
    omega
  · simp only [Option.map_some, Option.getD_some, kept]
    omega

/-- One press stays in the buffer exactly when there is room for it. -/
theorem inBuffer_iff_room (counted : Counted c s) : InBuffer c s keycode ↔ Room c s keycode := by
  obtain ⟨small, fits⟩ := counted
  cases on : s.inProgress with
  | false =>
    refine iff_of_true ⟨by simp [press_idle on], ?_⟩ fun on' => absurd on' (by rw [on]; exact Bool.false_ne_true)
    rw [State.next, press_idle on]
    exact fits
  | true =>
    cases special : isSpecial keycode with
    | false =>
      refine iff_of_true ?_ fun _ special' => absurd special' (by rw [special]; exact Bool.false_ne_true)
      rcases Nat.lt_or_ge s.count c.maxSymbolLength with room | full
      · rw [InBuffer, State.next, press_plain on room special]
        exact ⟨by simpa using room, (keep_count_le s keycode).2.trans room⟩
      · rw [InBuffer, State.next, press_full on full special]
        exact ⟨by simp, fits⟩
    | true =>
      rw [Room, imp_iff_right on, imp_iff_right special]
      rcases isSpecial_cases special with rfl | rfl | closing
      · rw [and_iff_left (by rintro (same | same) <;> exact absurd same (by decide)), InBuffer,
          and_iff_left ((next_backspace_count on small).trans fits), press_backspace on]
        split <;> simp
      · rw [and_iff_left (by rintro (same | same) <;> exact absurd same (by decide)), InBuffer, State.next,
          press_escape on]
        simp only [List.mem_singleton, forall_eq, Option.map_some, Option.getD_some]
        exact and_iff_left_of_imp fun room => (keep_count_le s kcEscape).2.trans room
      · rw [imp_iff_right closing, InBuffer, next_lookup on closing, ← searched_lt_iff]
        constructor
        · rintro ⟨used, -⟩
          have room : s.count < c.maxSymbolLength := by
            apply used
            rw [press_lookup on closing]
            split <;> simp
          exact ⟨room, (used_lookup_iff on closing room).mp used⟩
        · rintro ⟨room, searched⟩
          exact ⟨(used_lookup_iff on closing room).mpr searched, (keep_count_le s keycode).2.trans room⟩

theorem next_counted (counted : Counted c s) (inBuffer : InBuffer c s keycode) : Counted c (s.next c keycode) := by
  refine ⟨?_, inBuffer.2⟩
  cases on : s.inProgress with
  | false =>
    rw [State.next, press_idle on]
    exact counted.1
  | true =>
    cases special : isSpecial keycode with
    | false =>
      rcases Nat.lt_or_ge s.count c.maxSymbolLength with room | full
      · rw [State.next, press_plain on room special]
        exact (keep_count_le s keycode).1
      · rw [State.next, press_full on full special]
        exact counted.1
    | true =>
      rcases isSpecial_cases special with rfl | rfl | closing
      · exact lt_of_le_of_lt (next_backspace_count on counted.1) counted.1
      · rw [State.next, press_escape on]
        exact (keep_count_le s kcEscape).1
      · rw [next_lookup on closing]
        exact (keep_count_le s keycode).1

end

/-- Whatever keys are pressed after `ucis_start`, the indexes used stay in the array and `count` stays
in its bound along the whole run exactly when there is room at every press. -/
theorem used_in_buffer_iff (c : Config) (s : State) (keys : List Nat) :
    Along (State.next c) (InBuffer c) (ucisStart s).1 keys ↔ Along (State.next c) (Room c) (ucisStart s).1 keys :=
  Along.congr (Counted c) (fun _ _ counted => inBuffer_iff_room counted) (fun _ _ => next_counted)
    ⟨show 0 < 256 by decide, Nat.zero_le _⟩

/-- A buffer of two keys: A, B and space. -/
theorem third_key_outside : ¬ Along (State.next ⟨2, 3, []⟩) (InBuffer ⟨2, 3, []⟩) (ucisStart ⟨0, fun _ => 0, false⟩).1
    [4, 5, kcSpace] := by
  rintro ⟨-, -, ⟨used, -⟩, -⟩
  exact absurd (used 2 (by decide)) (by decide)

end QmkFirmware.Unicode.Ucis
