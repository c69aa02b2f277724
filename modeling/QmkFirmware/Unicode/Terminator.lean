import QmkFirmware.Unicode.Utf8

/-!
# The end of a string

The loops look for the terminator only where a sequence ends. A sequence that the terminator
cuts short takes the decoder past it.
-/

namespace QmkFirmware.Unicode

/-- The string is a row of sequences, each as long as its first byte announces. -/
def Whole (s : List UInt8) : Prop :=
  ∃ sequences : List (List UInt8), s = sequences.flatten ∧
    ∀ sequence ∈ sequences, ∃ b tail, sequence = b :: tail ∧ sequence.length = announced b

theorem whole_nil : Whole [] := ⟨[], rfl, by simp⟩

theorem whole_cons_iff {b : UInt8} {rest : List UInt8} :
    Whole (b :: rest) ↔ announced b ≤ rest.length + 1 ∧ Whole (rest.drop (announced b - 1)) := by
  constructor
  · rintro ⟨sequences, flat, whole⟩
    cases sequences with
    | nil => cases flat
    | cons first later =>
      obtain ⟨b', tail, rfl, length⟩ := whole first List.mem_cons_self
      rw [List.flatten_cons, List.cons_append, List.cons.injEq] at flat
      obtain ⟨rfl, rfl⟩ := flat
      rw [List.length_cons] at length
      have same : announced b - 1 = tail.length := by omega
      constructor
      · rw [List.length_append]
        omega
      · rw [same, List.drop_left]
        exact ⟨later, rfl, fun sequence mem => whole sequence (List.mem_cons_of_mem _ mem)⟩
  · rintro ⟨enough, sequences, flat, whole⟩
    have pos := announced_pos b
    refine ⟨(b :: rest.take (announced b - 1)) :: sequences, ?_, ?_⟩
    · rw [List.flatten_cons, ← flat, List.cons_append, List.take_append_drop]
    · intro sequence mem
      rcases List.mem_cons.mp mem with rfl | mem
      · refine ⟨b, _, rfl, ?_⟩
        rw [List.length_cons, List.length_take]
        omega
      · exact whole sequence mem

variable {mem : Nat → UInt8} {str : Nat} {s : List UInt8}

theorem holds_iff {l : List UInt8} : Holds mem str l ↔ ∀ i (lt : i < l.length), mem (str + i) = l[i] := by
  induction l generalizing str with
  | nil => simp [Holds]
  | cons b l ih =>
    rw [Holds, ih]
    constructor
    · rintro ⟨here, later⟩ i lt
      cases i with
      | zero => exact here
      | succ i =>
        rw [List.getElem_cons_succ, ← later i (by simpa using lt), Nat.add_assoc, Nat.add_comm 1 i]
    · intro all
      refine ⟨all 0 (by simp), fun i lt => ?_⟩
      have there := all (i + 1) (by simpa using lt)
      rw [List.getElem_cons_succ] at there
      rw [← there, Nat.add_assoc, Nat.add_comm 1 i]

/-- A sequence that is all there: the rest of the string is behind it. -/
theorem holds_drop {b : UInt8} {rest : List UInt8} (held : Holds mem str (b :: rest ++ [0]))
    (enough : announced b ≤ rest.length + 1) :
    Holds mem (str + announced b) (rest.drop (announced b - 1) ++ [0]) := by
  have pos := announced_pos b
  have parts : b :: rest ++ [0] = (b :: rest.take (announced b - 1)) ++ (rest.drop (announced b - 1) ++ [0]) := by
    rw [List.cons_append, List.cons_append, ← List.append_assoc, List.take_append_drop]
  rw [parts, Holds.append] at held
  have length : (b :: rest.take (announced b - 1)).length = announced b := by
    rw [List.length_cons, List.length_take]
    omega
  rw [length] at held
  exact held.2

/-- What the loops read and decode stays up to the terminator. -/
def Within (last : Nat) (given read : List Nat) : Prop := ∀ p ∈ given ++ read, p ≤ last

theorem within_cons {last : Nat} {given read : List Nat} {b : UInt8} (h : Within last given read)
    (room : str + announced b ≤ last) : Within last (str :: given) ((List.range (announced b)).map (str + ·) ++ read) := by
  intro p mem
  simp only [List.cons_append, List.mem_cons, List.mem_append, List.mem_map, List.mem_range] at mem
  rcases mem with rfl | mem | ⟨i, lt, rfl⟩ | mem
  · have := announced_pos b
    omega
  · exact h p (List.mem_append_left _ mem)
  · omega
  · exact h p (List.mem_append_right _ mem)

theorem sendUnicodeString_within (nonzero : ∀ b ∈ s, b ≠ 0) (held : Holds mem str (s ++ [0])) (whole : Whole s)
    (fuel : Nat) (enough : s.length < fuel) :
    ∃ scan, sendUnicodeString mem fuel str = some scan ∧ Within (str + s.length) scan.given scan.read := by
  induction fuel generalizing str s with
  | zero => exact absurd enough (Nat.not_lt_zero _)
  | succ fuel ih =>
    cases s with
    | nil =>
      have ended : mem str = 0 := held.1
      exact ⟨_, by rw [sendUnicodeString, if_pos ended], by simp [Within]⟩
    | cons b rest =>
      have here : mem str = b := held.1
      have more : mem str ≠ 0 := here ▸ nonzero b List.mem_cons_self
      obtain ⟨room, whole⟩ := whole_cons_iff.mp whole
      obtain ⟨next, read⟩ := @decodeUtf8_next mem str
      rw [here] at next read
      have pos := announced_pos b
      have later := holds_drop held room
      rw [← next] at later
      obtain ⟨scan, sent, within⟩ := ih (fun c mem => nonzero c (List.mem_cons_of_mem _ (List.mem_of_mem_drop mem))) later
        whole (by simp only [List.length_drop, List.length_cons] at enough ⊢; omega)
      have last : (decodeUtf8 mem str).next + (rest.drop (announced b - 1)).length = str + (b :: rest).length := by
        rw [next, List.length_drop, List.length_cons]
        omega
      rw [last] at within
      refine ⟨_, by simp only [sendUnicodeString, if_neg more, sent, Option.map_some]; rfl, ?_⟩
      dsimp only
      rw [read]
      exact within_cons within (by rw [List.length_cons]; omega)

theorem within_one {last : Nat} {b : UInt8} (room : str + announced b ≤ last) :
    Within last [str] ((List.range (announced b)).map (str + ·)) := by
  have := @within_cons str last [] [] b (by simp [Within]) room
  rwa [List.append_nil] at this

theorem qpIterateCodePoints_within {σ : Type} (handler : σ → Nat → Option σ) (state : σ) (nonzero : ∀ b ∈ s, b ≠ 0)
    (held : Holds mem str (s ++ [0])) (whole : Whole s) (fuel : Nat) (enough : s.length < fuel) :
    ∃ ret given read, qpIterateCodePoints handler mem fuel str state = some (ret, given, read) ∧
      Within (str + s.length) given read := by
  induction fuel generalizing str s state with
  | zero => exact absurd enough (Nat.not_lt_zero _)
  | succ fuel ih =>
    cases s with
    | nil =>
      have ended : mem str = 0 := held.1
      exact ⟨_, _, _, by rw [qpIterateCodePoints, if_pos ended], by simp [Within]⟩
    | cons b rest =>
      have here : mem str = b := held.1
      have more : mem str ≠ 0 := here ▸ nonzero b List.mem_cons_self
      obtain ⟨room, whole⟩ := whole_cons_iff.mp whole
      obtain ⟨next, read⟩ := @decodeUtf8_next mem str
      rw [here] at next read
      have alone : Within (str + (b :: rest).length) [str] (decodeUtf8 mem str).read :=
        read ▸ within_one (by rw [List.length_cons]; omega)
      simp only [qpIterateCodePoints, if_neg more]
      split
      · exact ⟨_, _, _, rfl, alone⟩
      · split
        · exact ⟨_, _, _, rfl, alone⟩
        · rename_i state' _
          have later := holds_drop held room
          rw [← next] at later
          obtain ⟨ret, given, read', run, within⟩ := ih state'
            (fun c mem => nonzero c (List.mem_cons_of_mem _ (List.mem_of_mem_drop mem))) later whole
            (by simp only [List.length_drop, List.length_cons] at enough ⊢; have := announced_pos b; omega)
          have last : (decodeUtf8 mem str).next + (rest.drop (announced b - 1)).length = str + (b :: rest).length := by
            have := announced_pos b
            rw [next, List.length_drop, List.length_cons]
            omega
          rw [last] at within
          refine ⟨ret, str :: given, (decodeUtf8 mem str).read ++ read', by rw [run, Option.map_some], ?_⟩
          rw [read]
          exact within_cons within (by rw [List.length_cons]; omega)

/-- A sequence cut short: the decoder reads behind the terminator, or is called there, unless the
memory happens to hold another zero. -/
theorem sendUnicodeString_past (nonzero : ∀ b ∈ s, b ≠ 0) (held : Holds mem str (s ++ [0])) (cut : ¬ Whole s)
    (behind : mem (str + s.length + 1) ≠ 0) (fuel : Nat) {scan : Scan}
    (run : sendUnicodeString mem fuel str = some scan) : ¬ Within (str + s.length) scan.given scan.read := by
  induction fuel generalizing str s scan with
  | zero => cases run
  | succ fuel ih =>
    cases s with
    | nil => exact absurd whole_nil cut
    | cons b rest =>
      have here : mem str = b := held.1
      have more : mem str ≠ 0 := here ▸ nonzero b List.mem_cons_self
      obtain ⟨next, read⟩ := @decodeUtf8_next mem str
      rw [here] at next read
      have pos := announced_pos b
      simp only [sendUnicodeString, if_neg more, Option.map_eq_some_iff] at run
      obtain ⟨scan', run, rfl⟩ := run
      intro within
      by_cases room : announced b ≤ rest.length + 1
      · have later := holds_drop held room
        have last : str + announced b + (rest.drop (announced b - 1)).length = str + (b :: rest).length := by
          rw [List.length_drop, List.length_cons]
          omega
        rw [next] at run
        apply ih (fun c mem => nonzero c (List.mem_cons_of_mem _ (List.mem_of_mem_drop mem))) later
          (fun whole => cut (whole_cons_iff.mpr ⟨room, whole⟩)) (last ▸ behind) run
        rw [last]
        intro p mem
        apply within
        rcases List.mem_append.mp mem with mem | mem
        · exact List.mem_append_left _ (List.mem_cons_of_mem _ mem)
        · exact List.mem_append_right _ (List.mem_append_right _ mem)
      · -- the last byte that was announced, or the place behind it
        have farthest : str + (announced b - 1) ∈ (decodeUtf8 mem str).read := by
          rw [read]
          exact List.mem_map.mpr ⟨announced b - 1, List.mem_range.mpr (by omega), rfl⟩
        have reach := within _ (List.mem_append_right _ (List.mem_append_left _ farthest))
        rw [List.length_cons] at reach
        have exactly : announced b = rest.length + 2 := by omega
        have at_behind : mem (decodeUtf8 mem str).next ≠ 0 := by
          rw [next, exactly]
          exact behind
        cases fuel with
        | zero => cases run
        | succ fuel =>
          simp only [sendUnicodeString, if_neg at_behind, Option.map_eq_some_iff] at run
          obtain ⟨scan'', -, rfl⟩ := run
          have := within (decodeUtf8 mem str).next (by simp)
          rw [next, exactly, List.length_cons] at this
          omega

/-- Both loops end without decoding or reading behind the terminator, whatever is there, if and only
if no sequence is cut short. -/
theorem scans_within_iff (nonzero : ∀ b ∈ s, b ≠ 0) (str : Nat) :
    (∀ mem, Holds mem str (s ++ [0]) →
      (∃ fuel scan, sendUnicodeString mem fuel str = some scan ∧ Within (str + s.length) scan.given scan.read) ∧
        ∀ (σ : Type) (handler : σ → Nat → Option σ) (state : σ), ∃ fuel ret given read,
          qpIterateCodePoints handler mem fuel str state = some (ret, given, read) ∧
            Within (str + s.length) given read) ↔
      Whole s := by
  constructor
  · intro safe
    by_contra cut
    let mem : Nat → UInt8 := fun p => (s ++ [0, 1]).getD (p - str) 0
    have held : Holds mem str (s ++ [0]) := by
      rw [holds_iff]
      intro i lt
      have lt : i < s.length + 1 := by simpa using lt
      simp only [mem, Nat.add_sub_cancel_left, List.getD_eq_getElem?_getD]
      rw [show s ++ [0, 1] = s ++ [(0 : UInt8)] ++ [1] by simp, List.getElem?_append_left (by simpa using lt),
        List.getElem?_eq_getElem (by simpa using lt), Option.getD_some]
    have behind : mem (str + s.length + 1) ≠ 0 := by
      simp only [mem, Nat.add_assoc, Nat.add_sub_cancel_left, List.getD_eq_getElem?_getD]
      rw [List.getElem?_append_right (by omega), Nat.add_sub_cancel_left]
      decide
    obtain ⟨⟨fuel, scan, run, within⟩, -⟩ := safe mem held
    exact sendUnicodeString_past nonzero held cut behind fuel run within
  · intro whole mem held
    constructor
    · obtain ⟨scan, run, within⟩ := sendUnicodeString_within nonzero held whole (s.length + 1) (Nat.lt_succ_self _)
      exact ⟨_, scan, run, within⟩
    · intro σ handler state
      obtain ⟨ret, given, read, run, within⟩ :=
        qpIterateCodePoints_within handler state nonzero held whole (s.length + 1) (Nat.lt_succ_self _)
      exact ⟨_, ret, given, read, run, within⟩

theorem scans_within_euro :
    Whole [0xE2, 0x82, 0xAC] ∧ ∀ mem, Holds mem 7 ([0xE2, 0x82, 0xAC] ++ [0]) →
      (∃ fuel scan, sendUnicodeString mem fuel 7 = some scan ∧ Within (7 + 3) scan.given scan.read) ∧
        ∀ (σ : Type) (handler : σ → Nat → Option σ) (state : σ), ∃ fuel ret given read,
          qpIterateCodePoints handler mem fuel 7 state = some (ret, given, read) ∧ Within (7 + 3) given read :=
  have whole : Whole [0xE2, 0x82, 0xAC] := ⟨[[0xE2, 0x82, 0xAC]], rfl, by simp; rfl⟩
  ⟨whole, (scans_within_iff (by decide +kernel) 7).mpr whole⟩

/-- The string of the one byte 0xE3: the third byte of its sequence is behind the terminator. -/
theorem cut_sequence_read : ∃ mem, Holds mem 0 ([0xE3] ++ [0]) ∧
    ¬ ∃ fuel scan, sendUnicodeString mem fuel 0 = some scan ∧ Within (0 + 1) scan.given scan.read := by
  let mem : Nat → UInt8 := fun p => if p = 0 then 0xE3 else 0
  have read : (decodeUtf8 mem 0).read = [0, 1, 2] := by decide
  refine ⟨mem, ⟨rfl, rfl, trivial⟩, ?_⟩
  rintro ⟨fuel, scan, run, within⟩
  cases fuel with
  | zero => cases run
  | succ fuel =>
    simp only [sendUnicodeString, if_neg (show mem 0 ≠ 0 by decide), Option.map_eq_some_iff] at run
    obtain ⟨scan', -, rfl⟩ := run
    have := within 2 (by simp [read])
    omega

end QmkFirmware.Unicode
