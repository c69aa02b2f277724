import QmkFirmware.Unicode.UcisBuffer

/-!
# What the host shows

The text on the host while UCIS input is in progress: the marker, the keys typed, and in their
place the symbol or the keys again.
-/

namespace QmkFirmware.Unicode.Ucis

/-- One character on the host -/
inductive Shown where
  | key (keycode : Nat)
  | glyph (codePoint : Nat)
  deriving DecidableEq

/-- What the host makes of a key or a code point -/
def Sent.apply (host : List Shown) : Sent → List Shown
  | .tap keycode => if keycode = kcBackspace then host.dropLast else host ++ [.key keycode]
  | .unicode codePoint => host ++ [.glyph codePoint]

structure World where
  host : List Shown
  state : State

/-- A press: none where an index outside the array is used or the search never ends. -/
def World.press (c : Config) (w : World) (keycode : Nat) : Option World :=
  let press := processUcis c keycode w.state
  if ∀ i ∈ press.used, i < c.maxSymbolLength then
    press.done.map fun (state, sent, passOn) =>
      let host := sent.foldl Sent.apply w.host
      ⟨if passOn then Sent.apply host (.tap keycode) else host, state⟩
  else none

/-- `ucis_start` -/
def World.start (host : List Shown) (s : State) : World := ⟨(ucisStart s).2.foldl Sent.apply host, (ucisStart s).1⟩

/-! ## The text that was typed -/

/-- A to Z and 1 to 0 -/
def IsText (keycode : Nat) : Prop := kcA ≤ keycode ∧ keycode < kcEnter

/-- 1 to 0 -/
def IsDigit (keycode : Nat) : Prop := kc1 ≤ keycode

/-- The character of a key -/
def charOf (keycode : Nat) : UInt8 :=
  UInt8.ofNat (if keycode < kc1 then keycode - kcA + 97 else if keycode < kc1 + 9 then keycode - kc1 + 49 else 48)

/-- The text after one more press -/
def edit (text : List Nat) (keycode : Nat) : List Nat :=
  if keycode = kcBackspace then text.dropLast else text ++ [keycode]

/-- What was typed, net of backspaces -/
def net (presses : List Nat) : List Nat := presses.foldl edit []

/-- The entry's name is the text. -/
def Symbol.Names (text : List Nat) (entry : Symbol) : Bool := entry.symbol = text.map charOf

/-- What is to be shown for a text: the code points of the first entry that has its name, or the text. -/
def expected (c : Config) (text : List Nat) : List Shown :=
  match c.symbolTable.find? (Symbol.Names text) with
  | some entry => ((entry.codePoints.take c.maxCodePoints).takeWhile (· ≠ 0)).map .glyph
  | none => text.map .key

/-- All names are of letters and digits and shorter than the buffer. -/
def Named (c : Config) : Prop :=
  ∀ entry ∈ c.symbolTable, entry.symbol.length < c.maxSymbolLength ∧
    ∀ ch ∈ entry.symbol, 97 ≤ ch.toNat ∧ ch.toNat ≤ 122 ∨ 48 ≤ ch.toNat ∧ ch.toNat ≤ 57

/-! ## Erasing and typing -/

theorem erase_all (a b : List Shown) :
    (List.replicate b.length (Sent.tap kcBackspace)).foldl Sent.apply (a ++ b) = a := by
  induction b using List.reverseRecOn with
  | nil => simp
  | append_singleton b x ih =>
    rw [List.length_append, List.length_singleton, List.replicate_succ, List.foldl_cons, Sent.apply, if_pos rfl,
      ← List.append_assoc, List.dropLast_concat, ih]

theorem type_glyphs (host : List Shown) (codePoints : List Nat) :
    (codePoints.map Sent.unicode).foldl Sent.apply host = host ++ codePoints.map .glyph := by
  induction codePoints generalizing host with
  | nil => simp
  | cons codePoint codePoints ih => simp [Sent.apply, ih]

theorem type_keys (host : List Shown) {keys : List Nat} (text : ∀ k ∈ keys, k ≠ kcBackspace) :
    (keys.map Sent.tap).foldl Sent.apply host = host ++ keys.map .key := by
  induction keys generalizing host with
  | nil => simp
  | cons k keys ih =>
    rw [List.map_cons, List.foldl_cons, Sent.apply, if_neg (text k List.mem_cons_self),
      ih _ fun k mem => text k (List.mem_cons_of_mem _ mem), List.append_assoc, List.map_cons, List.singleton_append]

theorem IsText.ne_backspace {k : Nat} (h : IsText k) : k ≠ kcBackspace := by
  rintro rfl
  exact absurd h.2 (by decide)

theorem IsText.not_special {k : Nat} (h : IsText k) : isSpecial k = false := by
  rw [isSpecial, decide_eq_false_iff_not]
  rintro (rfl | rfl | rfl | rfl) <;> exact absurd h.2 (by decide)

/-! ## Names and codes -/

theorem charOf_toNat {k : Nat} (h : IsText k) (letter : ¬ IsDigit k) : (charOf k).toNat = k + 93 := by
  have low : 4 ≤ k := h.1
  have high : k < 40 := h.2
  rw [charOf, if_pos (Nat.lt_of_not_le letter), UInt8.toNat_ofNat', show kcA = 4 from rfl]
  omega

/-- A letter of a name is compared as its key. -/
theorem keycodeOf_charOf {k : Nat} (h : IsText k) (letter : ¬ IsDigit k) : keycodeOf (charOf k) = k := by
  have low : 4 ≤ k := h.1
  have high : k < 40 := h.2
  rw [keycodeOf, charOf_toNat h letter, if_neg (by omega), show kcA = 4 from rfl]
  omega

/-- A character that is compared as a letter or digit key is that letter; no digit is. -/
theorem charOf_keycodeOf {k : Nat} {ch : UInt8} (h : IsText k) (same : keycodeOf ch = k)
    (named : 97 ≤ ch.toNat ∧ ch.toNat ≤ 122 ∨ 48 ≤ ch.toNat ∧ ch.toNat ≤ 57) : ch = charOf k ∧ ¬ IsDigit k := by
  have low : 4 ≤ k := h.1
  have high : k < 40 := h.2
  rw [keycodeOf, if_neg (by omega), show kcA = 4 from rfl] at same
  have letter : ¬ IsDigit k := Nat.not_le_of_lt (show k < 30 by omega)
  refine ⟨?_, letter⟩
  apply UInt8.toNat_inj.mp
  rw [charOf_toNat h letter]
  omega

/-! ## While there is room -/

/-- The keys kept are the text typed, and the host shows it behind the marker. -/
structure Sync (prior : List Shown) (text : List Nat) (w : World) : Prop where
  on : w.state.inProgress = true
  count : w.state.count = text.length
  codes : ∀ i (lt : i < text.length), w.state.codes i = text[i]
  typed : ∀ k ∈ text, IsText k
  host : w.host = prior ++ .glyph 0x2328 :: text.map .key

section
variable {c : Config} {prior : List Shown} {text : List Nat} {w : World} {keycode : Nat}

theorem sync_start (prior : List Shown) (s : State) : Sync prior [] (World.start prior s) :=
  ⟨rfl, rfl, fun _ lt => absurd lt (Nat.not_lt_zero _), by simp, rfl⟩

theorem press_of {state : State} {sent : List Sent} {passOn : Bool} {used : List Nat}
    (h : processUcis c keycode w.state = ⟨some (state, sent, passOn), used⟩) (inside : ∀ i ∈ used, i < c.maxSymbolLength) :
    w.press c keycode =
      some ⟨if passOn then Sent.apply (sent.foldl Sent.apply w.host) (.tap keycode) else sent.foldl Sent.apply w.host,
        state⟩ := by
  simp only [World.press, h]
  rw [if_pos inside]
  rfl

/-- Keeping a key puts it behind the text. -/
theorem Sync.keep (h : Sync prior text w) (short : text.length < 255) (keycode : Nat) :
    (w.state.keep keycode).count = text.length + 1 ∧
      (∀ i (lt : i < text.length), (w.state.keep keycode).codes i = text[i]) ∧
      (w.state.keep keycode).codes text.length = keycode := by
  refine ⟨?_, ?_, ?_⟩
  · rw [State.keep]
    dsimp only
    rw [h.count, Nat.mod_eq_of_lt (by omega)]
  · intro i lt
    rw [State.keep]
    dsimp only
    rw [Function.update_of_ne (by rw [h.count]; omega), h.codes i lt]
  · rw [State.keep]
    dsimp only
    rw [h.count, Function.update_self]

theorem Sync.press_text (h : Sync prior text w) (room : text.length < c.maxSymbolLength) (short : text.length < 255)
    (typed : IsText keycode) : ∃ w', w.press c keycode = some w' ∧ Sync prior (edit text keycode) w' := by
  obtain ⟨count, codes, last⟩ := h.keep short keycode
  rw [edit, if_neg typed.ne_backspace]
  refine ⟨_, press_of (press_plain h.on (h.count ▸ room) typed.not_special) (by simpa [h.count] using room), ?_⟩
  constructor
  · exact h.on
  · dsimp only
    rw [count, List.length_append, List.length_singleton]
  · intro i lt
    dsimp only
    rcases Nat.lt_or_ge i text.length with less | last'
    · rw [codes i less, List.getElem_append_left less]
    · obtain rfl : i = text.length := by
        rw [List.length_append, List.length_singleton] at lt
        omega
      rw [last, List.getElem_concat_length rfl]
  · intro k mem
    rcases List.mem_append.mp mem with mem | mem
    · exact h.typed k mem
    · exact List.mem_singleton.mp mem ▸ typed
  · simp [Sent.apply, typed.ne_backspace, h.host]

theorem Sync.press_backspace (h : Sync prior text w) (room : text.length < c.maxSymbolLength) (short : text.length < 255) :
    ∃ w', w.press c kcBackspace = some w' ∧ Sync prior (edit text kcBackspace) w' := by
  obtain ⟨count, codes, -⟩ := h.keep short kcBackspace
  have inside : ∀ i ∈ [w.state.count], i < c.maxSymbolLength := by simpa [h.count] using room
  have press := Ucis.press_backspace (c := c) h.on
  rw [edit, if_pos rfl]
  cases text using List.reverseRecOn with
  | nil =>
    rw [count, if_neg (by decide)] at press
    exact ⟨_, press_of press inside, h.on, rfl, fun _ lt => absurd lt (Nat.not_lt_zero _), by simp, by simpa using h.host⟩
  | append_singleton text k =>
    rw [List.length_append, List.length_singleton] at count
    rw [count, if_pos (by omega)] at press
    rw [List.dropLast_concat]
    refine ⟨_, press_of press inside, h.on, by simp, ?_, fun k mem => h.typed k (List.mem_append_left _ mem), ?_⟩
    · intro i lt
      dsimp only
      rw [codes i (by rw [List.length_append]; omega), List.getElem_append_left lt]
    · simp only [List.foldl_nil, if_true, Sent.apply, h.host, List.map_append, List.map_singleton]
      rw [← List.cons_append, ← List.append_assoc, List.dropLast_concat]

/-! ## The closing key -/

/-- The text behind which the closing key has been kept -/
structure Closed (text : List Nat) (s : State) : Prop where
  count : s.count = text.length + 1
  codes : ∀ i (lt : i < text.length), s.codes i = text[i]
  closing : s.codes text.length = kcSpace ∨ s.codes text.length = kcEnter
  short : text.length < 255
  typed : ∀ k ∈ text, IsText k

/-- The entry's name is the text as the comparison takes it: a digit is never equal. -/
def Symbol.Matches (text : List Nat) (entry : Symbol) : Bool := entry.Names text ∧ ∀ k ∈ text, ¬ kc1 ≤ k

variable {s : State} {seq : List UInt8}

/-- From an index on, the name is the text, and there is no digit. -/
def SameFrom (text : List Nat) (seq : List UInt8) (i : Nat) : Prop :=
  seq.drop i = (text.drop i).map charOf ∧ ∀ k ∈ text.drop i, ¬ kc1 ≤ k

theorem Closed.equal_from (h : Closed text s)
    (named : ∀ ch ∈ seq, 97 ≤ ch.toNat ∧ ch.toNat ≤ 122 ∨ 48 ≤ ch.toNat ∧ ch.toNat ≤ 57) (rounds i : Nat)
    (all : i + rounds = 256) (le : i ≤ text.length) :
    ∃ equal, (isUniSeqFrom s seq rounds i).equal = some equal ∧ (equal = true ↔ SameFrom text seq i) := by
  have short := h.short
  induction rounds generalizing i with
  | zero => omega
  | succ rounds ih =>
    rw [isUniSeqFrom]
    cases there : seq[i]? with
    | some ch =>
      obtain ⟨lt, rfl⟩ := List.getElem?_eq_some_iff.mp there
      have named_ch := named seq[i] (List.getElem_mem lt)
      have tail : seq.drop i = seq[i] :: seq.drop (i + 1) := List.drop_eq_getElem_cons lt
      dsimp only
      rw [if_neg (by rw [h.count]; omega)]
      rcases le.lt_or_eq with less | rfl
      · have text_tail : text.drop i = text[i] :: text.drop (i + 1) := List.drop_eq_getElem_cons less
        have typed := h.typed text[i] (List.getElem_mem less)
        rw [h.codes i less, SameFrom, tail, text_tail, List.map_cons, List.cons.injEq, List.forall_mem_cons]
        by_cases same : text[i] = keycodeOf seq[i]
        · obtain ⟨char, letter⟩ := charOf_keycodeOf typed same.symm named_ch
          rw [if_neg (not_not.mpr same), Nat.mod_eq_of_lt (by omega)]
          obtain ⟨equal, found, later⟩ := ih (i + 1) (by omega) less
          refine ⟨equal, found, later.trans ?_⟩
          rw [and_iff_right char, and_iff_right (show ¬ kc1 ≤ text[i] from letter)]
          rfl
        · rw [if_pos same]
          refine ⟨false, rfl, iff_of_false Bool.false_ne_true ?_⟩
          rintro ⟨⟨char, -⟩, letter, -⟩
          exact same (by rw [char, keycodeOf_charOf typed letter])
      · refine ⟨false, ?_, iff_of_false Bool.false_ne_true ?_⟩
        · rw [if_pos]
          intro same
          have closing := h.closing
          rw [same, keycodeOf, if_neg (by omega), show kcA = 4 from rfl, show kcSpace = 44 from rfl,
            show kcEnter = 40 from rfl] at closing
          omega
        · rintro ⟨drop, -⟩
          rw [tail, List.drop_length] at drop
          cases drop
    | none =>
      have length := List.getElem?_eq_none_iff.mp there
      refine ⟨_, rfl, ?_⟩
      rw [decide_eq_true_eq, SameFrom, List.drop_eq_nil_of_le length]
      rcases le.lt_or_eq with less | rfl
      · have typed : text[i] < 40 := (h.typed text[i] (List.getElem_mem less)).2
        rw [h.codes i less, List.drop_eq_getElem_cons less]
        refine iff_of_false ?_ ?_
        · rw [show kcEnter = 40 from rfl, show kcSpace = 44 from rfl]
          omega
        · rintro ⟨drop, -⟩
          cases drop
      · refine iff_of_true h.closing.symm ?_
        rw [List.drop_length]
        exact ⟨rfl, fun k mem => absurd mem List.not_mem_nil⟩

theorem Closed.equal (h : Closed text s) {entry : Symbol}
    (named : ∀ ch ∈ entry.symbol, 97 ≤ ch.toNat ∧ ch.toNat ≤ 122 ∨ 48 ≤ ch.toNat ∧ ch.toNat ≤ 57) :
    (isUniSeq s entry.symbol).equal = some (entry.Matches text) := by
  obtain ⟨equal, found, same⟩ := h.equal_from named 256 0 rfl (Nat.zero_le _)
  rw [isUniSeq, found, Option.some.injEq, Bool.eq_iff_iff, same]
  simp [Symbol.Matches, Symbol.Names, SameFrom]

theorem searchFrom_found {table : List Symbol} {p : Symbol → Bool}
    (equal : ∀ entry ∈ table, (isUniSeq s entry.symbol).equal = some (p entry)) (rounds i : Nat) (all : i + rounds = 256)
    (le : i ≤ table.length) :
    (searchFrom table s rounds i).found =
      if (table.drop i).findIdx p < rounds then
        some (if (table.drop i).findIdx p < (table.drop i).length then some (i + (table.drop i).findIdx p) else none)
      else none := by
  induction rounds generalizing i with
  | zero => rfl
  | succ rounds ih =>
    rw [searchFrom]
    cases there : table[i]? with
    | none =>
      rw [List.drop_eq_nil_of_le (List.getElem?_eq_none_iff.mp there)]
      rfl
    | some entry =>
      obtain ⟨lt, rfl⟩ := List.getElem?_eq_some_iff.mp there
      have first : (table.drop i).findIdx p = bif p table[i] then 0 else (table.drop (i + 1)).findIdx p + 1 := by
        rw [List.drop_eq_getElem_cons lt, List.findIdx_cons]
      have length : (table.drop i).length = (table.drop (i + 1)).length + 1 := by
        rw [List.drop_eq_getElem_cons lt, List.length_cons]
      dsimp only
      rw [equal _ (List.getElem_mem lt), length]
      cases same : p table[i] with
      | true =>
        rw [same, cond_true] at first
        rw [first, if_pos rounds.succ_pos, if_pos (Nat.succ_pos _)]
        rfl
      | false =>
        rw [same, cond_false] at first
        dsimp only
        rw [first]
        rcases Nat.lt_or_ge (i + 1) 256 with more | last
        · rw [Nat.mod_eq_of_lt more, ih (i + 1) (by omega) lt]
          simp only [Nat.add_lt_add_iff_right, Nat.add_assoc, Nat.add_comm 1]
        · obtain rfl : rounds = 0 := by omega
          rw [if_neg (by omega)]
          rfl

/-- What looking up shows in place of the marker and the text, where the search ends. -/
def looked (c : Config) (text : List Nat) : List Shown :=
  match c.symbolTable.find? (Symbol.Matches text) with
  | some entry => ((entry.codePoints.take c.maxCodePoints).takeWhile (· ≠ 0)).map .glyph
  | none => text.map .key

/-- The closing key, pressed while there is room for it. -/
theorem Sync.press_closing (h : Sync prior text w) (named : Named c) (room : text.length < c.maxSymbolLength)
    (short : text.length < 255) (closing : keycode = kcSpace ∨ keycode = kcEnter) :
    if c.symbolTable.findIdx (Symbol.Matches text) ≤ 255 then
      ∃ w', w.press c keycode = some w' ∧ w'.host = prior ++ looked c text
    else w.press c keycode = none := by
  obtain ⟨count, codes, last⟩ := h.keep short keycode
  have closed : Closed text (w.state.keep keycode) := ⟨count, codes, by rw [last]; exact closing, short, h.typed⟩
  have found := searchFrom_found (fun entry mem => closed.equal (named entry mem).2) 256 0 rfl (Nat.zero_le _)
  have inside : ∀ i ∈ (processUcis c keycode w.state).used, i < c.maxSymbolLength := by
    rw [used_lookup_iff h.on closing (h.count ▸ room), searched_lt_iff]
    rintro k entry there - ⟨-, -, length, -⟩
    exact absurd (named entry (List.mem_of_getElem? there)).1 (Nat.not_lt.mpr length)
  have press := press_lookup (c := c) h.on closing
  have erased : (List.replicate (w.state.keep keycode).count (Sent.tap kcBackspace)).foldl Sent.apply w.host = prior := by
    have := erase_all prior (.glyph 0x2328 :: text.map .key)
    rwa [List.length_cons, List.length_map, ← count, ← h.host] at this
  have fallback : symbolFallback (w.state.keep keycode) = text.map .tap := by
    rw [symbolFallback, count, Nat.add_sub_cancel]
    apply List.ext_getElem
    · simp
    · intro i lt lt'
      have lt : i < text.length := by simpa using lt'
      have := (h.typed text[i] (List.getElem_mem lt)).2
      rw [show kcEnter = 40 from rfl] at this
      simp only [List.getElem_map, List.getElem_range, codes i lt]
      rw [Nat.mod_eq_of_lt (by omega)]
  rw [List.drop_zero] at found
  split
  · rename_i near
    rw [if_pos (Nat.lt_succ_of_le near)] at found
    have entry : c.symbolTable[c.symbolTable.findIdx (Symbol.Matches text)]? = c.symbolTable.find? (Symbol.Matches text) :=
      List.find?_eq_getElem?_findIdx.symm
    by_cases there : c.symbolTable.findIdx (Symbol.Matches text) < c.symbolTable.length
    · rw [if_pos there, Nat.zero_add] at found
      rw [found] at press
      refine ⟨_, press_of press (by rwa [press] at inside), ?_⟩
      obtain ⟨symbol, symbol_eq⟩ : ∃ symbol, c.symbolTable.find? (Symbol.Matches text) = some symbol := by
        rw [← entry]
        exact ⟨_, List.getElem?_eq_getElem there⟩
      simp only [Bool.false_eq_true, if_false, List.foldl_append, erased, entry, symbol_eq, Option.map_some,
        Option.getD_some, registerUcis, looked]
      exact type_glyphs _ _
    · rw [if_neg there] at found
      rw [found] at press
      refine ⟨_, press_of press (by rwa [press] at inside), ?_⟩
      have none_eq : c.symbolTable.find? (Symbol.Matches text) = none := by
        rw [← entry]
        exact List.getElem?_eq_none_iff.mpr (Nat.not_lt.mp there)
      simp only [Bool.false_eq_true, if_false, List.foldl_append, erased, none_eq, fallback, looked]
      exact type_keys _ fun k mem => (h.typed k mem).ne_backspace
  · rename_i far
    rw [if_neg (by omega)] at found
    rw [found] at press
    rw [World.press, if_pos inside, press]
    rfl

/-! ## When the room has run out -/

/-- What may be pressed before the closing key -/
def Typing (keycode : Nat) : Prop := IsText keycode ∨ keycode = kcBackspace

/-- The buffer is full: letters are dropped, and whatever ends that is kept outside the array. -/
structure Full (c : Config) (w : World) : Prop where
  on : w.state.inProgress = true
  count : w.state.count = c.maxSymbolLength

theorem Full.press_special (h : Full c w) (special : isSpecial keycode = true) : w.press c keycode = none := by
  have mem : w.state.count ∈ (processUcis c keycode w.state).used := by
    rcases isSpecial_cases special with rfl | rfl | closing
    · rw [press_backspace h.on]
      split <;> exact List.mem_singleton_self _
    · rw [press_escape h.on]
      exact List.mem_singleton_self _
    · rw [press_lookup h.on closing]
      split <;> exact List.mem_cons_self
  rw [World.press, if_neg]
  intro inside
  exact absurd (inside _ mem) (h.count ▸ Nat.lt_irrefl _)

theorem Full.run (h : Full c w) {presses : List Nat} (typing : ∀ k ∈ presses, Typing k)
    (closing : keycode = kcSpace ∨ keycode = kcEnter) : (presses ++ [keycode]).foldlM (World.press c) w = none := by
  induction presses generalizing w with
  | nil =>
    rw [List.nil_append, List.foldlM_cons, h.press_special (by rcases closing with rfl | rfl <;> decide)]
    rfl
  | cons k presses ih =>
    rw [List.cons_append, List.foldlM_cons]
    rcases typing k List.mem_cons_self with typed | rfl
    · rw [press_of (press_full h.on h.count.ge typed.not_special) (by simp)]
      exact ih ⟨h.on, h.count⟩ fun k mem => typing k (List.mem_cons_of_mem _ mem)
    · rw [h.press_special (by decide)]
      rfl

/-- More has been typed than `count`, a `uint8_t`, can say. -/
structure Lost (prior : List Shown) (w : World) : Prop where
  on : w.state.inProgress = true
  small : w.state.count < 256
  codes : ∀ i < w.state.count, IsText (w.state.codes i)
  host : ∃ shown : List Nat, w.host = prior ++ .glyph 0x2328 :: shown.map .key ∧
    (w.state.count = 255 ∧ 255 ≤ shown.length ∨ w.state.count + 256 ≤ shown.length)

theorem Lost.press_text (h : Lost prior w) (large : 256 ≤ c.maxSymbolLength) (typed : IsText keycode) :
    ∃ w', w.press c keycode = some w' ∧ Lost prior w' := by
  obtain ⟨on, small, codes, shown, host, behind⟩ := h
  refine ⟨_, press_of (press_plain on (by omega) typed.not_special) (by simp; omega), ?_⟩
  have count : (w.state.keep keycode).count = (w.state.count + 1) % 256 := rfl
  constructor
  · exact on
  · exact Nat.mod_lt _ (by decide)
  · intro i lt
    dsimp only at lt ⊢
    rw [count] at lt
    rw [State.keep]
    dsimp only
    rcases eq_or_ne i w.state.count with rfl | other
    · rwa [Function.update_self]
    · rw [Function.update_of_ne other]
      exact codes i (by omega)
  · refine ⟨shown ++ [keycode], ?_, ?_⟩
    · simp [Sent.apply, typed.ne_backspace, host]
    · dsimp only
      rw [count, List.length_append, List.length_singleton]
      omega

theorem Lost.press_backspace (h : Lost prior w) (large : 256 ≤ c.maxSymbolLength) :
    ∃ w', w.press c kcBackspace = some w' ∧ Lost prior w' := by
  obtain ⟨on, small, codes, shown, host, behind⟩ := h
  have inside : ∀ i ∈ [w.state.count], i < c.maxSymbolLength := by simp; omega
  have count : (w.state.keep kcBackspace).count = (w.state.count + 1) % 256 := rfl
  have kept : ∀ i < w.state.count, IsText ((w.state.keep kcBackspace).codes i) := by
    intro i lt
    rw [State.keep]
    dsimp only
    rw [Function.update_of_ne lt.ne]
    exact codes i lt
  have press := Ucis.press_backspace (c := c) on
  split at press
  · rename_i two
    refine ⟨_, press_of press inside, ?_⟩
    constructor
    · exact on
    · dsimp only
      omega
    · intro i lt
      dsimp only at lt ⊢
      exact kept i (by omega)
    · refine ⟨shown.dropLast, ?_, ?_⟩
      · have some_shown : shown ≠ [] := by
          rintro rfl
          simp at behind
        simp only [List.foldl_nil, if_true, Sent.apply, host]
        rw [List.dropLast_append_of_ne_nil (List.cons_ne_nil _ _), List.dropLast_cons_of_ne_nil (by simpa using some_shown),
          List.map_dropLast]
      · dsimp only
        rw [List.length_dropLast]
        omega
  · rename_i one
    refine ⟨_, press_of press inside, ?_⟩
    constructor
    · exact on
    · exact Nat.mod_lt _ (by decide)
    · intro i lt
      dsimp only at lt ⊢
      exact kept i (by omega)
    · refine ⟨shown, host, ?_⟩
      dsimp only
      omega

/-- The closing key then leaves the marker and keys behind it. -/
theorem Lost.press_closing (h : Lost prior w) (closing : keycode = kcSpace ∨ keycode = kcEnter) {w' : World}
    (press : w.press c keycode = some w') : ∃ k rest, w'.host = prior ++ .glyph 0x2328 :: .key k :: rest := by
  obtain ⟨on, small, codes, shown, host, behind⟩ := h
  have count : (w.state.keep keycode).count = (w.state.count + 1) % 256 := rfl
  have erased : (List.replicate (w.state.keep keycode).count (Sent.tap kcBackspace)).foldl Sent.apply w.host =
      prior ++ .glyph 0x2328 :: (shown.take (shown.length - (w.state.keep keycode).count)).map .key := by
    have := erase_all (prior ++ .glyph 0x2328 :: (shown.take (shown.length - (w.state.keep keycode).count)).map .key)
      ((shown.drop (shown.length - (w.state.keep keycode).count)).map .key)
    rw [List.length_map, List.length_drop, Nat.sub_sub_self (by rw [count]; omega), List.append_assoc, List.cons_append,
      ← List.map_append, List.take_append_drop, ← host] at this
    exact this
  obtain ⟨k, more, left⟩ : ∃ k more, shown.take (shown.length - (w.state.keep keycode).count) = k :: more := by
    apply List.exists_cons_of_ne_nil
    intro none
    have := congrArg List.length none
    rw [List.length_take, List.length_nil, count] at this
    omega
  rw [left] at erased
  rw [World.press] at press
  simp only [Option.ite_none_right_eq_some] at press
  obtain ⟨-, done⟩ := press
  rw [press_lookup on closing] at done
  split at done
  · cases done
  · rename_i i found
    obtain rfl := Option.some.inj done
    simp only [Bool.false_eq_true, if_false, List.foldl_append, erased]
    cases c.symbolTable[i]? with
    | none => exact ⟨k, _, rfl⟩
    | some entry =>
      simp only [Option.map_some, Option.getD_some, registerUcis]
      rw [type_glyphs]
      exact ⟨k, more.map .key ++ _, by rw [List.append_assoc]; rfl⟩
  · obtain rfl := Option.some.inj done
    simp only [Bool.false_eq_true, if_false, List.foldl_append, erased]
    have keys : symbolFallback (w.state.keep keycode) =
        ((List.range ((w.state.keep keycode).count - 1)).map fun i => (w.state.keep keycode).codes i % 256).map .tap := by
      rw [symbolFallback, List.map_map]
      rfl
    rw [keys, type_keys]
    · exact ⟨k, more.map .key ++ _, by rw [List.append_assoc]; rfl⟩
    · intro x mem
      obtain ⟨i, lt, rfl⟩ := List.mem_map.mp mem
      have lt := List.mem_range.mp lt
      rw [count] at lt
      rw [State.keep]
      dsimp only
      rw [Function.update_of_ne (by omega)]
      have := (codes i (by omega)).2
      rw [show kcEnter = 40 from rfl] at this
      rw [show kcBackspace = 42 from rfl]
      omega

theorem Lost.run (h : Lost prior w) (large : 256 ≤ c.maxSymbolLength) {presses : List Nat}
    (typing : ∀ k ∈ presses, Typing k) (closing : keycode = kcSpace ∨ keycode = kcEnter) {w' : World}
    (run : (presses ++ [keycode]).foldlM (World.press c) w = some w') :
    ∃ k rest, w'.host = prior ++ .glyph 0x2328 :: .key k :: rest := by
  induction presses generalizing w with
  | nil =>
    rw [List.nil_append, List.foldlM_cons] at run
    obtain ⟨w'', press, same⟩ := Option.bind_eq_some_iff.mp run
    obtain rfl : w'' = w' := by simpa using same
    exact h.press_closing closing press
  | cons k presses ih =>
    rw [List.cons_append, List.foldlM_cons] at run
    have rest := fun k mem => typing k (List.mem_cons_of_mem _ mem)
    rcases typing k List.mem_cons_self with typed | rfl
    · obtain ⟨next, press, lost⟩ := h.press_text large typed
      rw [press] at run
      exact ih lost rest run
    · obtain ⟨next, press, lost⟩ := h.press_backspace large
      rw [press] at run
      exact ih lost rest run

/-- No text to be shown begins with the marker and a key. -/
theorem expected_ne_lost (c : Config) (prior : List Shown) (text : List Nat) (k : Nat) (rest : List Shown) :
    prior ++ .glyph 0x2328 :: .key k :: rest ≠ prior ++ expected c text := by
  intro same
  have same := List.append_cancel_left same
  rw [expected] at same
  split at same
  · have key : Shown.key k ∈ Shown.glyph 0x2328 :: Shown.key k :: rest := by simp
    rw [same] at key
    obtain ⟨codePoint, -, wrong⟩ := List.mem_map.mp key
    cases wrong
  · have glyph : Shown.glyph 0x2328 ∈ Shown.glyph 0x2328 :: Shown.key k :: rest := by simp
    rw [same] at glyph
    obtain ⟨keycode, -, wrong⟩ := List.mem_map.mp glyph
    cases wrong

/-! ## The whole input -/

/-- No more was ever typed than is kept: after every press fewer keys than the buffer holds, and fewer
than a `uint8_t` can count with the closing key. -/
def NeverFull (c : Config) (presses : List Nat) : Prop :=
  ∀ p, p <+: presses → (net p).length < c.maxSymbolLength ∧ (net p).length < 255

/-- The text typed is looked up right: the first entry of its name, or the end of the table, is among
the first 256, and the name has no digit if it is in the table. -/
def LooksUp (c : Config) (text : List Nat) : Prop :=
  c.symbolTable.findIdx (Symbol.Names text) ≤ 255 ∧
    ((∃ k ∈ text, kc1 ≤ k) → ∀ entry ∈ c.symbolTable, ¬ entry.Names text)

theorem matches_eq (letters : ∀ k ∈ text, ¬ kc1 ≤ k) : Symbol.Matches text = Symbol.Names text := by
  funext entry
  simp only [Symbol.Matches, Bool.decide_and, Bool.decide_eq_true]
  rw [decide_eq_true letters, Bool.and_true]

theorem matches_digit (digit : ∃ k ∈ text, kc1 ≤ k) (entry : Symbol) : entry.Matches text = false := by
  obtain ⟨k, mem, high⟩ := digit
  rw [Symbol.Matches, decide_eq_false_iff_not]
  rintro ⟨-, letters⟩
  exact letters k mem high

/-- What looking up shows is what is expected, exactly when the text is looked up right. -/
theorem looksUp_iff : (c.symbolTable.findIdx (Symbol.Matches text) ≤ 255 ∧ looked c text = expected c text) ↔
    LooksUp c text := by
  by_cases digit : ∃ k ∈ text, kc1 ≤ k
  · have never : c.symbolTable.find? (Symbol.Matches text) = none := by
      rw [List.find?_eq_none]
      intro entry _
      rw [matches_digit digit]
      exact Bool.false_ne_true
    have whole : c.symbolTable.findIdx (Symbol.Matches text) = c.symbolTable.length := by
      rw [List.findIdx_eq_length]
      exact fun entry _ => matches_digit digit entry
    have kept : looked c text = text.map .key := by rw [looked, never]
    rw [LooksUp, imp_iff_right digit, whole, kept]
    by_cases named : ∃ entry ∈ c.symbolTable, entry.Names text
    · obtain ⟨entry, there, name⟩ := named
      refine iff_of_false ?_ ?_
      · rintro ⟨-, same⟩
        rw [expected] at same
        obtain ⟨k, mem, -⟩ := digit
        split at same
        · have key : Shown.key k ∈ text.map Shown.key := List.mem_map_of_mem mem
          rw [same] at key
          obtain ⟨codePoint, -, wrong⟩ := List.mem_map.mp key
          cases wrong
        · rename_i none
          exact List.find?_eq_none.mp none entry there name
      · rintro ⟨-, other⟩
        exact other entry there name
    · have other : ∀ entry ∈ c.symbolTable, ¬ entry.Names text := fun entry mem name => named ⟨entry, mem, name⟩
      have none : c.symbolTable.find? (Symbol.Names text) = none := List.find?_eq_none.mpr other
      have last : c.symbolTable.findIdx (Symbol.Names text) = c.symbolTable.length := by
        rw [List.findIdx_eq_length]
        exact fun entry mem => Bool.eq_false_of_not_eq_true (other entry mem)
      rw [expected, none, last, and_iff_left other, and_iff_left rfl]
  · have letters : ∀ k ∈ text, ¬ kc1 ≤ k := fun k mem high => digit ⟨k, mem, high⟩
    rw [LooksUp, matches_eq letters, looked, matches_eq letters, and_iff_left (fun h => absurd h digit)]
    exact and_iff_left rfl

/-- Nothing is what it should be once the room has run out. -/
theorem Sync.run_full (h : Sync prior text w) {presses : List Nat} (typing : ∀ k ∈ presses, Typing k)
    (closing : keycode = kcSpace ∨ keycode = kcEnter) (fits : text.length ≤ c.maxSymbolLength) (counted : text.length ≤ 255)
    (full : ¬ (text.length < c.maxSymbolLength ∧ text.length < 255)) (final : List Nat) :
    ¬ ∃ w', (presses ++ [keycode]).foldlM (World.press c) w = some w' ∧ w'.host = prior ++ expected c final := by
  rintro ⟨w', run, host⟩
  rcases fits.lt_or_eq with room | same
  · have last : text.length = 255 := by omega
    have lost : Lost prior w := by
      refine ⟨h.on, by rw [h.count]; omega, ?_, text, h.host, Or.inl ⟨by rw [h.count, last], by omega⟩⟩
      intro i lt
      rw [h.count] at lt
      rw [h.codes i lt]
      exact h.typed _ (List.getElem_mem lt)
    obtain ⟨k, rest, behind⟩ := lost.run (by omega) typing closing run
    exact expected_ne_lost c prior final k rest (behind ▸ host)
  · have full : Full c w := ⟨h.on, h.count.trans same⟩
    rw [full.run typing closing] at run
    cases run

/-- The input from some text on. -/
theorem Sync.run_iff (h : Sync prior text w) (named : Named c) {presses : List Nat} (typing : ∀ k ∈ presses, Typing k)
    (closing : keycode = kcSpace ∨ keycode = kcEnter) (fits : text.length ≤ c.maxSymbolLength)
    (counted : text.length ≤ 255) :
    (∃ w', (presses ++ [keycode]).foldlM (World.press c) w = some w' ∧
      w'.host = prior ++ expected c (presses.foldl edit text)) ↔
      (∀ p, p <+: presses → (p.foldl edit text).length < c.maxSymbolLength ∧ (p.foldl edit text).length < 255) ∧
        LooksUp c (presses.foldl edit text) := by
  by_cases roomy : text.length < c.maxSymbolLength ∧ text.length < 255
  · obtain ⟨room, short⟩ := roomy
    induction presses generalizing text w with
    | nil =>
      have all : (∀ p : List Nat, p <+: [] → (p.foldl edit text).length < c.maxSymbolLength ∧
          (p.foldl edit text).length < 255) := by
        intro p le
        rw [List.prefix_nil.mp le]
        exact ⟨room, short⟩
      have press := h.press_closing named room short closing
      rw [and_iff_right all, List.foldl_nil, ← looksUp_iff, List.nil_append]
      split at press
      · rename_i near
        obtain ⟨w', press, host⟩ := press
        rw [and_iff_right near, List.foldlM_cons, press]
        constructor
        · rintro ⟨last, same, host'⟩
          obtain rfl : w' = last := by simpa using same
          exact List.append_cancel_left (host.symm.trans host')
        · intro same
          exact ⟨w', rfl, by rw [host, same]⟩
      · rename_i far
        rw [List.foldlM_cons, press]
        refine iff_of_false ?_ fun ⟨near, _⟩ => far near
        rintro ⟨w', wrong, -⟩
        cases wrong
    | cons k presses ih =>
      obtain ⟨next, press, sync⟩ : ∃ next, w.press c k = some next ∧ Sync prior (edit text k) next := by
        rcases typing k List.mem_cons_self with typed | rfl
        · exact h.press_text room short typed
        · exact h.press_backspace room short
      have length : (edit text k).length ≤ text.length + 1 := by
        rw [edit]
        split
        · rw [List.length_dropLast]
          omega
        · rw [List.length_append, List.length_singleton]
      have rest := fun k mem => typing k (List.mem_cons_of_mem _ mem)
      have prefixes : (∀ p, p <+: k :: presses → (p.foldl edit text).length < c.maxSymbolLength ∧
          (p.foldl edit text).length < 255) ↔ ∀ p, p <+: presses →
            (p.foldl edit (edit text k)).length < c.maxSymbolLength ∧ (p.foldl edit (edit text k)).length < 255 := by
        constructor
        · intro all p le
          exact all (k :: p) (List.cons_prefix_cons.mpr ⟨rfl, le⟩)
        · intro all p le
          rcases List.prefix_cons_iff.mp le with rfl | ⟨p, rfl, shorter⟩
          · exact ⟨room, short⟩
          · exact all p shorter
      rw [List.cons_append, List.foldlM_cons, press, List.foldl_cons, prefixes]
      by_cases roomy : (edit text k).length < c.maxSymbolLength ∧ (edit text k).length < 255
      · exact ih sync rest (by omega) (by omega) roomy.1 roomy.2
      · refine iff_of_false (sync.run_full rest closing (by omega) (by omega) roomy _) ?_
        rintro ⟨all, -⟩
        exact roomy (all [] (List.nil_prefix))
  · refine iff_of_false (h.run_full typing closing fits counted roomy _) ?_
    rintro ⟨all, -⟩
    exact roomy (all [] List.nil_prefix)

end

/-- The host shows what was there before and, for the text typed, its symbol or the text itself, exactly
when the room never ran out and the text is looked up right. -/
theorem shown_iff (c : Config) (named : Named c) (prior : List Shown) (s : State) {presses : List Nat}
    (typing : ∀ k ∈ presses, Typing k) {closing : Nat} (ends : closing = kcSpace ∨ closing = kcEnter) :
    (∃ w, (presses ++ [closing]).foldlM (World.press c) (World.start prior s) = some w ∧
      w.host = prior ++ expected c (net presses)) ↔ NeverFull c presses ∧ LooksUp c (net presses) :=
  (sync_start prior s).run_iff named typing ends (Nat.zero_le _) (Nat.zero_le _)

/-- A table with the names `ab` and `1` -/
def smallTable : Config := ⟨32, 3, [⟨[97, 98], [0x2260]⟩, ⟨[49], [0x2460]⟩]⟩

theorem smallTable_named : Named smallTable := by
  intro entry mem
  rcases List.mem_cons.mp mem with rfl | mem
  · exact ⟨by decide, by decide +kernel⟩
  · obtain rfl := List.mem_singleton.mp mem
    exact ⟨by decide, by decide +kernel⟩

def idle : State := ⟨0, fun _ => 0, false⟩

/-- The keys A, A, backspace, B and space -/
theorem shown_iff_ab :
    Named smallTable ∧ (∀ k ∈ [0x04, 0x04, kcBackspace, 0x05], Typing k) ∧
      ((∃ w, ([0x04, 0x04, kcBackspace, 0x05] ++ [kcSpace]).foldlM (World.press smallTable) (World.start [] idle) = some w ∧
        w.host = [] ++ expected smallTable (net [0x04, 0x04, kcBackspace, 0x05])) ↔
          NeverFull smallTable [0x04, 0x04, kcBackspace, 0x05] ∧
            LooksUp smallTable (net [0x04, 0x04, kcBackspace, 0x05])) := by
  have typing : ∀ k ∈ [0x04, 0x04, kcBackspace, 0x05], Typing k := by
    unfold Typing IsText
    decide
  exact ⟨smallTable_named, typing, shown_iff smallTable smallTable_named [] idle typing (Or.inl rfl)⟩

/-- The name `1` is in the table, and typing 1 and space types it again. -/
theorem digit_typed_again :
    Named smallTable ∧ Typing 0x1E ∧ expected smallTable (net [0x1E]) = [.glyph 0x2460] ∧
      (([0x1E] ++ [kcSpace]).foldlM (World.press smallTable) (World.start [] idle)).map World.host = some [.key 0x1E] := by
  refine ⟨smallTable_named, ?_, ?_, ?_⟩
  · unfold Typing IsText
    decide
  · decide
  · decide

end QmkFirmware.Unicode.Ucis
