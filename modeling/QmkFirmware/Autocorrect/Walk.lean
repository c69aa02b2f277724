import QmkFirmware.Autocorrect.Code
import QmkFirmware.Autocorrect.Format

/-!
# The walk finds the typos

Over a table of the generator, the walk with the keys of a buffer from its last one on
is the search of the trie: it comes to the leaf of the typo that the buffer ends in,
or to none.
-/

namespace QmkFirmware.Autocorrect
open Lib Audited

/-! ## Flags -/

theorem flags {b : UInt8} (low : b.toNat < 64) :
    b &&& 64 = 0 ∧ b &&& 128 = 0 ∧ (b ||| 64) &&& 64 ≠ 0 ∧ (b ||| 64) &&& 63 = b ∧ (b ||| 64) &&& 128 = 0 ∧
      (b + 128) &&& 128 ≠ 0 ∧ (b + 128) &&& 63 = b := by
  have all : ∀ n : Fin 64, UInt8.ofNat n &&& 64 = 0 ∧ UInt8.ofNat n &&& 128 = 0 ∧ (UInt8.ofNat n ||| 64) &&& 64 ≠ 0 ∧
      (UInt8.ofNat n ||| 64) &&& 63 = UInt8.ofNat n ∧ (UInt8.ofNat n ||| 64) &&& 128 = 0 ∧
      (UInt8.ofNat n + 128) &&& 128 ≠ 0 ∧ (UInt8.ofNat n + 128) &&& 63 = UInt8.ofNat n := by
    decide
  simpa only [UInt8.ofNat_toNat] using all ⟨b.toNat, low⟩

/-- The first byte of a leaf -/
theorem data_eq {e : Entry} (asserted : e.asserted) :
    ∃ b : UInt8, e.data = (b + 128) :: (e.bytes ++ [0]) ∧ b.toNat < 64 ∧ (b.toNat : Int) = e.backspaces := by
  unfold Entry.asserted at asserted
  simp only [decide_eq_true_eq] at asserted
  obtain ⟨nonneg, small, -⟩ := asserted
  have low : e.backspaces.toNat < 64 := by omega
  have toNat : (UInt8.ofNat e.backspaces.toNat).toNat = e.backspaces.toNat := by
    rw [UInt8.toNat_ofNat']
    omega
  refine ⟨UInt8.ofNat e.backspaces.toNat, ?_, by rwa [toNat], ?_⟩
  · rw [Entry.data, List.cons_append]
    congr 1
    rw [← UInt8.toNat_inj, UInt8.toNat_add, UInt8.toNat_ofNat', toNat]
    simp
  · rw [toNat]
    omega

/-! ## Reads -/

section Reads

variable {data : List UInt8} {o : Nat}

theorem lt_of_getElem? {i : Nat} {b : UInt8} (h : data[i]? = some b) : i < data.length :=
  (List.getElem?_eq_some_iff.1 h).1

theorem readData_value {i : Nat} {b : UInt8} (h : data[i]? = some b) : (readData data i).value = b := by
  unfold readData
  rw [value_note, h]
  rfl

@[simp] theorem readData_safe (i : Nat) : (readData data i).Safe (· < data.length) ↔ i < data.length := safe_note _ _

/-- What the code is when the walk comes to a node -/
theorem Laid.first {t : Trie Letter Entry} (h : Laid data t o) : ∃ b, data[o]? = some b ∧
    match t with
    | .node (some _) _ => b &&& 128 ≠ 0
    | .node none _ => b &&& 128 = 0 := by
  cases h with
  | leaf asserted bytes =>
    obtain ⟨b, data, low, -⟩ := data_eq asserted
    rw [data] at bytes
    exact ⟨b + 128, (prefix_drop_cons bytes).1, (flags low).2.2.2.2.2.1⟩
  | last bytes next => exact ⟨_, (prefix_drop_cons bytes).1, (flags (typoChars_range _).2).2.1⟩
  | link more bytes next => exact ⟨_, (prefix_drop_cons bytes).1, (flags (typoChars_range _).2).2.1⟩
  | branch branches =>
    cases branches with
    | cons bytes next more => exact ⟨_, (prefix_drop_cons bytes).1, (flags (typoChars_range _).2).2.2.2.2.1⟩

theorem Laid.lt {t : Trie Letter Entry} (h : Laid data t o) : o < data.length :=
  lt_of_getElem? h.first.choose_spec.1

end Reads

/-! ## One node -/

section Turn

variable {data : List UInt8} {o : Nat}

/-- The code at the branches, without its flag -/
def headCode : Forest Letter Entry → UInt8
  | .nil => 0
  | .cons c _ _ => typoChars c

theorem LaidChildren.headCode {children : Forest Letter Entry} (h : LaidChildren data 0 children o) :
    data[o]? = some (headCode children) := by
  cases h with
  | nil bytes => exact (prefix_drop_cons bytes).1
  | cons bytes next more =>
    rw [UInt8.or_zero] at bytes
    exact (prefix_drop_cons bytes).1

theorem LaidChildren.fits {flag : UInt8} : ∀ {children : Forest Letter Entry} {o : Nat},
    LaidChildren data flag children o → o + 3 * children.letters.length < data.length
  | .nil, o, .nil bytes => lt_of_getElem? (prefix_drop_cons bytes).1
  | .cons c child children, o, .cons bytes next more => by
    have behind := LaidChildren.fits more
    rw [Forest.letters, List.length_cons]
    omega

/-- A link is read back. -/
theorem encodeLink_read {link : Nat} (small : link < 65536) (bytes : encodeLink link <+: data.drop o) :
    ∃ low high : UInt8, data[o]? = some low ∧ data[o + 1]? = some high ∧ low.toNat + high.toNat * 256 = link := by
  obtain ⟨low, later⟩ := prefix_drop_cons bytes
  refine ⟨UInt8.ofNat (link % 256), UInt8.ofNat (link / 256), low, (prefix_drop_cons later).1, ?_⟩
  rw [UInt8.toNat_ofNat', UInt8.toNat_ofNat']
  omega

/-- The loop over the branches finds the one of the letter. -/
theorem findBranch_spec (size : data.length ≤ 0xFFFF) (k : Letter) {flag : UInt8} :
    ∀ {children : Forest Letter Entry} {o fuel : Nat}, LaidChildren data flag children o →
      children.letters.length < fuel →
      (findBranch data (typoChars k) fuel o (headCode children)).Safe (· < data.length) ∧
      match children.find k with
      | some child => ∃ o' link, (findBranch data (typoChars k) fuel o (headCode children)).value = .reached o' ∧
          encodeLink link <+: data.drop (o' + 1) ∧ Laid data child link
      | none => (findBranch data (typoChars k) fuel o (headCode children)).value = .noMatch
  | children, o, 0, _, enough => absurd enough (Nat.not_lt_zero _)
  | .nil, o, fuel + 1, laid, _ => by
    rw [findBranch, headCode, if_neg (typoChars_ne_zero k).symm, if_pos rfl]
    exact ⟨safe_pure _, rfl⟩
  | .cons c child children, o, fuel + 1, .cons bytes next more, enough => by
    rw [findBranch, headCode, Forest.find]
    by_cases same : k = c
    · subst same
      rw [if_pos rfl, if_pos rfl]
      exact ⟨safe_pure _, o, _, rfl, (prefix_drop_cons bytes).2, next⟩
    · have other : typoChars c ≠ typoChars k := fun eq => same (typoChars_inj eq).symm
      have inside := more.fits
      have read := more.headCode
      have small : (o + 3) % 65536 = o + 3 := Nat.mod_eq_of_lt (by omega)
      rw [if_neg other, if_neg (typoChars_ne_zero c), if_neg same, small, safe_bind, value_bind, readData_value read,
        readData_safe]
      have fewer : children.letters.length < fuel := by
        rw [Forest.letters, List.length_cons] at enough
        omega
      obtain ⟨safe, value⟩ := findBranch_spec size k more fewer
      exact ⟨⟨by omega, safe⟩, value⟩

/-- A turn at a letter of a chain -/
theorem turn_chain (size : data.length ≤ 0xFFFF) (k c : Letter) {b : UInt8} (after : data[o + 1]? = some b) :
    (turn data (typoChars k) o (typoChars c)).Safe (· < data.length) ∧
      (turn data (typoChars k) o (typoChars c)).value =
        if k = c then .reached (if b = 0 then o + 2 else o + 1) else .noMatch := by
  have inside := lt_of_getElem? after
  have one : (o + 1) % 65536 = o + 1 := Nat.mod_eq_of_lt (by omega)
  have two : (o + 1 + 1) % 65536 = o + 2 := Nat.mod_eq_of_lt (by omega)
  have low : ¬ typoChars c &&& 64 ≠ 0 := by
    rw [(flags (typoChars_range c).2).1]
    simp
  unfold turn
  rw [if_neg low]
  by_cases same : k = c
  · subst same
    rw [if_neg (not_not.2 rfl), if_pos rfl, one]
    dsimp only
    rw [two, safe_bind, value_bind, readData_value after, readData_safe]
    exact ⟨⟨inside, safe_pure _⟩, rfl⟩
  · rw [if_pos fun eq => same (typoChars_inj eq).symm, if_neg same]
    exact ⟨safe_pure _, rfl⟩

theorem find_single (k c : Letter) (child : Trie Letter Entry) :
    (Forest.cons c child .nil).find k = if k = c then some child else none := by
  rw [Forest.find, Forest.find]

/-- A turn at a chain comes to what follows its letter. -/
theorem turn_single (size : data.length ≤ 0xFFFF) (k : Letter) {c : Letter} {child : Trie Letter Entry} {b : UInt8}
    (after : data[o + 1]? = some b) (next : Laid data child (if b = 0 then o + 2 else o + 1)) :
    (turn data (typoChars k) o (typoChars c)).Safe (· < data.length) ∧
      match (Forest.cons c child .nil).find k with
      | some child => ∃ o', (turn data (typoChars k) o (typoChars c)).value = .reached o' ∧ Laid data child o'
      | none => (turn data (typoChars k) o (typoChars c)).value = .noMatch := by
  obtain ⟨safe, value⟩ := turn_chain size k c after
  refine ⟨safe, ?_⟩
  rw [find_single, value]
  by_cases same : k = c
  · rw [if_pos same, if_pos same]
    exact ⟨_, rfl, next⟩
  · rw [if_neg same, if_neg same]

/-- A turn at branches follows the link of the one that is found. -/
theorem turn_branch (size : data.length ≤ 0xFFFF) (k : Letter) {c : Letter} {child : Trie Letter Entry}
    {children : Forest Letter Entry} {code : UInt8} (branches : LaidChildren data 64 (.cons c child children) o)
    (read : data[o]? = some code) :
    (turn data (typoChars k) o code).Safe (· < data.length) ∧
    match (Forest.cons c child children).find k with
    | some child => ∃ o', (turn data (typoChars k) o code).value = .reached o' ∧ Laid data child o'
    | none => (turn data (typoChars k) o code).value = .noMatch := by
  have inside := branches.fits
  have flagged := flags (typoChars_range c).2
  have same : code = typoChars c ||| 64 := by
    cases branches with
    | cons bytes next more => exact Option.some_inj.1 (read.symm.trans (prefix_drop_cons bytes).1)
  have enough : (Forest.cons c child children).letters.length < data.length + 1 := by omega
  obtain ⟨safe, found⟩ := findBranch_spec size k branches enough
  unfold turn
  rw [same, if_pos flagged.2.2.1, flagged.2.2.2.1, safe_bind, value_bind]
  rw [headCode] at safe found
  cases branch : (Forest.cons c child children).find k with
  | none =>
    rw [branch] at found
    rw [found]
    exact ⟨⟨safe, safe_pure _⟩, rfl⟩
  | some child =>
    rw [branch] at found
    obtain ⟨o', link, reached, bytes, next⟩ := found
    obtain ⟨low, high, readLow, readHigh, same⟩ := encodeLink_read (by have := next.lt; omega) bytes
    rw [reached]
    simp only [safe_bind, value_bind, readData_safe, readData_value readLow, readData_value readHigh]
    refine ⟨⟨safe, lt_of_getElem? readLow, lt_of_getElem? readHigh, safe_pure _⟩, link, ?_, next⟩
    rw [value_pure, same]

/-- **What one turn does**: it comes to the child under the letter. -/
theorem turn_spec (size : data.length ≤ 0xFFFF) (k : Letter) {children : Forest Letter Entry} {code : UInt8}
    (laid : Laid data (.node none children) o) (read : data[o]? = some code) :
    (turn data (typoChars k) o code).Safe (· < data.length) ∧
    match children.find k with
    | some child => ∃ o', (turn data (typoChars k) o code).value = .reached o' ∧ Laid data child o'
    | none => (turn data (typoChars k) o code).value = .noMatch := by
  cases laid with
  | last bytes next =>
    obtain ⟨here, later⟩ := prefix_drop_cons bytes
    cases here.symm.trans read
    exact turn_single size k (prefix_drop_cons later).1 (by rwa [if_pos rfl])
  | link more bytes next =>
    obtain ⟨here, later⟩ := prefix_drop_cons bytes
    cases here.symm.trans read
    exact turn_single size k (prefix_drop_cons later).1 (by rwa [if_neg more])
  | branch branches =>
    exact turn_branch size k branches read

end Turn

/-! ## The whole walk -/

section Whole

variable {data : List UInt8}

/-- **The walk is the search of the trie.** -/
theorem walk_spec (size : data.length ≤ 0xFFFF) {children : Forest Letter Entry} {o : Nat} {code : UInt8}
    (laid : Laid data (.node none children) o) (read : data[o]? = some code) (stream : List Letter) :
    (walk data (stream.map typoChars) o code).Safe (· < data.length) ∧
    match (Trie.node none children).search stream with
    | some e => ∃ o', (walk data (stream.map typoChars) o code).value = .reached o' ∧ e.data <+: data.drop o'
    | none => (walk data (stream.map typoChars) o code).value = .noMatch := by
  induction stream generalizing children o code with
  | nil => exact ⟨safe_pure _, rfl⟩
  | cons k stream ih =>
    rw [List.map_cons, walk, safe_bind, value_bind, Trie.search]
    obtain ⟨safe, found⟩ := turn_spec size k laid read
    cases under : children.find k with
    | none =>
      rw [under] at found
      rw [found]
      exact ⟨⟨safe, safe_pure _⟩, rfl⟩
    | some child =>
      rw [under] at found
      obtain ⟨o', reached, next⟩ := found
      obtain ⟨b, readNext, leaf⟩ := next.first
      rw [reached, Option.bind_some]
      dsimp only
      rw [if_neg (Nat.not_le.2 next.lt), safe_bind, value_bind, readData_value readNext, readData_safe]
      obtain ⟨value, children⟩ := child
      cases value with
      | some e =>
        rw [if_pos leaf, Trie.search]
        refine ⟨⟨safe, next.lt, safe_pure _⟩, o', rfl, ?_⟩
        cases next with
        | leaf asserted bytes => exact bytes
      | none =>
        rw [if_neg (not_not.2 leaf)]
        obtain ⟨safeNext, valueNext⟩ := ih next readNext
        exact ⟨⟨safe, next.lt, safeNext⟩, valueNext⟩

end Whole

/-! ## Dictionaries -/

/-- What `parse_file` has checked -/
structure Accepted (entries : List Entry) : Prop where
  apart : Trie.Apart (fun e : Entry => e.typo.reverse) entries
  nonempty : ∀ e ∈ entries, e.typo ≠ []
  short : ∀ e ∈ entries, e.typo.length ≤ 127

theorem toLetters_map {typo : List Char} {letters : List Letter} (h : toLetters typo = some letters) :
    letters.map Subtype.val = typo := by
  induction typo generalizing letters with
  | nil => cases h; rfl
  | cons c typo ih =>
    unfold toLetters at h ih
    rw [List.mapM_cons] at h
    obtain ⟨letter, valid, h⟩ := Option.bind_eq_some_iff.1 h
    obtain ⟨more, rest, eq⟩ := Option.bind_eq_some_iff.1 h
    cases eq
    split_ifs at valid
    cases valid
    rw [List.map_cons, ih rest]

theorem Accepted.snoc {entries : List Entry} (h : Accepted entries) {e : Entry} (nonempty : e.typo ≠ [])
    (short : e.typo.length ≤ 127) (apart : ∀ other ∈ entries, ¬ e.typo <:+: other.typo ∧ ¬ other.typo <:+: e.typo) :
    Accepted (entries ++ [e]) := by
  refine ⟨List.pairwise_append.2 ⟨h.apart, List.pairwise_singleton _ _, fun other mem last is => ?_⟩, ?_, ?_⟩
  · cases List.mem_singleton.1 is
    rw [List.reverse_prefix, List.reverse_prefix]
    exact ⟨fun suffix => (apart other mem).2 suffix.isInfix, fun suffix => (apart other mem).1 suffix.isInfix⟩
  · exact List.forall_mem_append.2 ⟨h.nonempty, by simpa using nonempty⟩
  · exact List.forall_mem_append.2 ⟨h.short, by simpa using short⟩

theorem accepted_parseFrom {done : List Entry} {lines : List Line} {entries : List Entry} (ok : Accepted done)
    (h : parseFrom done lines = some entries) : Accepted entries := by
  induction lines generalizing done with
  | nil =>
    cases h
    exact ok
  | cons line lines ih =>
    unfold parseFrom at h
    split_ifs at h with duplicate
    · exact ih ok h
    · obtain ⟨typo, letters, h⟩ := Option.bind_eq_some_iff.1 h
      split_ifs at h with overlaps long
      refine ih (ok.snoc ?_ (Nat.not_lt.1 long) fun other mem => ?_) h
      · rintro rfl
        exact line.nonempty (toLetters_map letters).symm
      · rw [← not_or]
        exact fun either => overlaps (List.any_eq_true.2 ⟨other, mem, by simpa using either⟩)

theorem accepted_parseFile {lines : List Line} {entries : List Entry} (h : parseFile lines = some entries) :
    Accepted entries :=
  accepted_parseFrom ⟨List.Pairwise.nil, by simp, by simp⟩ h

/-- What the generator says of its data -/
structure Generated (d : AutocorrectData) : Prop where
  accepted : Accepted d.entries
  laid : Laid d.data (makeTrie d.entries) 0
  size : d.data.length ≤ 0xFFFF
  min : ∀ e ∈ d.entries, d.minLength ≤ e.typo.length
  max : ∀ e ∈ d.entries, e.typo.length ≤ d.maxLength
  positive : 0 < d.maxLength

theorem generated {lines : List Line} {d : AutocorrectData} (h : generateAutocorrectData lines = some d) :
    Generated d := by
  obtain ⟨entries, parsed, h⟩ := Option.bind_eq_some_iff.1 h
  obtain ⟨data, serialized, h⟩ := Option.bind_eq_some_iff.1 h
  obtain ⟨minLength, least, h⟩ := Option.bind_eq_some_iff.1 h
  obtain ⟨maxLength, greatest, h⟩ := Option.bind_eq_some_iff.1 h
  cases h
  have accepted := accepted_parseFile parsed
  obtain ⟨-, min⟩ := List.min?_eq_some_iff.1 least
  obtain ⟨longest, max⟩ := List.max?_eq_some_iff.1 greatest
  obtain ⟨e, mem, rfl⟩ := List.mem_map.1 longest
  obtain ⟨laid, size⟩ := laid_serializeTrie (Trie.live_ofValues (List.ne_nil_of_mem mem)) serialized
  exact
    { accepted := accepted
      laid := laid
      size := size
      min := fun e mem => min _ (List.mem_map_of_mem mem)
      max := fun e mem => max _ (List.mem_map_of_mem mem)
      positive := List.length_pos_of_ne_nil (accepted.nonempty e mem) }

/-! ## The buffer -/

/-- What is in the buffer: letters, `KC_QUOTE`, and `KC_SPC` for a word boundary -/
def Tracked (b : UInt8) : Prop := (kcA ≤ b ∧ b ≤ 0x1D) ∨ b = kcSpc ∨ b = kcQuot

/-- The keys of a typo -/
def Entry.keys (e : Entry) : List UInt8 := e.typo.map typoChars

instance (b : UInt8) : Decidable (Tracked b) := inferInstanceAs (Decidable (_ ∨ _ ∨ _))

theorem tracked_iff (b : UInt8) : Tracked b ↔ ∃ c : Letter, typoChars c = b := by
  constructor
  · rintro (⟨low, high⟩ | rfl | rfl)
    · have low : 4 ≤ b.toNat := low
      have high : b.toNat ≤ 29 := high
      have toNat : (Char.ofNat (b.toNat + 93)).toNat = b.toNat + 93 := by
        unfold Char.ofNat
        rw [dif_pos (Or.inl (by omega))]
        rfl
      refine ⟨⟨Char.ofNat (b.toNat + 93), Or.inr (Or.inr (by omega))⟩, ?_⟩
      rw [← UInt8.toNat_inj, typoChars_toNat, toNat]
      split_ifs <;> omega
    · exact ⟨wordBreak, rfl⟩
    · exact ⟨⟨Char.ofNat 39, by decide⟩, rfl⟩
  · rintro ⟨c, rfl⟩
    have valid := c.2
    unfold IsTypoChar at valid
    have toNat := typoChars_toNat c
    unfold Tracked kcSpc kcQuot
    rw [UInt8.le_iff_toNat_le, UInt8.le_iff_toNat_le, ← UInt8.toNat_inj, ← UInt8.toNat_inj, toNat]
    simp only [kcA, UInt8.reduceToNat]
    split_ifs <;> omega

theorem exists_letters {buffer : List UInt8} (tracked : ∀ b ∈ buffer, Tracked b) :
    ∃ letters : List Letter, letters.map typoChars = buffer := by
  induction buffer with
  | nil => exact ⟨[], rfl⟩
  | cons b buffer ih =>
    rw [List.forall_mem_cons] at tracked
    obtain ⟨c, rfl⟩ := (tracked_iff b).1 tracked.1
    obtain ⟨letters, rfl⟩ := ih tracked.2
    exact ⟨c :: letters, rfl⟩

theorem typoChars_injective : Function.Injective typoChars := fun _ _ h => typoChars_inj h

theorem keys_suffix (e : Entry) (letters : List Letter) :
    e.keys <:+ letters.map typoChars ↔ e.typo.reverse <+: letters.reverse := by
  rw [List.reverse_prefix, Entry.keys]
  exact List.suffix_map_iff_of_injective typoChars_injective

/-- The root of a trie of typos that are not empty has no value. -/
theorem makeTrie_root {entries : List Entry} (accepted : Accepted entries) :
    ∃ children, makeTrie entries = .node none children := by
  have root : (makeTrie entries).get [] = none := by
    unfold makeTrie
    rw [Trie.get_ofValues accepted.apart.distinct, List.find?_eq_none]
    intro e mem
    simpa using accepted.nonempty e mem
  cases shape : makeTrie entries with
  | node value children =>
    rw [shape] at root
    cases root
    exact ⟨children, rfl⟩

/-- A dictionary of two typos, one of them with word breaks -/
def fewLines : List Line :=
  [.make ':' ['t', 'h', 'i', 'e', 'r', ':'] ['t', 'h', 'e', 'i', 'r'],
    .make 'f' ['a', 'l', 'e', 's'] ['f', 'a', 'l', 's', 'e']]

/-- What is generated for it -/
def few : AutocorrectData :=
  { entries := (parseFile fewLines).getD []
    minLength := 5
    maxLength := 7
    data := [108, 7, 0, 22, 19, 0, 0, 21, 8, 12, 11, 23, 44, 0, 131, 101, 105, 114, 0, 8, 15, 4, 9, 0, 129, 115, 101, 0] }

theorem few_generated : generateAutocorrectData fewLines = some few := by decide

section Buffer

variable {buffer : List UInt8}

theorem trackKey_tracked (keycode : UInt16) (mods : UInt8) (tracked : ∀ b ∈ buffer, Tracked b) :
    (∀ code, (trackKey keycode mods buffer).1 = some code → Tracked code) ∧
      ∀ b ∈ (trackKey keycode mods buffer).2, Tracked b := by
  unfold trackKey
  split_ifs with letter boundary enter backspace quote shifted
  · refine ⟨?_, tracked⟩
    rintro code ⟨⟩
    unfold within at letter
    simp only [Bool.and_eq_true, decide_eq_true_eq, UInt16.le_iff_toNat_le] at letter
    have small : keycode.toUInt8.toNat = keycode.toNat := by
      rw [UInt16.toNat_toUInt8]
      have : keycode.toNat ≤ 29 := letter.2
      omega
    refine Or.inl ⟨?_, ?_⟩
    · rw [UInt8.le_iff_toNat_le, small]
      exact letter.1
    · rw [UInt8.le_iff_toNat_le, small]
      exact letter.2
  · exact ⟨fun code is => Option.some_inj.1 is ▸ Or.inr (Or.inl rfl), tracked⟩
  · exact ⟨fun code is => Option.some_inj.1 is ▸ Or.inr (Or.inl rfl), by simp⟩
  · exact ⟨by simp, fun b mem => tracked b (List.mem_of_mem_dropLast mem)⟩
  · exact ⟨fun code is => Option.some_inj.1 is ▸ Or.inr (Or.inl rfl), tracked⟩
  · exact ⟨fun code is => Option.some_inj.1 is ▸ Or.inr (Or.inr rfl), tracked⟩
  · exact ⟨by simp, by simp⟩

theorem appendKey_tracked (maxLength : Nat) {code : UInt8} (key : Tracked code) (tracked : ∀ b ∈ buffer, Tracked b) :
    ∀ b ∈ appendKey maxLength code buffer, Tracked b := by
  unfold appendKey
  refine List.forall_mem_append.2 ⟨?_, by simpa using key⟩
  split_ifs
  · exact fun b mem => tracked b (List.mem_of_mem_drop (List.mem_of_mem_take mem))
  · exact tracked

/-- An event keeps what the buffer may hold. -/
theorem processAutocorrect_tracked (d : AutocorrectData) (keycode : UInt16) (record : Record) (mods : UInt8) {s : State}
    (tracked : ∀ b ∈ s.typoBuffer, Tracked b) :
    ∀ b ∈ (processAutocorrect d keycode record mods s).state.typoBuffer, Tracked b := by
  unfold processAutocorrect
  split_ifs
  · exact tracked
  · simp
  · simp
  · simp
  · exact tracked
  · split
    · split_ifs
      · simp
      · exact tracked
    next keycode mods _ =>
      obtain ⟨key, rest⟩ := trackKey_tracked keycode mods tracked
      split
      next buffer is =>
        rw [is] at rest
        exact rest
      next code buffer is =>
        rw [is] at key rest
        have appended := appendKey_tracked d.maxLength (key code rfl) rest
        unfold applyTypo
        split
        · split_ifs
          · exact List.forall_mem_singleton.2 (Or.inr (Or.inl rfl))
          · simp
        · exact appended

end Buffer

end QmkFirmware.Autocorrect
