import QmkFirmware.Lib.Trie

/-!
# The generator of the autocorrection table

`autocorrect_data.py`: the typos and corrections of a file are checked, put into a trie
by the letters of the typo from the last one on, and serialised.
-/

namespace QmkFirmware.Autocorrect
open Lib

def kcA : UInt8 := 0x04
def kcSpc : UInt8 := 0x2C
def kcQuot : UInt8 := 0x34

/-- The keys of `TYPO_CHARS`: the quote, the word break and the letters `a` to `z` -/
def IsTypoChar (c : Char) : Prop := c.toNat = 39 ∨ c.toNat = 58 ∨ (97 ≤ c.toNat ∧ c.toNat ≤ 122)

instance : DecidablePred IsTypoChar := fun _ => inferInstanceAs (Decidable (_ ∨ _ ∨ _ ∧ _))

abbrev Letter := { c : Char // IsTypoChar c }

theorem isTypoChar_colon : IsTypoChar ':' := by decide

/-- `':'` -/
def wordBreak : Letter := ⟨':', isTypoChar_colon⟩

/-- `TYPO_CHARS` -/
def typoChars (letter : Letter) : UInt8 :=
  if letter.1.toNat = 39 then kcQuot else if letter.1.toNat = 58 then kcSpc
  else UInt8.ofNat (letter.1.toNat - 97) + kcA

/-- A line of the file as `parse_file_lines` gives it: the typo is not empty. -/
structure Line where
  typo : List Char
  correction : List Char
  nonempty : typo ≠ []

/-- The line of a typo that begins with a character -/
def Line.make (c : Char) (typo correction : List Char) : Line := ⟨c :: typo, correction, List.cons_ne_nil c typo⟩

structure Entry where
  typo : List Letter
  correction : List Char
  deriving DecidableEq

/-- The check of the characters of a typo -/
def toLetters (typo : List Char) : Option (List Letter) :=
  typo.mapM fun c => if h : IsTypoChar c then some ⟨c, h⟩ else none

/-- `parse_file` with the autocorrections so far; without a value it exits. -/
def parseFrom (done : List Entry) : List Line → Option (List Entry)
  | [] => some done
  | line :: lines =>
    if done.any fun other => other.typo.map Subtype.val == line.typo then parseFrom done lines
    else do
      let typo ← toLetters line.typo
      if done.any fun other => typo <:+: other.typo ∨ other.typo <:+: typo then none
      else if 127 < typo.length then none
      else parseFrom (done ++ [⟨typo, line.correction⟩]) lines

/-- `parse_file` -/
def parseFile (lines : List Line) : Option (List Entry) := parseFrom [] lines

/-- `make_trie` -/
def makeTrie (entries : List Entry) : Trie Letter Entry := Trie.ofValues (fun entry => entry.typo.reverse) entries

/-! ## `serialize_trie` -/

namespace Entry

/-- `typo.strip(':')` -/
def stripped (e : Entry) : List Letter := (e.typo.dropWhile (· = wordBreak)).rdropWhile (· = wordBreak)

/-- The letters that the typo and the correction begin with alike -/
def alike : List Letter → List Char → Nat
  | letter :: typo, c :: correction => if letter.1 = c then alike typo correction + 1 else 0
  | _, _ => 0

def kept (e : Entry) : Nat := alike e.stripped e.correction

def wordBoundaryEnding (e : Entry) : Bool := e.typo.getLast? = some wordBreak

def backspaces (e : Entry) : Int := e.stripped.length - e.kept - 1 + e.wordBoundaryEnding.toNat

/-- `correction[i:]` -/
def rest (e : Entry) : List Char := e.correction.drop e.kept

/-- The assertion about the backspaces, and that the correction is ASCII -/
def asserted (e : Entry) : Bool := 0 ≤ e.backspaces ∧ e.backspaces ≤ 63 ∧ e.rest.all fun c => c.toNat < 128

/-- `correction[i:]` as bytes -/
def bytes (e : Entry) : List UInt8 := e.rest.map fun c => UInt8.ofNat c.toNat

def data (e : Entry) : List UInt8 := UInt8.ofNat (e.backspaces.toNat + 128) :: e.bytes ++ [0]

end Entry

/-- An entry of `table`; a link is the place in the table. -/
structure TableEntry where
  chars : List Letter
  links : List Nat
  data : List UInt8
  asserted : Bool

def leafEntry (e : Entry) : TableEntry := ⟨[], [], e.data, e.asserted⟩

/-- The entry of a chain, if there is one, before the entry that it leads to -/
def chainEntry (chars : List Letter) (start : Nat) : List TableEntry :=
  if chars = [] then [] else [⟨chars, [start + 1], [], true⟩]

mutual

/-- `traverse`, with the letters of the chain so far: the entries that it appends to a table of `start` entries. The children
of a node are in the order of `sorted`. -/
def traverse (chars : List Letter) : Trie Letter Entry → Nat → List TableEntry
  | .node (some entry) _, start => chainEntry chars start ++ [leafEntry entry]
  | .node none (.cons c child .nil), start => traverse (chars ++ [c]) child start
  | .node none children, start =>
    let below := traverseChildren children (start + (chainEntry chars start).length + 1)
    chainEntry chars start ++ ⟨children.letters, below.1, [], true⟩ :: below.2

/-- The links of a node with more children, and the entries below it -/
def traverseChildren : Forest Letter Entry → Nat → List Nat × List TableEntry
  | .nil, _ => ([], [])
  | .cons _ child rest, start =>
    let first := traverse [] child start
    let others := traverseChildren rest (start + first.length)
    (start :: others.1, first ++ others.2)

end

/-- `encode_link` -/
def encodeLink (byteOffset : Nat) : List UInt8 := [UInt8.ofNat (byteOffset % 256), UInt8.ofNat (byteOffset / 256)]

/-- The branches of an entry; `flag` is 64 for the first one. -/
def serializeBranches (offset : Nat → Nat) (flag : UInt8) : List Letter → List Nat → List UInt8
  | c :: chars, link :: links =>
    (typoChars c ||| flag) :: encodeLink (offset link) ++ serializeBranches offset 0 chars links
  | _, _ => []

/-- `serialize`, with the byte offset of each entry -/
def serialize (offset : Nat → Nat) (e : TableEntry) : List UInt8 :=
  match e.links with
  | [] => e.data
  | [_] => e.chars.map typoChars ++ [0]
  | links => serializeBranches offset 64 e.chars links ++ [0]

/-- The length of an entry, which does not depend on the offsets -/
def TableEntry.size (e : TableEntry) : Nat := (serialize (fun _ => 0) e).length

/-- The byte offset of an entry of a table -/
def byteOffset (table : List TableEntry) (i : Nat) : Nat := ((table.take i).map TableEntry.size).sum

/-- `serialize_trie`; without a value an assertion fails. -/
def serializeTrie (trie : Trie Letter Entry) : Option (List UInt8) :=
  let table := traverse [] trie 0
  if table.all TableEntry.asserted ∧ byteOffset table table.length ≤ 0xFFFF then
    some (table.flatMap (serialize (byteOffset table)))
  else none

/-- What `autocorrect_data.h` defines, with the dictionary that it was generated from -/
structure AutocorrectData where
  entries : List Entry
  minLength : Nat
  maxLength : Nat
  data : List UInt8
  deriving DecidableEq

/-- `generate_autocorrect_data`; there is no `min` of an empty dictionary. -/
def generateAutocorrectData (lines : List Line) : Option AutocorrectData := do
  let entries ← parseFile lines
  let data ← serializeTrie (makeTrie entries)
  let minLength ← (entries.map fun e => e.typo.length).min?
  let maxLength ← (entries.map fun e => e.typo.length).max?
  some ⟨entries, minLength, maxLength, data⟩

-- The dictionary of the documentation, and its table
example : (generateAutocorrectData
      [.make ':' ['t', 'h', 'i', 'e', 'r'] ['t', 'h', 'e', 'i', 'r'],
        .make 'f' ['i', 't', 'l', 'e', 'r'] ['f', 'i', 'l', 't', 'e', 'r'],
        .make 'l' ['e', 'n', 'g', 'h', 't'] ['l', 'e', 'n', 'g', 't', 'h'],
        .make 'o' ['u', 'p', 'u', 't'] ['o', 'u', 't', 'p', 'u', 't'],
        .make 'w' ['i', 'd', 'h', 't'] ['w', 'i', 'd', 't', 'h']]).map AutocorrectData.data =
    some [85, 7, 0, 23, 35, 0, 0, 8, 0, 76, 16, 0, 15, 25, 0, 0, 11, 23, 44, 0, 130, 101, 105, 114, 0, 23, 12, 9, 0, 131,
      108, 116, 101, 114, 0, 75, 42, 0, 24, 64, 0, 0, 71, 49, 0, 10, 56, 0, 0, 12, 26, 0, 129, 116, 104, 0, 17, 8, 15, 0,
      129, 116, 104, 0, 19, 24, 18, 0, 130, 116, 112, 117, 116, 0] := by decide +kernel

end QmkFirmware.Autocorrect
