import Mathlib

/-!
# UCIS

`process_ucis.c`: after `ucis_start` the keys pressed are kept until space, enter or escape, and
then looked up in a table of names. `codes` is a function of all indexes, and `used` notes the
indexes that are used; those from `UCIS_MAX_SYMBOL_LENGTH` on are outside the array.
-/

namespace QmkFirmware.Unicode.Ucis

def kcA : Nat := 0x04
def kc1 : Nat := 0x1E
def kcEnter : Nat := 0x28
def kcEscape : Nat := 0x29
def kcBackspace : Nat := 0x2A
def kcSpace : Nat := 0x2C

/-- `ucis_symbol_t`; the code points from the first zero on are not used. -/
structure Symbol where
  symbol : List UInt8
  codePoints : List Nat

/-- `UCIS_MAX_SYMBOL_LENGTH`, `UCIS_MAX_CODE_POINTS` and `ucis_symbol_table` -/
structure Config where
  maxSymbolLength : Nat
  maxCodePoints : Nat
  symbolTable : List Symbol

/-- `ucis_state_t` -/
structure State where
  count : Nat
  codes : Nat → Nat
  inProgress : Bool

/-- The keycode that a character of a name is compared with -/
def keycodeOf (c : UInt8) : Nat :=
  if 49 ≤ c.toNat ∧ c.toNat ≤ 48 then c.toNat - 49 + kc1 -- '1' <= c && c <= '0'
  else (c.toNat + 65536 - 97 + kcA) % 65536

/-- What a comparison comes to, none if it never ends, and the indexes of `codes` it uses. -/
structure Compared where
  equal : Option Bool
  used : List Nat

/-- The loop of `is_uni_seq` from index `i` on. The index is a `uint8_t`: after 256 rounds it has
come round, and as nothing has changed it goes on for ever. -/
def isUniSeqFrom (s : State) (seq : List UInt8) : Nat → Nat → Compared
  | 0, _ => ⟨none, []⟩
  | rounds + 1, i =>
    match seq[i]? with
    | some c =>
      if s.count < i then ⟨some false, []⟩
      else if s.codes i ≠ keycodeOf c then ⟨some false, [i]⟩
      else
        let rest := isUniSeqFrom s seq rounds ((i + 1) % 256)
        ⟨rest.equal, i :: rest.used⟩
    | none => ⟨some (s.codes i = kcEnter ∨ s.codes i = kcSpace), [i]⟩

/-- `is_uni_seq` -/
def isUniSeq (s : State) (seq : List UInt8) : Compared := isUniSeqFrom s seq 256 0

/-- The index of the symbol found, none if there is none; and none of either if the search never ends. -/
structure Searched where
  found : Option (Option Nat)
  used : List Nat

/-- The search in `process_ucis` from entry `i` on, another `uint8_t`. -/
def searchFrom (table : List Symbol) (s : State) : Nat → Nat → Searched
  | 0, _ => ⟨none, []⟩
  | rounds + 1, i =>
    match table[i]? with
    | none => ⟨some none, []⟩
    | some entry =>
      let compared := isUniSeq s entry.symbol
      match compared.equal with
      | none => ⟨none, compared.used⟩
      | some true => ⟨some (some i), compared.used⟩
      | some false =>
        let rest := searchFrom table s rounds ((i + 1) % 256)
        ⟨rest.found, compared.used ++ rest.used⟩

/-- `tap_code` and `register_unicode` -/
inductive Sent where
  | tap (keycode : Nat)
  | unicode (codePoint : Nat)
  deriving DecidableEq

/-- `register_ucis` -/
def registerUcis (c : Config) (codePoints : List Nat) : List Sent :=
  ((codePoints.take c.maxCodePoints).takeWhile (· ≠ 0)).map .unicode

/-- `ucis_symbol_fallback`, where `count` is at least one or the loop has no rounds -/
def symbolFallback (s : State) : List Sent := (List.range (s.count - 1)).map fun i => .tap (s.codes i % 256)

/-- What a press comes to: the state, what is sent, whether the key is passed on (all of this none if
the search never ends), and the indexes of `codes` that are used. -/
structure Press where
  done : Option (State × List Sent × Bool)
  used : List Nat

/-- `special` -/
def isSpecial (keycode : Nat) : Bool :=
  keycode = kcSpace ∨ keycode = kcEnter ∨ keycode = kcEscape ∨ keycode = kcBackspace

/-- The state once a key is kept in it; `count` is a `uint8_t`. -/
def State.keep (s : State) (keycode : Nat) : State :=
  { s with codes := Function.update s.codes s.count keycode, count := (s.count + 1) % 256 }

/-- `process_ucis` for the press of a key -/
def processUcis (c : Config) (keycode : Nat) (s : State) : Press :=
  if ¬ s.inProgress then ⟨some (s, [], true), []⟩
  else if c.maxSymbolLength ≤ s.count ∧ ¬ isSpecial keycode then ⟨some (s, [], false), []⟩
  else
    let kept := s.keep keycode
    if keycode = kcBackspace then
      if 2 ≤ kept.count then ⟨some ({ kept with count := kept.count - 2 }, [], true), [s.count]⟩
      else ⟨some ({ kept with count := (kept.count + 255) % 256 }, [], false), [s.count]⟩
    else if isSpecial keycode then
      let erased := List.replicate kept.count (.tap kcBackspace)
      let ended := { kept with inProgress := false }
      if keycode = kcEscape then ⟨some (ended, erased, false), [s.count]⟩
      else
        let searched := searchFrom c.symbolTable kept 256 0
        match searched.found with
        | none => ⟨none, s.count :: searched.used⟩
        | some (some i) =>
          ⟨some (ended, erased ++ ((c.symbolTable[i]?).map fun entry => registerUcis c entry.codePoints).getD [], false),
            s.count :: searched.used⟩
        | some none =>
          ⟨some (ended, erased ++ symbolFallback kept, false),
            s.count :: searched.used ++ List.range (kept.count - 1)⟩
    else ⟨some (kept, [], true), [s.count]⟩

/-- The state that `ucis_start` leaves, and what it sends by default -/
def ucisStart (s : State) : State × List Sent := ({ s with count := 0, inProgress := true }, [.unicode 0x2328])

end QmkFirmware.Unicode.Ucis
