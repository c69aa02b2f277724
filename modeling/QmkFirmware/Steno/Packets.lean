import QmkFirmware.Steno.Code
import QmkFirmware.Lib.Run

/-!
# Packets and strokes

A packet is to be sent when the last key of a stroke is released, and its bytes are to say which
keys the stroke had. They do as long as the number of keys held fits the `int8_t` that counts them.
-/

namespace QmkFirmware.Steno
open Lib

/-! ## Reading a packet -/

/-- The keys that a Gemini packet says: six bytes, the top bit in the first of them only. -/
def decodeGemini (packet : List Nat) : Option (List Nat) :=
  if packet.length = 6 ∧ ∀ i < 6, packet.getD i 0 < 256 ∧ (128 ≤ packet.getD i 0 ↔ i = 0) then
    some ((List.range 42).filter fun key => (packet.getD (key / 7) 0).testBit (6 - key % 7))
  else none

/-- The codes in a byte of a TX Bolt packet -/
def codesOfByte (byte : Nat) : List Nat :=
  ((List.range 6).filter byte.testBit).map fun i => (byte / 64 * 64) ||| 1 <<< i

/-- The codes that a TX Bolt packet says: bytes of ascending groups, then a zero. -/
def decodeBolt (packet : List Nat) : Option (List Nat) :=
  let bytes := packet.dropLast
  if packet.getLast? = some 0 ∧ (∀ byte ∈ bytes, byte ≠ 0 ∧ byte < 256) ∧ bytes.Pairwise (· / 64 < · / 64) then
    some (bytes.flatMap codesOfByte)
  else none

def decode : Mode → List Nat → Option (List Nat)
  | .gemini => decodeGemini
  | .bolt => decodeBolt

/-- The code of a key, none for a key that TX Bolt has none for. -/
def codeOf : Mode → Nat → Option Nat
  | .gemini, key => some key
  | .bolt, key => if boltCode key = 0 then none else some (boltCode key)

/-- The packet says just the keys. -/
def Says (mode : Mode) (packet keys : List Nat) : Prop :=
  ∃ codes, decode mode packet = some codes ∧ ∀ code, code ∈ codes ↔ ∃ key ∈ keys, codeOf mode key = some code

/-! ## Keys held and strokes -/

/-- The keys of a chord that a keycode stands for, counted from `QK_STENO` -/
def keysOf (c : Config) (keycode : Nat) : List Nat :=
  if keycode < qkSteno ∨ qkStenoMax < keycode then []
  else if c.combinedMap ∧ qkStenoComb ≤ keycode ∧ keycode ≤ qkStenoCombMax then
    [combinedmapFirst.getD (keycode - qkStenoComb) 0 - qkSteno, combinedmapSecond.getD (keycode - qkStenoComb) 0 - qkSteno]
  else if keycode ≤ stnMax then [keycode - qkSteno]
  else []

/-- The mode that a keycode switches to -/
def switchOf (c : Config) (keycode : Nat) : Option Mode :=
  if c.enabled = .all ∧ keycode = qkStenoBolt then some .bolt
  else if c.enabled = .all ∧ keycode = qkStenoGemini then some .gemini
  else none

/-- The press or the release of a key of the keyboard, with the keycode it has -/
structure Event (K : Type) where
  key : K
  keycode : Nat
  pressed : Bool

/-- The keys held, and the keys of the chord that were pressed since the last packet or switch of the mode. -/
structure World (K : Type) where
  steno : State
  held : List (K × Nat)
  stroke : List Nat

variable {K : Type} [DecidableEq K]

/-- What is left of the keys held after a release -/
def World.left (w : World K) (e : Event K) : List (K × Nat) := w.held.erase (e.key, e.keycode)

def World.step (c : Config) (w : World K) (e : Event K) : World K :=
  let (steno, sent, _) := processSteno c e.keycode e.pressed w.steno
  if e.pressed then
    ⟨steno, (e.key, e.keycode) :: w.held, if (switchOf c e.keycode).isSome then [] else w.stroke ++ keysOf c e.keycode⟩
  else ⟨steno, w.left e, if sent = [] then w.stroke else []⟩

/-- A key is pressed when it is up, and released when it is down, with the keycode it was pressed with. -/
def Physical (w : World K) (e : Event K) : Prop :=
  if e.pressed then ∀ held ∈ w.held, held.1 ≠ e.key else (e.key, e.keycode) ∈ w.held

instance (w : World K) (e : Event K) : Decidable (Physical w e) :=
  inferInstanceAs (Decidable (if e.pressed then ∀ held ∈ w.held, held.1 ≠ e.key else (e.key, e.keycode) ∈ w.held))

/-- The release after which no key of a chord is held -/
def Ends (c : Config) (w : World K) (e : Event K) : Prop :=
  e.pressed = false ∧ keysOf c e.keycode ≠ [] ∧ ∀ held ∈ w.left e, keysOf c held.2 = []

/-- One packet is sent at the release after which no key is held, and it says the stroke; none is sent otherwise. -/
def Right (c : Config) (w : World K) (e : Event K) : Prop :=
  let sent := (processSteno c e.keycode e.pressed w.steno).2.1
  (Ends c w e → ∃ packet, sent = [packet] ∧ Says w.steno.mode packet w.stroke) ∧ (¬ Ends c w e → sent = [])

/-- How many keys of a chord are held; a combined key counts as two. -/
def weight (c : Config) (held : List (K × Nat)) : Nat := (held.map fun key => (keysOf c key.2).length).sum

/-- After each key of a chord that the event releases, no key is left or their number is positive as an `int8_t`. -/
def Counted (c : Config) (w : World K) (e : Event K) : Prop :=
  e.pressed = false → ∀ i < (keysOf c e.keycode).length,
    weight c w.held - (i + 1) = 0 ∨ 0 < Int.bmod (weight c w.held - (i + 1) : Nat) 256

instance (c : Config) (w : World K) (e : Event K) : Decidable (Counted c w e) :=
  inferInstanceAs (Decidable (e.pressed = false → ∀ i < (keysOf c e.keycode).length,
    weight c w.held - (i + 1) = 0 ∨ 0 < Int.bmod (weight c w.held - (i + 1) : Nat) 256))

/-! ## The bytes of a chord -/

/-- The byte of the chord that has a key -/
def group : Mode → Nat → Nat
  | .gemini, key => key / 7
  | .bolt, key => boltCode key / 64

/-- The bits of a key in its byte -/
def bits : Mode → Nat → Nat
  | .gemini, key => 1 <<< (6 - key % 7)
  | .bolt, key => boltCode key

/-- The mode can be set in the build. -/
def Config.Has (c : Config) : Mode → Prop
  | .gemini => c.enabled ≠ .bolt
  | .bolt => c.enabled ≠ .gemini

/-- The chord is that of the keys. -/
structure Holds (mode : Mode) (keys chord : List Nat) : Prop where
  lt : ∀ key ∈ keys, key < 42
  bit : ∀ g i, (chord.getD g 0).testBit i = true ↔ ∃ key ∈ keys, group mode key = g ∧ (bits mode key).testBit i = true

theorem boltCode_lt (key : Nat) : boltCode key < 256 := by
  rcases Nat.lt_or_ge key 42 with lt | ge
  · revert key
    decide
  · rw [boltCode, List.getD_eq_default _ _ ge]
    decide

section
variable {c : Config} {mode : Mode} {keys chord : List Nat} {key : Nat}

theorem group_lt (has : c.Has mode) (lt : key < 42) : group mode key < c.maxStrokeSize := by
  cases mode with
  | gemini =>
    rw [group, Config.maxStrokeSize, if_neg has]
    omega
  | bolt =>
    have := boltCode_lt key
    rw [group, Config.maxStrokeSize]
    split <;> omega

theorem getD_modify (chord : List Nat) (f : Nat → Nat) {place : Nat} (lt : place < chord.length) (g : Nat) :
    (chord.modify place f).getD g 0 = if place = g then f (chord.getD g 0) else chord.getD g 0 := by
  rw [List.getD_eq_getElem?_getD, List.getElem?_modify, List.getD_eq_getElem?_getD]
  split
  · rename_i same
    subst same
    rw [List.getElem?_eq_getElem lt]
    rfl
  · cases chord[g]? <;> rfl

theorem holds_none (size : Nat) : Holds mode [] (List.replicate size 0) := by
  refine ⟨by simp, fun g i => iff_of_false ?_ (by simp)⟩
  rw [List.getD_eq_getElem?_getD, List.getElem?_replicate]
  split <;> simp

theorem Holds.add (h : Holds mode keys chord) (inside : group mode key < chord.length) (lt : key < 42) :
    Holds mode (keys ++ [key]) (chord.modify (group mode key) (· ||| bits mode key)) := by
  constructor
  · intro k mem
    rcases List.mem_append.mp mem with mem | mem
    · exact h.lt k mem
    · exact List.mem_singleton.mp mem ▸ lt
  · intro g i
    rw [getD_modify _ _ inside]
    simp only [List.mem_append, List.mem_singleton, or_and_right, exists_or, exists_eq_left]
    split
    · rename_i same
      rw [Nat.testBit_or, Bool.or_eq_true, h.bit, and_iff_right same]
    · rename_i other
      rw [h.bit]
      exact (or_iff_left fun wrong => other wrong.1).symm

/-! ## What the packet says -/

theorem bits_gemini (key other : Nat) :
    (bits .gemini key).testBit (6 - other % 7) = true ↔ key % 7 = other % 7 := by
  rw [bits, Nat.one_shiftLeft, Nat.testBit_two_pow, decide_eq_true_eq]
  omega

theorem Holds.gemini (h : Holds .gemini keys chord) (length : chord.length = 6) :
    Says .gemini (sendStenoChordGemini chord) keys := by
  have byte : ∀ g < 6, (sendStenoChordGemini chord).getD g 0 = if 0 = g then chord.getD g 0 ||| 0x80 else chord.getD g 0 := by
    intro g lt
    rw [sendStenoChordGemini, List.take_of_length_le (by simp [length]), getD_modify _ _ (by omega)]
  have small : ∀ g, chord.getD g 0 < 128 := by
    intro g
    apply Nat.lt_pow_two_of_testBit (n := 7)
    intro i high
    apply Bool.eq_false_of_not_eq_true
    rw [h.bit]
    rintro ⟨key, -, -, bit⟩
    rw [bits, Nat.one_shiftLeft, Nat.testBit_two_pow, decide_eq_true_eq] at bit
    omega
  have bytes : ∀ g < 6, (sendStenoChordGemini chord).getD g 0 < 256 ∧ (128 ≤ (sendStenoChordGemini chord).getD g 0 ↔ g = 0) := by
    intro g lt
    have := small g
    rw [byte g lt]
    split
    · have low : 128 ||| chord.getD g 0 = 128 + chord.getD g 0 := (Nat.two_pow_add_eq_or_of_lt (i := 7) (small g) 1).symm
      rw [Nat.or_comm, low]
      omega
    · omega
  refine ⟨_, if_pos ⟨by simp [sendStenoChordGemini, length], bytes⟩, ?_⟩
  intro code
  have bit : code < 42 → ((sendStenoChordGemini chord).getD (code / 7) 0).testBit (6 - code % 7) =
      (chord.getD (code / 7) 0).testBit (6 - code % 7) := by
    intro lt
    have high : (128 : Nat).testBit (6 - code % 7) = false := by
      rw [show 128 = 2 ^ 7 from rfl, Nat.testBit_two_pow, decide_eq_false_iff_not]
      omega
    rw [byte _ (by omega)]
    split
    · rw [Nat.testBit_or, high, Bool.or_false]
    · rfl
  rw [List.mem_filter, List.mem_range]
  constructor
  · rintro ⟨lt, set⟩
    rw [bit lt, h.bit] at set
    obtain ⟨key, mem, same, rest⟩ := set
    rw [bits_gemini] at rest
    rw [group] at same
    exact ⟨key, mem, by rw [codeOf, Option.some.injEq]; omega⟩
  · rintro ⟨key, mem, same⟩
    obtain rfl := Option.some.inj same
    refine ⟨h.lt key mem, ?_⟩
    rw [bit (h.lt key mem), h.bit]
    exact ⟨key, mem, rfl, (bits_gemini key key).mpr rfl⟩

/-- A byte of the chord has the codes of its group. -/
theorem Holds.bolt_group (h : Holds .bolt keys chord) {g : Nat} (some : chord.getD g 0 ≠ 0) : chord.getD g 0 / 64 = g := by
  obtain ⟨i, set⟩ := Nat.exists_testBit_of_ne_zero some
  obtain ⟨first, there, group_first, -⟩ := (h.bit g i).mp set
  apply Nat.eq_of_testBit_eq
  intro i
  rw [show 64 = 2 ^ 6 from rfl, Nat.testBit_div_two_pow, Bool.eq_iff_iff, h.bit]
  have shifted : ∀ key, (bits .bolt key).testBit (i + 6) = (group .bolt key).testBit i := by
    intro key
    rw [bits, group, show 64 = 2 ^ 6 from rfl, Nat.testBit_div_two_pow]
  constructor
  · rintro ⟨key, -, same, bit⟩
    rwa [shifted, same] at bit
  · intro bit
    exact ⟨first, there, group_first, by rwa [shifted, group_first]⟩

/-- A code is its group and one bit. -/
theorem boltCode_eq : ∀ key < 42, ∀ i < 6, (boltCode key).testBit i = true → boltCode key / 64 * 64 ||| 1 <<< i = boltCode key := by
  decide

theorem boltCode_bit : ∀ key < 42, boltCode key ≠ 0 → ∃ i < 6, (boltCode key).testBit i = true := by
  decide

theorem mem_codesOfByte {byte code : Nat} :
    code ∈ codesOfByte byte ↔ ∃ i < 6, byte.testBit i = true ∧ byte / 64 * 64 ||| 1 <<< i = code := by
  simp [codesOfByte, and_assoc]

theorem Holds.bolt (h : Holds .bolt keys chord) (length : 4 ≤ chord.length) :
    Says .bolt (sendStenoChordBolt chord) keys := by
  have bytes : (sendStenoChordBolt chord).dropLast = (chord.take 4).filter (· ≠ 0) := by
    rw [sendStenoChordBolt, List.dropLast_concat]
  have byte : ∀ b, b ∈ (chord.take 4).filter (· ≠ 0) ↔ ∃ g < 4, chord.getD g 0 = b ∧ b ≠ 0 := by
    intro b
    rw [List.mem_filter, decide_eq_true_eq, List.mem_take_iff_getElem]
    constructor
    · rintro ⟨⟨g, lt, rfl⟩, nonzero⟩
      exact ⟨g, by omega, List.getD_eq_getElem _ _ _, nonzero⟩
    · rintro ⟨g, lt, rfl, nonzero⟩
      exact ⟨⟨g, by omega, (List.getD_eq_getElem _ _ _).symm⟩, nonzero⟩
  have small : ∀ g, chord.getD g 0 < 256 := by
    intro g
    apply Nat.lt_pow_two_of_testBit (n := 8)
    intro i high
    apply Bool.eq_false_of_not_eq_true
    rw [h.bit]
    rintro ⟨key, -, -, bit⟩
    have := Nat.testBit_lt_two_pow (lt_of_lt_of_le (boltCode_lt key) (Nat.pow_le_pow_right (n := 2) (by decide) high))
    rw [bits, this] at bit
    cases bit
  have valid : ∀ b ∈ (chord.take 4).filter (· ≠ 0), b ≠ 0 ∧ b < 256 := by
    intro b mem
    obtain ⟨g, lt, rfl, nonzero⟩ := (byte b).mp mem
    exact ⟨nonzero, small g⟩
  have ascending : ((chord.take 4).filter (· ≠ 0)).Pairwise (· / 64 < · / 64) := by
    rw [List.pairwise_filter, List.pairwise_iff_getElem]
    intro i j hi hj less some_i some_j
    rw [List.getElem_take, decide_eq_true_eq, ← List.getD_eq_getElem _ 0] at some_i some_j
    rw [List.getElem_take, List.getElem_take, ← List.getD_eq_getElem _ 0, ← List.getD_eq_getElem _ 0,
      h.bolt_group some_i, h.bolt_group some_j]
    exact less
  have last : (sendStenoChordBolt chord).getLast? = some 0 := by rw [sendStenoChordBolt, List.getLast?_concat]
  refine ⟨_, if_pos ⟨last, by rwa [bytes], by rwa [bytes]⟩, ?_⟩
  · intro code
    rw [bytes, List.mem_flatMap]
    constructor
    · rintro ⟨b, mem, there⟩
      obtain ⟨g, -, rfl, nonzero⟩ := (byte b).mp mem
      obtain ⟨i, lt, set, rfl⟩ := mem_codesOfByte.mp there
      obtain ⟨key, held, same, bit⟩ := (h.bit g i).mp set
      refine ⟨key, held, ?_⟩
      have code := boltCode_eq key (h.lt key held) i lt bit
      have positive : boltCode key ≠ 0 := by
        intro zero
        rw [bits, zero, Nat.zero_testBit] at bit
        cases bit
      rw [group] at same
      rw [codeOf, if_neg positive, h.bolt_group nonzero, ← same, code]
    · rintro ⟨key, held, same⟩
      rw [codeOf] at same
      split at same
      · cases same
      · rename_i positive
        obtain rfl := Option.some.inj same
        obtain ⟨i, lt, bit⟩ := boltCode_bit key (h.lt key held) positive
        have set : (chord.getD (boltCode key / 64) 0).testBit i = true := (h.bit _ i).mpr ⟨key, held, rfl, bit⟩
        have nonzero : chord.getD (boltCode key / 64) 0 ≠ 0 := by
          intro zero
          rw [zero, Nat.zero_testBit] at set
          cases set
        have := boltCode_lt key
        refine ⟨_, (byte _).mpr ⟨boltCode key / 64, by omega, rfl, nonzero⟩, mem_codesOfByte.mpr ⟨i, lt, set, ?_⟩⟩
        rw [h.bolt_group nonzero, boltCode_eq key (h.lt key held) i lt bit]

/-! ## Pressing and releasing keys of a chord -/

theorem State.counting (s : State) (n : Int) : { s with nPressedKeys := n }.nPressedKeys = n := rfl

/-- The packet for a chord -/
def packetOf : Mode → List Nat → List Nat
  | .gemini, chord => sendStenoChordGemini chord
  | .bolt, chord => sendStenoChordBolt chord

theorem Holds.says (h : Holds mode keys chord) (has : c.Has mode) (length : chord.length = c.maxStrokeSize) :
    Says mode (packetOf mode chord) keys := by
  cases mode with
  | gemini => exact h.gemini (length.trans (if_neg has))
  | bolt =>
    apply h.bolt
    rw [length, Config.maxStrokeSize]
    split <;> decide

/-- `processKey` for several keys one after another, counted from `QK_STENO` -/
def processKeys : List Nat → Bool → State → State × List (List Nat)
  | [], _, s => (s, [])
  | key :: keys, pressed, s =>
    let first := processKey (qkSteno + key) pressed s
    let rest := processKeys keys pressed first.1
    (rest.1, first.2 ++ rest.2)

theorem boltGroup : ∀ key < 42, (boltCode key &&& 0b11000000) >>> 6 = boltCode key / 64 := by
  decide

theorem processKey_press (lt : key < 42) (s : State) :
    processKey (qkSteno + key) true s =
      ({ s with nPressedKeys := (s.nPressedKeys + 1).bmod 256,
                chord := s.chord.modify (group s.mode key) (· ||| bits s.mode key) }, []) := by
  obtain ⟨chord, n, mode⟩ := s
  rw [processKey, Nat.add_sub_cancel_left]
  cases mode with
  | gemini =>
    have intra : key - key / 7 * 7 = key % 7 := by omega
    simp [addGeminiKeyToChord, group, bits, intra]
  | bolt => simp [addBoltKeyToChord, group, bits, boltGroup key lt]

theorem processKey_release (s : State) :
    processKey (qkSteno + key) false s =
      if 0 < (s.nPressedKeys - 1).bmod 256 then ({ s with nPressedKeys := (s.nPressedKeys - 1).bmod 256 }, [])
      else ({ s.clearChord with nPressedKeys := 0 }, [packetOf s.mode s.chord]) := by
  obtain ⟨chord, n, mode⟩ := s
  rw [processKey]
  cases mode <;> rfl

/-- The keys pressed are added to the chord and counted. -/
theorem processKeys_press {s : State} {stroke : List Nat} {held : Nat} (has : c.Has s.mode)
    (holds : Holds s.mode stroke s.chord) (length : s.chord.length = c.maxStrokeSize)
    (count : s.nPressedKeys = (held : Int).bmod 256) (lt : ∀ key ∈ keys, key < 42) :
    (processKeys keys true s).2 = [] ∧ (processKeys keys true s).1.mode = s.mode ∧
      Holds s.mode (stroke ++ keys) (processKeys keys true s).1.chord ∧
      (processKeys keys true s).1.chord.length = c.maxStrokeSize ∧
      (processKeys keys true s).1.nPressedKeys = ((held + keys.length : Nat) : Int).bmod 256 := by
  induction keys generalizing s stroke held with
  | nil => exact ⟨rfl, rfl, by rwa [List.append_nil], length, count⟩
  | cons key keys ih =>
    obtain ⟨lt_key, lt_keys⟩ := List.forall_mem_cons.mp lt
    have add := holds.add (length ▸ group_lt has lt_key) lt_key
    have counted : (s.nPressedKeys + 1).bmod 256 = ((held + 1 : Nat) : Int).bmod 256 := by
      rw [count, Int.bmod_add_bmod]
      rfl
    rw [processKeys, processKey_press lt_key, List.append_cons, List.length_cons, ← Nat.add_assoc, Nat.add_right_comm]
    exact @ih { s with nPressedKeys := _, chord := _ } (stroke ++ [key]) (held + 1) has add
      ((List.length_modify ..).trans length) counted lt_keys

/-- The keys released are taken off the count, and the last one held sends the packet. -/
theorem processKeys_release {s : State} {left : Nat} (count : s.nPressedKeys = ((left + keys.length : Nat) : Int).bmod 256)
    (counted : ∀ i < keys.length, left + keys.length - (i + 1) = 0 ∨
      0 < Int.bmod (left + keys.length - (i + 1) : Nat) 256) :
    processKeys keys false s =
      if left = 0 ∧ keys ≠ [] then ({ s.clearChord with nPressedKeys := 0 }, [packetOf s.mode s.chord])
      else ({ s with nPressedKeys := (left : Int).bmod 256 }, []) := by
  induction keys generalizing s with
  | nil =>
    rw [if_neg (fun h => h.2 rfl), processKeys]
    exact congrArg (·, []) (by rw [List.length_nil, Nat.add_zero] at count; rw [← count])
  | cons key keys ih =>
    have next : (s.nPressedKeys - 1).bmod 256 = ((left + keys.length : Nat) : Int).bmod 256 := by
      rw [count, Int.bmod_sub_bmod, List.length_cons]
      congr 1
      push_cast
      ring
    have first := counted 0 (Nat.succ_pos _)
    rw [List.length_cons, Nat.zero_add, ← Nat.add_assoc, Nat.add_sub_cancel] at first
    rw [processKeys, processKey_release, next]
    by_cases last : left + keys.length = 0
    · obtain ⟨rfl, none⟩ := Nat.add_eq_zero_iff.mp last
      obtain rfl := List.length_eq_zero_iff.mp none
      rfl
    · have positive := first.resolve_left last
      have rest : ∀ i < keys.length, left + keys.length - (i + 1) = 0 ∨
          0 < Int.bmod (left + keys.length - (i + 1) : Nat) 256 := by
        intro i lt
        have := counted (i + 1) (Nat.succ_lt_succ lt)
        rwa [List.length_cons, ← Nat.add_assoc, Nat.add_sub_add_right] at this
      rw [if_pos positive]
      dsimp only
      have same : (left = 0 ∧ keys ≠ []) ↔ (left = 0 ∧ key :: keys ≠ []) := by
        refine and_congr_right fun zero => iff_of_true ?_ (List.cons_ne_nil _ _)
        rintro rfl
        exact last zero
      simp only [ih (State.counting s _) rest, same, List.nil_append, State.clearChord]

/-- With another number of keys held a packet is sent. -/
theorem processKeys_early {s : State} {left : Nat} (count : s.nPressedKeys = ((left + keys.length : Nat) : Int).bmod 256)
    (early : ¬ ∀ i < keys.length, left + keys.length - (i + 1) = 0 ∨
      0 < Int.bmod (left + keys.length - (i + 1) : Nat) 256) : (processKeys keys false s).2 ≠ [] := by
  induction keys generalizing s with
  | nil => exact absurd (fun i lt => absurd lt (Nat.not_lt_zero _)) early
  | cons key keys ih =>
    have next : (s.nPressedKeys - 1).bmod 256 = ((left + keys.length : Nat) : Int).bmod 256 := by
      rw [count, Int.bmod_sub_bmod, List.length_cons]
      congr 1
      push_cast
      ring
    rw [processKeys, processKey_release, next]
    split
    · rename_i positive
      apply ih (State.counting s _)
      intro rest
      apply early
      rintro (- | i) lt
      · right
        rwa [List.length_cons, Nat.zero_add, ← Nat.add_assoc, Nat.add_sub_cancel]
      · rw [List.length_cons, ← Nat.add_assoc, Nat.add_sub_add_right]
        exact rest i (Nat.lt_of_succ_lt_succ lt)
    · simp

end

/-! ## A key of the keyboard -/

theorem combined : ∀ i < 11,
    (combinedmapFirst.getD i 0 - qkSteno < 42 ∧
      qkSteno + (combinedmapFirst.getD i 0 - qkSteno) = combinedmapFirst.getD i 0) ∧
    (combinedmapSecond.getD i 0 - qkSteno < 42 ∧
      qkSteno + (combinedmapSecond.getD i 0 - qkSteno) = combinedmapSecond.getD i 0) := by
  decide

section
variable {c : Config} {keycode : Nat}

theorem keysOf_lt (c : Config) (keycode : Nat) : ∀ key ∈ keysOf c keycode, key < 42 := by
  intro key mem
  rw [keysOf] at mem
  split at mem
  · cases mem
  · rename_i inside
    split at mem
    · rename_i comb
      have lt : keycode - qkStenoComb < 11 := by
        have := comb.2
        rw [qkStenoComb, qkStenoCombMax] at *
        omega
      obtain ⟨⟨first, -⟩, second, -⟩ := combined _ lt
      rcases List.mem_cons.mp mem with same | mem
      · rw [same]
        exact first
      · rw [List.mem_singleton.mp mem]
        exact second
    · split at mem
      · rename_i plain
        rw [stnMax] at plain
        have := List.mem_singleton.mp mem
        omega
      · cases mem

theorem keysOf_length (c : Config) (keycode : Nat) : (keysOf c keycode).length ≤ 2 := by
  rw [keysOf]
  split
  · exact Nat.zero_le _
  · split
    · exact le_rfl
    · split <;> simp

/-- A keycode that is no switch of the mode works as its keys one after another. -/
theorem processSteno_keys (none : switchOf c keycode = none) (pressed : Bool) (s : State) :
    (processSteno c keycode pressed s).1 = (processKeys (keysOf c keycode) pressed s).1 ∧
      (processSteno c keycode pressed s).2.1 = (processKeys (keysOf c keycode) pressed s).2 := by
  rw [switchOf] at none
  split at none
  · cases none
  · rename_i no_bolt
    split at none
    · cases none
    · rename_i no_gemini
      rw [processSteno, keysOf, if_neg no_bolt, if_neg no_gemini]
      split
      · exact ⟨rfl, rfl⟩
      · rename_i inside
        split
        · rename_i comb
          have lt : keycode - qkStenoComb < 11 := by
            have := comb.2
            rw [qkStenoComb, qkStenoCombMax] at *
            omega
          obtain ⟨⟨-, first⟩, -, second⟩ := combined _ lt
          simp only [processKeys, first, second, List.append_nil, and_self]
        · split
          · have same : qkSteno + (keycode - qkSteno) = keycode := by omega
            simp only [processKeys, same, List.append_nil, and_self]
          · exact ⟨rfl, rfl⟩

/-- A switch of the mode is no key of a chord, and sends nothing. -/
theorem processSteno_switch {mode : Mode} (switch : switchOf c keycode = some mode) (pressed : Bool) (s : State) :
    keysOf c keycode = [] ∧ processSteno c keycode pressed s = (if pressed then s.setMode mode else s, [], false) ∧
      c.enabled = .all := by
  rw [switchOf] at switch
  split at switch
  · rename_i bolt
    obtain rfl := Option.some.inj switch
    obtain ⟨all, rfl⟩ := bolt
    have outside : ¬ (c.combinedMap = true ∧ qkStenoComb ≤ qkStenoBolt ∧ qkStenoBolt ≤ qkStenoCombMax) := by
      rintro ⟨-, wrong, -⟩
      exact absurd wrong (by decide)
    refine ⟨?_, ?_, all⟩
    · rw [keysOf, if_neg (by decide), if_neg outside, if_neg (by decide)]
    · rw [processSteno, if_neg (by decide), if_pos ⟨all, rfl⟩]
  · split at switch
    · rename_i gemini
      obtain rfl := Option.some.inj switch
      obtain ⟨all, rfl⟩ := gemini
      have outside : ¬ (c.combinedMap = true ∧ qkStenoComb ≤ qkStenoGemini ∧ qkStenoGemini ≤ qkStenoCombMax) := by
        rintro ⟨-, wrong, -⟩
        exact absurd wrong (by decide)
      refine ⟨?_, ?_, all⟩
      · rw [keysOf, if_neg (by decide), if_neg outside, if_neg (by decide)]
      · rw [processSteno, if_neg (by decide), if_neg fun wrong => absurd wrong.2 (by decide), if_pos ⟨all, rfl⟩]
    · cases switch

end

/-! ## Runs -/

section
variable {c : Config} {w : World K} {e : Event K}

/-- The keys held are counted, and the chord is the stroke. -/
structure Inv (c : Config) (w : World K) : Prop where
  has : c.Has w.steno.mode
  length : w.steno.chord.length = c.maxStrokeSize
  holds : Holds w.steno.mode w.stroke w.steno.chord
  count : w.steno.nPressedKeys = (weight c w.held : Int).bmod 256

theorem weight_left (held : (e.key, e.keycode) ∈ w.held) :
    weight c w.held = weight c (w.left e) + (keysOf c e.keycode).length := by
  have perm := (List.perm_cons_erase held).map fun key => (keysOf c key.2).length
  rw [weight, perm.sum_eq, List.map_cons, List.sum_cons, Nat.add_comm]
  rfl

omit [DecidableEq K] in
theorem weight_eq_zero (held : List (K × Nat)) : weight c held = 0 ↔ ∀ key ∈ held, keysOf c key.2 = [] := by
  rw [weight, List.sum_eq_zero_iff, List.forall_mem_map]
  exact forall₂_congr fun key _ => List.length_eq_zero_iff

theorem cleared (s : State) (length : s.chord.length = c.maxStrokeSize) :
    s.clearChord.chord = List.replicate c.maxStrokeSize 0 := by
  rw [State.clearChord]
  dsimp only
  rw [List.map_const', length]

theorem Inv.press (h : Inv c w) (pressed : e.pressed = true) : Inv c (w.step c e) ∧ Right c w e := by
  have up : ¬ Ends c w e := fun ends => by simp [ends.1] at pressed
  have count : weight c ((e.key, e.keycode) :: w.held) = weight c w.held + (keysOf c e.keycode).length := by
    rw [weight, List.map_cons, List.sum_cons, Nat.add_comm]
    rfl
  cases switch : switchOf c e.keycode with
  | some mode =>
    obtain ⟨none, step, all⟩ := processSteno_switch switch true w.steno
    rw [none, List.length_nil, Nat.add_zero] at count
    have next : w.step c e = ⟨w.steno.setMode mode, (e.key, e.keycode) :: w.held, []⟩ := by
      simp [World.step, pressed, step, switch]
    refine ⟨?_, fun ends => absurd ends up, fun _ => ?_⟩
    · rw [next]
      constructor
      · cases mode <;> simp [Config.Has, all, State.setMode]
      · exact (List.length_map _).trans h.length
      · change Holds mode [] w.steno.clearChord.chord
        rw [cleared _ h.length]
        exact holds_none _
      · exact h.count.trans (by rw [count])
    · rw [pressed, step]
  | none =>
    obtain ⟨state, sent⟩ := processSteno_keys switch true w.steno
    obtain ⟨quiet, mode, holds, length, counted⟩ := processKeys_press h.has h.holds h.length h.count
      (keysOf_lt c e.keycode)
    have next : w.step c e = ⟨(processKeys (keysOf c e.keycode) true w.steno).1, (e.key, e.keycode) :: w.held,
        w.stroke ++ keysOf c e.keycode⟩ := by
      simp [World.step, pressed, state, switch]
    refine ⟨?_, fun ends => absurd ends up, fun _ => ?_⟩
    · rw [next]
      constructor
      · exact mode ▸ h.has
      · exact length
      · exact mode ▸ holds
      · exact counted.trans (by rw [count])
    · rw [pressed, sent, quiet]

theorem Inv.release (h : Inv c w) (pressed : e.pressed = false) (held : (e.key, e.keycode) ∈ w.held) :
    (Counted c w e → Inv c (w.step c e)) ∧ (Counted c w e ↔ Right c w e) := by
  have weights := weight_left (c := c) held
  have ends_iff : Ends c w e ↔ weight c (w.left e) = 0 ∧ keysOf c e.keycode ≠ [] := by
    rw [Ends, weight_eq_zero, and_iff_right pressed, and_comm]
  have counted_iff : Counted c w e ↔ ∀ i < (keysOf c e.keycode).length,
      weight c (w.left e) + (keysOf c e.keycode).length - (i + 1) = 0 ∨
        0 < Int.bmod (weight c (w.left e) + (keysOf c e.keycode).length - (i + 1) : Nat) 256 := by
    rw [Counted, imp_iff_right pressed, weights]
  cases switch : switchOf c e.keycode with
  | some mode =>
    obtain ⟨none, step, -⟩ := processSteno_switch switch false w.steno
    have next : w.step c e = ⟨w.steno, w.left e, w.stroke⟩ := by simp [World.step, pressed, step]
    rw [none, List.length_nil, Nat.add_zero] at weights
    refine ⟨fun _ => ?_, iff_of_true ?_ ⟨fun ends => absurd none ends.2.1, fun _ => ?_⟩⟩
    · rw [next]
      exact ⟨h.has, h.length, h.holds, by rw [← weights]; exact h.count⟩
    · rw [counted_iff, none]
      exact fun i lt => absurd lt (Nat.not_lt_zero _)
    · rw [pressed, step]
  | none =>
    obtain ⟨state, sent⟩ := processSteno_keys switch false w.steno
    have count := weights ▸ h.count
    by_cases counted : Counted c w e
    · have release := processKeys_release count (counted_iff.mp counted)
      rw [iff_true_left counted, imp_iff_right counted, World.step, Right, ends_iff]
      simp only [pressed, Bool.false_eq_true, if_false, state, sent, release]
      split
      · rename_i last
        refine ⟨⟨h.has, ?_, ?_, ?_⟩, fun _ => ⟨_, rfl, h.holds.says h.has h.length⟩, fun no => absurd last no⟩
        · exact (List.length_map _).trans h.length
        · change Holds _ [] w.steno.clearChord.chord
          rw [cleared _ h.length]
          exact holds_none _
        · exact (congrArg (fun n : Nat => Int.bmod n 256) last.1).symm
      · rename_i more
        exact ⟨⟨h.has, h.length, h.holds, State.counting _ _⟩, fun last => absurd last more, fun _ => rfl⟩
    · refine ⟨fun wrong => absurd wrong counted, iff_of_false counted ?_⟩
      have early := processKeys_early count (fun wrong => counted (counted_iff.mpr wrong))
      rintro ⟨-, none⟩
      rw [pressed, sent] at none
      refine early (none fun ends => counted (counted_iff.mpr fun i lt => ?_))
      -- at the last key of a stroke the one or two numbers that are left, 1 and 0, are counted right
      rw [(ends_iff.mp ends).1, Nat.zero_add]
      have := keysOf_length c e.keycode
      obtain left | left : (keysOf c e.keycode).length - (i + 1) = 0 ∨ (keysOf c e.keycode).length - (i + 1) = 1 := by omega
      · exact Or.inl left
      · rw [left]
        exact Or.inr (by decide)

theorem Inv.step (h : Inv c w) (physical : Physical w e) :
    (Counted c w e → Inv c (w.step c e)) ∧ (Counted c w e ↔ Right c w e) := by
  rw [Physical] at physical
  cases pressed : e.pressed with
  | true =>
    obtain ⟨next, right⟩ := h.press pressed
    exact ⟨fun _ => next, iff_of_true (fun up => by simp [up] at pressed) right⟩
  | false => exact h.release pressed (by simpa [pressed] using physical)

/-- Nothing is held, and no stroke begun. -/
def World.start (c : Config) (mode : Mode) : World K := ⟨⟨List.replicate c.maxStrokeSize 0, 0, mode⟩, [], []⟩

/-- In a run every packet is sent at the end of its stroke and says it, exactly when at every release
the number of keys held fits the counter. -/
theorem packets_iff {mode : Mode} (has : c.Has mode) {events : List (Event K)}
    (physical : Along (World.step c) Physical (World.start c mode) events) :
    Along (World.step c) (Right c) (World.start c mode) events ↔
      Along (World.step c) (Counted c) (World.start c mode) events := by
  have start : Inv c (World.start (K := K) c mode) := by
    refine ⟨has, List.length_replicate, holds_none _, ?_⟩
    simp [World.start, weight]
  have same : Along (World.step c) (fun w e => Physical w e ∧ Counted c w e) (World.start c mode) events ↔
      Along (World.step c) (fun w e => Physical w e ∧ Right c w e) (World.start c mode) events := by
    apply Along.congr (Inv c) ?_ ?_ start
    · exact fun w e inv => and_congr_right fun physical => (inv.step physical).2
    · exact fun w e inv h => (inv.step h.1).1 h.2
  constructor
  · exact fun right => (same.mpr (physical.and right)).mono fun _ _ h => h.2
  · exact fun counted => (same.mp (physical.and counted)).mono fun _ _ h => h.2

/-- A build with all there is -/
def build : Config := ⟨.all, true⟩

/-- In a stroke of two keys, one of them combined, the mode is switched after the first press. -/
def twoKeys : List (Event Nat) :=
  [⟨0, qkSteno + 7, true⟩, ⟨1, qkStenoBolt, true⟩, ⟨2, qkStenoComb + 1, true⟩, ⟨1, qkStenoBolt, false⟩,
    ⟨2, qkStenoComb + 1, false⟩, ⟨0, qkSteno + 7, false⟩]

theorem packets_iff_twoKeys :
    Along (World.step build) Physical (World.start build .gemini) twoKeys ∧
      Along (World.step build) (Right build) (World.start build .gemini) twoKeys := by
  have has : build.Has .gemini := by
    rw [Config.Has]
    decide
  have physical : Along (World.step build) Physical (World.start build .gemini) twoKeys := by decide
  exact ⟨physical, (packets_iff has physical).mpr (by decide)⟩

/-- The presses of 65 combined keys -/
def crowd : List (Event Nat) := (List.range 65).map fun key => ⟨key, qkStenoComb + 1, true⟩

/-- The release of the first one sends a packet, with 64 keys still held. -/
theorem crowd_early :
    Along (World.step build) Physical (World.start build .gemini) (crowd ++ [⟨0, qkStenoComb + 1, false⟩]) ∧
      ¬ Along (World.step build) (Right build) (World.start build .gemini) (crowd ++ [⟨0, qkStenoComb + 1, false⟩]) := by
  refine ⟨by decide +kernel, fun right => ?_⟩
  have release := (Along.append.mp right).2.1
  have held : (1, qkStenoComb + 1) ∈ (crowd.foldl (World.step build) (World.start build .gemini)).left ⟨0, qkStenoComb + 1, false⟩ := by
    decide
  have quiet := release.2 fun ends => absurd (ends.2.2 _ held) (by decide)
  revert quiet
  decide +kernel

end

end QmkFirmware.Steno
