import Mathlib
import QmkFirmware.Lib.Memory
import QmkFirmware.Midi.Delivery

/-!
# Bytes in a system exclusive message

`sysex_tools.c` packs bytes of eight bits into bytes of seven: seven of them become eight,
the first of which has their top bits. What is packed unpacks to what it was, has no
status byte in it, and so arrives in a system exclusive message.
-/

namespace QmkFirmware.Midi
open Lib

/-! ## `sysex_tools.c` -/

/-- `sysex_encoded_length` -/
def sysexEncodedLength (decodedLength : UInt16) : UInt16 :=
  let remainder := decodedLength.toNat % 7
  if remainder ≠ 0 then .ofNat (decodedLength.toNat / 7 * 8 + remainder + 1) else .ofNat (decodedLength.toNat / 7 * 8)

/-- `sysex_decoded_length` -/
def sysexDecodedLength (encodedLength : UInt16) : UInt16 :=
  let remainder := encodedLength.toNat % 8
  if remainder ≠ 0 then .ofNat (encodedLength.toNat / 8 * 7 + remainder - 1) else .ofNat (encodedLength.toNat / 8 * 7)

/-- The top bit of byte `j` of a section, in its place in the first byte -/
def topBit (current : Byte) (j : Nat) : Byte := (0x80#8 &&& current) >>> (1 + j)

/-- The first byte of a section -/
def topBits (source : List Byte) : Byte := source.zipIdx.foldl (fun top current => top ||| topBit current.1 current.2) 0

/-- What `sysex_encode` writes for a section -/
def encodeSection (source : List Byte) : List Byte := topBits source :: source.map (0x7F#8 &&& ·)

/-- What `sysex_decode` writes for a section -/
def decodeSection : List Byte → List Byte
  | [] => []
  | top :: lows => lows.zipIdx.map fun low => (0x7F#8 &&& low.1) ||| (0x80#8 &&& (top <<< (1 + low.2)))

/-- An index, which is a `uint16_t` -/
def index16 (i : Nat) : Nat := i % 2 ^ 16

/-- `sysex_encode`: what `encoded` has after it, and the length it returns -/
def sysexEncode (encoded source : Nat → Byte) (length : UInt16) : (Nat → Byte) × UInt16 :=
  let encodedFull := length.toNat / 7
  let remainder := length.toNat % 7
  -- the fully encoded sections
  let encoded := (List.range encodedFull).foldl
    (fun encoded i => patch encoded (index16 (i * 8)) (encodeSection (slice source (index16 (i * 7)) 7))) encoded
  if remainder ≠ 0 then
    let encodedMsbIdx := index16 (encodedFull * 8)
    (patch encoded encodedMsbIdx (encodeSection (slice source (index16 (encodedFull * 7)) remainder)),
      .ofNat (encodedMsbIdx + remainder + 1))
  else (encoded, .ofNat (encodedFull * 8))

/-- `sysex_decode`: what `decoded` has after it, and the length it returns -/
def sysexDecode (decoded source : Nat → Byte) (length : UInt16) : (Nat → Byte) × UInt16 :=
  let decodedFull := length.toNat / 8
  let remainder := length.toNat % 8
  if length < 2 then (decoded, 0)
  else
    let decoded := (List.range decodedFull).foldl
      (fun decoded i => patch decoded (index16 (i * 7)) (decodeSection (slice source (index16 (i * 8)) 8))) decoded
    if remainder ≠ 0 then
      (patch decoded (index16 (decodedFull * 7)) (decodeSection (slice source (index16 (decodedFull * 8)) remainder)),
        .ofNat (decodedFull * 7 + remainder - 1))
    else (decoded, .ofNat (decodedFull * 7))

/-! ## Lists of bytes -/

/-- What a list of bytes is encoded as -/
def encodedBytes (source : List Byte) : List Byte :=
  let encodedFull := source.length / 7
  let sections := (List.range encodedFull).flatMap fun i => encodeSection ((source.drop (i * 7)).take 7)
  if source.length % 7 ≠ 0 then sections ++ encodeSection (source.drop (encodedFull * 7)) else sections

/-- What a list of bytes is decoded as -/
def decodedBytes (source : List Byte) : List Byte :=
  let decodedFull := source.length / 8
  if source.length < 2 then []
  else
    let sections := (List.range decodedFull).flatMap fun i => decodeSection ((source.drop (i * 8)).take 8)
    if source.length % 8 ≠ 0 then sections ++ decodeSection (source.drop (decodedFull * 8)) else sections

/-! ## Section by section -/

theorem getLsbD_top (value : Byte) (k : Nat) : (0x80#8 &&& value).getLsbD k = (decide (k = 7) && value.getLsbD 7) := by
  have power : 0x80#8 = BitVec.twoPow 8 7 := by decide
  rw [power, BitVec.getLsbD_and, BitVec.getLsbD_twoPow]
  by_cases seven : k = 7
  · rw [seven]
    simp
  · have ne : ¬ 7 = k := fun h => seven h.symm
    simp [seven, ne]

/-- Where the top bit of a byte goes -/
theorem getLsbD_topBit (current : Byte) (j k : Nat) :
    (topBit current j).getLsbD k = (decide (j + k = 6) && current.getLsbD 7) := by
  unfold topBit
  rw [BitVec.getLsbD_ushiftRight, getLsbD_top]
  congr 1
  rw [decide_eq_decide]
  omega

theorem getLsbD_topBits_from (source : List Byte) (n : Nat) (top : Byte) (k : Nat) :
    ((source.zipIdx n).foldl (fun top current => top ||| topBit current.1 current.2) top).getLsbD k =
      (top.getLsbD k || (decide (n + k ≤ 6) && (source.getD (6 - k - n) 0).getLsbD 7)) := by
  induction source generalizing n top with
  | nil => simp
  | cons current rest ih =>
    rw [List.zipIdx_cons, List.foldl_cons, ih, BitVec.getLsbD_or, getLsbD_topBit, Bool.or_assoc]
    congr 1
    by_cases here : n + k = 6
    · have zero : 6 - k - n = 0 := by omega
      have beyond : ¬ n + 1 + k ≤ 6 := by omega
      simp [here, zero, beyond]
    · by_cases later : n + 1 + k ≤ 6
      · have succ : 6 - k - n = 6 - k - (n + 1) + 1 := by omega
        have within : n + k ≤ 6 := by omega
        simp [here, later, within, succ]
      · have beyond : ¬ n + k ≤ 6 := by omega
        simp [here, later, beyond]

/-- Bit `6 - j` of the first byte is the top bit of byte `j`. -/
theorem getLsbD_topBits (source : List Byte) (k : Nat) :
    (topBits source).getLsbD k = (decide (k ≤ 6) && (source.getD (6 - k) 0).getLsbD 7) := by
  have clear : (0 : Byte).getLsbD k = false := BitVec.getLsbD_zero
  unfold topBits
  rw [getLsbD_topBits_from, clear, Bool.false_or, Nat.zero_add, Nat.sub_zero]

/-- A byte from its seven low bits and its top bit -/
theorem join_byte (current top : Byte) (j : Nat) (le : j ≤ 6) (bit : top.getLsbD (6 - j) = current.getLsbD 7) :
    (0x7F#8 &&& (0x7F#8 &&& current)) ||| (0x80#8 &&& (top <<< (1 + j))) = current := by
  have low : ∀ value : Byte, ∀ k, k < 8 → (0x7F#8 &&& value).getLsbD k = (decide (k ≠ 7) && value.getLsbD k) := by
    have all : ∀ value : Byte, ∀ k : Fin 8, (0x7F#8 &&& value).getLsbD k = (decide (k ≠ 7) && value.getLsbD k) := by decide +kernel
    intro value k lt
    have := all value ⟨k, lt⟩
    simpa [Fin.ext_iff] using this
  apply BitVec.eq_of_getLsbD_eq
  intro k lt
  rw [BitVec.getLsbD_or, low _ _ lt, low _ _ lt, getLsbD_top, BitVec.getLsbD_shiftLeft]
  by_cases seven : k = 7
  · have place : 7 - (1 + j) = 6 - j := by omega
    have above : ¬ 7 < 1 + j := by omega
    rw [seven, place, bit]
    simp [above]
  · simp [seven]

theorem decodeSection_encodeSection {source : List Byte} (short : source.length ≤ 7) :
    decodeSection (encodeSection source) = source := by
  unfold encodeSection decodeSection
  apply List.ext_getElem
  · simp
  · intro j lt lt'
    rw [List.getElem_map, List.getElem_zipIdx, List.getElem_map]
    dsimp only
    rw [Nat.zero_add]
    apply join_byte _ _ _ (by omega)
    rw [getLsbD_topBits, decide_eq_true (by omega), Bool.true_and]
    have place : 6 - (6 - j) = j := by omega
    rw [place, List.getD_eq_getElem _ _ lt']

/-- No byte of a section is a status byte. -/
theorem encodeSection_low (source : List Byte) : ∀ byte ∈ encodeSection source, byte.getLsbD 7 = false := by
  intro byte mem
  unfold encodeSection at mem
  rcases List.mem_cons.1 mem with rfl | mem
  · rw [getLsbD_topBits]
    rfl
  · obtain ⟨current, -, rfl⟩ := List.mem_map.1 mem
    simp

theorem encodeSection_length (source : List Byte) : (encodeSection source).length = source.length + 1 := by
  unfold encodeSection
  simp

/-! ## The whole -/

/-- Sections of `n` one after the other, the last one shorter -/
theorem sections_append {n : Nat} (pos : 0 < n) {first rest : List Byte} (full : first.length = n) (f : List Byte → List Byte) :
    (List.range ((first ++ rest).length / n)).flatMap (fun i => f (((first ++ rest).drop (i * n)).take n)) =
      f first ++ (List.range (rest.length / n)).flatMap fun i => f ((rest.drop (i * n)).take n) := by
  have count : (first ++ rest).length / n = rest.length / n + 1 := by
    rw [List.length_append, full, Nat.add_comm, Nat.add_div_right _ pos]
  rw [count, List.range_succ_eq_map, List.flatMap_cons, List.flatMap_map, Nat.zero_mul, List.drop_zero]
  congr 1
  · rw [← full, List.take_left']
    rfl
  · congr 1
    funext i
    have place : i.succ * n = first.length + i * n := by
      rw [full, Nat.succ_mul, Nat.add_comm]
    rw [place, List.drop_length_add_append]

/-- What is left after the sections -/
theorem rest_append {n : Nat} (pos : 0 < n) {first rest : List Byte} (full : first.length = n) :
    (first ++ rest).drop ((first ++ rest).length / n * n) = rest.drop (rest.length / n * n) := by
  have place : (first ++ rest).length / n * n = first.length + rest.length / n * n := by
    rw [List.length_append, full, Nat.add_comm, Nat.add_div_right _ pos, Nat.succ_mul, Nat.add_comm]
  rw [place, List.drop_length_add_append]

theorem encodedBytes_append {first rest : List Byte} (full : first.length = 7) :
    encodedBytes (first ++ rest) = encodeSection first ++ encodedBytes rest := by
  have left : (first ++ rest).length % 7 = rest.length % 7 := by
    rw [List.length_append, full, Nat.add_mod_left]
  unfold encodedBytes
  dsimp only
  rw [sections_append (by decide) full, rest_append (by decide) full, left]
  split
  · rw [List.append_assoc]
  · rfl

theorem encodedBytes_short {source : List Byte} (some : source ≠ []) (short : source.length < 7) :
    encodedBytes source = encodeSection source := by
  have pos := List.length_pos_of_ne_nil some
  have none : source.length / 7 = 0 := Nat.div_eq_of_lt short
  have left : source.length % 7 ≠ 0 := by omega
  unfold encodedBytes
  rw [none]
  simp [left]

theorem decodedBytes_append {first rest : List Byte} (full : first.length = 8) :
    decodedBytes (first ++ rest) = decodeSection first ++ decodedBytes rest := by
  have left : (first ++ rest).length % 8 = rest.length % 8 := by
    rw [List.length_append, full, Nat.add_mod_left]
  have long : ¬ (first ++ rest).length < 2 := by
    rw [List.length_append]
    omega
  unfold decodedBytes
  dsimp only
  rw [if_neg long, sections_append (by decide) full, rest_append (by decide) full, left]
  -- a single byte after the sections is one without data
  by_cases short : rest.length < 2
  · have none : rest.length / 8 = 0 := by omega
    rw [if_pos short, none]
    match rest with
    | [] => simp
    | [top] => simp [decodeSection]
    | a :: b :: rest =>
      simp only [List.length_cons] at short
      omega
  · rw [if_neg short]
    split
    · rw [List.append_assoc]
    · rfl

theorem decodedBytes_short {source : List Byte} (long : 2 ≤ source.length) (short : source.length < 8) :
    decodedBytes source = decodeSection source := by
  have none : source.length / 8 = 0 := Nat.div_eq_of_lt short
  have left : source.length % 8 ≠ 0 := by omega
  unfold decodedBytes
  rw [if_neg (by omega), none]
  simp [left]

/-- The induction is on the number of full sections. -/
theorem sections_induction {p : List Byte → Prop} (nil : p []) (short : ∀ source, source ≠ [] → source.length < 7 → p source)
    (append : ∀ first rest, first.length = 7 → p rest → p (first ++ rest)) (source : List Byte) : p source := by
  induction h : source.length using Nat.strong_induction_on generalizing source with
  | _ n ih =>
    subst h
    by_cases none : source = []
    · rw [none]
      exact nil
    · by_cases lt : source.length < 7
      · exact short source none lt
      · have cut := append (source.take 7) (source.drop 7) (by rw [List.length_take]; omega)
          (ih (source.drop 7).length (by rw [List.length_drop]; omega) _ rfl)
        rwa [List.take_append_drop] at cut

theorem length_encodedBytes (source : List Byte) :
    (encodedBytes source).length = source.length + (source.length + 6) / 7 := by
  induction source using sections_induction with
  | nil => rfl
  | short source some lt =>
    have pos := List.length_pos_of_ne_nil some
    rw [encodedBytes_short some lt, encodeSection_length]
    omega
  | append first rest full ih =>
    rw [encodedBytes_append full, List.length_append, encodeSection_length, ih, full, List.length_append, full]
    omega

/-- What is encoded decodes to what it was. -/
theorem decodedBytes_encodedBytes (source : List Byte) : decodedBytes (encodedBytes source) = source := by
  induction source using sections_induction with
  | nil => rfl
  | short source some lt =>
    have pos := List.length_pos_of_ne_nil some
    rw [encodedBytes_short some lt, decodedBytes_short (by rw [encodeSection_length]; omega) (by rw [encodeSection_length]; omega),
      decodeSection_encodeSection (by omega)]
  | append first rest full ih =>
    rw [encodedBytes_append full, decodedBytes_append (by rw [encodeSection_length, full]), ih,
      decodeSection_encodeSection (by omega)]

/-- No byte of what is encoded is a status byte. -/
theorem encodedBytes_low (source : List Byte) : ∀ byte ∈ encodedBytes source, byte.getLsbD 7 = false := by
  induction source using sections_induction with
  | nil => exact fun _ mem => absurd mem List.not_mem_nil
  | short source some lt =>
    rw [encodedBytes_short some lt]
    exact encodeSection_low source
  | append first rest full ih =>
    rw [encodedBytes_append full]
    intro byte mem
    exact (List.mem_append.1 mem).elim (encodeSection_low first byte) (ih byte)

/-! ## The buffers -/

theorem index16_of_lt {i : Nat} (fits : i < 2 ^ 16) : index16 i = i := Nat.mod_eq_of_lt fits

/-- Sections of `n` that are written one behind the other -/
theorem foldl_patch_sections (count n : Nat) (m : Nat → Byte) (place : Nat → Nat) (f : Nat → List Byte)
    (placed : ∀ i < count, place i = i * n) (length : ∀ i < count, (f i).length = n) :
    (List.range count).foldl (fun m i => patch m (place i) (f i)) m = patch m 0 ((List.range count).flatMap f) ∧
      ((List.range count).flatMap f).length = count * n := by
  induction count with
  | zero => simp
  | succ count ih =>
    obtain ⟨written, long⟩ := ih (fun i lt => placed i (by omega)) fun i lt => length i (by omega)
    rw [List.range_succ, List.foldl_append, written, List.flatMap_append]
    constructor
    · simp only [List.foldl_cons, List.foldl_nil, List.flatMap_cons, List.flatMap_nil, List.append_nil]
      rw [placed count (by omega), patch_append, long, Nat.zero_add]
    · simp [long, length count (by omega), Nat.succ_mul]

/-- A part of a slice -/
theorem take_drop_slice {m : Nat → Byte} {n a k : Nat} (within : a + k ≤ n) :
    ((slice m 0 n).drop a).take k = slice m a k := by
  apply List.ext_getElem
  · simp
    omega
  · intro i lt lt'
    simp

theorem drop_slice {m : Nat → Byte} {n a : Nat} : (slice m 0 n).drop a = slice m a (n - a) := by
  apply List.ext_getElem
  · simp
  · intro i lt lt'
    simp

theorem decodeSection_length (source : List Byte) : (decodeSection source).length = source.length - 1 := by
  cases source with
  | nil => rfl
  | cons top lows => simp [decodeSection]

/-- `sysex_encode` writes what the bytes are encoded as, as long as its indexes do not wrap around. -/
theorem sysexEncode_eq (encoded source : Nat → Byte) {length : UInt16} (fits : length.toNat < 57344) :
    sysexEncode encoded source length = (patch encoded 0 (encodedBytes (slice source 0 length.toNat)),
      .ofNat (encodedBytes (slice source 0 length.toNat)).length) := by
  obtain ⟨written, long⟩ := foldl_patch_sections (length.toNat / 7) 8 encoded (fun i => index16 (i * 8))
    (fun i => encodeSection (slice source (index16 (i * 7)) 7))
    (fun i lt => index16_of_lt (by omega)) fun i lt => by simp [encodeSection_length]
  have sections : ((List.range (length.toNat / 7)).flatMap fun i => encodeSection (slice source (index16 (i * 7)) 7)) =
      (List.range (length.toNat / 7)).flatMap fun i => encodeSection (((slice source 0 length.toNat).drop (i * 7)).take 7) := by
    apply List.flatMap_congr
    intro i mem
    have lt := List.mem_range.1 mem
    rw [index16_of_lt (by omega), take_drop_slice (by omega)]
  have rest : length.toNat - length.toNat / 7 * 7 = length.toNat % 7 := by omega
  unfold sysexEncode encodedBytes
  dsimp only
  rw [written, length_slice, ← sections, drop_slice, rest, index16_of_lt (by omega), index16_of_lt (by omega)]
  split
  · rw [patch_append, List.length_append, long, encodeSection_length, length_slice, Nat.zero_add, Nat.add_assoc]
  · rw [long]

/-- `sysex_decode` writes what the bytes are decoded as. -/
theorem sysexDecode_eq (decoded source : Nat → Byte) (length : UInt16) :
    sysexDecode decoded source length = (patch decoded 0 (decodedBytes (slice source 0 length.toNat)),
      .ofNat (decodedBytes (slice source 0 length.toNat)).length) := by
  have fits := length.toNat_lt
  obtain ⟨written, long⟩ := foldl_patch_sections (length.toNat / 8) 7 decoded (fun i => index16 (i * 7))
    (fun i => decodeSection (slice source (index16 (i * 8)) 8))
    (fun i lt => index16_of_lt (by omega)) fun i lt => by simp [decodeSection_length]
  have sections : ((List.range (length.toNat / 8)).flatMap fun i => decodeSection (slice source (index16 (i * 8)) 8)) =
      (List.range (length.toNat / 8)).flatMap fun i => decodeSection (((slice source 0 length.toNat).drop (i * 8)).take 8) := by
    apply List.flatMap_congr
    intro i mem
    have lt := List.mem_range.1 mem
    rw [index16_of_lt (by omega), take_drop_slice (by omega)]
  have rest : length.toNat - length.toNat / 8 * 8 = length.toNat % 8 := by omega
  have short : length < 2 ↔ length.toNat < 2 := UInt16.lt_iff_toNat_lt
  unfold sysexDecode decodedBytes
  dsimp only
  rw [written, length_slice, ← sections, drop_slice, rest, index16_of_lt (by omega), index16_of_lt (by omega)]
  simp only [short]
  split
  · rw [patch_nil]
    rfl
  · split
    · rw [patch_append, List.length_append, long, decodeSection_length, length_slice, Nat.zero_add, Nat.add_sub_assoc (by omega)]
    · rw [long]

theorem sysexEncodedLength_eq (length : UInt16) :
    sysexEncodedLength length = .ofNat (length.toNat + (length.toNat + 6) / 7) := by
  unfold sysexEncodedLength
  dsimp only
  split
  · congr 1
    omega
  · congr 1
    omega

/-- **What is encoded decodes to what it was**, has no status byte in it, and is as long as `sysex_encoded_length` says; nothing
behind it is written. From 57344 bytes on the lengths wrap around. -/
theorem sysexDecode_sysexEncode (encoded decoded source : Nat → Byte) (length : UInt16) (fits : length.toNat < 57344) :
    let packed := sysexEncode encoded source length
    let back := sysexDecode decoded packed.1 packed.2
    back.2 = length ∧ slice back.1 0 length.toNat = slice source 0 length.toNat ∧
      packed.2 = sysexEncodedLength length ∧ sysexDecodedLength packed.2 = length ∧
      (∀ byte ∈ slice packed.1 0 packed.2.toNat, byte.getLsbD 7 = false) ∧
      (∀ i, packed.2.toNat ≤ i → packed.1 i = encoded i) ∧ ∀ i, length.toNat ≤ i → back.1 i = decoded i := by
  intro packed back
  obtain ⟨bytes, hbytes⟩ : ∃ bytes, bytes = encodedBytes (slice source 0 length.toNat) := ⟨_, rfl⟩
  have long : bytes.length = length.toNat + (length.toNat + 6) / 7 := by
    rw [hbytes, length_encodedBytes, length_slice]
  have packed_eq : packed = (patch encoded 0 bytes, .ofNat bytes.length) := by
    rw [hbytes]
    exact sysexEncode_eq encoded source fits
  have count : (UInt16.ofNat bytes.length).toNat = bytes.length := by
    rw [UInt16.toNat_ofNat', Nat.mod_eq_of_lt (by omega)]
  have back_eq : back = (patch decoded 0 (slice source 0 length.toNat), length) := by
    change sysexDecode decoded packed.1 packed.2 = _
    rw [packed_eq]
    dsimp only
    rw [sysexDecode_eq, count, slice_patch_self, hbytes, decodedBytes_encodedBytes, length_slice, UInt16.ofNat_toNat]
  rw [packed_eq, back_eq]
  dsimp only
  rw [count]
  refine ⟨rfl, ?_, ?_, ?_, ?_, fun i le => patch_above (by omega), fun i le => patch_above (by rw [length_slice]; omega)⟩
  · have whole := slice_patch_self decoded 0 (slice source 0 length.toNat)
    rwa [length_slice] at whole
  · rw [sysexEncodedLength_eq, long]
  · unfold sysexDecodedLength
    dsimp only
    rw [count, long]
    split
    · have same : (length.toNat + (length.toNat + 6) / 7) / 8 * 7 + (length.toNat + (length.toNat + 6) / 7) % 8 - 1 =
          length.toNat := by omega
      rw [same, UInt16.ofNat_toNat]
    · have same : (length.toNat + (length.toNat + 6) / 7) / 8 * 7 = length.toNat := by omega
      rw [same, UInt16.ofNat_toNat]
  · rw [slice_patch_self, hbytes]
    exact encodedBytes_low _

/-- Nine bytes: a full section and two bytes -/
theorem sysexDecode_sysexEncode_nine :
    let packed := sysexEncode (fun _ => 0) (fun i => BitVec.ofNat 8 (i * 45)) 9
    let back := sysexDecode (fun _ => 0) packed.1 packed.2
    back.2 = 9 ∧ slice back.1 0 9 = slice (fun i => BitVec.ofNat 8 (i * 45)) 0 9 :=
  have all := sysexDecode_sysexEncode (fun _ => 0) (fun _ => 0) (fun i => BitVec.ofNat 8 (i * 45)) 9 (by decide)
  ⟨all.1, all.2.1⟩

end QmkFirmware.Midi
