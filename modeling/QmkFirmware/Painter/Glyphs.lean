import QmkFirmware.Painter.FontFile

/-!
# Fonts are read as written, where the ASCII table is there

The writer leaves a block out where it has nothing to put in it, and the reader adds
up the sizes of the blocks before the data. It adds the ASCII table's whether there
is one or not.
-/

namespace QmkFirmware.Painter

open Lib

/-! ## Looking a glyph up -/

section Lookup

variable {pil : PilBinary} {format : Format} {font : QFFFont format} {rle : Bool} {ascii file : List UInt8}
  {f : FontHandle} {codePoint : Nat} {info : QFFGlyphInfo}

theorem drop_flatMap {α β : Type} {g : α → List β} {k : Nat} {l : List α} (hk : ∀ x ∈ l, (g x).length = k) (i : Nat) :
    (l.flatMap g).drop (i * k) = (l.drop i).flatMap g := by
  induction l generalizing i with
  | nil => simp
  | cons x l ih =>
    cases i with
    | zero => rw [Nat.zero_mul]; rfl
    | succ i =>
      rw [List.flatMap_cons, Nat.add_mul, Nat.one_mul, Nat.add_comm, ← List.drop_drop,
        List.drop_left' (hk x List.mem_cons_self), ih fun y hy => hk y (List.mem_cons_of_mem _ hy)]
      rfl

theorem QFFFont.inAscii_iff : font.inAscii codePoint = true ↔
    0x20 ≤ codePoint ∧ codePoint < 0x7F ∧ font.hasAscii = true := by
  simp only [QFFFont.inAscii, Bool.and_eq_true, decide_eq_true_eq]
  constructor
  · rintro ⟨⟨lo, hi⟩, has⟩
    exact ⟨lo, by omega, has⟩
  · rintro ⟨lo, hi, has⟩
    exact ⟨⟨lo, by omega⟩, has⟩

/-- The row of the ASCII table at which the reader looks is the code point's. -/
theorem Shape.asciiRow (h : Shape pil font rle ascii file) (within : font.inAscii codePoint = true) :
    ∃ info ∈ font.infos rle, info.codePoint = codePoint ∧ ∃ rest,
      file.drop (fontDescriptorSize + blockHeaderSize + (codePoint - 0x20) * 3) = info.write pil false ++ rest := by
  obtain ⟨lo, hi, has⟩ := QFFFont.inAscii_iff.1 within
  have ascii_eq := h.ascii_eq
  rw [if_pos has] at ascii_eq
  obtain ⟨row, rows, rfl⟩ := writeAsciiTable_some pil ascii_eq
  have inRange : codePoint - 0x20 < asciiRange.length := by
    rw [asciiRange, List.length_range']
    omega
  have inRow : codePoint - 0x20 < row.length := by rwa [← rows.length_eq]
  have found := rows.get inRange inRow
  have here : asciiRange.get ⟨codePoint - 0x20, inRange⟩ = codePoint := by
    simp only [asciiRange, List.get_eq_getElem, List.getElem_range']
    omega
  rw [here] at found
  refine ⟨row.get ⟨codePoint - 0x20, inRow⟩, (List.mem_filter.1 (List.mem_of_find?_eq_some found)).1,
    by simpa using List.find?_some found, ?_⟩
  have cut : (row.flatMap fun info => info.write pil false).drop ((codePoint - 0x20) * 3) = _ :=
    drop_flatMap (fun info _ => length_info_write pil false) _
  rw [← List.drop_drop, ← List.drop_drop, h.drop_descriptor, List.append_assoc, drop_blockHeader,
    List.drop_append_of_le_length (by
      rw [length_flatMap_write]
      simp only [Bool.false_eq_true, if_false]
      exact Nat.mul_le_mul_right 3 (Nat.le_of_lt inRow)),
    cut, List.drop_eq_getElem_cons inRow, List.flatMap_cons, List.append_assoc]
  exact ⟨_, rfl⟩

/-- The scan of the Unicode table, where the field holds the number of its glyphs -/
theorem Shape.scan (h : Shape pil font rle ascii file) (codePoint : Nat) {s : Stream}
    (hs : s.ahead = file.drop (fontDescriptorSize + font.asciiSize + blockHeaderSize)) :
    ∃ sorted : List QFFGlyphInfo, (∀ info, info ∈ sorted ↔ info ∈ font.unicodeTable rle) ∧
      (FontHandle.findUnicode codePoint (font.unicodeTable rle).length s).1 =
        (sorted.find? fun info => info.codePoint == codePoint).map QFFGlyphInfo.value ∧
      (FontHandle.findUnicode codePoint (font.unicodeTable rle).length s).2.buffer = s.buffer := by
  rcases Nat.eq_zero_or_pos (font.unicodeTable rle).length with zero | pos
  · refine ⟨[], ?_, ?_⟩
    · rw [List.length_eq_zero_iff.1 zero]
      exact fun _ => Iff.rfl
    · rw [zero]
      exact ⟨rfl, rfl⟩
  · refine ⟨(font.unicodeTable rle).mergeSort fun a b => a.codePoint ≤ b.codePoint, fun _ => List.mem_mergeSort, ?_⟩
    rw [← List.drop_drop, h.drop_ascii, QFFFont.unicodeBlock, if_pos pos, writeUnicodeTable, List.append_assoc,
      drop_blockHeader] at hs
    have found := findUnicode_entries pil codePoint _ (fun info hinfo => ?_) hs
    · rwa [List.length_mergeSort] at found
    · have small := font.infos_unicode rle (List.mem_filter.1 (List.mem_mergeSort.1 hinfo)).1
      omega

theorem Loaded.unicode (l : Loaded font rle file f) (outside : font.inAscii codePoint = false) :
    ¬ (0x20 ≤ codePoint ∧ codePoint < 0x7F ∧ f.hasAsciiTable = true) := by
  rw [l.hasAscii, ← QFFFont.inAscii_iff, outside]
  exact Bool.false_ne_true

theorem Loaded.asciiSize (l : Loaded font rle file f) :
    (if f.hasAsciiTable then asciiGlyphTableSize else 0) = font.asciiSize := by
  rw [l.hasAscii]
  rfl

/-- A code point without a glyph is not found. -/
theorem Loaded.missing (l : Loaded font rle file f) (h : Shape pil font rle ascii file)
    (count : f.numUnicodeGlyphs = (font.unicodeTable rle).length) (codePoint : Nat)
    (absent : ∀ info ∈ font.infos rle, info.codePoint ≠ codePoint) : (f.prepareGlyphForRender codePoint).1 = none := by
  cases within : font.inAscii codePoint with
  | true =>
    obtain ⟨info, mem, key, -⟩ := h.asciiRow within
    exact absurd key (absent info mem)
  | false =>
    have length := h.length_file
    rw [FontHandle.prepareGlyphForRender, if_neg (l.unicode within), l.asciiSize, count, Stream.setpos_le]
    · simp only [Int.lt_irrefl, if_false]
      obtain ⟨sorted, members, value, -⟩ := h.scan codePoint
        (congrArg (List.drop _) l.buffer : ({ f.stream with
          position := fontDescriptorSize + font.asciiSize + blockHeaderSize, isEof := false } : Stream).ahead = _)
      have nowhere : (sorted.find? fun info => info.codePoint == codePoint) = none := by
        refine List.find?_eq_none.2 fun info mem => ?_
        have := absent info (List.mem_filter.1 ((members info).1 mem)).1
        simpa using this
      rw [nowhere] at value
      split
      case h_1 => rfl
      case h_2 e => rw [e] at value; cases value
    · rw [l.buffer, length, QFFFont.dataStart]
      omega

/-- A code point with a glyph: both tables lead to its value. -/
theorem Loaded.found (l : Loaded font rle file f) (h : Shape pil font rle ascii file)
    (count : f.numUnicodeGlyphs = (font.unicodeTable rle).length) (mem : info ∈ font.infos rle) :
    ∃ stream, stream.buffer = file ∧
      f.prepareGlyphForRender info.codePoint = { f with stream }.gotoGlyph info.value := by
  have length := h.length_file
  cases within : font.inAscii info.codePoint with
  | true =>
    obtain ⟨info', mem', key, rest, drop⟩ := h.asciiRow within
    rw [font.infos_unique rle mem' mem key] at drop
    obtain ⟨lo, hi, has⟩ := QFFFont.inAscii_iff.1 within
    rw [FontHandle.prepareGlyphForRender, if_pos ⟨lo, hi, by rw [l.hasAscii, has]⟩, Stream.setpos_le]
    · have read : Stream.read _ 3 = _ := Stream.read_ahead (((congrArg (List.drop _) l.buffer).trans drop :
        ({ f.stream with
          position := fontDescriptorSize + blockHeaderSize + (info.codePoint - 0x20) * 3, isEof := false } : Stream).ahead =
          _)) (length_info_write pil false)
      simp only [Int.lt_irrefl, if_false, read, member_value]
      exact ⟨{ f.stream with
        position := fontDescriptorSize + blockHeaderSize + (info.codePoint - 0x20) * 3 + 3, isEof := false }, l.buffer, rfl⟩
    · have table : font.asciiSize = blockHeaderSize + 95 * 3 := if_pos has
      simp only [l.buffer, length, QFFFont.dataStart, table]
      omega
  | false =>
    rw [FontHandle.prepareGlyphForRender, if_neg (l.unicode within), l.asciiSize, count, Stream.setpos_le]
    · simp only [Int.lt_irrefl, if_false]
      obtain ⟨sorted, members, value, buffer⟩ := h.scan info.codePoint
        (congrArg (List.drop _) l.buffer : ({ f.stream with
          position := fontDescriptorSize + font.asciiSize + blockHeaderSize, isEof := false } : Stream).ahead = _)
      have present : info ∈ sorted := (members info).2 (List.mem_filter.2 ⟨mem, by rw [within]; rfl⟩)
      obtain ⟨x, hx⟩ := Option.isSome_iff_exists.1 (List.find?_isSome.2 ⟨info, present, by simp⟩ :
        (sorted.find? fun x => x.codePoint == info.codePoint).isSome)
      have same : x = info := font.infos_unique rle
        (List.mem_filter.1 ((members x).1 (List.mem_of_find?_eq_some hx))).1 mem (by simpa using List.find?_some hx)
      rw [hx, same] at value
      split
      case h_1 e => rw [e] at value; cases value
      case h_2 v stream e =>
        rw [e] at value buffer
        rw [Option.some.inj value]
        exact ⟨stream, buffer.trans l.buffer, rfl⟩
    · rw [l.buffer, length, QFFFont.dataStart]
      omega

end Lookup

/-! ## The glyph's data -/

section Data

variable {pil : PilBinary} {format : Format} {font : QFFFont format} {rle : Bool} {ascii file : List UInt8}
  {f : FontHandle} {before later : List Glyph} {g : Glyph}

theorem imageData_append (a b : List Glyph) : imageData rle (a ++ b) = imageData rle a ++ imageData rle b :=
  List.flatMap_append

/-- The entry of a glyph, from the glyphs before it -/
def entryOf (rle : Bool) (before : List Glyph) (g : Glyph) : QFFGlyphInfo :=
  ⟨g.codePoint, g.w, (imageData rle before).length⟩

theorem entryOf_mem (split : font.glyphData = before ++ g :: later) : entryOf rle before g ∈ font.infos rle := by
  have mem := @placed_mem rle 0 before g later
  rwa [Nat.zero_add, ← split] at mem

theorem Shape.offset_lt (h : Shape pil font rle ascii file) (split : font.glyphData = before ++ g :: later) :
    (imageData rle before).length < 2 ^ 18 := by
  have data := h.data
  rw [split, imageData_append, List.length_append] at data
  omega

/-- The glyph's data in the file -/
theorem Shape.drop_glyph (h : Shape pil font rle ascii file) (split : font.glyphData = before ++ g :: later) :
    file.drop (font.dataStart rle + (imageData rle before).length) = imageData rle (g :: later) := by
  rw [← List.drop_drop, h.drop_data, split, imageData_append, List.drop_left]

/-- Where the reader goes. It is 290 bytes too far where the file has no ASCII table. -/
theorem Loaded.gotoGlyph_eq (l : Loaded font rle file f) (h : Shape pil font rle ascii file)
    (count : f.numUnicodeGlyphs = (font.unicodeTable rle).length) (narrow : g.w ≤ 63)
    (split : font.glyphData = before ++ g :: later) :
    f.gotoGlyph (entryOf rle before g).value =
      match f.stream.setpos (font.dataStart rle + (asciiGlyphTableSize - font.asciiSize) + (imageData rle before).length) with
      | (r, stream) => if r < 0 then (none, { f with stream }) else (some (UInt8.ofNat g.w), { f with stream }) := by
  have offset := h.offset_lt split
  have width : FontHandle.glyphWidth (entryOf rle before g).value = UInt8.ofNat g.w := glyphWidth_value narrow offset
  have palette : f.paletteSize = format.paletteSize := by
    rw [FontHandle.paletteSize, l.palette, l.bpp, Nat.one_shiftLeft]
    rfl
  have unicode : f.unicodeTableSize = font.unicodeSize rle := by
    rw [FontHandle.unicodeTableSize, count]
    rfl
  have table : font.asciiSize ≤ asciiGlyphTableSize := by
    rw [QFFFont.asciiSize]
    split
    · exact Nat.le_refl _
    · exact Nat.zero_le _
  have place : fontDescriptorSize + asciiGlyphTableSize + f.unicodeTableSize + f.paletteSize + blockHeaderSize +
      FontHandle.glyphOffset (entryOf rle before g).value =
      font.dataStart rle + (asciiGlyphTableSize - font.asciiSize) + (imageData rle before).length := by
    rw [unicode, palette, show FontHandle.glyphOffset (entryOf rle before g).value = _ from glyphOffset_value narrow offset,
      QFFFont.dataStart]
    simp only [entryOf]
    omega
  rw [FontHandle.gotoGlyph, place, width]

theorem Loaded.gotoGlyph_ascii (l : Loaded font rle file f) (h : Shape pil font rle ascii file)
    (count : f.numUnicodeGlyphs = (font.unicodeTable rle).length) (narrow : g.w ≤ 63)
    (split : font.glyphData = before ++ g :: later) (has : font.hasAscii = true) :
    (f.gotoGlyph (entryOf rle before g).value).1 = some (UInt8.ofNat g.w) ∧
      (f.gotoGlyph (entryOf rle before g).value).2.stream.ahead = imageData rle (g :: later) := by
  have size : font.asciiSize = asciiGlyphTableSize := if_pos has
  have le : font.dataStart rle + (imageData rle before).length ≤ f.stream.buffer.length := by
    rw [l.buffer, h.length_file, split, imageData_append, List.length_append]
    omega
  rw [l.gotoGlyph_eq h count narrow split, size, Nat.sub_self, Nat.add_zero, Stream.setpos_le le]
  refine ⟨rfl, ?_⟩
  rw [← h.drop_glyph split, ← l.buffer]
  rfl

/-- Without the ASCII table the reader is not at the glyph's data. -/
theorem Loaded.gotoGlyph_other (l : Loaded font rle file f) (h : Shape pil font rle ascii file)
    (count : f.numUnicodeGlyphs = (font.unicodeTable rle).length) (narrow : g.w ≤ 63)
    (split : font.glyphData = before ++ g :: later) (lacks : font.hasAscii = false) :
    ¬ ((f.gotoGlyph (entryOf rle before g).value).1 = some (UInt8.ofNat g.w) ∧
      (f.gotoGlyph (entryOf rle before g).value).2.stream.ahead = imageData rle (g :: later)) := by
  have size : font.asciiSize = 0 := if_neg (by rw [lacks]; exact Bool.false_ne_true)
  rw [l.gotoGlyph_eq h count narrow split, size, Nat.sub_zero]
  by_cases le : font.dataStart rle + asciiGlyphTableSize + (imageData rle before).length ≤ f.stream.buffer.length
  · rw [Stream.setpos_le le]
    rintro ⟨-, ahead⟩
    have length := congrArg List.length (Eq.trans ahead (h.drop_glyph split).symm)
    simp only [Stream.ahead, List.length_drop, l.buffer, Int.lt_irrefl, if_false] at length
    rw [l.buffer] at le
    have table : 0 < asciiGlyphTableSize := by decide
    omega
  · rw [Stream.setpos_lt (Nat.not_le.1 le)]
    rintro ⟨found, -⟩
    cases found

end Data

/-! ## Every code point -/

/-- What the file is for: it loads, and wherever the stream was left, the look-up succeeds for the
font's code points and no others, with the width and with the stream at the glyph's data. -/
def ReadsAsWritten (support : Support) (slot : FontHandle) (rle : Bool) (glyphs : List Glyph) (memory : List UInt8) :
    Prop :=
  ∃ font, loadFontMem support slot memory = some font ∧ ∀ (position : Nat) (isEof : Bool) (codePoint : Nat),
    let result := FontHandle.prepareGlyphForRender
      { font with stream := { font.stream with position, isEof } } codePoint
    (result.1.isSome ↔ ∃ g ∈ glyphs, g.codePoint = codePoint) ∧
      ∀ before g later, glyphs = before ++ g :: later → g.codePoint = codePoint →
        result.1 = some (UInt8.ofNat g.w) ∧ result.2.stream.ahead = imageData rle (g :: later)

section Reads

variable {pil : PilBinary} {format : Format} {font : QFFFont format} {rle : Bool} {ascii file : List UInt8}

theorem hasAscii_iff : font.hasAscii = true ↔ ∀ n, 0x20 ≤ n → n < 0x7F → ∃ g ∈ font.glyphData, g.codePoint = n := by
  simp only [QFFFont.hasAscii, List.all_eq_true, List.any_eq_true, beq_iff_eq, asciiRange, List.mem_range'_1]
  exact ⟨fun h n lo hi => h n ⟨lo, by omega⟩, fun h n hn => h n hn.1 (by omega)⟩

theorem unicodeTable_length (rle : Bool) (has : font.hasAscii = true) : (font.unicodeTable rle).length =
    (font.glyphData.filter fun g => ¬ (0x20 ≤ g.codePoint ∧ g.codePoint < 0x7F)).length := by
  have keys := congrArg (fun l => (l.filter fun n => !font.inAscii n).length) (font.infos_keys rle)
  simp only [List.filter_map, List.length_map] at keys
  rw [QFFFont.unicodeTable]
  refine keys.trans (congrArg List.length (List.filter_congr fun g _ => ?_))
  simp only [Function.comp_apply, QFFFont.inAscii, has, Bool.and_true]
  rw [← decide_not]
  exact decide_eq_decide.2 (not_congr (by omega))

/-- The stream may stand anywhere. -/
theorem Loaded.at {f : FontHandle} (l : Loaded font rle file f) (position : Nat) (isEof : Bool) :
    Loaded font rle file { f with stream := { f.stream with position, isEof } } :=
  ⟨l.hasAscii, l.count, l.palette, l.bpp, l.buffer⟩

theorem Loaded.withStream {f : FontHandle} (l : Loaded font rle file f) {stream : Stream} (h : stream.buffer = file) :
    Loaded font rle file { f with stream } :=
  ⟨l.hasAscii, l.count, l.palette, l.bpp, h⟩

/-- With no glyph counted, a code point outside the ASCII table is not found. -/
theorem Loaded.uncounted {f : FontHandle} (l : Loaded font rle file f) {codePoint : Nat}
    (outside : font.inAscii codePoint = false) (zero : f.numUnicodeGlyphs = 0) :
    (f.prepareGlyphForRender codePoint).1 = none := by
  rw [FontHandle.prepareGlyphForRender, if_neg (l.unicode outside), zero]
  simp only [FontHandle.findUnicode, ite_self]

/-- A font that is read as written has the ASCII table and a count that fits. -/
theorem Loaded.complete {f : FontHandle} (l : Loaded font rle file f) (h : Shape pil font rle ascii file)
    (narrow : ∀ g ∈ font.glyphData, g.w ≤ 63)
    (accepts : (font.unicodeTable rle).length % 2 ^ 16 = 0 ∨
      (font.unicodeTable rle).length % 2 ^ 16 = (font.unicodeTable rle).length)
    (found : ∀ before g later, font.glyphData = before ++ g :: later →
      (f.prepareGlyphForRender g.codePoint).1 = some (UInt8.ofNat g.w) ∧
        (f.prepareGlyphForRender g.codePoint).2.stream.ahead = imageData rle (g :: later)) :
    font.hasAscii = true ∧ (font.unicodeTable rle).length < 2 ^ 16 := by
  have count : (font.unicodeTable rle).length % 2 ^ 16 = (font.unicodeTable rle).length := by
    rcases accepts with zero | same
    · by_contra more
      have pos : 0 < (font.unicodeTable rle).length := Nat.pos_of_ne_zero fun e => more (by rw [e, Nat.zero_mod])
      obtain ⟨info, mem⟩ := List.exists_mem_of_length_pos pos
      obtain ⟨infos, outside⟩ := List.mem_filter.1 mem
      obtain ⟨before, g, later, split, rfl⟩ := mem_placed infos
      have missed := l.uncounted (Bool.not_eq_true' _ ▸ outside) (l.count.trans zero)
      rw [(found before g later split).1] at missed
      cases missed
    · exact same
  refine ⟨?_, count ▸ Nat.mod_lt _ (by decide)⟩
  by_contra lacks
  obtain ⟨g, later, split⟩ := List.exists_cons_of_ne_nil font.nonempty
  have numbered := l.count.trans count
  obtain ⟨stream, buffer, e⟩ := l.found h numbered (entryOf_mem (show font.glyphData = [] ++ g :: later from split))
  have wrong := (l.withStream buffer).gotoGlyph_other h numbered (narrow g (split ▸ List.mem_cons_self))
    (show font.glyphData = [] ++ g :: later from split) (Bool.eq_false_of_not_eq_true lacks)
  rw [← e] at wrong
  exact wrong (found [] g later split)

/-- A font with the ASCII table and a count that fits is read as written. -/
theorem Loaded.reads {f : FontHandle} (l : Loaded font rle file f) (h : Shape pil font rle ascii file)
    (narrow : ∀ g ∈ font.glyphData, g.w ≤ 63) (has : font.hasAscii = true)
    (count : f.numUnicodeGlyphs = (font.unicodeTable rle).length) (codePoint : Nat) :
    ((f.prepareGlyphForRender codePoint).1.isSome ↔ ∃ g ∈ font.glyphData, g.codePoint = codePoint) ∧
      ∀ before g later, font.glyphData = before ++ g :: later → g.codePoint = codePoint →
        (f.prepareGlyphForRender codePoint).1 = some (UInt8.ofNat g.w) ∧
          (f.prepareGlyphForRender codePoint).2.stream.ahead = imageData rle (g :: later) := by
  have found : ∀ before g later, font.glyphData = before ++ g :: later → g.codePoint = codePoint →
      (f.prepareGlyphForRender codePoint).1 = some (UInt8.ofNat g.w) ∧
        (f.prepareGlyphForRender codePoint).2.stream.ahead = imageData rle (g :: later) := by
    rintro before g later split rfl
    obtain ⟨stream, buffer, e⟩ := l.found h count (entryOf_mem split)
    have here : g ∈ font.glyphData := split ▸ List.mem_append_right _ List.mem_cons_self
    have right := (l.withStream buffer).gotoGlyph_ascii h count (narrow g here) split has
    rw [← e] at right
    exact right
  refine ⟨⟨fun some => ?_, ?_⟩, found⟩
  · by_contra absent
    have none := l.missing h count codePoint fun info mem key => by
      obtain ⟨before, g, later, split, rfl⟩ := mem_placed mem
      exact absent ⟨g, split ▸ List.mem_append_right _ List.mem_cons_self, key⟩
    rw [none] at some
    cases some
  · rintro ⟨g, mem, key⟩
    obtain ⟨before, later, split⟩ := List.append_of_mem mem
    rw [(found before g later split key).1]
    rfl

/-- **Which fonts are read as written.** Those with all of 0x20..0x7E and at most 65535 glyphs besides. -/
theorem font_reads_as_written {useRle : Bool} (written : saveToQff pil font useRle = some file)
    (narrow : ∀ g ∈ font.glyphData, g.w ≤ 63)
    (data : (imageData (font.usesRle useRle) font.glyphData).length < 2 ^ 18) {support : Support}
    (capable : bppCapable support format.bpp = true) (slot : FontHandle) (rest : List UInt8) :
    ReadsAsWritten support slot (font.usesRle useRle) font.glyphData (file ++ rest) ↔
      (∀ n, 0x20 ≤ n → n < 0x7F → ∃ g ∈ font.glyphData, g.codePoint = n) ∧
        (font.glyphData.filter fun g => ¬ (0x20 ≤ g.codePoint ∧ g.codePoint < 0x7F)).length < 2 ^ 16 := by
  obtain ⟨ascii, h⟩ := saveToQff_shape pil written data
  generalize font.usesRle useRle = rle at *
  obtain ⟨accepts, holds⟩ := h.load capable slot rest
  rw [← hasAscii_iff]
  constructor
  · rintro ⟨f, loaded, reads⟩
    have l := (holds f loaded).at 0 false
    obtain ⟨has, few⟩ := l.complete h narrow (accepts.1 (by rw [loaded]; rfl)) fun before g later split =>
      (reads 0 false g.codePoint).2 before g later split rfl
    exact ⟨has, by rwa [← unicodeTable_length rle has]⟩
  · rintro ⟨has, few⟩
    rw [← unicodeTable_length rle has] at few
    have count := Nat.mod_eq_of_lt few
    obtain ⟨f, loaded⟩ := Option.isSome_iff_exists.1 (accepts.2 (Or.inr count))
    have l := holds f loaded
    exact ⟨f, loaded, fun position isEof codePoint =>
      (l.at position isEof).reads h narrow has (l.count.trans count) codePoint⟩

end Reads

/-- What PIL's packers do -/
def littleEndian : PilBinary := ⟨toBytes 1, toBytes 2, toBytes 4, fun _ => rfl, fun _ => rfl, fun _ => rfl⟩

/-- A slot that was never used -/
def freeSlot : FontHandle := ⟨0, false, 0, 0, false, 0, ⟨[], 0, false⟩⟩

/-- The ASCII glyphs and one more, each of one pixel -/
def asciiFont : QFFFont .mono2 where
  glyphHeight := 1
  glyphData := (asciiRange ++ [0x20AC]).map fun n => ⟨n, 1, [n % 2]⟩
  palette := []
  nonempty := by decide
  keys := by decide +kernel
  unicode := by decide
  colors := by decide

theorem asciiFont_reads : ∃ file, saveToQff littleEndian asciiFont true = some file ∧
    ReadsAsWritten ⟨false, false⟩ freeSlot false asciiFont.glyphData (file ++ [0xFF]) := by
  obtain ⟨file, written⟩ := Option.isSome_iff_exists.1
    (by decide +kernel : (saveToQff littleEndian asciiFont true).isSome = true)
  have plain : asciiFont.usesRle true = false := by decide
  have reads := (font_reads_as_written written (by decide) (by decide)
    (show bppCapable ⟨false, false⟩ Format.mono2.bpp = true from rfl) freeSlot [0xFF]).2 (by decide)
  rw [plain] at reads
  exact ⟨file, written, reads⟩

/-- The letter A alone -/
def letterFont : QFFFont .mono2 where
  glyphHeight := 1
  glyphData := [⟨0x41, 1, [1]⟩]
  palette := []
  nonempty := by decide
  keys := by decide
  unicode := by decide
  colors := by decide

/-- The reader looks for its data behind the end of the file. -/
theorem letter_not_read : ∃ file, saveToQff littleEndian letterFont false = some file ∧
    ¬ ReadsAsWritten ⟨true, true⟩ freeSlot false letterFont.glyphData file := by
  obtain ⟨file, written⟩ := Option.isSome_iff_exists.1
    (by decide : (saveToQff littleEndian letterFont false).isSome = true)
  refine ⟨file, written, ?_⟩
  rintro ⟨f, loaded, reads⟩
  have lost : ((saveToQff littleEndian letterFont false).bind (loadFontMem ⟨true, true⟩ freeSlot)).bind
      (fun f => (FontHandle.prepareGlyphForRender { f with stream := { f.stream with position := 0, isEof := false } }
        0x41).1) = none := by
    decide +kernel
  rw [written, Option.bind_some, loaded, Option.bind_some] at lost
  have found := (reads 0 false 0x41).1.2 ⟨⟨0x41, 1, [1]⟩, List.mem_singleton_self _, rfl⟩
  rw [lost] at found
  cases found

end QmkFirmware.Painter
