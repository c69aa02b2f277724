import QmkFirmware.Painter.Font
import QmkFirmware.Painter.RoundTrip

/-!
# A font file, block by block

What `save_to_qff` writes, as the descriptor, the tables that it does not leave out and
the glyphs' data; and what a load makes of it. The number of Unicode glyphs is in a field
of 16 bits: a file with more of them loads only if the field says zero.
-/

namespace QmkFirmware.Painter

open Lib

/-! ## Packed numbers -/

theorem toBytes_mod (n v : Nat) : toBytes n (v % 256 ^ n) = toBytes n v := by
  conv_rhs => rw [← Nat.mod_add_div v (256 ^ n), toBytes_add_mul]

theorem ofBytes_toBytes_mod (n v : Nat) : ofBytes (toBytes n v) = v % 256 ^ n := by
  rw [← toBytes_mod]
  exact ofBytes_toBytes (Nat.mod_lt _ (Nat.pow_pos (by decide)))

section Pack

variable (pil : PilBinary)

theorem o16le_masked (i : Nat) : pil.o16le (i &&& 0xFFFF) = toBytes 2 i := by
  have low : i &&& 0xFFFF = i % 2 ^ 16 := Nat.and_two_pow_sub_one_eq_mod i 16
  rw [low, pil.o16le_eq (Nat.mod_lt _ (by decide))]
  exact toBytes_mod 2 i

theorem o24_eq (i : Nat) : o24 pil i = toBytes 3 i := by
  have high : (i &&& 0xFF0000) >>> 16 = i / 256 ^ 2 % 256 ^ 1 := by
    rw [Nat.shiftRight_and_distrib, Nat.shiftRight_eq_div_pow]
    exact Nat.and_two_pow_sub_one_eq_mod _ 8
  rw [o24, o16le_masked, high, pil.o8_eq, toBytes_mod]
  exact (toBytes_add 2 1 i).symm

theorem blockHeader_eq (typeId length : Nat) :
    blockHeader pil typeId length = toBytes 1 typeId ++ toBytes 1 (inverted 8 typeId) ++ toBytes 3 length := by
  rw [blockHeader, pil.o8_eq, pil.o8_eq, o24_eq]

@[simp] theorem length_blockHeader (typeId length : Nat) : (blockHeader pil typeId length).length = 5 := by
  simp [blockHeader_eq]

theorem drop_blockHeader (typeId length : Nat) (rest : List UInt8) :
    (blockHeader pil typeId length ++ rest).drop blockHeaderSize = rest :=
  List.drop_left' (length_blockHeader pil typeId length)

/-- The reader accepts a header for its type and its length, up to 2^24. -/
theorem validateBlockHeader_iff {typeId length n : Nat} (ht : typeId < 256) (hl : length < 2 ^ 24) (rest : List UInt8) :
    validateBlockHeader (blockHeader pil typeId length ++ rest) typeId n = true ↔ length = n := by
  have type : member (blockHeader pil typeId length ++ rest) 0 1 = typeId := by
    rw [blockHeader_eq]
    exact ofBytes_toBytes (n := 1) ht
  have negated : member (blockHeader pil typeId length ++ rest) 1 1 = inverted 8 typeId := by
    rw [blockHeader_eq]
    refine ofBytes_toBytes (n := 1) ?_
    simp only [inverted]
    omega
  have size : member (blockHeader pil typeId length ++ rest) 2 3 = length := by
    rw [blockHeader_eq]
    exact ofBytes_toBytes (n := 3) hl
  simp [validateBlockHeader, type, negated, size]

theorem write_eq {d : QFFFontDescriptor} (small : d.totalFileSize < 2 ^ 32) :
    d.write pil = blockHeader pil 0x00 20 ++ toBytes 3 0x464651 ++ toBytes 1 1 ++ toBytes 4 d.totalFileSize ++
      toBytes 4 (inverted 32 d.totalFileSize) ++ toBytes 1 d.lineHeight ++
      toBytes 1 (if d.hasAsciiTable then 1 else 0) ++ toBytes 2 d.unicodeGlyphCount ++ toBytes 1 d.format ++
      toBytes 1 0 ++ toBytes 1 d.compression ++ toBytes 1 0xFF := by
  have other : inverted 32 d.totalFileSize < 2 ^ 32 := by
    simp only [inverted]
    omega
  rw [QFFFontDescriptor.write, o24_eq, o16le_masked, pil.o32le_eq small, pil.o32le_eq other]
  simp only [pil.o8_eq]

theorem length_write {d : QFFFontDescriptor} (small : d.totalFileSize < 2 ^ 32) : (d.write pil).length = 25 := by
  simp [write_eq pil small]

end Pack

/-! ## Streams -/

namespace Stream

theorem get_of_ahead {s : Stream} {b : UInt8} {rest : List UInt8} (h : s.ahead = b :: rest) :
    s.get = ((b.toNat : Int), { s with position := s.position + 1 }) := by
  have here : s.buffer[s.position]? = some b := by
    rw [← List.head?_drop]
    exact congrArg List.head? h
  simp only [get, here]

theorem ahead_advance {s : Stream} {l rest : List UInt8} (h : s.ahead = l ++ rest) :
    ({ s with position := s.position + l.length } : Stream).ahead = rest := by
  simp only [ahead] at h ⊢
  rw [← List.drop_drop, h, List.drop_left]

theorem readBytes_ahead (l : List UInt8) : ∀ {s : Stream} {rest : List UInt8}, s.ahead = l ++ rest →
    s.readBytes l.length = (l, { s with position := s.position + l.length }) := by
  induction l with
  | nil => exact fun _ => rfl
  | cons b l ih =>
    intro s rest h
    have next := ih (ahead_advance (l := [b]) h)
    simp only [List.length_cons, List.length_nil, Nat.zero_add] at next
    rw [List.length_cons, readBytes, get_of_ahead h]
    simp only [Int.not_lt.2 (Int.natCast_nonneg b.toNat), if_false, next, toUInt8_toNat, Nat.add_assoc, Nat.add_comm 1]

theorem read_ahead {s : Stream} {l rest : List UInt8} {size : Nat} (h : s.ahead = l ++ rest) (hl : l.length = size) :
    s.read size = (some l, { s with position := s.position + size }) := by
  subst hl
  rw [read, readBytes_ahead l h]
  exact Prod.ext (if_pos rfl) rfl

theorem setpos_le {s : Stream} {offset : Nat} (h : offset ≤ s.buffer.length) :
    s.setpos offset = (0, { s with position := offset, isEof := false }) :=
  if_neg (Nat.not_lt.2 h)

theorem setpos_lt {s : Stream} {offset : Nat} (h : s.buffer.length < offset) : s.setpos offset = (-1, s) :=
  if_pos h

end Stream

/-! ## The descriptor -/

section Descriptor

variable (pil : PilBinary) {d : QFFFontDescriptor}

/-- What the descriptor says, as far as its fields hold it. -/
def QFFFontDescriptor.stored (d : QFFFontDescriptor) : FontDescriptor where
  lineHeight := d.lineHeight % 256
  hasAsciiTable := d.hasAsciiTable
  numUnicodeGlyphs := d.unicodeGlyphCount % 2 ^ 16
  format := d.format
  compressionScheme := d.compression
  totalFileSize := d.totalFileSize

/-- The descriptor at the start of a stream -/
theorem readFontDescriptor_write (small : d.totalFileSize < 2 ^ 32) (hf : d.format < 256) (hc : d.compression < 256)
    {s : Stream} {rest : List UInt8} (h : s.buffer = d.write pil ++ rest) :
    readFontDescriptor s = (some d.stored, { s with position := 25, isEof := false }) := by
  have start : ({ s with position := 0, isEof := false } : Stream).ahead = d.write pil ++ rest := h
  have header : validateBlockHeader (d.write pil) 0x00 (fontDescriptorSize - blockHeaderSize) = true := by
    rw [write_eq pil small]
    simp only [List.append_assoc]
    exact (validateBlockHeader_iff pil (by decide) (by decide) _).2 rfl
  have magic : member (d.write pil) 5 3 = 0x464651 := by
    rw [write_eq pil small, blockHeader_eq]
    exact ofBytes_toBytes (n := 3) (by decide)
  have version : member (d.write pil) 8 1 = 1 := by
    rw [write_eq pil small, blockHeader_eq]
    exact ofBytes_toBytes (n := 1) (by decide)
  have total : member (d.write pil) 9 4 = d.totalFileSize := by
    rw [write_eq pil small, blockHeader_eq]
    exact ofBytes_toBytes (n := 4) small
  have negated : member (d.write pil) 13 4 = inverted 32 d.totalFileSize := by
    rw [write_eq pil small, blockHeader_eq]
    refine ofBytes_toBytes (n := 4) ?_
    simp only [inverted]
    omega
  have height : member (d.write pil) 17 1 = d.lineHeight % 256 := by
    rw [write_eq pil small, blockHeader_eq]
    exact ofBytes_toBytes_mod 1 _
  have ascii : member (d.write pil) 18 1 = if d.hasAsciiTable then 1 else 0 := by
    rw [write_eq pil small, blockHeader_eq]
    refine ofBytes_toBytes (n := 1) ?_
    split <;> decide
  have count : member (d.write pil) 19 2 = d.unicodeGlyphCount % 2 ^ 16 := by
    rw [write_eq pil small, blockHeader_eq]
    exact ofBytes_toBytes_mod 2 _
  have format : member (d.write pil) 21 1 = d.format := by
    rw [write_eq pil small, blockHeader_eq]
    exact ofBytes_toBytes (n := 1) hf
  have compression : member (d.write pil) 23 1 = d.compression := by
    rw [write_eq pil small, blockHeader_eq]
    exact ofBytes_toBytes (n := 1) hc
  have read : Stream.read _ fontDescriptorSize = _ := Stream.read_ahead start (length_write pil small)
  rw [readFontDescriptor, Stream.setpos_le (Nat.zero_le _)]
  simp only [read, header, magic, version, total, negated, height, ascii,
    count, format, compression]
  cases hasAscii : d.hasAsciiTable <;> simp [QFFFontDescriptor.stored, hasAscii, fontDescriptorSize]

end Descriptor

/-! ## The glyphs in the file -/

/-- The bytes of a glyph's image in the file -/
def Glyph.imageBytes (rle : Bool) (g : Glyph) : List UInt8 :=
  (if rle then g.imageCompressedBytes else g.imageUncompressedBytes).map UInt8.ofNat

/-- The glyphs' data, one after the other -/
def imageData (rle : Bool) (glyphs : List Glyph) : List UInt8 := glyphs.flatMap (Glyph.imageBytes rle)

/-- The glyphs, each with the place of its data, from `start` on. -/
def placed (rle : Bool) : Nat → List Glyph → List QFFGlyphInfo
  | _, [] => []
  | start, g :: rest => ⟨g.codePoint, g.w, start⟩ :: placed rle (start + (g.imageBytes rle).length) rest

section Placed

variable {rle : Bool}

theorem bytes_some {l : List Nat} {data : List UInt8} (h : bytes l = some data) : data = l.map UInt8.ofNat := by
  rw [bytes] at h
  split at h
  · exact (Option.some.inj h).symm
  · cases h

theorem appendGlyphs_some (glyphs : List Glyph) : ∀ {imgBuffer : List UInt8} {r : List QFFGlyphInfo × List UInt8},
    appendGlyphs rle imgBuffer glyphs = some r →
    r = (placed rle imgBuffer.length glyphs, imgBuffer ++ imageData rle glyphs) := by
  induction glyphs with
  | nil =>
    intro imgBuffer r h
    simp only [appendGlyphs, Option.some.injEq] at h
    simp [← h, placed, imageData]
  | cons g rest ih =>
    intro imgBuffer r h
    simp only [appendGlyphs, Option.bind_eq_bind, Option.bind_eq_some_iff, Option.some.injEq] at h
    obtain ⟨data, hdata, x, hx, rfl⟩ := h
    have here : data = g.imageBytes rle := bytes_some hdata
    rw [ih hx, here]
    simp [placed, imageData]

theorem placed_keys (start : Nat) (glyphs : List Glyph) :
    (placed rle start glyphs).map QFFGlyphInfo.codePoint = glyphs.map Glyph.codePoint := by
  induction glyphs generalizing start with
  | nil => rfl
  | cons g rest ih => simp only [placed, List.map_cons, ih]

theorem mem_placed {start : Nat} {glyphs : List Glyph} {info : QFFGlyphInfo} (h : info ∈ placed rle start glyphs) :
    ∃ before g later, glyphs = before ++ g :: later ∧
      info = ⟨g.codePoint, g.w, start + (imageData rle before).length⟩ := by
  induction glyphs generalizing start with
  | nil => cases h
  | cons g rest ih =>
    rcases List.mem_cons.1 h with rfl | h
    · exact ⟨[], g, rest, rfl, rfl⟩
    · obtain ⟨before, g', later, rfl, rfl⟩ := ih h
      refine ⟨g :: before, g', later, rfl, ?_⟩
      simp [imageData, Nat.add_assoc]

theorem placed_mem (start : Nat) (before : List Glyph) (g : Glyph) (later : List Glyph) :
    ⟨g.codePoint, g.w, start + (imageData rle before).length⟩ ∈ placed rle start (before ++ g :: later) := by
  induction before generalizing start with
  | nil => exact List.mem_cons_self
  | cons g' before ih =>
    refine List.mem_cons_of_mem _ ?_
    have next := ih (start + (g'.imageBytes rle).length)
    simpa [imageData, Nat.add_assoc] using next

end Placed

section Entry

variable (pil : PilBinary) {info : QFFGlyphInfo}

theorem value_lt (info : QFFGlyphInfo) : info.value < 2 ^ 24 := by
  apply Nat.or_lt_two_pow
  · exact Nat.lt_of_le_of_lt Nat.and_le_right (by decide)
  · exact Nat.lt_of_le_of_lt Nat.and_le_right (by decide)

/-- The writer's two fields, where they fit. -/
theorem value_eq (hw : info.w ≤ 63) (ho : info.dataOffset < 2 ^ 18) : info.value = 2 ^ 6 * info.dataOffset + info.w := by
  have offset : (info.dataOffset <<< 6) &&& 0xFFFFC0 = 2 ^ 6 * info.dataOffset := by
    have masked := and_high info.dataOffset (2 ^ 18 - 1) (show 0 < 2 ^ 6 by decide)
    rw [Nat.and_two_pow_sub_one_eq_mod, Nat.mod_eq_of_lt ho] at masked
    rw [Nat.shiftLeft_eq, Nat.mul_comm]
    exact masked
  have width : info.w &&& 0x3F = info.w := by
    rw [show 0x3F = 2 ^ 6 - 1 from rfl, Nat.and_two_pow_sub_one_eq_mod]
    exact Nat.mod_eq_of_lt (by omega)
  rw [QFFGlyphInfo.value, offset, width]
  exact or_low _ (by omega)

/-- The reader gets the two fields back. -/
theorem glyphWidth_value (hw : info.w ≤ 63) (ho : info.dataOffset < 2 ^ 18) :
    FontHandle.glyphWidth info.value = UInt8.ofNat info.w := by
  rw [FontHandle.glyphWidth, value_eq hw ho, show 1 <<< 6 - 1 = 2 ^ 6 - 1 from rfl, Nat.and_two_pow_sub_one_eq_mod]
  congr 1
  omega

theorem glyphOffset_value (hw : info.w ≤ 63) (ho : info.dataOffset < 2 ^ 18) :
    FontHandle.glyphOffset info.value = info.dataOffset := by
  rw [FontHandle.glyphOffset, value_eq hw ho, show (1 <<< 18 - 1) <<< 6 = 2 ^ 6 * (2 ^ 18 - 1) from rfl,
    and_high _ _ (by omega), Nat.and_two_pow_sub_one_eq_mod, Nat.mod_eq_of_lt ho, Nat.shiftRight_eq_div_pow]
  exact Nat.mul_div_cancel_left _ (by decide)

theorem length_info_write (includeCodePoint : Bool) :
    (info.write pil includeCodePoint).length = if includeCodePoint then 6 else 3 := by
  cases includeCodePoint <;> simp [QFFGlyphInfo.write, o24_eq]

theorem member_value : member (info.write pil false) 0 3 = info.value := by
  simp only [QFFGlyphInfo.write, o24_eq, Bool.false_eq_true, if_false, List.nil_append]
  exact ofBytes_toBytes (n := 3) (value_lt info)

theorem member_entry (h : info.codePoint < 2 ^ 24) : member (info.write pil true) 0 3 = info.codePoint ∧
    member (info.write pil true) 3 3 = info.value := by
  rw [QFFGlyphInfo.write, o24_eq, o24_eq]
  exact ⟨ofBytes_toBytes (n := 3) h, ofBytes_toBytes (n := 3) (value_lt info)⟩

/-- The scan over the Unicode table finds the first entry of the code point. -/
theorem findUnicode_entries (codePoint : Nat) (infos : List QFFGlyphInfo) :
    ∀ {s : Stream} {rest : List UInt8}, (∀ info ∈ infos, info.codePoint < 2 ^ 24) →
    s.ahead = (infos.flatMap fun info => info.write pil true) ++ rest →
    (FontHandle.findUnicode codePoint infos.length s).1 =
        (infos.find? fun info => info.codePoint == codePoint).map QFFGlyphInfo.value ∧
      (FontHandle.findUnicode codePoint infos.length s).2.buffer = s.buffer := by
  induction infos with
  | nil => exact fun _ _ => ⟨rfl, rfl⟩
  | cons info infos ih =>
    intro s rest small ahead
    obtain ⟨key, value⟩ := member_entry pil (small info List.mem_cons_self)
    rw [List.flatMap_cons, List.append_assoc] at ahead
    have read := Stream.read_ahead ahead (length_info_write pil true)
    have next := Stream.ahead_advance ahead
    rw [length_info_write] at next
    simp only [if_true] at read next
    rw [List.length_cons, FontHandle.findUnicode, read]
    simp only [key, value]
    by_cases here : info.codePoint = codePoint
    · rw [if_pos here, List.find?_cons_of_pos (by simpa using here)]
      exact ⟨rfl, rfl⟩
    · rw [if_neg here, List.find?_cons_of_neg (by simpa using here)]
      exact ih (fun x hx => small x (List.mem_cons_of_mem _ hx)) next

end Entry

/-! ## The file -/

/-- The size of the palette's block -/
def Format.paletteSize (format : Format) : Nat := if format.hasPalette then blockHeaderSize + format.numColors * 3 else 0

namespace QFFFont

variable {format : Format} (font : QFFFont format) (rle : Bool)

/-- The glyphs' entries, with their places in the data -/
def infos : List QFFGlyphInfo := placed rle 0 font.glyphData

/-- The font has every glyph of the ASCII table. -/
def hasAscii : Bool := asciiRange.all fun n => font.glyphData.any fun g => g.codePoint == n

/-- The code point is looked up in the ASCII table. -/
def inAscii (codePoint : Nat) : Bool := decide (0x20 ≤ codePoint ∧ codePoint ≤ 0x7E) && font.hasAscii

def asciiTable : List QFFGlyphInfo := (font.infos rle).filter fun g => font.inAscii g.codePoint

def unicodeTable : List QFFGlyphInfo := (font.infos rle).filter fun g => !font.inAscii g.codePoint

theorem infos_keys : (font.infos rle).map QFFGlyphInfo.codePoint = font.glyphData.map Glyph.codePoint :=
  placed_keys 0 font.glyphData

theorem infos_unicode {info : QFFGlyphInfo} (h : info ∈ font.infos rle) : info.codePoint < 0x110000 := by
  have key := List.mem_map_of_mem (f := QFFGlyphInfo.codePoint) h
  rw [infos_keys] at key
  obtain ⟨g, hg, e⟩ := List.mem_map.1 key
  rw [← e]
  exact font.unicode g hg

/-- There are not more glyphs than code points. -/
theorem length_infos : (font.infos rle).length ≤ 0x110000 := by
  have keys := font.keys
  rw [← infos_keys font rle] at keys
  have within : (font.infos rle).map QFFGlyphInfo.codePoint ⊆ List.range 0x110000 := by
    intro n hn
    obtain ⟨info, hinfo, rfl⟩ := List.mem_map.1 hn
    exact List.mem_range.2 (font.infos_unicode rle hinfo)
  have le := (List.subperm_of_subset keys within).length_le
  rwa [List.length_map, List.length_range] at le

theorem length_unicodeTable : (font.unicodeTable rle).length ≤ 0x110000 :=
  Nat.le_trans (List.length_filter_le _ _) (font.length_infos rle)

/-- A code point has one entry. -/
theorem infos_unique {a b : QFFGlyphInfo} (ha : a ∈ font.infos rle) (hb : b ∈ font.infos rle)
    (h : a.codePoint = b.codePoint) : a = b := by
  have keys := font.keys
  rw [← infos_keys font rle] at keys
  exact List.inj_on_of_nodup_map keys ha hb h

/-- The sizes of the blocks that depend on the font -/
def asciiSize : Nat := if font.hasAscii then asciiGlyphTableSize else 0

def unicodeSize : Nat :=
  if 0 < (font.unicodeTable rle).length then blockHeaderSize + (font.unicodeTable rle).length * 6 else 0

/-- The descriptor, for a file of this size -/
def descriptor (totalFileSize : Nat) : QFFFontDescriptor where
  totalFileSize
  lineHeight := font.glyphHeight
  hasAsciiTable := font.hasAscii
  unicodeGlyphCount := (font.unicodeTable rle).length
  format := format.imageFormatByte
  compression := if rle then 0x01 else 0x00

def unicodeBlock (pil : PilBinary) : List UInt8 :=
  if 0 < (font.unicodeTable rle).length then writeUnicodeTable pil (font.unicodeTable rle) else []

def paletteBlock (pil : PilBinary) : List UInt8 := if format.hasPalette then writePalette pil font.palette else []

/-- Where the glyphs' data starts in the file -/
def dataStart : Nat :=
  fontDescriptorSize + font.asciiSize + font.unicodeSize rle + format.paletteSize + blockHeaderSize

end QFFFont

/-- A file of `save_to_qff`, block by block -/
structure Shape (pil : PilBinary) {format : Format} (font : QFFFont format) (rle : Bool)
    (ascii file : List UInt8) : Prop where
  file_eq : file = (font.descriptor rle file.length).write pil ++ (ascii ++ (font.unicodeBlock rle pil ++
    (font.paletteBlock pil ++ writeData pil (imageData rle font.glyphData))))
  ascii_eq : (if font.hasAscii then writeAsciiTable pil (font.asciiTable rle) else some []) = some ascii
  data : (imageData rle font.glyphData).length < 2 ^ 18
  small : file.length < 2 ^ 32

section Save

variable (pil : PilBinary) {format : Format} {font : QFFFont format} {rle : Bool}

theorem mapM_some {α β : Type} {f : α → Option β} {l : List α} : ∀ {row : List β}, l.mapM f = some row →
    List.Forall₂ (fun a b => f a = some b) l row := by
  induction l with
  | nil =>
    intro row h
    cases h
    exact .nil
  | cons a l ih =>
    intro row h
    simp only [List.mapM_cons, Option.bind_eq_bind, Option.bind_eq_some_iff, Option.pure_def, Option.some.injEq] at h
    obtain ⟨b, hb, row, hrow, rfl⟩ := h
    exact .cons hb (ih hrow)

/-- The table's rows are the entries of the code points, in order. -/
theorem writeAsciiTable_some {glyphs : List QFFGlyphInfo} {table : List UInt8}
    (h : writeAsciiTable pil glyphs = some table) :
    ∃ row, List.Forall₂ (fun n info => (glyphs.find? fun g => g.codePoint == n) = some info) asciiRange row ∧
      table = blockHeader pil 0x01 (95 * 3) ++ row.flatMap fun info => info.write pil false := by
  simp only [writeAsciiTable, Option.bind_eq_bind, Option.bind_eq_some_iff, Option.some.injEq] at h
  obtain ⟨row, hrow, rfl⟩ := h
  exact ⟨row, mapM_some hrow, rfl⟩

theorem length_flatMap_write (infos : List QFFGlyphInfo) (includeCodePoint : Bool) :
    (infos.flatMap fun info => info.write pil includeCodePoint).length =
      infos.length * if includeCodePoint then 6 else 3 := by
  induction infos with
  | nil => simp
  | cons info infos ih => rw [List.flatMap_cons, List.length_append, ih, length_info_write, List.length_cons, Nat.add_mul,
      Nat.one_mul, Nat.add_comm]

theorem length_writeAsciiTable {glyphs : List QFFGlyphInfo} {table : List UInt8}
    (h : writeAsciiTable pil glyphs = some table) : table.length = asciiGlyphTableSize := by
  obtain ⟨row, rows, rfl⟩ := writeAsciiTable_some pil h
  have rowLength := rows.length_eq
  rw [List.length_append, length_blockHeader, length_flatMap_write, ← rowLength]
  rfl

theorem length_writeUnicodeTable (glyphs : List QFFGlyphInfo) :
    (writeUnicodeTable pil glyphs).length = blockHeaderSize + glyphs.length * 6 := by
  rw [writeUnicodeTable, List.length_append, length_blockHeader, length_flatMap_write, List.length_mergeSort]
  rfl

theorem length_writePalette (entries : List (Nat × Nat × Nat)) :
    (writePalette pil entries).length = blockHeaderSize + entries.length * 3 := by
  rw [writePalette, List.length_append, length_blockHeader]
  congr 1
  induction entries with
  | nil => rfl
  | cons e entries ih =>
    obtain ⟨h, s, v⟩ := e
    rw [List.flatMap_cons, List.length_append, ih, List.length_cons]
    simp only [pil.o8_eq, List.length_append, length_toBytes]
    omega

theorem length_ascii {ascii : List UInt8}
    (h : (if font.hasAscii then writeAsciiTable pil (font.asciiTable rle) else some []) = some ascii) :
    ascii.length = font.asciiSize := by
  rw [QFFFont.asciiSize]
  split at h
  case isTrue has => rw [if_pos has, length_writeAsciiTable pil h]
  case isFalse none =>
    rw [if_neg none, ← Option.some.inj h]
    rfl

theorem length_unicodeBlock : (font.unicodeBlock rle pil).length = font.unicodeSize rle := by
  rw [QFFFont.unicodeBlock, QFFFont.unicodeSize]
  split
  · exact length_writeUnicodeTable pil _
  · rfl

theorem length_paletteBlock : (font.paletteBlock pil).length = format.paletteSize := by
  rw [QFFFont.paletteBlock, Format.paletteSize]
  split
  case isTrue has => rw [length_writePalette, font.colors has]
  case isFalse => rfl

theorem unicodeSize_le : font.unicodeSize rle ≤ 5 + 0x110000 * 6 := by
  have le := font.length_unicodeTable rle
  rw [QFFFont.unicodeSize]
  split
  · simp only [blockHeaderSize]
    omega
  · exact Nat.zero_le _

theorem paletteSize_le (format : Format) : format.paletteSize ≤ 773 := by
  cases format <;> decide

/-- What `save_to_qff` writes. -/
theorem saveToQff_shape {useRle : Bool} {file : List UInt8} (written : saveToQff pil font useRle = some file)
    (data : (imageData (font.usesRle useRle) font.glyphData).length < 2 ^ 18) :
    ∃ ascii, Shape pil font (font.usesRle useRle) ascii file := by
  simp only [saveToQff, Option.bind_eq_bind, Option.bind_eq_some_iff, Option.some.injEq] at written
  obtain ⟨r, appended, ascii, ascii_eq, file_eq⟩ := written
  generalize font.usesRle useRle = rle at *
  have r_eq : r = (font.infos rle, imageData rle font.glyphData) := appendGlyphs_some font.glyphData appended
  subst r_eq
  have hasAscii : (asciiRange.all fun n => (font.infos rle).any fun g => g.codePoint == n) = font.hasAscii := by
    rw [QFFFont.hasAscii]
    congr 1
    funext n
    have keys := congrArg (fun l => l.any (· == n)) (font.infos_keys rle)
    simp only [List.any_map] at keys
    exact keys
  simp only [hasAscii] at ascii_eq file_eq
  change (font.descriptor rle (((font.descriptor rle 0).write pil).length +
      (ascii ++ font.unicodeBlock rle pil ++ font.paletteBlock pil ++
        writeData pil (imageData rle font.glyphData)).length)).write pil ++
    (ascii ++ font.unicodeBlock rle pil ++ font.paletteBlock pil ++ writeData pil (imageData rle font.glyphData)) =
      file at file_eq
  rw [length_write pil (d := font.descriptor rle 0) (by decide : 0 < 2 ^ 32)] at file_eq
  have blocks : (ascii ++ font.unicodeBlock rle pil ++ font.paletteBlock pil ++
      writeData pil (imageData rle font.glyphData)).length < 2 ^ 32 - 25 := by
    have unicode := @unicodeSize_le format font rle
    have palette := paletteSize_le format
    have table : font.asciiSize ≤ 290 := by
      rw [QFFFont.asciiSize]
      split <;> decide
    simp only [List.length_append, length_ascii pil ascii_eq, length_unicodeBlock, length_paletteBlock, writeData,
      length_blockHeader]
    omega
  have length := congrArg List.length file_eq
  rw [List.length_append, length_write pil (by simp only [QFFFont.descriptor]; omega)] at length
  rw [length] at file_eq
  simp only [List.append_assoc] at file_eq
  exact ⟨ascii, file_eq.symm, ascii_eq, data, by omega⟩

end Save

/-! ## Loading the file -/

/-- What the handle holds after a load. -/
structure Loaded {format : Format} (font : QFFFont format) (rle : Bool) (file : List UInt8) (f : FontHandle) : Prop where
  hasAscii : f.hasAsciiTable = font.hasAscii
  count : f.numUnicodeGlyphs = (font.unicodeTable rle).length % 2 ^ 16
  palette : f.hasPalette = format.hasPalette
  bpp : f.bpp = format.bpp
  buffer : f.stream.buffer = file

theorem parseFormat_byte (format : Format) : parseFormat format.imageFormatByte = some (format.bpp, format.hasPalette) := by
  cases format <;> rfl

section Load

variable {pil : PilBinary} {format : Format} {font : QFFFont format} {rle : Bool} {ascii file : List UInt8}

theorem Shape.readDescriptor (h : Shape pil font rle ascii file) {s : Stream} {rest : List UInt8}
    (hs : s.buffer = (font.descriptor rle file.length).write pil ++ rest) :
    readFontDescriptor s =
      (some (font.descriptor rle file.length).stored, { s with position := 25, isEof := false }) := by
  refine readFontDescriptor_write pil h.small ?_ ?_ hs
  · change format.imageFormatByte < 256
    cases format <;> decide
  · simp only [QFFFont.descriptor]
    split <;> decide

/-- Behind the descriptor -/
theorem Shape.drop_descriptor (h : Shape pil font rle ascii file) :
    file.drop fontDescriptorSize = ascii ++ (font.unicodeBlock rle pil ++
      (font.paletteBlock pil ++ writeData pil (imageData rle font.glyphData))) := by
  have length := length_write pil (d := font.descriptor rle file.length) h.small
  conv_lhs => rw [h.file_eq]
  exact List.drop_left' length

/-- Behind the ASCII table -/
theorem Shape.drop_ascii (h : Shape pil font rle ascii file) :
    file.drop (fontDescriptorSize + font.asciiSize) = font.unicodeBlock rle pil ++
      (font.paletteBlock pil ++ writeData pil (imageData rle font.glyphData)) := by
  rw [← List.drop_drop, h.drop_descriptor]
  exact List.drop_left' (length_ascii pil h.ascii_eq)

/-- The data of the glyphs is the end of the file. -/
theorem Shape.drop_data (h : Shape pil font rle ascii file) :
    file.drop (font.dataStart rle) = imageData rle font.glyphData := by
  rw [QFFFont.dataStart, ← List.drop_drop, ← List.drop_drop, ← List.drop_drop, h.drop_ascii,
    List.drop_left' (length_unicodeBlock pil), List.drop_left' (length_paletteBlock pil), writeData, drop_blockHeader]

theorem Shape.length_file (h : Shape pil font rle ascii file) :
    file.length = font.dataStart rle + (imageData rle font.glyphData).length := by
  conv_lhs => rw [h.file_eq]
  simp only [List.length_append, length_write pil (d := font.descriptor rle file.length) h.small,
    length_ascii pil h.ascii_eq, length_unicodeBlock, length_paletteBlock, writeData, length_blockHeader,
    QFFFont.dataStart, fontDescriptorSize, blockHeaderSize]
  omega

/-- The table's header passes if and only if the field holds the count. -/
theorem validateUnicode_block {s : Stream} {n : Nat} (hn : 0 < n)
    (le : n ≤ (font.unicodeTable rle).length) (hs : s.ahead = font.unicodeBlock rle pil ++
      (font.paletteBlock pil ++ writeData pil (imageData rle font.glyphData))) :
    ((validateUnicodeDescriptor s n).1 = true ↔ n = (font.unicodeTable rle).length) ∧
      (validateUnicodeDescriptor s n).2.buffer = s.buffer := by
  have most := font.length_unicodeTable rle
  rw [QFFFont.unicodeBlock, if_pos (Nat.lt_of_lt_of_le hn le), writeUnicodeTable, List.append_assoc] at hs
  have header : validateBlockHeader (blockHeader pil 0x02 ((font.unicodeTable rle).length * 6)) 0x02 (n * 6) = true ↔
      (font.unicodeTable rle).length * 6 = n * 6 := by
    have iff := validateBlockHeader_iff pil (by decide : 0x02 < 256)
      (by omega : (font.unicodeTable rle).length * 6 < 2 ^ 24) (n := n * 6) []
    rwa [List.append_nil] at iff
  have read : s.read blockHeaderSize = _ := Stream.read_ahead hs (length_blockHeader pil _ _)
  rw [validateUnicodeDescriptor, read]
  simp only
  by_cases eq : n = (font.unicodeTable rle).length
  · rw [if_neg (by rw [not_not, header, eq])]
    refine ⟨iff_of_true rfl eq, ?_⟩
    simp only [Stream.setpos]
    split <;> rfl
  · rw [if_pos (by rw [header]; omega)]
    exact ⟨iff_of_false Bool.false_ne_true eq, rfl⟩

theorem Shape.validate (h : Shape pil font rle ascii file) {s : Stream} (hs : s.buffer = file) :
    ((validateStream s).1 = true ↔ (font.unicodeTable rle).length % 2 ^ 16 = 0 ∨
      (font.unicodeTable rle).length % 2 ^ 16 = (font.unicodeTable rle).length) ∧
    (validateStream s).2.buffer = file := by
  rw [validateStream, h.readDescriptor (hs.trans h.file_eq)]
  -- what stands before the Unicode table
  have tables : ∃ s', s'.buffer = file ∧ s'.ahead = font.unicodeBlock rle pil ++
        (font.paletteBlock pil ++ writeData pil (imageData rle font.glyphData)) ∧
      (if font.hasAscii then validateAsciiDescriptor { s with position := 25, isEof := false }
        else (true, { s with position := 25, isEof := false })) = (true, s') := by
    have ahead : ({ s with position := 25, isEof := false } : Stream).ahead = _ :=
      (congrArg (List.drop 25) hs).trans h.drop_descriptor
    have ascii_eq := h.ascii_eq
    split
    case isTrue has =>
      rw [if_pos has] at ascii_eq
      have length := length_writeAsciiTable pil ascii_eq
      refine ⟨{ s with position := 25 + asciiGlyphTableSize, isEof := false }, hs, ?_, ?_⟩
      · have next := Stream.ahead_advance ahead
        rwa [length] at next
      · rw [validateAsciiDescriptor, Stream.read_ahead ahead length]
        obtain ⟨row, -, rfl⟩ := writeAsciiTable_some pil ascii_eq
        have header := (validateBlockHeader_iff pil (by decide : 0x01 < 256) (by decide : 95 * 3 < 2 ^ 24)
          (row.flatMap fun info => info.write pil false)).2 rfl
        exact Prod.ext header rfl
    case isFalse has =>
      rw [if_neg has] at ascii_eq
      refine ⟨{ s with position := 25, isEof := false }, hs, ?_, rfl⟩
      rw [ahead, ← Option.some.inj ascii_eq, List.nil_append]
  obtain ⟨s', buffer, ahead, e⟩ := tables
  have table : (if (font.descriptor rle file.length).stored.hasAsciiTable then
      validateAsciiDescriptor { s with position := 25, isEof := false }
      else (true, { s with position := 25, isEof := false })) = (true, s') := e
  simp only [table]
  change ((if 0 < (font.unicodeTable rle).length % 2 ^ 16 then
      validateUnicodeDescriptor s' ((font.unicodeTable rle).length % 2 ^ 16) else (true, s')).1 = true ↔ _) ∧
    (if 0 < (font.unicodeTable rle).length % 2 ^ 16 then
      validateUnicodeDescriptor s' ((font.unicodeTable rle).length % 2 ^ 16) else (true, s')).2.buffer = file
  split
  case isTrue pos =>
    obtain ⟨accepts, same⟩ := validateUnicode_block pos (Nat.mod_le _ _) ahead
    exact ⟨by rw [accepts]; exact ⟨Or.inr, fun or => or.resolve_left (Nat.ne_of_gt pos)⟩, same.trans buffer⟩
  case isFalse zero =>
    exact ⟨iff_of_true rfl (Or.inl (Nat.eq_zero_of_not_pos zero)), buffer⟩

/-- **The load.** It succeeds if and only if the field for the number of Unicode glyphs says zero or their number. -/
theorem Shape.load (h : Shape pil font rle ascii file) {support : Support} (capable : bppCapable support format.bpp = true)
    (slot : FontHandle) (rest : List UInt8) :
    ((loadFontMem support slot (file ++ rest)).isSome ↔ (font.unicodeTable rle).length % 2 ^ 16 = 0 ∨
      (font.unicodeTable rle).length % 2 ^ 16 = (font.unicodeTable rle).length) ∧
    ∀ f, loadFontMem support slot (file ++ rest) = some f → Loaded font rle file f := by
  have length := length_write pil (d := font.descriptor rle file.length) h.small
  have first : (Stream.make (file ++ rest) fontDescriptorSize).buffer =
      (font.descriptor rle file.length).write pil ++ [] := by
    rw [Stream.make, List.append_nil]
    simp only
    conv_lhs => rw [h.file_eq]
    rw [List.append_assoc]
    exact List.take_left' length
  have total : getTotalSize (.make (file ++ rest) fontDescriptorSize) = file.length := by
    rw [getTotalSize, h.readDescriptor first]
    rfl
  have whole : (Stream.make (file ++ rest) file.length).buffer = file := List.take_left
  obtain ⟨accepts, buffer⟩ := h.validate whole
  unfold loadFontMem
  rw [total]
  generalize validateStream (.make (file ++ rest) file.length) = result at accepts buffer ⊢
  obtain ⟨ok, stream⟩ := result
  cases ok with
  | false =>
    refine ⟨accepts, fun f hf => ?_⟩
    cases hf
  | true =>
    have loaded : Loaded font rle file (slot.readInfo stream) := by
      have known : parseFormat (font.descriptor rle file.length).stored.format = some (format.bpp, format.hasPalette) :=
        parseFormat_byte format
      rw [FontHandle.readInfo, h.readDescriptor (buffer.trans h.file_eq)]
      simp only [known]
      exact ⟨rfl, rfl, rfl, rfl, buffer⟩
    simp only [loaded.bpp, capable, if_true]
    refine ⟨accepts, fun f hf => ?_⟩
    rw [← Option.some.inj hf]
    exact loaded

end Load

end QmkFirmware.Painter
