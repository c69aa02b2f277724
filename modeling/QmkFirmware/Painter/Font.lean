import QmkFirmware.Painter.Codec
import QmkFirmware.Lib.LittleEndian

/-!
# Quantum Painter's fonts, on both sides

`painter_qff.py` writes a font as a descriptor, up to three tables and the data of
the glyphs; `qff.c` and `qp_draw_text.c` load such a file from memory and look a
code point up in it. A file's offsets stay below 2^32, so they are naturals.
-/

namespace QmkFirmware.Painter

open Lib

/-! ## painter.py -/

/-- The entries of `valid_formats` -/
inductive Format where
  | rgb888 | rgb565 | pal256 | pal16 | pal4 | pal2 | mono256 | mono16 | mono4 | mono2
  deriving DecidableEq, Repr

namespace Format

def bpp : Format → Nat
  | rgb888 => 24
  | rgb565 => 16
  | pal256 | mono256 => 8
  | pal16 | mono16 => 4
  | pal4 | mono4 => 2
  | pal2 | mono2 => 1

def hasPalette : Format → Bool
  | pal256 | pal16 | pal4 | pal2 => true
  | _ => false

def numColors (format : Format) : Nat := 2 ^ format.bpp

def imageFormatByte : Format → Nat
  | rgb888 => 0x09
  | rgb565 => 0x08
  | pal256 => 0x07
  | pal16 => 0x06
  | pal4 => 0x05
  | pal2 => 0x04
  | mono256 => 0x03
  | mono16 => 0x02
  | mono4 => 0x01
  | mono2 => 0x00

end Format

/-! ## painter_qff.py -/

/-- The packers of `PIL._binary`, and what is documented of them. -/
structure PilBinary where
  o8 : Nat → List UInt8
  o16le : Nat → List UInt8
  o32le : Nat → List UInt8
  o8_eq : ∀ i, o8 i = toBytes 1 i
  o16le_eq : ∀ {i}, i < 2 ^ 16 → o16le i = toBytes 2 i
  o32le_eq : ∀ {i}, i < 2 ^ 32 → o32le i = toBytes 4 i

/-- `~x & (2 ** bits - 1)` on Python's integers -/
def inverted (bits x : Nat) : Nat := 2 ^ bits - 1 - x % 2 ^ bits

/-- `glyph_data`'s value for a code point, once `_extract_glyphs` has cut its image out. -/
structure Glyph where
  codePoint : Nat
  w : Nat
  imageUncompressedBytes : List Nat

/-- `image_compressed_bytes` -/
def Glyph.imageCompressedBytes (g : Glyph) : List Nat := compressBytesQmkRle g.imageUncompressedBytes

/-- A `QFFFont` with an image in this format. `glyph_data` is a dictionary, and an image
has one glyph at least; the palette is what `rgb888_to_qmk_hsv888` makes of it. -/
structure QFFFont (format : Format) where
  glyphHeight : Nat
  glyphData : List Glyph
  palette : List (Nat × Nat × Nat)
  nonempty : glyphData ≠ []
  keys : (glyphData.map Glyph.codePoint).Nodup
  unicode : ∀ g ∈ glyphData, g.codePoint < 0x110000
  colors : format.hasPalette = true → palette.length = format.numColors

/-- `QFFGlyphInfo` -/
structure QFFGlyphInfo where
  codePoint : Nat
  w : Nat
  dataOffset : Nat
  deriving DecidableEq, Repr

/-- `QFFFontDescriptor`; its other fields are constants. -/
structure QFFFontDescriptor where
  totalFileSize : Nat
  lineHeight : Nat
  hasAsciiTable : Bool
  unicodeGlyphCount : Nat
  format : Nat
  compression : Nat

section Write

variable (pil : PilBinary)

def o24 (i : Nat) : List UInt8 := pil.o16le (i &&& 0xFFFF) ++ pil.o8 ((i &&& 0xFF0000) >>> 16)

/-- `QGFBlockHeader.write` -/
def blockHeader (typeId length : Nat) : List UInt8 :=
  pil.o8 typeId ++ pil.o8 (inverted 8 typeId) ++ o24 pil length

/-- The number that `QFFGlyphInfo.write` stores. -/
def QFFGlyphInfo.value (g : QFFGlyphInfo) : Nat := ((g.dataOffset <<< 6) &&& 0xFFFFC0) ||| (g.w &&& 0x3F)

def QFFGlyphInfo.write (g : QFFGlyphInfo) (includeCodePoint : Bool) : List UInt8 :=
  (if includeCodePoint then o24 pil g.codePoint else []) ++ o24 pil g.value

def QFFFontDescriptor.write (d : QFFFontDescriptor) : List UInt8 :=
  blockHeader pil 0x00 20 ++ o24 pil 0x464651 ++ pil.o8 1 ++ pil.o32le d.totalFileSize ++
    pil.o32le (inverted 32 d.totalFileSize) ++ pil.o8 d.lineHeight ++ pil.o8 (if d.hasAsciiTable then 1 else 0) ++
    pil.o16le (d.unicodeGlyphCount &&& 0xFFFF) ++ pil.o8 d.format ++ pil.o8 0 ++ pil.o8 d.compression ++ pil.o8 0xFF

/-- `range(0x20, 0x7F)` -/
def asciiRange : List Nat := List.range' 0x20 95

/-- `QFFAsciiGlyphTableV1.write`; `none` is a `KeyError`. -/
def writeAsciiTable (glyphs : List QFFGlyphInfo) : Option (List UInt8) := do
  let row ← asciiRange.mapM fun n => glyphs.find? fun g => g.codePoint == n
  some (blockHeader pil 0x01 (95 * 3) ++ row.flatMap fun g => g.write pil false)

/-- `QFFUnicodeGlyphTableV1.write` -/
def writeUnicodeTable (glyphs : List QFFGlyphInfo) : List UInt8 :=
  blockHeader pil 0x02 (glyphs.length * 6) ++
    (glyphs.mergeSort fun a b => a.codePoint ≤ b.codePoint).flatMap fun g => g.write pil true

/-- `QGFFramePaletteDescriptorV1.write` -/
def writePalette (entries : List (Nat × Nat × Nat)) : List UInt8 :=
  blockHeader pil 0x03 (entries.length * 3) ++
    entries.flatMap fun (h, s, v) => pil.o8 h ++ pil.o8 s ++ pil.o8 v

/-- `QFFFontDataDescriptorV1.write` -/
def writeData (data : List UInt8) : List UInt8 := blockHeader pil 0x04 data.length ++ data

/-- The loop of `save_to_qff` that fills `img_buffer`. -/
def appendGlyphs (useRle : Bool) (imgBuffer : List UInt8) :
    List Glyph → Option (List QFFGlyphInfo × List UInt8)
  | [] => some ([], imgBuffer)
  | g :: rest => do
    let data ← bytes (if useRle then g.imageCompressedBytes else g.imageUncompressedBytes)
    let (infos, buffer) ← appendGlyphs useRle (imgBuffer ++ data) rest
    some (⟨g.codePoint, g.w, imgBuffer.length⟩ :: infos, buffer)

/-- Whether `save_to_qff` uses RLE: only where it makes the data smaller. -/
def QFFFont.usesRle {format : Format} (font : QFFFont format) (useRle : Bool) : Bool :=
  let totalDataSize : Nat := (font.glyphData.map fun g => g.imageUncompressedBytes.length).sum
  let totalRleDataSize : Nat := (font.glyphData.map fun g => g.imageCompressedBytes.length).sum
  useRle && decide (totalRleDataSize < totalDataSize)

/-- `QFFFont.save_to_qff`, to a file that is empty; `none` is an exception. -/
def saveToQff {format : Format} (font : QFFFont format) (useRle : Bool) : Option (List UInt8) := do
  let useRle := font.usesRle useRle
  let (glyphs, imgBuffer) ← appendGlyphs useRle [] font.glyphData
  let includeAsciiGlyphs := asciiRange.all fun n => glyphs.any fun g => g.codePoint == n
  let inAsciiTable := fun g : QFFGlyphInfo => decide (0x20 ≤ g.codePoint ∧ g.codePoint ≤ 0x7E) && includeAsciiGlyphs
  let asciiTable := glyphs.filter inAsciiTable
  let unicodeTable := glyphs.filter fun g => !inAsciiTable g
  let fontDescriptor : QFFFontDescriptor := {
    totalFileSize := 0
    lineHeight := font.glyphHeight
    hasAsciiTable := includeAsciiGlyphs
    unicodeGlyphCount := unicodeTable.length
    format := format.imageFormatByte
    compression := if useRle then 0x01 else 0x00 }
  let ascii ← (if includeAsciiGlyphs then writeAsciiTable pil asciiTable else some [])
  let unicode := if 0 < unicodeTable.length then writeUnicodeTable pil unicodeTable else []
  let palette := if format.hasPalette then writePalette pil font.palette else []
  let blocks := ascii ++ unicode ++ palette ++ writeData pil imgBuffer
  -- The descriptor is written a second time, when the size of the file is known.
  let totalFileSize := (fontDescriptor.write pil).length + blocks.length
  some ({ fontDescriptor with totalFileSize }.write pil ++ blocks)

end Write

/-! ## qp_stream.c -/

namespace Stream

/-- `qp_make_memory_stream` -/
def make (buffer : List UInt8) (length : Nat) : Stream := ⟨buffer.take length, 0, false⟩

/-- `mem_seek` from the start (`SEEK_SET`) -/
def setpos (s : Stream) (offset : Nat) : Int × Stream :=
  if s.buffer.length < offset then (-1, s) else (0, { s with position := offset, isEof := false })

/-- The loop of `qp_stream_read` -/
def readBytes : Nat → Stream → List UInt8 × Stream
  | 0, s => ([], s)
  | n + 1, s =>
    let (c, s) := s.get
    if c < 0 then ([], s)
    else
      let (l, s) := readBytes n s
      (toUInt8 c :: l, s)

/-- `qp_stream_read` of one member of `size` bytes; `none` unless it returns 1. -/
def read (s : Stream) (size : Nat) : Option (List UInt8) × Stream :=
  let (l, s) := s.readBytes size
  (if l.length = size then some l else none, s)

end Stream

/-! ## qgf.c and qff.c -/

/-- The member of a packed structure that takes `size` bytes at `offset`. -/
def member (l : List UInt8) (offset size : Nat) : Nat := ofBytes ((l.drop offset).take size)

/-- `qgf_validate_block_header` -/
def validateBlockHeader (desc : List UInt8) (expectedTypeid expectedLength : Nat) : Bool :=
  member desc 0 1 == expectedTypeid && member desc 1 1 == inverted 8 expectedTypeid &&
    member desc 2 3 == expectedLength

/-- `qgf_parse_format`: the bits of a pixel, and whether there is a palette. -/
def parseFormat (format : Nat) : Option (Nat × Bool) :=
  [(1, false), (2, false), (4, false), (8, false), (1, true), (2, true), (4, true), (8, true), (16, false),
    (24, false)][format]?

/-- What `qff_read_font_descriptor` copies out. -/
structure FontDescriptor where
  lineHeight : Nat
  hasAsciiTable : Bool
  numUnicodeGlyphs : Nat
  format : Nat
  compressionScheme : Nat
  totalFileSize : Nat
  deriving DecidableEq, Repr

/-- `sizeof(qff_font_descriptor_v1_t)` -/
def fontDescriptorSize : Nat := 25

/-- `sizeof(qgf_block_header_v1_t)`, and the size of the tables that end in a flexible array -/
def blockHeaderSize : Nat := 5

/-- `sizeof(qff_ascii_glyph_table_v1_t)` -/
def asciiGlyphTableSize : Nat := blockHeaderSize + 95 * 3

/-- `qff_read_font_descriptor`, but for its format -/
def readFontDescriptor (stream : Stream) : Option FontDescriptor × Stream :=
  let (_, stream) := stream.setpos 0
  match stream.read fontDescriptorSize with
  | (none, stream) => (none, stream)
  | (some d, stream) =>
    if ¬ validateBlockHeader d 0x00 (fontDescriptorSize - blockHeaderSize) then (none, stream)
    else if member d 5 3 ≠ 0x464651 ∨ member d 8 1 ≠ 0x01 then (none, stream)
    else if member d 13 4 ≠ inverted 32 (member d 9 4) then (none, stream)
    else
      (some {
        lineHeight := member d 17 1
        hasAsciiTable := member d 18 1 ≠ 0
        numUnicodeGlyphs := member d 19 2
        format := member d 21 1
        compressionScheme := member d 23 1
        totalFileSize := member d 9 4 }, stream)

/-- `qff_validate_ascii_descriptor` -/
def validateAsciiDescriptor (stream : Stream) : Bool × Stream :=
  match stream.read asciiGlyphTableSize with
  | (none, stream) => (false, stream)
  | (some d, stream) => (validateBlockHeader d 0x01 (asciiGlyphTableSize - blockHeaderSize), stream)

/-- `qff_validate_unicode_descriptor` -/
def validateUnicodeDescriptor (stream : Stream) (numUnicodeGlyphs : Nat) : Bool × Stream :=
  match stream.read blockHeaderSize with
  | (none, stream) => (false, stream)
  | (some d, stream) =>
    if ¬ validateBlockHeader d 0x02 (numUnicodeGlyphs * 6) then (false, stream)
    else (true, (stream.setpos (stream.position + numUnicodeGlyphs * 6)).2)

/-- `qff_validate_stream` -/
def validateStream (stream : Stream) : Bool × Stream :=
  match readFontDescriptor stream with
  | (none, stream) => (false, stream)
  | (some d, stream) =>
    match if d.hasAsciiTable then validateAsciiDescriptor stream else (true, stream) with
    | (false, stream) => (false, stream)
    | (true, stream) =>
      if 0 < d.numUnicodeGlyphs then validateUnicodeDescriptor stream d.numUnicodeGlyphs else (true, stream)

/-- `qff_get_total_size` -/
def getTotalSize (stream : Stream) : Nat :=
  match (readFontDescriptor stream).1 with
  | none => 0
  | some d => d.totalFileSize

/-! ## qp_draw_text.c -/

/-- `qff_font_handle_t` -/
structure FontHandle where
  lineHeight : Nat
  hasAsciiTable : Bool
  numUnicodeGlyphs : Nat
  bpp : Nat
  hasPalette : Bool
  compressionScheme : Nat
  stream : Stream

/-- `QUANTUM_PAINTER_SUPPORTS_256_PALETTE` and `QUANTUM_PAINTER_SUPPORTS_NATIVE_COLORS` -/
structure Support where
  palette256 : Bool
  nativeColors : Bool

/-- `qp_internal_bpp_capable` -/
def bppCapable (support : Support) (bitsPerPixel : Nat) : Bool :=
  support.nativeColors || (support.palette256 || bitsPerPixel ≤ 4) && bitsPerPixel ≤ 8

/-- The last reading of the descriptor in `qp_load_font_internal`, into the slot. Its result is not looked at: the slot
keeps what it held where the format is unknown. -/
def FontHandle.readInfo (slot : FontHandle) (stream : Stream) : FontHandle :=
  match readFontDescriptor stream with
  | (none, stream) => { slot with stream }
  | (some d, stream) =>
    let font := { slot with
      lineHeight := d.lineHeight, hasAsciiTable := d.hasAsciiTable, numUnicodeGlyphs := d.numUnicodeGlyphs, stream }
    match parseFormat d.format with
    | none => font
    | some (bpp, hasPalette) => { font with bpp, hasPalette, compressionScheme := d.compressionScheme }

/-- `qp_load_font_mem` with a free slot, for the memory from `buffer` on. -/
def loadFontMem (support : Support) (slot : FontHandle) (buffer : List UInt8) : Option FontHandle :=
  match validateStream (.make buffer (getTotalSize (.make buffer fontDescriptorSize))) with
  | (false, _) => none
  | (true, stream) =>
    let font := slot.readInfo stream
    if bppCapable support font.bpp then some font else none

namespace FontHandle

/-- `sizeof(qgf_palette_v1_t)` and its entries, where there is a palette -/
def paletteSize (f : FontHandle) : Nat := if f.hasPalette then blockHeaderSize + (1 <<< f.bpp) * 3 else 0

/-- `sizeof(qff_unicode_glyph_table_v1_t)` and its entries, where there is a table -/
def unicodeTableSize (f : FontHandle) : Nat :=
  if 0 < f.numUnicodeGlyphs then blockHeaderSize + f.numUnicodeGlyphs * 6 else 0

/-- `glyph_info.value & QFF_GLYPH_WIDTH_MASK` -/
def glyphWidth (value : Nat) : UInt8 := UInt8.ofNat (value &&& (1 <<< 6 - 1))

/-- `(glyph_info.value & QFF_GLYPH_OFFSET_MASK) >> QFF_GLYPH_WIDTH_BITS` -/
def glyphOffset (value : Nat) : Nat := (value &&& ((1 <<< 18 - 1) <<< 6)) >>> 6

/-- The end of both branches: to the glyph's data. Both skip an ASCII table. -/
def gotoGlyph (f : FontHandle) (value : Nat) : Option UInt8 × FontHandle :=
  let dataOffset := fontDescriptorSize + asciiGlyphTableSize + f.unicodeTableSize + f.paletteSize + blockHeaderSize +
    glyphOffset value
  match f.stream.setpos dataOffset with
  | (r, stream) => if r < 0 then (none, { f with stream }) else (some (glyphWidth value), { f with stream })

/-- The loop over the unicode table: the value of the code point's entry. -/
def findUnicode (codePoint : Nat) : Nat → Stream → Option Nat × Stream
  | 0, stream => (none, stream)
  | n + 1, stream =>
    match stream.read 6 with
    | (none, stream) => (none, stream)
    | (some glyphInfo, stream) =>
      if member glyphInfo 0 3 = codePoint then (some (member glyphInfo 3 3), stream)
      else findUnicode codePoint n stream

/-- `qp_drawtext_prepare_glyph_for_render`: the width, or `none` for `false`. -/
def prepareGlyphForRender (f : FontHandle) (codePoint : Nat) : Option UInt8 × FontHandle :=
  if 0x20 ≤ codePoint ∧ codePoint < 0x7F ∧ f.hasAsciiTable then
    let (r, stream) := f.stream.setpos (fontDescriptorSize + blockHeaderSize + (codePoint - 0x20) * 3)
    if r < 0 then (none, { f with stream })
    else
      match stream.read 3 with
      | (none, stream) => (none, { f with stream })
      | (some glyphInfo, stream) => { f with stream }.gotoGlyph (member glyphInfo 0 3)
  else
    let (r, stream) := f.stream.setpos
      (fontDescriptorSize + (if f.hasAsciiTable then asciiGlyphTableSize else 0) + blockHeaderSize)
    if r < 0 then (none, { f with stream })
    else
      match findUnicode codePoint f.numUnicodeGlyphs stream with
      | (none, stream) => (none, { f with stream })
      | (some value, stream) => { f with stream }.gotoGlyph value

end FontHandle

end QmkFirmware.Painter
