import QmkFirmware.Painter.Font

/-!
# Quantum Painter's images

`qgf.c` validates a file of images in memory once, when it is loaded; `qp_draw_image.c` reads
a frame of it each time that the frame is drawn. Both look the frame up in the table of
offsets; many results on the way are not looked at. Nobody calls for a frame without
a place for its `info`, and what is told to the device's bus is left out.
-/

namespace QmkFirmware.Painter

/-- The conversion of a `uint32_t` to `int32_t` -/
def toInt32 (n : Nat) : Int :=
  let n : Nat := n % 2 ^ 32
  if n < 2 ^ 31 then n else n - 2 ^ 32

/-- What `mem_seek` to this position leaves -/
def Stream.seek (s : Stream) (position : Int) : Stream :=
  if position < 0 ∨ s.buffer.length < position then s else { s with position := position.toNat, isEof := false }

namespace Image

/-! ## qgf.c -/

/-- `qgf_validate_block_header` with any `int32_t`: a negative length stands for all of them. -/
def validateHeader (desc : List UInt8) (expectedTypeid : Nat) (expectedLength : Int) : Bool :=
  member desc 0 1 == expectedTypeid && member desc 1 1 == inverted 8 expectedTypeid &&
    (decide (expectedLength < 0) || (member desc 2 3 : Int) == expectedLength)

/-- What `qgf_read_graphics_descriptor` copies out. -/
structure GraphicsDescriptor where
  imageWidth : Nat
  imageHeight : Nat
  frameCount : Nat
  totalBytes : Nat
  deriving DecidableEq, Repr

/-- `sizeof(qgf_graphics_descriptor_v1_t)` -/
def graphicsDescriptorSize : Nat := 23

/-- `sizeof(qgf_frame_v1_t)` -/
def frameDescriptorSize : Nat := 11

/-- `sizeof(qgf_delta_v1_t)` -/
def deltaDescriptorSize : Nat := 13

/-- `qgf_read_graphics_descriptor` -/
def readGraphicsDescriptor (stream : Stream) : Option GraphicsDescriptor × Stream :=
  let (_, stream) := stream.setpos 0
  match stream.read graphicsDescriptorSize with
  | (none, stream) => (none, stream)
  | (some d, stream) =>
    if ¬ validateHeader d 0x00 (graphicsDescriptorSize - blockHeaderSize : Nat) then (none, stream)
    else if member d 5 3 ≠ 0x464751 ∨ member d 8 1 ≠ 0x01 then (none, stream)
    else if member d 13 4 ≠ inverted 32 (member d 9 4) then (none, stream)
    else
      (some {
        imageWidth := member d 17 2
        imageHeight := member d 19 2
        frameCount := member d 21 2
        totalBytes := member d 9 4 }, stream)

/-- `qgf_read_frame_offset` -/
def readFrameOffset (stream : Stream) (frameNumber : Nat) : Option Nat × Stream :=
  match readGraphicsDescriptor stream with
  | (none, stream) => (none, stream)
  | (some graphics, stream) =>
    match stream.read blockHeaderSize with
    | (none, stream) => (none, stream)
    | (some frameOffsets, stream) =>
      if ¬ validateHeader frameOffsets 0x01 (graphics.frameCount * 4 : Nat) then (none, stream)
      else if graphics.frameCount ≤ frameNumber then (none, stream)
      else
        match (stream.seek (stream.position + frameNumber * 4 : Nat)).read 4 with
        | (none, stream) => (none, stream)
        | (some offset, stream) => (some (member offset 0 4), stream)

/-- `qgf_seek_to_frame_descriptor`: to the start, where there is no offset. -/
@[irreducible] def seekToFrameDescriptor (stream : Stream) (frameNumber : Nat) : Stream :=
  let (offset, stream) := readFrameOffset stream frameNumber
  stream.seek (toInt32 (offset.getD 0))

/-- `qgf_frame_info_t`. The validator has variables for three of these. -/
structure FrameInfo where
  compressionScheme : Nat
  bpp : Nat
  hasPalette : Bool
  isDelta : Bool
  left : Nat
  top : Nat
  right : Nat
  bottom : Nat
  delay : Nat
  deriving DecidableEq, Repr

/-- `qgf_parse_frame_descriptor`, with its caller's variables before. Two of them stay as they
are if the format is unknown. -/
def parseFrameDescriptor (frameDescriptor : List UInt8) (info : FrameInfo) : FrameInfo :=
  let info := match parseFormat (member frameDescriptor 5 1) with
    | none => info
    | some (bpp, hasPalette) => { info with bpp, hasPalette }
  { info with
    isDelta := member frameDescriptor 6 1 &&& 0x02 == 0x02
    compressionScheme := member frameDescriptor 7 1
    delay := member frameDescriptor 9 2 }

/-- `qgf_validate_frame_descriptor` -/
def validateFrameDescriptor (stream : Stream) (frameNumber : Nat) (info : FrameInfo) : Option FrameInfo × Stream :=
  match (seekToFrameDescriptor stream frameNumber).read frameDescriptorSize with
  | (none, stream) => (none, stream)
  | (some frameDescriptor, stream) =>
    if ¬ validateHeader frameDescriptor 0x02 (frameDescriptorSize - blockHeaderSize : Nat) then (none, stream)
    else (some (parseFrameDescriptor frameDescriptor info), stream)

/-- `qgf_validate_palette_descriptor` -/
def validatePaletteDescriptor (stream : Stream) (bpp : Nat) : Bool × Stream :=
  match stream.read blockHeaderSize with
  | (none, stream) => (false, stream)
  | (some paletteDescriptor, stream) =>
    let expectedLength := (1 <<< bpp) * 3
    if ¬ validateHeader paletteDescriptor 0x03 (toInt32 expectedLength) then (false, stream)
    else (true, stream.seek (stream.position + toInt32 expectedLength))

/-- `qgf_validate_delta_descriptor` -/
def validateDeltaDescriptor (stream : Stream) : Bool × Stream :=
  match stream.read deltaDescriptorSize with
  | (none, stream) => (false, stream)
  | (some deltaDescriptor, stream) =>
    (validateHeader deltaDescriptor 0x04 (deltaDescriptorSize - blockHeaderSize : Nat), stream)

/-- `qgf_validate_frame_data_descriptor` -/
def validateFrameDataDescriptor (stream : Stream) : Bool × Stream :=
  match stream.read blockHeaderSize with
  | (none, stream) => (false, stream)
  | (some dataDescriptor, stream) => (validateHeader dataDescriptor 0x05 (-1), stream)

/-- An iteration of `qgf_validate_stream`; `info` is what its variables hold before they are set. -/
def validateFrame (stream : Stream) (frameNumber : Nat) (info : FrameInfo) : Bool × Stream :=
  match validateFrameDescriptor stream frameNumber info with
  | (none, stream) => (false, stream)
  | (some info, stream) =>
    match if info.hasPalette then validatePaletteDescriptor stream info.bpp else (true, stream) with
    | (false, stream) => (false, stream)
    | (true, stream) =>
      match if info.isDelta then validateDeltaDescriptor stream else (true, stream) with
      | (false, stream) => (false, stream)
      | (true, stream) => validateFrameDataDescriptor stream

/-- The loop of `qgf_validate_stream` -/
def validateFrames (unset : Nat → FrameInfo) : List Nat → Stream → Bool × Stream
  | [], stream => (true, stream)
  | i :: rest, stream =>
    match validateFrame stream i (unset i) with
    | (false, stream) => (false, stream)
    | (true, stream) => validateFrames unset rest stream

/-- `qgf_validate_stream`; `unset` is what the variables of each iteration hold at its start. -/
def validateStream (unset : Nat → FrameInfo) (stream : Stream) : Bool × Stream :=
  match readGraphicsDescriptor stream with
  | (none, stream) => (false, stream)
  | (some graphics, stream) => validateFrames unset (List.range graphics.frameCount) stream

/-! ## qp_draw_core.c -/

/-- The bytes of a `qp_pixel_t`, as those of its `hsv888` -/
structure Pixel where
  h : UInt8
  s : UInt8
  v : UInt8
  deriving DecidableEq, Repr

/-- The entries of `qp_internal_global_pixel_lookup_table` -/
def tableSize (support : Support) : Nat := if support.palette256 then 256 else 16

/-- The globals of the file; `overrun` tells that a color was written behind the table. -/
structure Globals where
  generatedPalette : Bool
  generatedSteps : Int
  interpolatedFg : Pixel
  interpolatedBg : Pixel
  pixelLookupTable : List Pixel
  overrun : Bool

namespace Globals

/-- A color is written to an entry of the table. -/
def setEntry (g : Globals) (i : Nat) (color : Pixel) : Globals :=
  { g with
    pixelLookupTable := g.pixelLookupTable.set i color
    overrun := g.overrun || decide (g.pixelLookupTable.length ≤ i) }

/-- `qp_internal_invalidate_palette` -/
def invalidatePalette (g : Globals) : Globals := { g with generatedPalette := false, generatedSteps := -1 }

/-- A channel of an interpolated color -/
def interpolate (fg bg : Int) (i steps : Nat) : UInt8 := toUInt8 (((fg - bg) * i).tdiv (steps - 1) + bg)

/-- The color of an entry, with the shortest way from one hue to the other. -/
def interpolated (fg bg : Pixel) (steps i : Nat) : Pixel :=
  let hueFg : Int := fg.h.toNat
  let hueBg : Int := bg.h.toNat
  let hueBg := if 128 ≤ hueFg - hueBg then hueBg + 256 else if hueFg - hueBg ≤ -128 then hueBg - 256 else hueBg
  { h := interpolate hueFg hueBg i steps
    s := interpolate fg.s.toNat bg.s.toNat i steps
    v := interpolate fg.v.toNat bg.v.toNat i steps }

/-- `qp_internal_interpolate_palette` -/
def interpolatePalette (g : Globals) (fg bg : Pixel) (steps : Nat) : Bool × Globals :=
  if g.generatedPalette ∧ g.generatedSteps = steps ∧ g.interpolatedFg = fg ∧ g.interpolatedBg = bg then (false, g)
  else
    let g := { g with generatedPalette := true, generatedSteps := steps, interpolatedFg := fg, interpolatedBg := bg }
    (true, (List.range steps).foldl (fun g i => g.setEntry i (interpolated fg bg steps i)) g)

end Globals

/-- The loop of `qp_internal_load_qgf_palette` -/
def loadEntries : List Nat → Stream → Globals → Bool × Stream × Globals
  | [], stream, globals => (true, stream, globals)
  | i :: rest, stream, globals =>
    match stream.read 3 with
    | (none, stream) => (false, stream, globals)
    | (some entry, stream) => loadEntries rest stream (globals.setEntry i ⟨entry.getD 0 0, entry.getD 1 0, entry.getD 2 0⟩)

/-! ## qp_draw_image.c -/

/-- What preparing a frame reads and writes. -/
structure Reader where
  globals : Globals
  stream : Stream
  info : FrameInfo

namespace Reader

/-- `palette_entries`, a `uint16_t` -/
def paletteEntries (r : Reader) : Nat := (1 <<< r.info.bpp) % 2 ^ 16

/-- `qp_internal_load_qgf_palette` -/
def loadQgfPalette (r : Reader) : Bool × Reader :=
  match r.stream.read blockHeaderSize with
  | (none, stream) => (false, { r with stream })
  | (some _, stream) =>
    let (ok, stream, globals) := loadEntries (List.range r.paletteEntries) stream r.globals.invalidatePalette
    (ok, { r with stream, globals })

/-- "Handle palette if needed": `needs_pixconvert`, or `none` where there is no palette. -/
def handlePalette (r : Reader) (fg bg : Pixel) : Option Bool × Reader :=
  if r.info.hasPalette then
    match r.loadQgfPalette with
    | (false, r) => (none, r)
    | (true, r) => (some true, r)
  else if r.info.bpp ≤ 8 then
    let (needsPixconvert, globals) := r.globals.interpolatePalette fg bg r.paletteEntries
    (some needsPixconvert, { r with globals })
  else (some false, r)

/-- "Convert the palette to native format", with the driver's function. -/
def convert (r : Reader) (paletteConvert : Nat → List Pixel → Bool × List Pixel) : Bool × Reader :=
  let (ok, pixelLookupTable) := paletteConvert r.paletteEntries r.globals.pixelLookupTable
  (ok, { r with globals := { r.globals with pixelLookupTable } })

/-- "Handle delta if needed" -/
def readDelta (r : Reader) : Bool × Reader :=
  match r.stream.read deltaDescriptorSize with
  | (none, stream) => (false, { r with stream })
  | (some d, stream) =>
    (true, { r with
      stream
      info := { r.info with
        left := member d 5 2, top := member d 7 2, right := member d 9 2, bottom := member d 11 2 } })

/-- "Read the data block" -/
def readData (r : Reader) : Bool × Reader :=
  match r.stream.read blockHeaderSize with
  | (none, stream) => (false, { r with stream })
  | (some _, stream) => (true, { r with stream })

/-- `qp_drawimage_prepare_frame_for_stream_read` -/
def prepareFrame (r : Reader) (support : Support) (paletteConvert : Nat → List Pixel → Bool × List Pixel)
    (frameNumber : Nat) (fg bg : Pixel) : Bool × Reader :=
  match (seekToFrameDescriptor r.stream frameNumber).read frameDescriptorSize with
  | (none, stream) => (false, { r with stream })
  | (some d, stream) =>
    let r : Reader := { globals := r.globals.invalidatePalette, stream, info := parseFrameDescriptor d r.info }
    if ¬ bppCapable support r.info.bpp then (false, r)
    else
      match r.handlePalette fg bg with
      | (none, r) => (false, r)
      | (some needsPixconvert, r) =>
        match if needsPixconvert then r.convert paletteConvert else (true, r) with
        | (false, r) => (false, r)
        | (true, r) =>
          match if r.info.isDelta then r.readDelta else (true, r) with
          | (false, r) => (false, r)
          | (true, r) => r.readData

end Reader

end Image

end QmkFirmware.Painter
