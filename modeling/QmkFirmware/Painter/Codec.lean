import Mathlib

/-!
# Quantum Painter's image data, on both sides

`painter.py` packs palette indices into bytes and compresses them;
`qp_draw_codec.c` pulls bytes from a stream, decompresses them and pushes the
indices out. Python's lists of integers are lists of naturals; they become the
bytes of a file by `bytes`, which raises an exception for an integer above 255.
-/

namespace QmkFirmware.Painter

/-- Python's `bytes(...)`; `none` is its `ValueError`. -/
def bytes (l : List Nat) : Option (List UInt8) :=
  if ∀ x ∈ l, x < 256 then some (l.map UInt8.ofNat) else none

/-- `l[-k]`, for a list that is long enough. -/
def fromEnd (l : List Nat) (k : Nat) : Nat := l.getD (l.length - k) 0

/-! ## painter.py -/

/-- The bytes that `convert_image_bytes` makes of `image_bytes`, the palette indices of
an image of this size (`IMAGE_FORMAT_PALETTE`). -/
def convertImageBytes (numColors width height : Nat) (imageBytes : List Nat) : List Nat :=
  let shifter := Nat.log2 numColors
  let pixelsPerByte := 8 / Nat.log2 numColors
  let expectedByteCount := (width * height + (pixelsPerByte - 1)) / pixelsPerByte
  (List.range expectedByteCount).map fun x =>
    (List.range pixelsPerByte).foldl (fun byte n =>
      let byteOffset := x * pixelsPerByte + n
      if byteOffset < imageBytes.length then
        byte ||| ((imageBytes.getD byteOffset 0 &&& (numColors - 1)) <<< (n * shifter))
      else byte) 0

/-- The locals of `compress_bytes_qmk_rle`. -/
structure Compressor where
  output : List Nat
  temp : List Nat
  repeating : Bool

namespace Compressor

def start : Compressor := ⟨[], [], false⟩

/-- `append_range` -/
def appendRange (s : Compressor) (r : List Nat) : Compressor :=
  { s with output := s.output ++ (127 + r.length) :: r }

/-- The body of the loop once `temp` holds the next byte; `atEnd` is its `end`. -/
def body (s : Compressor) (atEnd : Bool) : Compressor :=
  if s.repeating then
    let repeating := fromEnd s.temp 1 = fromEnd s.temp 2
    if ¬ repeating ∨ s.temp.length = 128 ∨ atEnd then
      { output := s.output ++ [if atEnd then s.temp.length else s.temp.length - 1, s.temp.getD 0 0]
        temp := [fromEnd s.temp 1]
        repeating := false }
    else s
  else if 2 ≤ s.temp.length ∧ fromEnd s.temp 1 = fromEnd s.temp 2 then
    if 2 < s.temp.length then
      { s.appendRange (s.temp.take (s.temp.length - 2)) with
        temp := [fromEnd s.temp 1, fromEnd s.temp 1]
        repeating := true }
    else { s with repeating := true }
  else if s.temp.length = 128 ∨ atEnd then { s.appendRange s.temp with temp := [], repeating := false }
  else s

/-- One iteration that is not the last one. -/
def feed (s : Compressor) (c : Nat) : Compressor :=
  let s := { s with temp := s.temp ++ [c] }
  if s.temp.length ≤ 1 then s else s.body false

end Compressor

/-- `compress_bytes_qmk_rle` -/
def compressBytesQmkRle (bytearray : List Nat) : List Nat :=
  ((bytearray.foldl Compressor.feed .start).body true).output

/-! ## qp_stream.c -/

/-- `qp_memory_stream_t`; its length is that of the buffer. -/
structure Stream where
  buffer : List UInt8
  position : Nat
  isEof : Bool

/-- `STREAM_EOF` -/
def streamEof : Int := -1

/-- `mem_get` -/
def Stream.get (s : Stream) : Int × Stream :=
  match s.buffer[s.position]? with
  | none => (streamEof, { s with isEof := true })
  | some b => (b.toNat, { s with position := s.position + 1 })

/-! ## qp_draw_codec.c -/

/-- `qp_internal_rle_mode_t` -/
inductive RleMode where
  | markerByte | repeatingRun | nonRepeatingRun
  deriving DecidableEq, Repr

/-- `qp_internal_byte_input_state` -/
structure ByteInputState where
  srcStream : Stream
  curr : Int
  mode : RleMode
  remain : UInt8

/-- The conversion of a C integer to `uint8_t`. -/
def toUInt8 (n : Int) : UInt8 := UInt8.ofNat (n % 256).toNat

/-- `qp_drawimage_byte_uncompressed_decoder` -/
def byteUncompressedDecoder (state : ByteInputState) : Int × ByteInputState :=
  let (curr, srcStream) := state.srcStream.get
  (curr, { state with srcStream, curr })

/-- `qp_drawimage_byte_rle_decoder` -/
def byteRleDecoder (state : ByteInputState) : Int × ByteInputState :=
  let state :=
    if state.mode = .markerByte then
      let (c, srcStream) := state.srcStream.get
      let c := toUInt8 c
      let (curr, srcStream) := srcStream.get
      if 128 ≤ c then { srcStream, curr, mode := .nonRepeatingRun, remain := c - 127 }
      else { srcStream, curr, mode := .repeatingRun, remain := c }
    else state
  let c := toUInt8 state.curr
  let state := { state with remain := state.remain - 1 }
  if 0 < state.remain then
    if state.mode = .nonRepeatingRun then
      let (curr, srcStream) := state.srcStream.get
      (c.toNat, { state with srcStream, curr })
    else (c.toNat, state)
  else (c.toNat, { state with mode := .markerByte })

/-- `painter_compression_t` -/
inductive Compression where
  | uncompressed | rle
  deriving DecidableEq, Repr

/-- The callback that `qp_internal_prepare_input_state` selects. -/
def inputCallback : Compression → ByteInputState → Int × ByteInputState
  | .uncompressed => byteUncompressedDecoder
  | .rle => byteRleDecoder

/-- `qp_internal_prepare_input_state` -/
def prepareInputState (inputState : ByteInputState) : Compression → ByteInputState
  | .uncompressed => inputState
  | .rle => { inputState with mode := .markerByte, remain := 0 }

section Decode

variable {σ β : Type} (output : β → UInt8 → Bool × β)

/-- The `for` loop of `qp_internal_decode_palette` over the pixels of a byte. -/
def decodePixels (bitsPerPixel : Nat) (pixelBitmask : UInt8) : Nat → Nat → β → Bool × β
  | 0, _, arg => (true, arg)
  | loopPixels + 1, byteval, arg =>
    match output arg (UInt8.ofNat (byteval &&& pixelBitmask.toNat)) with
    | (false, arg) => (false, arg)
    | (true, arg) => decodePixels bitsPerPixel pixelBitmask loopPixels (byteval >>> bitsPerPixel) arg

/-- The `while` loop of `qp_internal_decode_palette`; each turn takes a pixel at least. -/
def decodeLoop (input : σ → Int × σ) (bitsPerPixel : Nat) (pixelBitmask pixelsPerByte : UInt8) :
    Nat → UInt32 → σ → β → Bool × β
  | 0, _, _, arg => (true, arg)
  | fuel + 1, remainingPixels, inputArg, arg =>
    if remainingPixels = 0 then (true, arg)
    else
      let (byteval, inputArg) := input inputArg
      if byteval < 0 then (false, arg)
      else
        let loopPixels : UInt8 :=
          if remainingPixels < pixelsPerByte.toUInt32 then remainingPixels.toUInt8 else pixelsPerByte
        match decodePixels output bitsPerPixel pixelBitmask loopPixels.toNat byteval.toNat arg with
        | (false, arg) => (false, arg)
        | (true, arg) =>
          decodeLoop input bitsPerPixel pixelBitmask pixelsPerByte fuel
            (remainingPixels - loopPixels.toUInt32) inputArg arg

/-- `qp_internal_decode_palette` with its input and output callbacks. -/
def decodePalette (input : σ → Int × σ) (pixelCount : UInt32) (bitsPerPixel : UInt8) (inputArg : σ)
    (outputArg : β) : Bool × β :=
  let pixelBitmask := UInt8.ofNat (1 <<< bitsPerPixel.toNat - 1)
  let pixelsPerByte := UInt8.ofNat (8 / bitsPerPixel.toNat)
  decodeLoop output input bitsPerPixel.toNat pixelBitmask pixelsPerByte pixelCount.toNat pixelCount inputArg
    outputArg

/-- The `while` loop of `qp_internal_send_bytes` -/
def sendLoop (input : σ → Int × σ) : Nat → UInt32 → σ → β → Bool × β
  | 0, _, _, arg => (true, arg)
  | fuel + 1, remainingBytes, inputArg, arg =>
    if remainingBytes = 0 then (true, arg)
    else
      let (byteval, inputArg) := input inputArg
      if byteval < 0 then (false, arg)
      else
        match output arg (toUInt8 byteval) with
        | (false, arg) => (false, arg)
        | (true, arg) => sendLoop input fuel (remainingBytes - 1) inputArg arg

/-- `qp_internal_send_bytes` with its input and output callbacks. -/
def sendBytes (input : σ → Int × σ) (byteCount : UInt32) (inputArg : σ) (outputArg : β) : Bool × β :=
  sendLoop output input byteCount.toNat byteCount inputArg outputArg

end Decode

end QmkFirmware.Painter
