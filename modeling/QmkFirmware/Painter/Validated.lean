import QmkFirmware.Painter.Image
import QmkFirmware.Painter.FontFile

/-!
# Validated images

The validator and the reader go through a frame's blocks on their own. What a frame is made of
depends on the file alone: where its offset leads, and on the format, the palette and the
delta of which its descriptor speaks.
-/

namespace QmkFirmware.Painter

open Lib

/-! ## Streams -/

namespace Stream

theorem get_buffer (s : Stream) : s.get.2.buffer = s.buffer := by
  unfold get
  split <;> rfl

theorem readBytes_buffer (n : Nat) : ∀ s : Stream, (s.readBytes n).2.buffer = s.buffer := by
  induction n with
  | zero => exact fun _ => rfl
  | succ n ih =>
    intro s
    rw [readBytes]
    dsimp only
    split
    next => exact get_buffer s
    next => exact (ih _).trans (get_buffer s)

theorem read_buffer (s : Stream) (size : Nat) : (s.read size).2.buffer = s.buffer := readBytes_buffer size s

theorem seek_buffer (s : Stream) (position : Int) : (s.seek position).buffer = s.buffer := by
  unfold seek
  split <;> rfl

theorem readBytes_length (n : Nat) : ∀ s : Stream, (s.readBytes n).1.length ≤ s.buffer.length - s.position := by
  induction n with
  | zero => exact fun _ => Nat.zero_le _
  | succ n ih =>
    intro s
    rw [readBytes]
    cases here : s.buffer[s.position]? with
    | none =>
      have eof : s.get = (streamEof, { s with isEof := true }) := by
        unfold get
        rw [here]
      rw [eof]
      exact Nat.zero_le _
    | some b =>
      have got : s.get = ((b.toNat : Int), { s with position := s.position + 1 }) := by
        unfold get
        rw [here]
      have inside : s.position < s.buffer.length := (List.getElem?_eq_some_iff.1 here).1
      have nonneg : ¬ ((b.toNat : Nat) : Int) < 0 := by omega
      have rest := ih { s with position := s.position + 1 }
      simp only [got, nonneg, if_false, List.length_cons] at rest ⊢
      omega

/-- A member that lies inside the stream is read. -/
theorem read_inside {s : Stream} {size : Nat} (inside : s.position + size ≤ s.buffer.length) :
    s.read size = (some (s.ahead.take size), { s with position := s.position + size }) := by
  refine @read_ahead s (s.ahead.take size) (s.ahead.drop size) size (List.take_append_drop _ _).symm ?_
  rw [List.length_take, ahead, List.length_drop]
  omega

/-- A member that is read lies inside the stream. -/
theorem inside_of_read {s s' : Stream} {d : List UInt8} {size : Nat} (read : s.read size = (some d, s')) (pos : 0 < size) :
    s.position + size ≤ s.buffer.length := by
  have length : (s.readBytes size).1.length = size := by
    by_contra short
    have none : (s.read size).1 = none := if_neg short
    rw [read] at none
    exact absurd none (Option.some_ne_none d)
  have := readBytes_length size s
  omega

/-- What is read is what lies ahead. -/
theorem read_some {s s' : Stream} {d : List UInt8} {size : Nat} (read : s.read size = (some d, s')) (pos : 0 < size) :
    s.position + size ≤ s.buffer.length ∧ d = s.ahead.take size ∧ s' = { s with position := s.position + size } := by
  have inside := inside_of_read read pos
  rw [read_inside inside] at read
  cases read
  exact ⟨inside, rfl, rfl⟩

end Stream

theorem member_take {l : List UInt8} {size offset k : Nat} (h : offset + k ≤ size) :
    member (l.take size) offset k = member l offset k := by
  rw [member, member, List.drop_take, List.take_take, Nat.min_eq_left (by omega)]

namespace Image

/-! ## The blocks of a frame -/

/-- A block of this type begins here, and the file holds so many bytes of it. -/
structure BlockAt (buffer : List UInt8) (position size typeid : Nat) : Prop where
  inside : position + size ≤ buffer.length
  typeId : member (buffer.drop position) 0 1 = typeid
  negTypeId : member (buffer.drop position) 1 1 = inverted 8 typeid

/-- The length in the header of a block -/
def lengthAt (buffer : List UInt8) (position : Nat) : Nat := member (buffer.drop position) 2 3

/-- What the descriptor of a frame says of it. -/
structure Kind where
  bpp : Nat
  hasPalette : Bool
  isDelta : Bool
  deriving DecidableEq, Repr

namespace Kind

/-- Where the delta block begins, in a frame that has one. -/
def deltaStart (k : Kind) (start : Nat) : Nat :=
  start + frameDescriptorSize + if k.hasPalette then blockHeaderSize + 2 ^ k.bpp * 3 else 0

/-- Where the data block begins. -/
def dataStart (k : Kind) (start : Nat) : Nat :=
  k.deltaStart start + if k.isDelta then deltaDescriptorSize else 0

/-- The entries of the palette, if there is one, lie inside the file. -/
def PaletteInside (k : Kind) (buffer : List UInt8) (start : Nat) : Prop :=
  k.hasPalette = true → k.deltaStart start ≤ buffer.length

end Kind

/-- The blocks of a frame, where its reader takes them to be -/
structure FrameAt (buffer : List UInt8) (start : Nat) (k : Kind) : Prop where
  descriptor : BlockAt buffer start frameDescriptorSize 0x02 ∧ lengthAt buffer start = 6
  palette : k.hasPalette = true → BlockAt buffer (start + frameDescriptorSize) blockHeaderSize 0x03 ∧
    lengthAt buffer (start + frameDescriptorSize) = 2 ^ k.bpp * 3
  delta : k.isDelta = true → BlockAt buffer (k.deltaStart start) deltaDescriptorSize 0x04 ∧
    lengthAt buffer (k.deltaStart start) = 8
  data : BlockAt buffer (k.dataStart start) blockHeaderSize 0x05

/-- The number of frames that the descriptor of a file tells -/
def frameCount (stream : Stream) : Nat := ((readGraphicsDescriptor stream).1.map GraphicsDescriptor.frameCount).getD 0

/-- Where the offset of a frame leads -/
def frameStart (stream : Stream) (frameNumber : Nat) : Nat := (seekToFrameDescriptor stream frameNumber).position

/-- The format byte of the descriptor that begins here -/
def formatAt (buffer : List UInt8) (start : Nat) : Nat := member (buffer.drop start) 5 1

/-- The delta flag of the descriptor that begins here -/
def isDeltaAt (buffer : List UInt8) (start : Nat) : Bool := member (buffer.drop start) 6 1 &&& 0x02 == 0x02

/-- What the descriptor that begins here says of its frame; `none` if its format is unknown. -/
def kindAt (buffer : List UInt8) (start : Nat) : Option Kind :=
  (parseFormat (formatAt buffer start)).map fun (bpp, hasPalette) => ⟨bpp, hasPalette, isDeltaAt buffer start⟩

theorem kindAt_some {buffer : List UInt8} {start : Nat} {k : Kind} (known : kindAt buffer start = some k) :
    parseFormat (formatAt buffer start) = some (k.bpp, k.hasPalette) ∧ isDeltaAt buffer start = k.isDelta := by
  obtain ⟨⟨bpp, hasPalette⟩, format, rfl⟩ := Option.map_eq_some_iff.1 known
  exact ⟨format, rfl⟩

/-- The formats of `qgf_parse_format`, and what its callers rely on. -/
theorem parseFormat_some {format bpp : Nat} {hasPalette : Bool} (known : parseFormat format = some (bpp, hasPalette)) :
    0 < bpp ∧ bpp ≤ 24 ∧ (hasPalette = true → bpp ≤ 8) := by
  have mem := List.mem_of_getElem? known
  simp only [List.mem_cons, Prod.mk.injEq, List.not_mem_nil, or_false] at mem
  rcases mem with h | h | h | h | h | h | h | h | h | h
  all_goals
    obtain ⟨rfl, rfl⟩ := h
    decide

/-- The length of a palette block is small enough for an `int32_t`. -/
theorem toInt32_palette {bpp : Nat} (small : bpp ≤ 8) : toInt32 ((1 <<< bpp) * 3) = (2 ^ bpp * 3 : Nat) := by
  have le : 2 ^ bpp ≤ 2 ^ 8 := Nat.pow_le_pow_right (by decide) small
  have power : (1 <<< bpp) * 3 = 2 ^ bpp * 3 := by rw [Nat.one_shiftLeft]
  have whole : 2 ^ bpp * 3 % 2 ^ 32 = 2 ^ bpp * 3 := Nat.mod_eq_of_lt (by omega)
  unfold toInt32
  simp only [power, whole]
  rw [if_pos (by omega)]

/-! ## The file alone decides -/

theorem readGraphicsDescriptor_congr {s t : Stream} (same : s.buffer = t.buffer) :
    readGraphicsDescriptor s = readGraphicsDescriptor t := by
  have start : (s.setpos 0).2 = (t.setpos 0).2 := by
    rw [Stream.setpos_le (Nat.zero_le _), Stream.setpos_le (Nat.zero_le _)]
    dsimp only
    rw [same]
  unfold readGraphicsDescriptor
  dsimp only
  rw [start]

theorem seekToFrameDescriptor_congr {s t : Stream} (same : s.buffer = t.buffer) (frameNumber : Nat) :
    seekToFrameDescriptor s frameNumber = seekToFrameDescriptor t frameNumber := by
  unfold seekToFrameDescriptor readFrameOffset
  rw [readGraphicsDescriptor_congr same]

theorem readGraphicsDescriptor_buffer (s : Stream) : (readGraphicsDescriptor s).2.buffer = s.buffer := by
  have start : (s.setpos 0).2.buffer = s.buffer := by rw [Stream.setpos_le (Nat.zero_le _)]
  have read := (Stream.read_buffer (s.setpos 0).2 graphicsDescriptorSize).trans start
  unfold readGraphicsDescriptor
  dsimp only
  split
  next h => rw [h] at read; exact read
  next h =>
    rw [h] at read
    split
    next => exact read
    next =>
      split
      next => exact read
      next => split <;> exact read

theorem readFrameOffset_buffer (s : Stream) (frameNumber : Nat) : (readFrameOffset s frameNumber).2.buffer = s.buffer := by
  have graphics := readGraphicsDescriptor_buffer s
  unfold readFrameOffset
  split
  next h => rw [h] at graphics; exact graphics
  next mid h =>
    rw [h] at graphics
    have offsets := (Stream.read_buffer mid blockHeaderSize).trans graphics
    split
    next h => rw [h] at offsets; exact offsets
    next next h =>
      rw [h] at offsets
      split
      next => exact offsets
      next =>
        split
        next => exact offsets
        next =>
          have offset := (Stream.read_buffer (next.seek (next.position + frameNumber * 4 : Nat)) 4).trans
            ((Stream.seek_buffer _ _).trans offsets)
          split
          next h => rw [h] at offset; exact offset
          next h => rw [h] at offset; exact offset

theorem seekToFrameDescriptor_buffer (s : Stream) (frameNumber : Nat) :
    (seekToFrameDescriptor s frameNumber).buffer = s.buffer := by
  unfold seekToFrameDescriptor
  exact (Stream.seek_buffer _ _).trans (readFrameOffset_buffer s frameNumber)

/-! ## What the validator has seen -/

/-- A header that is accepted, and the place after it -/
theorem blockAt_of_read {s s' : Stream} {d : List UInt8} {size typeid : Nat} {expectedLength : Int}
    (read : s.read size = (some d, s')) (valid : validateHeader d typeid expectedLength = true)
    (large : blockHeaderSize ≤ size) :
    BlockAt s.buffer s.position size typeid ∧
      (0 ≤ expectedLength → (lengthAt s.buffer s.position : Int) = expectedLength) ∧
      s'.buffer = s.buffer ∧ s'.position = s.position + size := by
  change 5 ≤ size at large
  obtain ⟨inside, rfl, rfl⟩ := Stream.read_some read (Nat.lt_of_lt_of_le (by decide) large)
  unfold validateHeader at valid
  rw [member_take (by omega), member_take (by omega), member_take (by omega)] at valid
  simp only [Bool.and_eq_true, Bool.or_eq_true, beq_iff_eq, decide_eq_true_eq] at valid
  obtain ⟨⟨typeId, negTypeId⟩, length⟩ := valid
  refine ⟨⟨inside, typeId, negTypeId⟩, fun nonneg => ?_, rfl, rfl⟩
  rcases length with negative | length
  · exact absurd negative (Int.not_lt.2 nonneg)
  · exact length

theorem validateFrameDescriptor_some {s s' : Stream} {frameNumber : Nat} {info info' : FrameInfo}
    (valid : validateFrameDescriptor s frameNumber info = (some info', s')) :
    (BlockAt s.buffer (frameStart s frameNumber) frameDescriptorSize 0x02 ∧
        lengthAt s.buffer (frameStart s frameNumber) = 6) ∧
      info' = parseFrameDescriptor ((s.buffer.drop (frameStart s frameNumber)).take frameDescriptorSize) info ∧
      s'.buffer = s.buffer ∧ s'.position = frameStart s frameNumber + frameDescriptorSize := by
  have same := seekToFrameDescriptor_buffer s frameNumber
  unfold validateFrameDescriptor at valid
  split at valid
  next => exact absurd (congrArg Prod.fst valid).symm (Option.some_ne_none _)
  next d stream read =>
    split at valid
    next => exact absurd (congrArg Prod.fst valid).symm (Option.some_ne_none _)
    next ok =>
      cases valid
      obtain ⟨block, length, buffer, position⟩ := blockAt_of_read read (not_not.1 ok) (by decide)
      obtain ⟨-, bytes, -⟩ := Stream.read_some read (by decide)
      rw [bytes, Stream.ahead, same]
      rw [same] at block length buffer
      exact ⟨⟨block, Int.ofNat_inj.1 (length (by decide))⟩, rfl, buffer, position⟩

/-- The place after the header, where the entries of the palette run past the end. -/
theorem validatePaletteDescriptor_true {s s' : Stream} {bpp : Nat} (small : bpp ≤ 8)
    (valid : validatePaletteDescriptor s bpp = (true, s')) :
    (BlockAt s.buffer s.position blockHeaderSize 0x03 ∧ lengthAt s.buffer s.position = 2 ^ bpp * 3) ∧
      s'.buffer = s.buffer ∧ (s.position + (blockHeaderSize + 2 ^ bpp * 3) ≤ s.buffer.length →
        s'.position = s.position + (blockHeaderSize + 2 ^ bpp * 3)) := by
  unfold validatePaletteDescriptor at valid
  split at valid
  next => exact absurd (congrArg Prod.fst valid) Bool.false_ne_true
  next d stream read =>
    dsimp only at valid
    rw [toInt32_palette small] at valid
    split at valid
    next => exact absurd (congrArg Prod.fst valid) Bool.false_ne_true
    next ok =>
      cases valid
      obtain ⟨block, length, buffer, position⟩ := blockAt_of_read read (not_not.1 ok) (Nat.le_refl _)
      refine ⟨⟨block, Int.ofNat_inj.1 (length (Int.natCast_nonneg _))⟩,
        (Stream.seek_buffer _ _).trans buffer, fun inside => ?_⟩
      rw [Stream.seek, position, buffer, if_neg (by omega)]
      dsimp only
      omega

theorem validatePaletteDescriptor_buffer {s s' : Stream} {bpp : Nat} (valid : validatePaletteDescriptor s bpp = (true, s')) :
    s'.buffer = s.buffer := by
  have buffer := Stream.read_buffer s blockHeaderSize
  unfold validatePaletteDescriptor at valid
  split at valid
  next => exact absurd (congrArg Prod.fst valid) Bool.false_ne_true
  next d stream read =>
    rw [read] at buffer
    dsimp only at valid
    split at valid
    next => exact absurd (congrArg Prod.fst valid) Bool.false_ne_true
    next => cases valid; exact (Stream.seek_buffer _ _).trans buffer

theorem validateDeltaDescriptor_true {s s' : Stream} (valid : validateDeltaDescriptor s = (true, s')) :
    (BlockAt s.buffer s.position deltaDescriptorSize 0x04 ∧ lengthAt s.buffer s.position = 8) ∧
      s'.buffer = s.buffer ∧ s'.position = s.position + deltaDescriptorSize := by
  unfold validateDeltaDescriptor at valid
  split at valid
  next => exact absurd (congrArg Prod.fst valid) Bool.false_ne_true
  next d stream read =>
    obtain ⟨ok, rfl⟩ := Prod.mk.inj valid
    obtain ⟨block, length, after⟩ := blockAt_of_read read ok (by decide)
    exact ⟨⟨block, Int.ofNat_inj.1 (length (by decide))⟩, after⟩

theorem validateFrameDataDescriptor_true {s : Stream} (valid : (validateFrameDataDescriptor s).1 = true) :
    BlockAt s.buffer s.position blockHeaderSize 0x05 := by
  unfold validateFrameDataDescriptor at valid
  split at valid
  next => exact absurd valid Bool.false_ne_true
  next d stream read => exact (blockAt_of_read read valid (Nat.le_refl _)).1

/-- What is parsed from a descriptor with a known format. -/
theorem parseFrameDescriptor_known {buffer : List UInt8} {start bpp : Nat} {hasPalette : Bool} (info : FrameInfo)
    (known : parseFormat (formatAt buffer start) = some (bpp, hasPalette)) :
    (parseFrameDescriptor ((buffer.drop start).take frameDescriptorSize) info).bpp = bpp ∧
      (parseFrameDescriptor ((buffer.drop start).take frameDescriptorSize) info).hasPalette = hasPalette ∧
      (parseFrameDescriptor ((buffer.drop start).take frameDescriptorSize) info).isDelta = isDeltaAt buffer start := by
  have format : member ((buffer.drop start).take frameDescriptorSize) 5 1 = formatAt buffer start := member_take (by decide)
  have flags : member ((buffer.drop start).take frameDescriptorSize) 6 1 = member (buffer.drop start) 6 1 :=
    member_take (by decide)
  unfold parseFrameDescriptor
  rw [format, flags, known]
  exact ⟨rfl, rfl, rfl⟩

/-- A frame that the validator lets pass -/
theorem validateFrame_true {s : Stream} {frameNumber : Nat} {info : FrameInfo} {k : Kind}
    (valid : (validateFrame s frameNumber info).1 = true)
    (known : parseFormat (formatAt s.buffer (frameStart s frameNumber)) = some (k.bpp, k.hasPalette))
    (delta : isDeltaAt s.buffer (frameStart s frameNumber) = k.isDelta)
    (inside : k.PaletteInside s.buffer (frameStart s frameNumber)) :
    FrameAt s.buffer (frameStart s frameNumber) k := by
  obtain ⟨-, -, small⟩ := parseFormat_some known
  unfold validateFrame at valid
  split at valid
  next => exact absurd valid Bool.false_ne_true
  next info' s₁ first =>
    obtain ⟨descriptor, rfl, buffer₁, position₁⟩ := validateFrameDescriptor_some first
    obtain ⟨bpp, hasPalette, isDelta⟩ := parseFrameDescriptor_known info known
    rw [bpp, hasPalette, isDelta, delta] at valid
    split at valid
    next => exact absurd valid Bool.false_ne_true
    next s₂ second =>
      have palette : (k.hasPalette = true → BlockAt s.buffer (frameStart s frameNumber + frameDescriptorSize) blockHeaderSize 0x03 ∧
          lengthAt s.buffer (frameStart s frameNumber + frameDescriptorSize) = 2 ^ k.bpp * 3) ∧
          s₂.buffer = s.buffer ∧ s₂.position = k.deltaStart (frameStart s frameNumber) := by
        unfold Kind.PaletteInside at inside
        unfold Kind.deltaStart at inside ⊢
        cases has : k.hasPalette with
        | false =>
          rw [has] at second
          cases second
          exact ⟨fun no => absurd no Bool.false_ne_true, buffer₁, position₁⟩
        | true =>
          rw [has] at second
          obtain ⟨block, buffer₂, position₂⟩ := validatePaletteDescriptor_true (small has) second
          rw [buffer₁, position₁] at block position₂
          rw [has] at inside
          exact ⟨fun _ => block, buffer₂.trans buffer₁, position₂ (inside rfl)⟩
      obtain ⟨palette, buffer₂, position₂⟩ := palette
      split at valid
      next => exact absurd valid Bool.false_ne_true
      next s₃ third =>
        have delta : (k.isDelta = true → BlockAt s.buffer (k.deltaStart (frameStart s frameNumber)) deltaDescriptorSize 0x04 ∧
            lengthAt s.buffer (k.deltaStart (frameStart s frameNumber)) = 8) ∧
            s₃.buffer = s.buffer ∧ s₃.position = k.dataStart (frameStart s frameNumber) := by
          unfold Kind.dataStart
          cases is : k.isDelta with
          | false =>
            rw [is] at third
            cases third
            exact ⟨fun no => absurd no Bool.false_ne_true, buffer₂, position₂⟩
          | true =>
            rw [is] at third
            obtain ⟨block, buffer₃, position₃⟩ := validateDeltaDescriptor_true third
            rw [buffer₂, position₂] at block
            exact ⟨fun _ => block, buffer₃.trans buffer₂, by rw [position₃, position₂]; rfl⟩
        obtain ⟨delta, buffer₃, position₃⟩ := delta
        have data := validateFrameDataDescriptor_true valid
        rw [buffer₃, position₃] at data
        exact ⟨descriptor, palette, delta, data⟩

theorem validateFrame_buffer {s s' : Stream} {frameNumber : Nat} {info : FrameInfo}
    (valid : validateFrame s frameNumber info = (true, s')) : s'.buffer = s.buffer := by
  unfold validateFrame at valid
  split at valid
  next => exact absurd (congrArg Prod.fst valid) Bool.false_ne_true
  next info' s₁ first =>
    obtain ⟨-, -, buffer₁, -⟩ := validateFrameDescriptor_some first
    split at valid
    next => exact absurd (congrArg Prod.fst valid) Bool.false_ne_true
    next s₂ second =>
      have buffer₂ : s₂.buffer = s₁.buffer := by
        split at second
        next => exact validatePaletteDescriptor_buffer second
        next => cases second; rfl
      split at valid
      next => exact absurd (congrArg Prod.fst valid) Bool.false_ne_true
      next s₃ third =>
        have buffer₃ : s₃.buffer = s₂.buffer := by
          split at third
          next => exact (validateDeltaDescriptor_true third).2.1
          next => cases third; rfl
        have buffer₄ := Stream.read_buffer s₃ blockHeaderSize
        unfold validateFrameDataDescriptor at valid
        split at valid
        next => exact absurd (congrArg Prod.fst valid) Bool.false_ne_true
        next d stream read =>
          obtain ⟨-, rfl⟩ := Prod.mk.inj valid
          rw [read] at buffer₄
          exact buffer₄.trans (buffer₃.trans (buffer₂.trans buffer₁))

/-- Each frame passes on its own, from the start of the file as well. -/
theorem validateFrames_true {unset : Nat → FrameInfo} (l : List Nat) : ∀ {s : Stream},
    (validateFrames unset l s).1 = true → ∀ i ∈ l, ∃ t : Stream, t.buffer = s.buffer ∧
      (validateFrame t i (unset i)).1 = true := by
  induction l with
  | nil => exact fun _ _ mem => absurd mem List.not_mem_nil
  | cons first rest ih =>
    intro s valid i mem
    cases here : validateFrame s first (unset first) with
    | mk ok s' =>
      rw [validateFrames, here] at valid
      cases ok with
      | false => exact absurd valid Bool.false_ne_true
      | true =>
      rcases List.mem_cons.1 mem with rfl | later
      · exact ⟨s, rfl, by rw [here]⟩
      · obtain ⟨t, same, passes⟩ := ih valid i later
        exact ⟨t, same.trans (validateFrame_buffer here), passes⟩

/-- Each frame of a validated file, read from wherever the stream is -/
theorem frameAt_of_validateStream {unset : Nat → FrameInfo} {s : Stream} {frameNumber : Nat} {k : Kind}
    (valid : (validateStream unset s).1 = true) (count : frameNumber < frameCount s)
    (known : parseFormat (formatAt s.buffer (frameStart s frameNumber)) = some (k.bpp, k.hasPalette))
    (delta : isDeltaAt s.buffer (frameStart s frameNumber) = k.isDelta)
    (inside : k.PaletteInside s.buffer (frameStart s frameNumber)) :
    FrameAt s.buffer (frameStart s frameNumber) k := by
  have buffer := readGraphicsDescriptor_buffer s
  unfold validateStream at valid
  unfold frameCount at count
  split at valid
  next => exact absurd valid Bool.false_ne_true
  next graphics s' descriptor =>
    rw [descriptor] at count buffer
    obtain ⟨t, same, passes⟩ := validateFrames_true _ valid frameNumber (List.mem_range.2 count)
    have same : t.buffer = s.buffer := same.trans buffer
    have start : frameStart t frameNumber = frameStart s frameNumber := by
      unfold frameStart
      rw [seekToFrameDescriptor_congr same]
    rw [← same, ← start] at known delta inside ⊢
    exact validateFrame_true passes known delta inside

/-! ## What the reader reads -/

namespace Globals

@[simp] theorem length_setEntry (g : Globals) (i : Nat) (color : Pixel) :
    (g.setEntry i color).pixelLookupTable.length = g.pixelLookupTable.length := List.length_set

theorem setEntry_overrun {g : Globals} {i : Nat} (lt : i < g.pixelLookupTable.length) (color : Pixel) :
    (g.setEntry i color).overrun = g.overrun := by
  rw [setEntry, decide_eq_false (Nat.not_le.2 lt)]
  exact Bool.or_false _

/-- Colors that are written to entries of the table stay inside it. -/
theorem foldl_setEntry (color : Nat → Pixel) (l : List Nat) : ∀ {g : Globals}, (∀ i ∈ l, i < g.pixelLookupTable.length) →
    (l.foldl (fun g i => g.setEntry i (color i)) g).overrun = g.overrun := by
  induction l with
  | nil => exact fun _ => rfl
  | cons i rest ih =>
    intro g inside
    rw [List.foldl_cons, ih, setEntry_overrun (inside i List.mem_cons_self)]
    rw [length_setEntry]
    exact fun k mem => inside k (List.mem_cons_of_mem i mem)

theorem interpolatePalette_overrun {g : Globals} {steps : Nat} (fits : steps ≤ g.pixelLookupTable.length) (fg bg : Pixel) :
    (g.interpolatePalette fg bg steps).2.overrun = g.overrun := by
  unfold interpolatePalette
  split
  · rfl
  · exact foldl_setEntry _ _ fun i mem => (List.mem_range.1 mem).trans_le fits

end Globals

theorem loadEntries_inside (l : List Nat) : ∀ {s : Stream} {g : Globals}, (∀ i ∈ l, i < g.pixelLookupTable.length) →
    s.position + l.length * 3 ≤ s.buffer.length →
    ∃ g', loadEntries l s g = (true, { s with position := s.position + l.length * 3 }, g') ∧ g'.overrun = g.overrun := by
  induction l with
  | nil => exact fun {_ g} _ _ => ⟨g, rfl, rfl⟩
  | cons i rest ih =>
    intro s g table inside
    rw [List.length_cons] at inside
    have first := @Stream.read_inside s 3 (by omega)
    have here := Globals.setEntry_overrun (table i List.mem_cons_self)
      ⟨(s.ahead.take 3).getD 0 0, (s.ahead.take 3).getD 1 0, (s.ahead.take 3).getD 2 0⟩
    obtain ⟨g', loaded, kept⟩ := @ih { s with position := s.position + 3 }
      (g.setEntry i ⟨(s.ahead.take 3).getD 0 0, (s.ahead.take 3).getD 1 0, (s.ahead.take 3).getD 2 0⟩)
      (by rw [Globals.length_setEntry]; exact fun k mem => table k (List.mem_cons_of_mem i mem))
      (by dsimp only; omega)
    refine ⟨g', ?_, kept.trans here⟩
    unfold loadEntries
    rw [first]
    dsimp only at loaded ⊢
    rw [loaded, List.length_cons, Nat.add_assoc, Nat.add_mul, Nat.one_mul, Nat.add_comm 3]

namespace Reader

/-- A part of the preparation has read this much, no more than its own part of `info` has changed, and no color was written behind
the table. -/
structure Moved (r r' : Reader) (size : Nat) : Prop where
  buffer : r'.stream.buffer = r.stream.buffer
  position : r'.stream.position = r.stream.position + size
  bpp : r'.info.bpp = r.info.bpp
  hasPalette : r'.info.hasPalette = r.info.hasPalette
  isDelta : r'.info.isDelta = r.info.isDelta
  overrun : r'.globals.overrun = r.globals.overrun

theorem Moved.refl (r : Reader) : Moved r r 0 := ⟨rfl, rfl, rfl, rfl, rfl, rfl⟩

theorem Moved.trans {r r' r'' : Reader} {m n : Nat} (first : Moved r r' m) (second : Moved r' r'' n) :
    Moved r r'' (m + n) where
  buffer := second.buffer.trans first.buffer
  position := by rw [second.position, first.position, Nat.add_assoc]
  bpp := second.bpp.trans first.bpp
  hasPalette := second.hasPalette.trans first.hasPalette
  isDelta := second.isDelta.trans first.isDelta
  overrun := second.overrun.trans first.overrun

theorem handlePalette_inside {r : Reader} (fg bg : Pixel)
    (fits : r.info.bpp ≤ 8 → 2 ^ r.info.bpp ≤ r.globals.pixelLookupTable.length) (small : r.info.hasPalette = true → r.info.bpp ≤ 8)
    (inside : r.info.hasPalette = true →
      r.stream.position + (blockHeaderSize + 2 ^ r.info.bpp * 3) ≤ r.stream.buffer.length) :
    ∃ needsPixconvert r', r.handlePalette fg bg = (some needsPixconvert, r') ∧
      Moved r r' (if r.info.hasPalette then blockHeaderSize + 2 ^ r.info.bpp * 3 else 0) := by
  have entries (le : r.info.bpp ≤ 8) : r.paletteEntries = 2 ^ r.info.bpp := by
    have le : 2 ^ r.info.bpp ≤ 2 ^ 8 := Nat.pow_le_pow_right (by decide) le
    rw [paletteEntries, Nat.one_shiftLeft, Nat.mod_eq_of_lt (by omega)]
  unfold handlePalette
  cases has : r.info.hasPalette with
  | false =>
    rw [if_neg Bool.false_ne_true, if_neg Bool.false_ne_true]
    split
    next le =>
      refine ⟨_, _, rfl, rfl, rfl, rfl, rfl, rfl, ?_⟩
      exact Globals.interpolatePalette_overrun (by rw [entries le]; exact fits le) fg bg
    next => exact ⟨_, _, rfl, Moved.refl r⟩
  | true =>
    have inside := inside has
    have header := @Stream.read_inside r.stream blockHeaderSize (by omega)
    obtain ⟨globals, loaded, kept⟩ := @loadEntries_inside (List.range (2 ^ r.info.bpp))
      { r.stream with position := r.stream.position + blockHeaderSize } r.globals.invalidatePalette
      (fun i mem => (List.mem_range.1 mem).trans_le (fits (small has)))
      (by rw [List.length_range]; dsimp only; omega)
    rw [if_pos rfl, if_pos rfl]
    unfold loadQgfPalette
    rw [header, entries (small has)]
    dsimp only at loaded ⊢
    rw [loaded, List.length_range]
    exact ⟨true, _, rfl, rfl, Nat.add_assoc _ _ _, rfl, rfl, rfl, kept⟩

theorem convert_moved {r : Reader} {paletteConvert : Nat → List Pixel → Bool × List Pixel}
    (converts : ∀ entries table, (paletteConvert entries table).1 = true) (needsPixconvert : Bool) :
    ∃ r', (if needsPixconvert then r.convert paletteConvert else (true, r)) = (true, r') ∧ Moved r r' 0 := by
  cases needsPixconvert with
  | false => exact ⟨r, rfl, Moved.refl r⟩
  | true =>
    refine ⟨(r.convert paletteConvert).2, ?_, rfl, rfl, rfl, rfl, rfl, rfl⟩
    exact Prod.ext (converts r.paletteEntries r.globals.pixelLookupTable) rfl

theorem readDelta_inside {r : Reader} (inside : r.info.isDelta = true →
      r.stream.position + deltaDescriptorSize ≤ r.stream.buffer.length) :
    ∃ r', (if r.info.isDelta then r.readDelta else (true, r)) = (true, r') ∧
      Moved r r' (if r.info.isDelta then deltaDescriptorSize else 0) := by
  cases is : r.info.isDelta with
  | false => exact ⟨r, rfl, Moved.refl r⟩
  | true =>
    rw [if_pos rfl, if_pos rfl]
    unfold readDelta
    rw [Stream.read_inside (inside is)]
    exact ⟨_, rfl, rfl, rfl, rfl, rfl, rfl, rfl⟩

theorem readData_inside {r : Reader} (inside : r.stream.position + blockHeaderSize ≤ r.stream.buffer.length) :
    ∃ r', r.readData = (true, r') ∧ Moved r r' blockHeaderSize := by
  unfold readData
  rw [Stream.read_inside inside]
  exact ⟨_, rfl, rfl, rfl, rfl, rfl, rfl, rfl⟩

/-- The table has an entry for each value of a pixel: so it is in every build that is capable of the depth, but with native colors
and without the palette of 256 colors. -/
theorem table_fits {support : Support} {bpp : Nat} {table : List Pixel} (size : table.length = tableSize support)
    (capable : bppCapable support bpp = true) (sixteen : support.palette256 = false → bpp ≤ 8 → bpp ≤ 4 ∨ support.nativeColors = false)
    (le : bpp ≤ 8) : 2 ^ bpp ≤ table.length := by
  rw [size, tableSize]
  cases has : support.palette256 with
  | true => exact Nat.pow_le_pow_right (by decide) le
  | false =>
    refine Nat.pow_le_pow_right (by decide) ?_ |>.trans (Nat.le_refl (2 ^ 4))
    rcases sixteen has le with small | native
    · exact small
    · rw [bppCapable, native, has] at capable
      simp only [Bool.false_or, Bool.and_eq_true, decide_eq_true_eq] at capable
      exact capable.1

/-- A frame that is in the file is prepared exactly by a build that is capable of its depth, and no color is written behind the
table. -/
theorem prepareFrame_frameAt {r : Reader} {frameNumber : Nat} {k : Kind} {support : Support}
    {paletteConvert : Nat → List Pixel → Bool × List Pixel}
    (frame : FrameAt r.stream.buffer (frameStart r.stream frameNumber) k)
    (known : parseFormat (formatAt r.stream.buffer (frameStart r.stream frameNumber)) = some (k.bpp, k.hasPalette))
    (delta : isDeltaAt r.stream.buffer (frameStart r.stream frameNumber) = k.isDelta)
    (inside : k.PaletteInside r.stream.buffer (frameStart r.stream frameNumber))
    (converts : ∀ entries table, (paletteConvert entries table).1 = true)
    (size : r.globals.pixelLookupTable.length = tableSize support)
    (sixteen : support.palette256 = false → k.bpp ≤ 8 → k.bpp ≤ 4 ∨ support.nativeColors = false) (fg bg : Pixel) :
    ((r.prepareFrame support paletteConvert frameNumber fg bg).1 = true ↔ bppCapable support k.bpp = true) ∧
      (r.prepareFrame support paletteConvert frameNumber fg bg).2.globals.overrun = r.globals.overrun ∧
      (r.prepareFrame support paletteConvert frameNumber fg bg).2.info.bpp = k.bpp ∧
      (r.prepareFrame support paletteConvert frameNumber fg bg).2.info.hasPalette = k.hasPalette ∧
      (r.prepareFrame support paletteConvert frameNumber fg bg).2.info.isDelta = k.isDelta := by
  obtain ⟨-, -, small⟩ := parseFormat_some known
  have same := seekToFrameDescriptor_buffer r.stream frameNumber
  have first := @Stream.read_inside (seekToFrameDescriptor r.stream frameNumber) frameDescriptorSize
    (by rw [same]; exact frame.descriptor.1.inside)
  have ahead : (seekToFrameDescriptor r.stream frameNumber).ahead =
      r.stream.buffer.drop (frameStart r.stream frameNumber) := by
    rw [Stream.ahead, same]
    rfl
  obtain ⟨bpp, hasPalette, isDelta⟩ := parseFrameDescriptor_known r.info known
  rw [delta] at isDelta
  rw [prepareFrame, first, ahead]
  dsimp only
  generalize parsed : parseFrameDescriptor _ r.info = info at bpp hasPalette isDelta ⊢
  rw [bpp]
  by_cases capable : bppCapable support k.bpp = true
  swap
  · rw [if_pos capable]
    exact ⟨iff_of_false Bool.false_ne_true capable, rfl, bpp, hasPalette, isDelta⟩
  rw [if_neg (not_not.2 capable)]
  generalize before : Reader.mk r.globals.invalidatePalette _ info = r₁
  have position₁ : r₁.stream.position = frameStart r.stream frameNumber + frameDescriptorSize := by
    rw [← before]
    rfl
  have buffer₁ : r₁.stream.buffer = r.stream.buffer := by rw [← before, same]
  have bpp₁ : r₁.info.bpp = k.bpp := by rw [← before, bpp]
  have hasPalette₁ : r₁.info.hasPalette = k.hasPalette := by rw [← before, hasPalette]
  have isDelta₁ : r₁.info.isDelta = k.isDelta := by rw [← before, isDelta]
  have globals₁ : r₁.globals = r.globals.invalidatePalette := by rw [← before]
  obtain ⟨needsPixconvert, r₂, palette, moved₂⟩ := @handlePalette_inside r₁ fg bg
    (by rw [bpp₁, globals₁]; exact table_fits size capable sixteen)
    (by rw [hasPalette₁, bpp₁]; exact small)
    (by
      rw [hasPalette₁, bpp₁, position₁, buffer₁]
      intro has
      have := inside has
      rw [Kind.deltaStart, if_pos has] at this
      exact this)
  obtain ⟨r₃, converted, moved₃⟩ := @convert_moved r₂ paletteConvert converts needsPixconvert
  have moved₃ := moved₂.trans moved₃
  have isDelta₃ : r₃.info.isDelta = k.isDelta := moved₃.isDelta.trans isDelta₁
  have buffer₃ : r₃.stream.buffer = r.stream.buffer := moved₃.buffer.trans buffer₁
  have position₃ : r₃.stream.position = k.deltaStart (frameStart r.stream frameNumber) := by
    rw [moved₃.position, position₁, hasPalette₁, bpp₁]
    rfl
  obtain ⟨r₄, delta₄, moved₄⟩ := @readDelta_inside r₃ (by
    rw [isDelta₃, position₃, buffer₃]
    exact fun is => (frame.delta is).1.inside)
  obtain ⟨r₅, data, moved₅⟩ := @readData_inside r₄ (by
    rw [moved₄.position, position₃, isDelta₃, moved₄.buffer, buffer₃]
    exact frame.data.inside)
  have moved := (moved₃.trans moved₄).trans moved₅
  rw [palette]
  dsimp only
  rw [converted]
  dsimp only
  rw [delta₄]
  dsimp only
  rw [data]
  refine ⟨iff_of_true rfl capable, ?_, moved.bpp.trans bpp₁, moved.hasPalette.trans hasPalette₁, moved.isDelta.trans isDelta₁⟩
  rw [moved.overrun, globals₁]
  rfl

end Reader

/-- A frame of a validated file, if its format is known and its palette inside the file: its blocks are where the reader takes
them to be, and every build prepares it that is capable of its depth and whose driver converts palettes; where a depth of 8 does not
meet a table of 16 entries, no color is written behind the table. -/
theorem validated_prepared_iff {unset : Nat → FrameInfo} {s : Stream} {frameNumber : Nat} {k : Kind} {r : Reader}
    {paletteConvert : Nat → List Pixel → Bool × List Pixel} (valid : (validateStream unset s).1 = true)
    (count : frameNumber < frameCount s) (known : kindAt s.buffer (frameStart s frameNumber) = some k)
    (inside : k.PaletteInside s.buffer (frameStart s frameNumber)) (same : r.stream.buffer = s.buffer)
    (converts : ∀ entries table, (paletteConvert entries table).1 = true) {support : Support}
    (size : r.globals.pixelLookupTable.length = tableSize support)
    (sixteen : support.palette256 = false → k.bpp ≤ 8 → k.bpp ≤ 4 ∨ support.nativeColors = false) (fg bg : Pixel) :
    FrameAt s.buffer (frameStart s frameNumber) k ∧
      ((r.prepareFrame support paletteConvert frameNumber fg bg).1 = true ↔ bppCapable support k.bpp = true) ∧
      (r.prepareFrame support paletteConvert frameNumber fg bg).2.globals.overrun = r.globals.overrun ∧
      (r.prepareFrame support paletteConvert frameNumber fg bg).2.info.bpp = k.bpp ∧
      (r.prepareFrame support paletteConvert frameNumber fg bg).2.info.hasPalette = k.hasPalette ∧
      (r.prepareFrame support paletteConvert frameNumber fg bg).2.info.isDelta = k.isDelta := by
  obtain ⟨format, delta⟩ := kindAt_some known
  have frame := frameAt_of_validateStream valid count format delta inside
  have start : frameStart r.stream frameNumber = frameStart s frameNumber := by
    unfold frameStart
    rw [seekToFrameDescriptor_congr same]
  refine ⟨frame, ?_⟩
  rw [← same, ← start] at frame format delta inside
  exact Reader.prepareFrame_frameAt frame format delta inside converts size sixteen fg bg

/-- A file of one frame, with these blocks -/
def fileOf (blocks : List UInt8) : List UInt8 :=
  [0, 0xFF, 18, 0, 0, 0x51, 0x47, 0x46, 1] ++ toBytes 4 (32 + blocks.length) ++
    toBytes 4 (inverted 32 (32 + blocks.length)) ++ [2, 0, 2, 0, 1, 0] ++ [1, 0xFE, 4, 0, 0, 32, 0, 0, 0] ++ blocks

def cleared : FrameInfo := ⟨0, 0, false, false, 0, 0, 0, 0, 0⟩

/-- A reader of a file whose other variables are all zero -/
def readerOf (support : Support) (blocks : List UInt8) : Reader where
  globals := ⟨false, 0, ⟨0, 0, 0⟩, ⟨0, 0, 0⟩, List.replicate (tableSize support) ⟨0, 0, 0⟩, false⟩
  stream := ⟨fileOf blocks, 0, false⟩
  info := cleared

/-- A palette of two colors, a delta and one byte of data -/
def paletteAndDelta : List UInt8 :=
  [2, 0xFD, 6, 0, 0, 4, 2, 0, 0xFF, 0, 0] ++ [3, 0xFC, 6, 0, 0, 0, 0, 0, 0, 0, 255] ++
    [4, 0xFB, 8, 0, 0, 0, 0, 0, 0, 2, 0, 2, 0] ++ [5, 0xFA, 1, 0, 0, 0xE4]

theorem validated_prepared_delta :
    FrameAt (fileOf paletteAndDelta) 32 ⟨1, true, true⟩ ∧
      ((readerOf ⟨false, false⟩ paletteAndDelta).prepareFrame ⟨false, false⟩ (fun _ table => (true, table)) 0
        ⟨0, 0, 255⟩ ⟨0, 0, 0⟩).1 = true := by
  have prepared := @validated_prepared_iff (fun _ => cleared) ⟨fileOf paletteAndDelta, 0, false⟩ 0 ⟨1, true, true⟩
    (readerOf ⟨false, false⟩ paletteAndDelta) (fun _ table => (true, table)) (by decide +kernel) (by decide +kernel)
    (by decide +kernel) (by intro _; decide +kernel) rfl (fun _ _ => rfl) ⟨false, false⟩ List.length_replicate
    (fun _ _ => Or.inr rfl) ⟨0, 0, 255⟩ ⟨0, 0, 0⟩
  have start : frameStart ⟨fileOf paletteAndDelta, 0, false⟩ 0 = 32 := by decide +kernel
  rw [start] at prepared
  exact ⟨prepared.1, prepared.2.1.2 (by decide)⟩

/-- A data block that is said to be longer than the file -/
def longData (format : UInt8) : List UInt8 := [2, 0xFD, 6, 0, 0, format, 0, 0, 0xFF, 0, 0] ++ [5, 0xFA, 100, 0, 0, 0xE4]

/-- A palette block of which the file has only the header, as a data block follows -/
def noEntries : List UInt8 := [2, 0xFD, 6, 0, 0, 4, 0, 0, 0xFF, 0, 0] ++ [3, 0xFC, 6, 0, 0] ++ [5, 0xFA, 0, 0, 0]

/-- The validator accepts a format that is unknown, data that the file does not have, pixels that are too deep for the build, a
palette that the reader then does not find, and pixels for which the table is too small. -/
theorem validated_not_prepared :
    ((validateStream (fun _ => cleared) ⟨fileOf (longData 10), 0, false⟩).1 = true ∧
        0 < frameCount ⟨fileOf (longData 10), 0, false⟩ ∧
        kindAt (fileOf (longData 10)) (frameStart ⟨fileOf (longData 10), 0, false⟩ 0) = none) ∧
      ((validateStream (fun _ => cleared) ⟨fileOf (longData 3), 0, false⟩).1 = true ∧
        0 < frameCount ⟨fileOf (longData 3), 0, false⟩ ∧
        kindAt (fileOf (longData 3)) (frameStart ⟨fileOf (longData 3), 0, false⟩ 0) = some ⟨8, false, false⟩ ∧
        (fileOf (longData 3)).length <
          (⟨8, false, false⟩ : Kind).dataStart (frameStart ⟨fileOf (longData 3), 0, false⟩ 0) + blockHeaderSize +
            lengthAt (fileOf (longData 3))
              ((⟨8, false, false⟩ : Kind).dataStart (frameStart ⟨fileOf (longData 3), 0, false⟩ 0)) ∧
        ((readerOf ⟨false, false⟩ (longData 3)).prepareFrame ⟨false, false⟩ (fun _ table => (true, table)) 0
          ⟨0, 0, 255⟩ ⟨0, 0, 0⟩).1 = false ∧
        ((readerOf ⟨true, false⟩ (longData 3)).prepareFrame ⟨true, false⟩ (fun _ table => (false, table)) 0
          ⟨0, 0, 255⟩ ⟨0, 0, 0⟩).1 = false) ∧
      ((validateStream (fun _ => cleared) ⟨fileOf noEntries, 0, false⟩).1 = true ∧
        0 < frameCount ⟨fileOf noEntries, 0, false⟩ ∧
        kindAt (fileOf noEntries) (frameStart ⟨fileOf noEntries, 0, false⟩ 0) = some ⟨1, true, false⟩ ∧
        ((readerOf ⟨true, true⟩ noEntries).prepareFrame ⟨true, true⟩ (fun _ table => (true, table)) 0
          ⟨0, 0, 255⟩ ⟨0, 0, 0⟩).1 = false) ∧
      ((readerOf ⟨false, true⟩ (longData 3)).prepareFrame ⟨false, true⟩ (fun _ table => (true, table)) 0
        ⟨0, 0, 255⟩ ⟨0, 0, 0⟩).2.globals.overrun = true := by
  decide +kernel

end Image

end QmkFirmware.Painter
