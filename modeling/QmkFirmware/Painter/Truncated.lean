import QmkFirmware.Painter.RoundTrip

/-!
# Image data that ends too early

A stream says that it has ended with a negative value. Without compression the value reaches
the decoder, which gives up. The decompressor returns what it has read as a byte, so that the
decoder never hears of the end.
-/

namespace QmkFirmware.Painter

/-! ## What a stream supplies -/

/-- How many equal bytes a marker stands for; the counter of a run of 0 wraps. -/
def runLength (m : UInt8) : Nat := if m = 0 then 256 else m.toNat

/-- What the next byte of compressed data is: a marker, the byte of a run, or one of so many more different bytes -/
inductive Phase where
  | marker
  | equal (m : UInt8)
  | literal (more : Nat)

/-- The bytes that compressed data stand for, as far as they are there -/
def expanded : Phase → List UInt8 → List UInt8
  | _, [] => []
  | .marker, m :: rest => expanded (if 128 ≤ m then .literal (m.toNat - 128) else .equal m) rest
  | .equal m, b :: rest => List.replicate (runLength m) b ++ expanded .marker rest
  | .literal 0, b :: rest => b :: expanded .marker rest
  | .literal (more + 1), b :: rest => b :: expanded (.literal more) rest

/-- The decompressor is about to return what the data stand for; when the marker has been read, the next byte has been as well. -/
def Ready (state : ByteInputState) (data : List UInt8) : Phase → Prop
  | .marker => state.mode = .markerByte ∧ state.srcStream.ahead = data
  | .equal m => state.mode = .repeatingRun ∧ state.remain = m ∧
    ∀ b rest, data = b :: rest → state.curr = b.toNat ∧ state.srcStream.ahead = rest
  | .literal more => state.mode = .nonRepeatingRun ∧ state.remain.toNat = more + 1 ∧
    ∀ b rest, data = b :: rest → state.curr = b.toNat ∧ state.srcStream.ahead = rest

/-- The bytes that a stream supplies with either compression -/
def supplied (compression : Compression) (ahead : List UInt8) : List UInt8 :=
  match compression with
  | .uncompressed => ahead
  | .rle => expanded .marker ahead

theorem Stream.get_end {s : Stream} (done : s.ahead = []) : s.get.1 = streamEof := by
  have none : s.buffer[s.position]? = none := by
    rw [← List.head?_drop]
    exact congrArg List.head? done
  unfold Stream.get
  rw [none]

/-- A call in the middle of a run of different bytes -/
theorem literal_step {state : ByteInputState} {b : UInt8} {n : Nat} (mode : state.mode = .nonRepeatingRun)
    (curr : state.curr = b.toNat) (remain : state.remain.toNat = n + 1) :
    byteRleDecoder state =
      ((b.toNat : Int), if 0 < n
        then { state with srcStream := state.srcStream.get.2, curr := state.srcStream.get.1, remain := state.remain - 1 }
        else { state with remain := state.remain - 1, mode := .markerByte }) := by
  obtain ⟨-, more⟩ := sub_one_pos remain
  by_cases left : 0 < n
  · simp [byteRleDecoder, mode, curr, toUInt8_toNat, more, left]
  · simp [byteRleDecoder, mode, curr, toUInt8_toNat, more, left]

theorem runLength_pos (m : UInt8) : ∃ n, runLength m = n + 1 := by
  unfold runLength
  split
  next => exact ⟨255, rfl⟩
  next some => exact Nat.exists_eq_succ_of_ne_zero fun none => some (UInt8.toNat_inj.1 none)

/-- A run of equal bytes, of which the counter says how many are left -/
theorem equal_delivers {state : ByteInputState} {m b : UInt8} (mode : state.mode = .repeatingRun) (curr : state.curr = b.toNat)
    (remain : state.remain = m) :
    ∃ state', Delivers byteRleDecoder state (List.replicate (runLength m) b) state' ∧
      state'.mode = .markerByte ∧ state'.srcStream = state.srcStream := by
  unfold runLength
  by_cases zero : m = 0
  · obtain ⟨state', delivers, last⟩ := @repeated_delivers b 254 { state with remain := 255 } mode curr rfl
    refine ⟨state', ?_, last⟩
    rw [if_pos zero]
    refine Delivers.cons ?_ delivers
    have wrapped : state.remain - 1 = 255 := by
      rw [remain, zero]
      rfl
    simp [byteRleDecoder, mode, curr, toUInt8_toNat, wrapped]
  · rw [if_neg zero]
    obtain ⟨n, same⟩ := Nat.exists_eq_succ_of_ne_zero fun none => zero (UInt8.toNat_inj.1 none)
    have left : state.remain.toNat = n + 1 := by
      rw [remain]
      exact same
    rw [same]
    exact repeated_delivers b n mode curr left

theorem delivers_congr {input : ByteInputState → Int × ByteInputState} {s t s' : ByteInputState} {b : UInt8} {data : List UInt8}
    (same : input s = input t) (delivers : Delivers input t (b :: data) s') : Delivers input s (b :: data) s' := by
  obtain ⟨mid, here, rest⟩ := delivers.uncons
  exact .cons (same.trans here) rest

/-- The decompressor delivers what compressed data stand for, also when they end early. -/
theorem expanded_delivers (data : List UInt8) : ∀ (phase : Phase) {state : ByteInputState}, Ready state data phase →
    ∃ state', Delivers byteRleDecoder state (expanded phase data) state' := by
  induction data with
  | nil => exact fun phase state _ => ⟨state, .nil state⟩
  | cons b rest ih =>
    intro phase state ready
    match phase with
    | .marker =>
      obtain ⟨mode, ahead⟩ := ready
      change ∃ state', Delivers byteRleDecoder state (expanded (if 128 ≤ b then _ else _) rest) state'
      cases rest with
      | nil => exact ⟨state, .nil state⟩
      | cons c more =>
        obtain ⟨s₁, get₁, ahead₁⟩ := Stream.get_ahead ahead
        obtain ⟨s₂, get₂, ahead₂⟩ := Stream.get_ahead ahead₁
        have step := marker_step mode get₁ get₂
        split at step
        next high =>
          have marker : 128 ≤ b.toNat := UInt8.le_iff_toNat_le.1 high
          have remain : (b - 127).toNat = b.toNat - 128 + 1 := by
            rw [UInt8.toNat_sub_of_le b 127 (UInt8.le_trans (by decide) high)]
            change b.toNat - 127 = _
            omega
          obtain ⟨state', delivers⟩ := @ih (.literal (b.toNat - 128)) ⟨s₂, c.toNat, .nonRepeatingRun, b - 127⟩
            ⟨rfl, remain, fun _ _ same => by cases same; exact ⟨rfl, ahead₂⟩⟩
          rw [if_pos high]
          refine ⟨state', ?_⟩
          generalize b.toNat - 128 = n at delivers ⊢
          cases n with
          | zero => exact delivers_congr step delivers
          | succ n => exact delivers_congr step delivers
        next low =>
          obtain ⟨state', delivers⟩ := @ih (.equal b) ⟨s₂, c.toNat, .repeatingRun, b⟩
            ⟨rfl, rfl, fun _ _ same => by cases same; exact ⟨rfl, ahead₂⟩⟩
          rw [if_neg low]
          refine ⟨state', ?_⟩
          obtain ⟨n, more⟩ := runLength_pos b
          rw [expanded, more, List.replicate_succ, List.cons_append] at delivers ⊢
          exact delivers_congr step delivers
    | .equal m =>
      obtain ⟨mode, remain, next⟩ := ready
      obtain ⟨curr, ahead⟩ := next b rest rfl
      obtain ⟨mid, run, mode', stream⟩ := equal_delivers mode curr remain
      obtain ⟨state', delivers⟩ := @ih .marker mid ⟨mode', by rw [stream]; exact ahead⟩
      exact ⟨state', run.append delivers⟩
    | .literal 0 =>
      obtain ⟨mode, remain, next⟩ := ready
      obtain ⟨curr, ahead⟩ := next b rest rfl
      have step := literal_step mode curr remain
      rw [if_neg (Nat.lt_irrefl 0)] at step
      obtain ⟨state', delivers⟩ := @ih .marker { state with remain := state.remain - 1, mode := .markerByte } ⟨rfl, ahead⟩
      exact ⟨state', .cons step delivers⟩
    | .literal (more + 1) =>
      obtain ⟨mode, remain, next⟩ := ready
      obtain ⟨curr, ahead⟩ := next b rest rfl
      have step := literal_step mode curr remain
      rw [if_pos (Nat.succ_pos more)] at step
      obtain ⟨left, -⟩ := sub_one_pos remain
      have ready : Ready { state with
            srcStream := state.srcStream.get.2, curr := state.srcStream.get.1, remain := state.remain - 1 } rest (.literal more) := by
        refine ⟨mode, left, fun d tail same => ?_⟩
        obtain ⟨s', get, ahead'⟩ := Stream.get_ahead (ahead.trans same)
        rw [get]
        exact ⟨rfl, ahead'⟩
      obtain ⟨state', delivers⟩ := ih (.literal more) ready
      exact ⟨state', .cons step delivers⟩

/-- What the callback delivers before the stream has ended -/
theorem supplied_delivers (compression : Compression) (state : ByteInputState) :
    ∃ state', Delivers (inputCallback compression) (prepareInputState state compression)
      (supplied compression state.srcStream.ahead) state' ∧ (compression = .uncompressed → state'.srcStream.ahead = []) := by
  cases compression with
  | uncompressed =>
    obtain ⟨state', delivers, done⟩ := @uncompressed_delivers state.srcStream.ahead state [] (List.append_nil _).symm
    exact ⟨state', delivers, fun _ => done⟩
  | rle =>
    obtain ⟨state', delivers⟩ := @expanded_delivers state.srcStream.ahead .marker
      { state with mode := .markerByte, remain := 0 } ⟨rfl, rfl⟩
    exact ⟨state', delivers, fun other => Compression.noConfusion other⟩

/-- The decompressor never returns a negative value. -/
theorem byteRleDecoder_nonneg (state : ByteInputState) : 0 ≤ (byteRleDecoder state).1 := by
  unfold byteRleDecoder
  dsimp only
  generalize (if state.mode = .markerByte then _ else state) = state
  split
  next =>
    split
    next => exact Int.natCast_nonneg _
    next => exact Int.natCast_nonneg _
  next => exact Int.natCast_nonneg _

/-! ## The decoder -/

namespace BitsPerPixel

/-- `pixel_bitmask` -/
def mask (b : BitsPerPixel) : UInt8 := UInt8.ofNat (1 <<< b.bits - 1)

/-- The pixels of a byte, the lowest bits first -/
def unpack (b : BitsPerPixel) : Nat → Nat → List UInt8
  | 0, _ => []
  | m + 1, byteval => UInt8.ofNat (byteval &&& b.mask.toNat) :: b.unpack m (byteval >>> b.bits)

/-- The pixels of whole bytes -/
def pixels (b : BitsPerPixel) (data : List UInt8) : List UInt8 :=
  data.flatMap fun byteval => b.unpack b.pixelsPerByte byteval.toNat

end BitsPerPixel

/-- An output callback whose calls are noted -/
def note {β : Type} (output : β → UInt8 → Bool × β) (arg : β × List UInt8) (index : UInt8) : Bool × (β × List UInt8) :=
  ((output arg.1 index).1, (output arg.1 index).2, arg.2 ++ [index])

/-- The decoder has given up, and what it has output was decoded from these bytes. -/
def Rejected {β : Type} (decoded : Bool × (β × List UInt8)) (source : List UInt8) : Prop :=
  decoded.1 = false ∧ decoded.2.2 <+: source

section Decoder

variable {σ β : Type} {output : β → UInt8 → Bool × β} {input : σ → Int × σ} {b : BitsPerPixel}

/-- The calls of the output callback are the first of those to be made, and all of them unless it refuses one. -/
theorem push_note (l : List UInt8) : ∀ (arg : β) (seen : List UInt8), ∃ calls, calls <+: l ∧
    push (note output) l (arg, seen) = ((push output l arg).1, (push output l arg).2, seen ++ calls) ∧
    ((push output l arg).1 = true → calls = l) ∧ (l ≠ [] → calls ≠ []) := by
  induction l with
  | nil => exact fun arg seen => ⟨[], List.nil_prefix, by rw [List.append_nil]; rfl, fun _ => rfl, id⟩
  | cons index l ih =>
    intro arg seen
    rw [push, push]
    cases taken : output arg index with
    | mk ok next =>
      have noted : note output (arg, seen) index = (ok, next, seen ++ [index]) := by
        unfold note
        dsimp only
        rw [taken]
      rw [noted]
      cases ok with
      | false => exact ⟨[index], by simp, rfl, fun no => absurd no Bool.false_ne_true, fun _ => List.cons_ne_nil _ _⟩
      | true =>
        obtain ⟨calls, first, same, all, -⟩ := ih next (seen ++ [index])
        refine ⟨index :: calls, List.cons_prefix_cons.2 ⟨rfl, first⟩, ?_, fun ok => by rw [all ok], fun _ => List.cons_ne_nil _ _⟩
        dsimp only
        rw [same, List.append_assoc]
        rfl

theorem decodePixels_unpack (m : Nat) : ∀ (byteval : Nat) (arg : β),
    decodePixels output b.bits b.mask m byteval arg = push output (b.unpack m byteval) arg := by
  induction m with
  | zero => exact fun _ _ => rfl
  | succ m ih =>
    intro byteval arg
    rw [decodePixels, BitsPerPixel.unpack, push]
    rcases output arg (UInt8.ofNat (byteval &&& b.mask.toNat)) with ⟨_ | _, arg'⟩
    · rfl
    · exact ih _ arg'

/-- `loop_pixels` -/
def loopPixels (b : BitsPerPixel) (remaining : UInt32) : UInt8 :=
  if remaining < (UInt8.ofNat b.pixelsPerByte).toUInt32 then remaining.toUInt8 else UInt8.ofNat b.pixelsPerByte

theorem pixelsPerByte_toNat (b : BitsPerPixel) : (UInt8.ofNat b.pixelsPerByte).toNat = b.pixelsPerByte := by
  cases b <;> decide

theorem loopPixels_toNat (b : BitsPerPixel) (remaining : UInt32) :
    (loopPixels b remaining).toNat = min remaining.toNat b.pixelsPerByte := by
  have small : b.pixelsPerByte ≤ 8 := by cases b <;> decide
  unfold loopPixels
  simp only [UInt32.lt_iff_toNat_lt, UInt8.toNat_toUInt32, pixelsPerByte_toNat]
  split
  next less =>
    rw [UInt32.toNat_toUInt8]
    omega
  next => rw [pixelsPerByte_toNat]; omega

/-- A turn of the loop -/
theorem decodeLoop_turn {fuel : Nat} {remaining : UInt32} {s : σ} (arg : β) (some : remaining ≠ 0) :
    decodeLoop output input b.bits b.mask (UInt8.ofNat b.pixelsPerByte) (fuel + 1) remaining s arg =
      if (input s).1 < 0 then (false, arg)
      else match push output (b.unpack (loopPixels b remaining).toNat (input s).1.toNat) arg with
        | (false, arg) => (false, arg)
        | (true, arg) => decodeLoop output input b.bits b.mask (UInt8.ofNat b.pixelsPerByte) fuel
            (remaining - (loopPixels b remaining).toUInt32) (input s).2 arg := by
  rw [decodeLoop, if_neg some]
  dsimp only
  split
  next => rfl
  next =>
    rw [← decodePixels_unpack]
    rfl

/-- Bytes that are delivered, and fewer than enough, are all unpacked. -/
theorem decodeLoop_delivered (data : List UInt8) : ∀ {fuel : Nat} {remaining : UInt32} {s mid : σ} (arg : β),
    Delivers input s data mid → data.length * b.pixelsPerByte < remaining.toNat → remaining.toNat ≤ fuel →
    ∃ fuel' remaining', remaining' ≠ 0 ∧
      decodeLoop output input b.bits b.mask (UInt8.ofNat b.pixelsPerByte) fuel remaining s arg =
        match push output (b.pixels data) arg with
        | (false, arg) => (false, arg)
        | (true, arg) =>
          decodeLoop output input b.bits b.mask (UInt8.ofNat b.pixelsPerByte) (fuel' + 1) remaining' mid arg := by
  induction data with
  | nil =>
    intro fuel remaining s mid arg delivers few enough
    have same : s = mid := congrArg Prod.snd delivers
    obtain ⟨fuel, rfl⟩ := Nat.exists_eq_succ_of_ne_zero (Nat.ne_of_gt (Nat.zero_lt_of_lt few |>.trans_le enough))
    refine ⟨fuel, remaining, fun zero => ?_, by rw [same]; rfl⟩
    rw [zero] at few
    exact Nat.not_lt_zero _ few
  | cons byteval data ih =>
    intro fuel remaining s mid arg delivers few enough
    rw [List.length_cons, Nat.add_mul, Nat.one_mul] at few
    have pos := b.pixelsPerByte_pos
    obtain ⟨fuel, rfl⟩ := Nat.exists_eq_succ_of_ne_zero (Nat.ne_of_gt (Nat.zero_lt_of_lt few |>.trans_le enough))
    have some : remaining ≠ 0 := by
      rintro rfl
      exact Nat.not_lt_zero _ few
    obtain ⟨next, here, rest⟩ := delivers.uncons
    have whole : (loopPixels b remaining).toNat = b.pixelsPerByte := by
      rw [loopPixels_toNat]
      omega
    have left : (remaining - (loopPixels b remaining).toUInt32).toNat = remaining.toNat - b.pixelsPerByte := by
      have le : (loopPixels b remaining).toUInt32 ≤ remaining := by
        rw [UInt32.le_iff_toNat_le, UInt8.toNat_toUInt32, whole]
        omega
      rw [UInt32.toNat_sub_of_le _ _ le, UInt8.toNat_toUInt32, whole]
    have nonneg : ¬ ((byteval.toNat : Nat) : Int) < 0 := by omega
    rw [decodeLoop_turn arg some, here, whole]
    simp only [nonneg, if_false, Int.toNat_natCast]
    rw [show b.pixels (byteval :: data) = b.unpack b.pixelsPerByte byteval.toNat ++ b.pixels data from List.flatMap_cons,
      push_append]
    cases pushed : push output (b.unpack b.pixelsPerByte byteval.toNat) arg with
    | mk ok arg' =>
      cases ok with
      | false => exact ⟨0, 1, by decide, rfl⟩
      | true => exact ih arg' rest (by omega) (by omega)

/-- No turn takes calls back. -/
theorem decodeLoop_seen (fuel : Nat) : ∀ (remaining : UInt32) (s : σ) (arg : β) (seen : List UInt8), seen.length ≤
    (decodeLoop (note output) input b.bits b.mask (UInt8.ofNat b.pixelsPerByte) fuel remaining s (arg, seen)).2.2.length := by
  induction fuel with
  | zero => exact fun _ _ _ _ => Nat.le_refl _
  | succ fuel ih =>
    intro remaining s arg seen
    by_cases zero : remaining = 0
    · rw [decodeLoop, if_pos zero]
    rw [decodeLoop_turn _ zero]
    split
    next => exact Nat.le_refl _
    next =>
      obtain ⟨calls, -, same, -⟩ := @push_note β output
        (b.unpack (loopPixels b remaining).toNat (input s).1.toNat) arg seen
      rw [same]
      have more : seen.length ≤ (seen ++ calls).length := by
        rw [List.length_append]
        exact Nat.le_add_right _ _
      cases (push output (b.unpack (loopPixels b remaining).toNat (input s).1.toNat) arg).1 with
      | false => exact more
      | true => exact more.trans (ih _ _ _ _)

/-- While pixels are left and the input goes on, there is another call. -/
theorem decodeLoop_goes_on {fuel : Nat} {remaining : UInt32} {s : σ} (arg : β) (seen : List UInt8) (some : remaining ≠ 0)
    (nonneg : 0 ≤ (input s).1) : seen.length <
      (decodeLoop (note output) input b.bits b.mask (UInt8.ofNat b.pixelsPerByte) (fuel + 1) remaining s (arg, seen)).2.2.length := by
  rw [decodeLoop_turn _ some, if_neg (Int.not_lt.2 nonneg)]
  have turn : (loopPixels b remaining).toNat ≠ 0 := by
    have pos := b.pixelsPerByte_pos
    have : remaining.toNat ≠ 0 := fun zero => some (UInt32.toNat_inj.1 zero)
    rw [loopPixels_toNat]
    omega
  obtain ⟨calls, -, same, -, called⟩ := @push_note β output
    (b.unpack (loopPixels b remaining).toNat (input s).1.toNat) arg seen
  rw [same]
  have more : seen.length < (seen ++ calls).length := by
    obtain ⟨m, succ⟩ := Nat.exists_eq_succ_of_ne_zero turn
    have pos : 0 < calls.length := by
      apply List.length_pos_of_ne_nil
      apply called
      rw [succ]
      exact List.cons_ne_nil _ _
    rw [List.length_append]
    omega
  cases (push output (b.unpack (loopPixels b remaining).toNat (input s).1.toNat) arg).1 with
  | false => exact more
  | true => exact more.trans_le (decodeLoop_seen fuel _ _ _ _)

end Decoder

/-! ## Both loops -/

section Loops

variable {β : Type} {output : β → UInt8 → Bool × β}

theorem decodePalette_eq {σ : Type} {input : σ → Int × σ} (b : BitsPerPixel) (pixelCount : UInt32) (s : σ) (arg : β) :
    decodePalette output input pixelCount (UInt8.ofNat b.bits) s arg =
      decodeLoop output input b.bits b.mask (UInt8.ofNat b.pixelsPerByte) pixelCount.toNat pixelCount s arg := by
  have bits : (UInt8.ofNat b.bits).toNat = b.bits := by cases b <;> rfl
  unfold decodePalette
  rw [bits]
  rfl

/-- A stream that ends too early is rejected exactly without compression, or if a pixel is refused before its end. -/
theorem decodePalette_truncated (b : BitsPerPixel) (compression : Compression) (state : ByteInputState) {pixelCount : UInt32}
    (arg : β) (short : (supplied compression state.srcStream.ahead).length * b.pixelsPerByte < pixelCount.toNat) :
    Rejected (decodePalette (note output) (inputCallback compression) pixelCount (UInt8.ofNat b.bits)
        (prepareInputState state compression) (arg, [])) (b.pixels (supplied compression state.srcStream.ahead)) ↔
      compression = .uncompressed ∨ (push output (b.pixels (supplied compression state.srcStream.ahead)) arg).1 = false := by
  obtain ⟨mid, delivers, done⟩ := supplied_delivers compression state
  obtain ⟨fuel, remaining, some, decoded⟩ := @decodeLoop_delivered _ _ (note output) _ b
    (supplied compression state.srcStream.ahead) _ _ _ _ (arg, []) delivers short (Nat.le_refl _)
  obtain ⟨calls, first, noted, all, -⟩ := @push_note β output
    (b.pixels (supplied compression state.srcStream.ahead)) arg []
  rw [decodePalette_eq, decoded, noted]
  cases ok : (push output (b.pixels (supplied compression state.srcStream.ahead)) arg).1 with
  | false => exact iff_of_true ⟨rfl, first⟩ (Or.inr rfl)
  | true =>
    have every := all ok
    dsimp only
    rw [every, List.nil_append, or_iff_left Bool.noConfusion]
    cases compression with
    | uncompressed =>
      have negative : (inputCallback .uncompressed mid).1 < 0 := by
        have eof := Stream.get_end (done rfl)
        change mid.srcStream.get.1 < 0
        rw [eof]
        decide
      rw [decodeLoop_turn _ some, if_pos negative]
      exact iff_of_true ⟨rfl, List.prefix_rfl⟩ rfl
    | rle =>
      have more := @decodeLoop_goes_on _ _ output _ b fuel _ _
        (push output (b.pixels (supplied .rle state.srcStream.ahead)) arg).2
        (b.pixels (supplied .rle state.srcStream.ahead)) some (byteRleDecoder_nonneg mid)
      refine iff_of_false (fun rejected => ?_) fun other => Compression.noConfusion other
      exact Nat.not_le.2 more rejected.2.length_le

/-- Sending a byte is decoding a pixel of eight bits. -/
theorem sendLoop_eq {σ : Type} {input : σ → Int × σ} (fuel : Nat) : ∀ (remaining : UInt32) (s : σ) (arg : β),
    sendLoop output input fuel remaining s arg =
      decodeLoop output input BitsPerPixel.eight.bits BitsPerPixel.eight.mask (UInt8.ofNat BitsPerPixel.eight.pixelsPerByte)
        fuel remaining s arg := by
  induction fuel with
  | zero => exact fun _ _ _ => rfl
  | succ fuel ih =>
    intro remaining s arg
    by_cases zero : remaining = 0
    · rw [sendLoop, decodeLoop, if_pos zero, if_pos zero]
    rw [decodeLoop_turn arg zero, sendLoop, if_neg zero]
    have one : loopPixels .eight remaining = 1 := by
      apply UInt8.toNat_inj.1
      have : remaining.toNat ≠ 0 := fun none => zero (UInt32.toNat_inj.1 none)
      rw [loopPixels_toNat]
      change min remaining.toNat 1 = 1
      omega
    dsimp only
    split
    next => rfl
    next nonneg =>
      have byteval : BitsPerPixel.eight.unpack 1 (input s).1.toNat = [toUInt8 (input s).1] := by
        have low : (input s).1.toNat &&& BitsPerPixel.eight.mask.toNat = ((input s).1 % 256).toNat := by
          change (input s).1.toNat &&& (2 ^ 8 - 1) = _
          rw [Nat.and_two_pow_sub_one_eq_mod]
          omega
        rw [BitsPerPixel.unpack, low]
        rfl
      rw [one, show (1 : UInt8).toNat = 1 from rfl, byteval, push]
      rcases output arg (toUInt8 (input s).1) with ⟨_ | _, arg'⟩
      · rfl
      · exact ih _ _ _

theorem pixels_eight (data : List UInt8) : BitsPerPixel.eight.pixels data = data := by
  induction data with
  | nil => rfl
  | cons byteval data ih =>
    have whole : BitsPerPixel.eight.unpack 1 byteval.toNat = [byteval] := by
      have low : byteval.toNat &&& (2 ^ 8 - 1) = byteval.toNat := by
        rw [Nat.and_two_pow_sub_one_eq_mod]
        exact Nat.mod_eq_of_lt byteval.toNat_lt
      change [UInt8.ofNat (byteval.toNat &&& (2 ^ 8 - 1))] = _
      rw [low, UInt8.ofNat_toNat]
    change BitsPerPixel.eight.unpack 1 byteval.toNat ++ BitsPerPixel.eight.pixels data = _
    rw [ih, whole]
    rfl

end Loops

/-- Image data that end too early are rejected, with nothing output that is not from the stream, exactly if they are not compressed
or the output callback refuses a pixel, or a byte, that the stream has supplied. -/
theorem truncated_rejected_iff {β : Type} (output : β → UInt8 → Bool × β) (compression : Compression) (state : ByteInputState)
    (arg : β) :
    (∀ (b : BitsPerPixel) (pixelCount : UInt32),
        (supplied compression state.srcStream.ahead).length * b.pixelsPerByte < pixelCount.toNat →
        (Rejected (decodePalette (note output) (inputCallback compression) pixelCount (UInt8.ofNat b.bits)
            (prepareInputState state compression) (arg, [])) (b.pixels (supplied compression state.srcStream.ahead)) ↔
          compression = .uncompressed ∨
            (push output (b.pixels (supplied compression state.srcStream.ahead)) arg).1 = false)) ∧
      ∀ byteCount : UInt32, (supplied compression state.srcStream.ahead).length < byteCount.toNat →
        (Rejected (sendBytes (note output) (inputCallback compression) byteCount (prepareInputState state compression) (arg, []))
            (supplied compression state.srcStream.ahead) ↔
          compression = .uncompressed ∨ (push output (supplied compression state.srcStream.ahead) arg).1 = false) := by
  refine ⟨fun b pixelCount short => decodePalette_truncated b compression state arg short, fun byteCount short => ?_⟩
  have bytes := @decodePalette_truncated β output .eight compression state _ arg
    (short.trans_le' (Nat.le_of_eq (Nat.mul_one _)))
  rw [pixels_eight, decodePalette_eq, ← sendLoop_eq] at bytes
  exact bytes

theorem truncated_rejected_iff_short :
    Rejected (decodePalette (note fun (_ : Unit) _ => (true, ())) (inputCallback .uncompressed) 8 (UInt8.ofNat BitsPerPixel.two.bits)
        (prepareInputState ⟨⟨[0xE4], 0, false⟩, 0, .markerByte, 0⟩ .uncompressed) ((), [])) (BitsPerPixel.two.pixels [0xE4]) ∧
      Rejected (sendBytes (note fun (_ : Unit) _ => (true, ())) (inputCallback .uncompressed) 2
        (prepareInputState ⟨⟨[0xE4], 0, false⟩, 0, .markerByte, 0⟩ .uncompressed) ((), [])) [0xE4] :=
  ⟨((truncated_rejected_iff _ .uncompressed ⟨⟨[0xE4], 0, false⟩, 0, .markerByte, 0⟩ ()).1 .two 8 (by decide)).2 (Or.inl rfl),
    ((truncated_rejected_iff _ .uncompressed ⟨⟨[0xE4], 0, false⟩, 0, .markerByte, 0⟩ ()).2 2 (by decide)).2 (Or.inl rfl)⟩

/-- A compressed stream that ends after a marker: the decoder says that all is well, and outputs a pixel that is in no stream. -/
theorem ended_stream_accepted :
    (supplied .rle (⟨[3], 0, false⟩ : Stream).ahead).length < 2 ∧
      decodePalette (note fun (_ : Unit) _ => (true, ())) (inputCallback .rle) 2 8
        (prepareInputState ⟨⟨[3], 0, false⟩, 0, .markerByte, 0⟩ .rle) ((), []) = (true, (), [255, 255]) := by
  decide +kernel

end QmkFirmware.Painter
