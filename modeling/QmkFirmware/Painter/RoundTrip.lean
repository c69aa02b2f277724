import QmkFirmware.Painter.Codec

/-!
# What is encoded is decoded

The compressor's output is a sequence of runs, whatever it holds back in `temp`;
the decompressor follows the runs byte by byte. The packed indices of a byte are
its digits to the base two to the bits per pixel.
-/

namespace QmkFirmware.Painter

/-! ## Runs -/

/-- What a marker byte stands for. -/
inductive Run where
  | repeated (n x : Nat)
  | literal (r : List Nat)

namespace Run

def encode : Run → List Nat
  | repeated n x => [n, x]
  | literal r => (127 + r.length) :: r

def expand : Run → List Nat
  | repeated n x => List.replicate n x
  | literal r => r

/-- The lengths that a marker byte can have. -/
def Valid : Run → Prop
  | repeated n _ => 1 ≤ n ∧ n ≤ 127
  | literal r => 1 ≤ r.length ∧ r.length ≤ 128

end Run

theorem fromEnd_one (l : List Nat) (a : Nat) : fromEnd (l ++ [a]) 1 = a := by
  simp [fromEnd]

theorem fromEnd_two (l : List Nat) (a b : Nat) : fromEnd (l ++ [a] ++ [b]) 2 = a := by
  simp [fromEnd]

theorem fromEnd_two_replicate {n x c : Nat} (h : 1 ≤ n) : fromEnd (List.replicate n x ++ [c]) 2 = x := by
  obtain ⟨n, rfl⟩ : ∃ m, n = m + 1 := ⟨n - 1, by omega⟩
  rw [List.replicate_succ']
  exact fromEnd_two _ _ _

/-! ## The compressor -/

/-- The compressor has put out `runs` and holds back the rest of what it was fed. -/
structure Compressing (s : Compressor) (fed : List Nat) (runs : List Run) : Prop where
  valid : ∀ r ∈ runs, r.Valid
  output : s.output = runs.flatMap Run.encode
  fed : fed = runs.flatMap Run.expand ++ s.temp
  repeats : s.repeating = true → ∃ n x, 2 ≤ n ∧ n < 128 ∧ s.temp = List.replicate n x
  differs : s.repeating = false → s.temp.length < 128 ∧ ∀ t a b, s.temp = t ++ [a] ++ [b] → b ≠ a

theorem valid_snoc {runs : List Run} {r : Run} (h : ∀ r ∈ runs, r.Valid) (hr : r.Valid) :
    ∀ q ∈ runs ++ [r], q.Valid := by
  intro q hq
  rcases List.mem_append.1 hq with hq | hq
  · exact h q hq
  · rw [List.mem_singleton.1 hq]
    exact hr

theorem compressing_start : Compressing .start [] [] :=
  ⟨by simp, rfl, rfl, by simp [Compressor.start], by simp [Compressor.start]⟩

/-- The next byte in a run of equal ones. -/
theorem feed_repeating {s : Compressor} {fed : List Nat} {runs : List Run} (h : Compressing s fed runs)
    (repeating : s.repeating = true) (c : Nat) : ∃ runs, Compressing (s.feed c) (fed ++ [c]) runs := by
  obtain ⟨n, x, lo, hi, temp⟩ := h.repeats repeating
  have last : fromEnd (List.replicate n x ++ [c]) 1 = c := fromEnd_one _ _
  have prior : fromEnd (List.replicate n x ++ [c]) 2 = x := fromEnd_two_replicate (by omega)
  have first : (List.replicate n x ++ [c]).getD 0 0 = x := by
    obtain ⟨n, rfl⟩ : ∃ m, n = m + 1 := ⟨n - 1, by omega⟩
    rfl
  rw [Compressor.feed]
  simp only [temp, List.length_append, List.length_replicate, List.length_singleton]
  rw [if_neg (by omega), Compressor.body]
  simp only [repeating, if_true, last, prior, first, List.length_append, List.length_replicate,
    List.length_singleton, Bool.false_eq_true, or_false, if_false, Nat.add_sub_cancel]
  by_cases same : c = x
  · subst same
    by_cases full : n + 1 = 128
    · rw [if_pos (Or.inr full)]
      refine ⟨runs ++ [.repeated n c], valid_snoc (r := .repeated n c) h.valid ⟨by omega, by omega⟩, ?_, ?_, by simp, ?_⟩
      · simp [h.output, Run.encode]
      · simp [h.fed, temp, Run.expand]
      · intro _
        refine ⟨by simp, fun t a b e => ?_⟩
        have := congrArg List.length e
        simp at this
    · rw [if_neg (by simpa using full)]
      refine ⟨runs, h.valid, h.output, ?_, fun _ => ⟨n + 1, c, by omega, by omega, ?_⟩, ?_⟩
      · simp [h.fed, temp]
      · rw [List.replicate_succ']
      · intro no
        simp at no
  · rw [if_pos (Or.inl same)]
    refine ⟨runs ++ [.repeated n x], valid_snoc (r := .repeated n x) h.valid ⟨by omega, by omega⟩, ?_, ?_, by simp, ?_⟩
    · simp [h.output, Run.encode]
    · simp [h.fed, temp, Run.expand]
    · intro _
      refine ⟨by simp, fun t a b e => ?_⟩
      have := congrArg List.length e
      simp at this

/-- The next byte otherwise. -/
theorem feed_differing {s : Compressor} {fed : List Nat} {runs : List Run} (h : Compressing s fed runs)
    (repeating : s.repeating = false) (c : Nat) : ∃ runs, Compressing (s.feed c) (fed ++ [c]) runs := by
  obtain ⟨short, distinct⟩ := h.differs repeating
  rw [Compressor.feed]
  rcases List.eq_nil_or_concat s.temp with empty | ⟨t, a, temp⟩
  · simp only [empty, List.nil_append, List.length_singleton, Nat.le_refl, if_true]
    refine ⟨runs, h.valid, h.output, by simp [h.fed, empty], by simp [repeating], fun _ => ⟨by simp, ?_⟩⟩
    intro t a b e
    have := congrArg List.length e
    simp at this
  rw [List.concat_eq_append] at temp
  have last : fromEnd (t ++ [a] ++ [c]) 1 = c := fromEnd_one _ _
  have prior : fromEnd (t ++ [a] ++ [c]) 2 = a := fromEnd_two _ _ _
  have short : t.length + 1 < 128 := by simpa [temp] using short
  simp only [temp, List.length_append, List.length_singleton]
  rw [if_neg (by omega), Compressor.body]
  simp only [repeating, Bool.false_eq_true, if_false, last, prior, List.length_append, List.length_singleton,
    Compressor.appendRange, or_false]
  by_cases same : c = a
  · subst same
    rw [if_pos ⟨by omega, rfl⟩]
    have kept : (t ++ [c] ++ [c]).take (t.length + 1 + 1 - 2) = t := by simp
    by_cases long : 2 < t.length + 1 + 1
    · rw [if_pos long, kept]
      refine ⟨runs ++ [.literal t], valid_snoc (r := .literal t) h.valid ⟨by omega, by omega⟩, ?_, ?_,
        fun _ => ⟨2, c, by omega, by omega, rfl⟩, by simp⟩
      · simp [h.output, Run.encode]
      · simp [h.fed, temp, Run.expand]
    · rw [if_neg long]
      have none : t = [] := List.length_eq_zero_iff.1 (by omega)
      subst none
      exact ⟨runs, h.valid, h.output, by simp [h.fed, temp], fun _ => ⟨2, c, by omega, by omega, rfl⟩, by simp⟩
  · rw [if_neg (fun both => same both.2)]
    by_cases full : t.length + 1 + 1 = 128
    · rw [if_pos full]
      refine ⟨runs ++ [.literal (t ++ [a] ++ [c])], valid_snoc (r := .literal (t ++ [a] ++ [c])) h.valid
        ⟨by simp, by simp; omega⟩, ?_, ?_, by simp, fun _ => ⟨by simp, ?_⟩⟩
      · simp [h.output, Run.encode]
      · simp [h.fed, temp, Run.expand]
      · simp
    · rw [if_neg full]
      refine ⟨runs, h.valid, h.output, by simp [h.fed, temp], by simp, fun _ =>
        ⟨by simp; omega, ?_⟩⟩
      intro t' a' b e
      obtain ⟨e, eb⟩ := List.append_inj' e rfl
      obtain ⟨-, ea⟩ := List.append_inj' e rfl
      simp only [List.cons.injEq, and_true] at ea eb
      rw [← ea, ← eb]
      exact same

theorem compressing_feed (l : List Nat) : ∀ {s : Compressor} {fed : List Nat} {runs : List Run},
    Compressing s fed runs → ∃ runs, Compressing (l.foldl Compressor.feed s) (fed ++ l) runs := by
  induction l with
  | nil => exact fun h => ⟨_, by simpa using h⟩
  | cons c l ih =>
    intro s fed runs h
    have fed' : fed ++ c :: l = fed ++ [c] ++ l := by simp
    rw [fed', List.foldl_cons]
    cases repeating : s.repeating with
    | true =>
      obtain ⟨runs', next⟩ := feed_repeating h repeating c
      exact ih next
    | false =>
      obtain ⟨runs', next⟩ := feed_differing h repeating c
      exact ih next

/-- The compressed bytes are runs that expand to the input, and perhaps a marker that
nothing follows. -/
theorem compress_runs (l : List Nat) : ∃ (runs : List Run) (tail : List Nat),
    (∀ r ∈ runs, r.Valid) ∧ l = runs.flatMap Run.expand ∧
    compressBytesQmkRle l = runs.flatMap Run.encode ++ tail ∧ (tail = [] ∨ tail = [127]) := by
  obtain ⟨runs, h⟩ := compressing_feed l compressing_start
  rw [compressBytesQmkRle]
  generalize l.foldl Compressor.feed .start = s at h ⊢
  have fed := h.fed
  rw [List.nil_append] at fed
  rw [Compressor.body]
  cases repeating : s.repeating with
  | true =>
    obtain ⟨n, x, lo, hi, temp⟩ := h.repeats repeating
    have first : (List.replicate n x).getD 0 0 = x := by
      obtain ⟨n, rfl⟩ : ∃ m, n = m + 1 := ⟨n - 1, by omega⟩
      rfl
    refine ⟨runs ++ [.repeated n x], [], valid_snoc (r := .repeated n x) h.valid ⟨by omega, by omega⟩, ?_, ?_,
      Or.inl rfl⟩
    · simp [fed, temp, Run.expand]
    · rw [temp, first]
      simp [h.output, Run.encode]
  | false =>
    obtain ⟨short, distinct⟩ := h.differs repeating
    have apart : ¬ (2 ≤ s.temp.length ∧ fromEnd s.temp 1 = fromEnd s.temp 2) := by
      rintro ⟨two, same⟩
      rcases List.eq_nil_or_concat s.temp with empty | ⟨t, b, temp⟩
      · simp [empty] at two
      rcases List.eq_nil_or_concat t with empty | ⟨t, a, rfl⟩
      · simp [temp, empty] at two
      rw [List.concat_eq_append, List.concat_eq_append] at temp
      rw [temp, fromEnd_one, fromEnd_two] at same
      exact distinct t a b temp same
    simp only [Bool.false_eq_true, if_false, if_neg apart, or_true, if_true, Compressor.appendRange]
    rcases Nat.eq_zero_or_pos s.temp.length with none | some
    · rw [List.length_eq_zero_iff] at none
      exact ⟨runs, [127], h.valid, by simp [fed, none], by simp [h.output, none], Or.inr rfl⟩
    · refine ⟨runs ++ [.literal s.temp], [], valid_snoc (r := .literal s.temp) h.valid ⟨some, by omega⟩, ?_, ?_,
        Or.inl rfl⟩
      · simp [← fed, Run.expand]
      · simp [h.output, Run.encode]

/-! ## Pulling bytes -/

section Pull

variable {σ : Type} (input : σ → Int × σ)

/-- `n` calls of an input callback. -/
def pull : Nat → σ → List Int × σ
  | 0, s => ([], s)
  | n + 1, s =>
    let (c, s) := input s
    let (l, s) := pull n s
    (c :: l, s)

/-- The callback delivers these bytes, in order, and is then in the state `s'`. -/
def Delivers (s : σ) (data : List UInt8) (s' : σ) : Prop :=
  pull input data.length s = (data.map fun b => (b.toNat : Int), s')

variable {input}

theorem Delivers.nil (s : σ) : Delivers input s [] s := rfl

theorem Delivers.cons {s mid s' : σ} {b : UInt8} {data : List UInt8} (here : input s = ((b.toNat : Int), mid))
    (rest : Delivers input mid data s') : Delivers input s (b :: data) s' := by
  rw [Delivers, List.length_cons, pull, here]
  simp only
  rw [show pull input data.length mid = _ from rest]
  rfl

theorem Delivers.uncons {s s' : σ} {b : UInt8} {data : List UInt8} (h : Delivers input s (b :: data) s') :
    ∃ mid, input s = ((b.toNat : Int), mid) ∧ Delivers input mid data s' := by
  rw [Delivers, List.length_cons, pull] at h
  rcases e : input s with ⟨c, mid⟩
  rw [e] at h
  simp only [List.map_cons, Prod.mk.injEq, List.cons.injEq] at h
  obtain ⟨⟨rfl, values⟩, last⟩ := h
  exact ⟨mid, rfl, Prod.ext values last⟩

theorem Delivers.append {s mid s' : σ} {data more : List UInt8} (h : Delivers input s data mid)
    (h' : Delivers input mid more s') : Delivers input s (data ++ more) s' := by
  induction data generalizing s with
  | nil =>
    have e : s = mid := congrArg Prod.snd h
    rw [e]
    exact h'
  | cons b data ih =>
    obtain ⟨next, here, rest⟩ := h.uncons
    exact .cons here (ih rest)

end Pull

/-- What a stream has still to deliver. -/
def Stream.ahead (s : Stream) : List UInt8 := s.buffer.drop s.position

theorem Stream.get_ahead {s : Stream} {b : UInt8} {rest : List UInt8} (h : s.ahead = b :: rest) :
    ∃ s', s.get = ((b.toNat : Int), s') ∧ s'.ahead = rest := by
  have here : s.buffer[s.position]? = some b := by
    rw [← List.head?_drop]
    exact congrArg List.head? h
  refine ⟨{ s with position := s.position + 1 }, by simp only [Stream.get, here], ?_⟩
  have next := congrArg List.tail h
  rw [Stream.ahead, List.tail_drop] at next
  exact next

/-- Without compression the bytes are those of the stream. -/
theorem uncompressed_delivers (data : List UInt8) : ∀ {state : ByteInputState} {rest : List UInt8},
    state.srcStream.ahead = data ++ rest →
    ∃ state', Delivers byteUncompressedDecoder state data state' ∧ state'.srcStream.ahead = rest := by
  induction data with
  | nil => exact fun h => ⟨_, .nil _, h⟩
  | cons b data ih =>
    intro state rest h
    obtain ⟨s', get, ahead⟩ := Stream.get_ahead h
    obtain ⟨state', delivers, ahead'⟩ := @ih { state with srcStream := s', curr := b.toNat } rest ahead
    refine ⟨state', .cons ?_ delivers, ahead'⟩
    simp only [byteUncompressedDecoder, get]

/-! ## The decompressor -/

theorem toUInt8_toNat (b : UInt8) : toUInt8 b.toNat = b := by
  have lt := b.toNat_lt
  rw [toUInt8, show ((b.toNat : Int) % 256).toNat = b.toNat by omega]
  exact UInt8.ofNat_toNat

/-- The last byte of a run, or another one after it. -/
theorem sub_one_pos {k : UInt8} {n : Nat} (h : k.toNat = n + 1) :
    (k - 1).toNat = n ∧ (0 < k - 1 ↔ 0 < n) := by
  have one : (1 : UInt8) ≤ k := UInt8.le_iff_toNat_le.2 (by rw [h]; exact Nat.le_add_left 1 n)
  have e : (k - 1).toNat = n := by
    rw [UInt8.toNat_sub_of_le k 1 one, h]
    rfl
  exact ⟨e, by rw [UInt8.lt_iff_toNat_lt, e]; rfl⟩

/-- In the middle of a run of equal bytes. -/
theorem repeated_delivers (b : UInt8) (n : Nat) : ∀ {state : ByteInputState}, state.mode = .repeatingRun →
    state.curr = b.toNat → state.remain.toNat = n + 1 →
    ∃ state', Delivers byteRleDecoder state (List.replicate (n + 1) b) state' ∧ state'.mode = .markerByte ∧
      state'.srcStream = state.srcStream := by
  induction n with
  | zero =>
    intro state mode curr remain
    obtain ⟨-, more⟩ := sub_one_pos remain
    refine ⟨{ state with remain := state.remain - 1, mode := .markerByte }, .cons ?_ (.nil _), rfl, rfl⟩
    simp [byteRleDecoder, mode, curr, toUInt8_toNat, more]
  | succ n ih =>
    intro state mode curr remain
    obtain ⟨left, more⟩ := sub_one_pos remain
    obtain ⟨state', delivers, mode', stream⟩ := @ih { state with remain := state.remain - 1 } mode curr left
    refine ⟨state', .cons ?_ delivers, mode', stream⟩
    simp [byteRleDecoder, mode, curr, toUInt8_toNat, more]

/-- In the middle of a run of different bytes. -/
theorem literal_delivers (r : List UInt8) : ∀ {state : ByteInputState} {b : UInt8} {rest : List UInt8},
    state.mode = .nonRepeatingRun → state.curr = b.toNat → state.remain.toNat = r.length + 1 →
    state.srcStream.ahead = r ++ rest →
    ∃ state', Delivers byteRleDecoder state (b :: r) state' ∧ state'.mode = .markerByte ∧
      state'.srcStream.ahead = rest := by
  induction r with
  | nil =>
    intro state b rest mode curr remain ahead
    obtain ⟨-, more⟩ := sub_one_pos remain
    refine ⟨{ state with remain := state.remain - 1, mode := .markerByte }, .cons ?_ (.nil _), rfl, ahead⟩
    simp [byteRleDecoder, mode, curr, toUInt8_toNat, more]
  | cons d r ih =>
    intro state b rest mode curr remain ahead
    obtain ⟨left, more⟩ := sub_one_pos remain
    obtain ⟨s', get, ahead'⟩ := Stream.get_ahead ahead
    obtain ⟨state', delivers, mode', ahead''⟩ :=
      @ih { state with remain := state.remain - 1, srcStream := s', curr := d.toNat } d rest mode rfl left ahead'
    refine ⟨state', .cons ?_ delivers, mode', ahead''⟩
    simp [byteRleDecoder, mode, curr, toUInt8_toNat, more, get]

/-- Reading the marker is part of the first byte's call. -/
theorem marker_step {state : ByteInputState} {s₁ s₂ : Stream} {m b : UInt8} (mode : state.mode = .markerByte)
    (get₁ : state.srcStream.get = ((m.toNat : Int), s₁)) (get₂ : s₁.get = ((b.toNat : Int), s₂)) :
    byteRleDecoder state =
      byteRleDecoder (if 128 ≤ m then ⟨s₂, b.toNat, .nonRepeatingRun, m - 127⟩
        else ⟨s₂, b.toNat, .repeatingRun, m⟩) := by
  split
  case isTrue high => simp [byteRleDecoder, mode, get₁, get₂, toUInt8_toNat, high]
  case isFalse low => simp [byteRleDecoder, mode, get₁, get₂, toUInt8_toNat, low]

/-- One run, from its marker byte on. -/
theorem run_delivers {r : Run} (valid : r.Valid) {state : ByteInputState} {rest : List UInt8}
    (mode : state.mode = .markerByte) (ahead : state.srcStream.ahead = r.encode.map UInt8.ofNat ++ rest) :
    ∃ state', Delivers byteRleDecoder state (r.expand.map UInt8.ofNat) state' ∧ state'.mode = .markerByte ∧
      state'.srcStream.ahead = rest := by
  cases r with
  | repeated n x =>
    obtain ⟨lo, hi⟩ := valid
    obtain ⟨n, rfl⟩ : ∃ m, n = m + 1 := ⟨n - 1, by omega⟩
    obtain ⟨s₁, get₁, ahead₁⟩ := Stream.get_ahead ahead
    obtain ⟨s₂, get₂, ahead₂⟩ := Stream.get_ahead ahead₁
    have marker : (UInt8.ofNat (n + 1)).toNat = n + 1 := by simp; omega
    have low : ¬ (128 : UInt8) ≤ UInt8.ofNat (n + 1) := by
      rw [UInt8.le_iff_toNat_le, marker]
      exact Nat.not_le.2 (Nat.lt_succ_of_le hi)
    obtain ⟨state', delivers, mode', stream⟩ := @repeated_delivers (UInt8.ofNat x) n
      ⟨s₂, (UInt8.ofNat x).toNat, .repeatingRun, UInt8.ofNat (n + 1)⟩ rfl rfl marker
    refine ⟨state', ?_, mode', by rw [stream]; exact ahead₂⟩
    rw [Run.expand, List.map_replicate]
    obtain ⟨mid, here, more⟩ := delivers.uncons
    refine .cons ?_ more
    rw [marker_step mode get₁ get₂, if_neg low]
    exact here
  | literal l =>
    obtain ⟨lo, hi⟩ := valid
    obtain ⟨b, l, rfl⟩ := List.exists_cons_of_length_pos lo
    rw [List.length_cons] at hi
    obtain ⟨s₁, get₁, ahead₁⟩ := Stream.get_ahead ahead
    obtain ⟨s₂, get₂, ahead₂⟩ := Stream.get_ahead ahead₁
    have marker : (UInt8.ofNat (127 + (b :: l).length)).toNat = 128 + l.length := by
      simp
      omega
    have high : (128 : UInt8) ≤ UInt8.ofNat (127 + (b :: l).length) := by
      rw [UInt8.le_iff_toNat_le, marker]
      exact Nat.le_add_right _ _
    have remain : (UInt8.ofNat (127 + (b :: l).length) - 127).toNat = (l.map UInt8.ofNat).length + 1 := by
      rw [UInt8.toNat_sub_of_le _ _ (UInt8.le_trans (by decide) high), marker, List.length_map]
      show 128 + l.length - 127 = _
      omega
    obtain ⟨state', delivers, mode', ahead'⟩ := @literal_delivers (l.map UInt8.ofNat)
      ⟨s₂, (UInt8.ofNat b).toNat, .nonRepeatingRun, UInt8.ofNat (127 + (b :: l).length) - 127⟩ (UInt8.ofNat b) rest
      rfl rfl remain ahead₂
    refine ⟨state', ?_, mode', ahead'⟩
    obtain ⟨mid, here, more⟩ := delivers.uncons
    refine .cons ?_ more
    rw [marker_step mode get₁ get₂, if_pos high]
    exact here

theorem runs_deliver (runs : List Run) : ∀ {state : ByteInputState} {rest : List UInt8},
    (∀ r ∈ runs, r.Valid) → state.mode = .markerByte →
    state.srcStream.ahead = (runs.flatMap Run.encode).map UInt8.ofNat ++ rest →
    ∃ state', Delivers byteRleDecoder state ((runs.flatMap Run.expand).map UInt8.ofNat) state' ∧
      state'.srcStream.ahead = rest := by
  induction runs with
  | nil => exact fun _ _ ahead => ⟨_, .nil _, ahead⟩
  | cons r runs ih =>
    intro state rest valid mode ahead
    rw [List.flatMap_cons, List.map_append, List.append_assoc] at ahead
    obtain ⟨mid, first, mode', ahead'⟩ := run_delivers (valid r List.mem_cons_self) mode ahead
    obtain ⟨state', more, ahead''⟩ := ih (fun q hq => valid q (List.mem_cons_of_mem _ hq)) mode' ahead'
    refine ⟨state', ?_, ahead''⟩
    rw [List.flatMap_cons, List.map_append]
    exact first.append more

/-- Pulling as many bytes through the callback as were compressed gives them back,
whatever follows in the stream. -/
theorem compressed_delivers (data : List UInt8) {state : ByteInputState} {rest : List UInt8}
    (mode : state.mode = .markerByte)
    (ahead : state.srcStream.ahead = (compressBytesQmkRle (data.map UInt8.toNat)).map UInt8.ofNat ++ rest) :
    ∃ state', Delivers byteRleDecoder state data state' := by
  obtain ⟨runs, tail, valid, expand, encode, -⟩ := compress_runs (data.map UInt8.toNat)
  rw [encode, List.map_append, List.append_assoc] at ahead
  obtain ⟨state', delivers, -⟩ := runs_deliver runs valid mode ahead
  have same : (runs.flatMap Run.expand).map UInt8.ofNat = data := by
    rw [← expand, List.map_map]
    simp [Function.comp_def]
  rw [same] at delivers
  exact ⟨state', delivers⟩

/-- The compressed integers are bytes. -/
theorem compress_lt {l : List Nat} (h : ∀ x ∈ l, x < 256) : ∀ x ∈ compressBytesQmkRle l, x < 256 := by
  obtain ⟨runs, tail, valid, expand, encode, last⟩ := compress_runs l
  rw [expand] at h
  intro x hx
  rw [encode, List.mem_append] at hx
  rcases hx with hx | hx
  · obtain ⟨r, hr, hx⟩ := List.mem_flatMap.1 hx
    have member (y : Nat) (hy : y ∈ r.expand) : y < 256 := h y (List.mem_flatMap.2 ⟨r, hr, hy⟩)
    have bounds := valid r hr
    cases r with
    | repeated n y =>
      obtain ⟨lo, hi⟩ := bounds
      rcases List.mem_pair.1 hx with rfl | rfl
      · omega
      · exact member _ (List.mem_replicate.2 ⟨by omega, rfl⟩)
    | literal r =>
      obtain ⟨lo, hi⟩ := bounds
      rcases List.mem_cons.1 hx with rfl | hx
      · omega
      · exact member x hx
  · rcases last with rfl | rfl
    · cases hx
    · rw [List.mem_singleton.1 hx]
      decide

/-! ## Packing -/

/-- The bits per pixel of the palette formats. -/
inductive BitsPerPixel where
  | one | two | four | eight
  deriving DecidableEq, Repr

namespace BitsPerPixel

def bits : BitsPerPixel → Nat
  | one => 1
  | two => 2
  | four => 4
  | eight => 8

def pixelsPerByte (b : BitsPerPixel) : Nat := 8 / b.bits

theorem bits_mul (b : BitsPerPixel) : b.bits * b.pixelsPerByte = 8 := by
  cases b <;> rfl

theorem pixelsPerByte_pos (b : BitsPerPixel) : 0 < b.pixelsPerByte := by
  cases b <;> decide

end BitsPerPixel

/-- The digits of the byte that packs the first indices of a list. -/
def digits (b : BitsPerPixel) (l : List Nat) : List Nat :=
  (List.range b.pixelsPerByte).map fun n => l.getD n 0 % 2 ^ b.bits

theorem digits_lt (b : BitsPerPixel) (l : List Nat) : ∀ d ∈ digits b l, d < 2 ^ b.bits := by
  intro d hd
  obtain ⟨n, -, rfl⟩ := List.mem_map.1 hd
  exact Nat.mod_lt _ (Nat.two_pow_pos _)

/-- Fields that are shifted behind each other are the digits of their sum. -/
theorem fold_ofDigits {k : Nat} (pos : 0 < k) (f : Nat → Nat) (h : ∀ n, f n < 2 ^ k) (m : Nat) :
    (List.range m).foldl (fun byte n => byte ||| (f n <<< (n * k))) 0 =
      Nat.ofDigits (2 ^ k) ((List.range m).map f) := by
  induction m with
  | zero => rfl
  | succ m ih =>
    have small : Nat.ofDigits (2 ^ k) ((List.range m).map f) < 2 ^ (m * k) := by
      have lt := Nat.ofDigits_lt_base_pow_length (b := 2 ^ k) (l := (List.range m).map f)
        (Nat.one_lt_two_pow (by omega)) (fun d hd => by
          obtain ⟨n, -, rfl⟩ := List.mem_map.1 hd
          exact h n)
      rw [List.length_map, List.length_range, ← pow_mul, Nat.mul_comm k] at lt
      exact lt
    rw [List.range_succ, List.foldl_append, ih, List.map_append, Nat.ofDigits_append, List.foldl_cons, List.foldl_nil,
      Nat.or_comm, ← Nat.shiftLeft_add_eq_or_of_lt small, Nat.shiftLeft_eq, List.length_map, List.length_range,
      ← pow_mul, List.map_singleton, Nat.ofDigits_singleton, Nat.mul_comm k]
    ring

namespace BitsPerPixel

theorem bits_pos (b : BitsPerPixel) : 0 < b.bits := by
  cases b <;> decide

/-- The byte that packs the first indices of a list. -/
def packed (b : BitsPerPixel) (l : List Nat) : Nat := Nat.ofDigits (2 ^ b.bits) (digits b l)

theorem packed_lt (b : BitsPerPixel) (l : List Nat) : b.packed l < 256 := by
  have lt := Nat.ofDigits_lt_base_pow_length (Nat.one_lt_two_pow (by have := b.bits_pos; omega)) (digits_lt b l)
  rwa [digits, List.length_map, List.length_range, ← pow_mul, b.bits_mul] at lt

/-- The bytes of a list of indices. -/
def packedBytes (b : BitsPerPixel) (l : List Nat) : List Nat :=
  (List.range ((l.length + (b.pixelsPerByte - 1)) / b.pixelsPerByte)).map fun x =>
    b.packed (l.drop (x * b.pixelsPerByte))

theorem packedBytes_of_ne_nil (b : BitsPerPixel) {l : List Nat} (h : l ≠ []) :
    b.packedBytes l = b.packed l :: b.packedBytes (l.drop b.pixelsPerByte) := by
  have pos := b.pixelsPerByte_pos
  have len := List.length_pos_of_ne_nil h
  have count : (l.length + (b.pixelsPerByte - 1)) / b.pixelsPerByte =
      (l.length - b.pixelsPerByte + (b.pixelsPerByte - 1)) / b.pixelsPerByte + 1 := by
    rcases Nat.lt_or_ge l.length b.pixelsPerByte with lt | ge
    · rw [Nat.sub_eq_zero_of_le (Nat.le_of_lt lt), Nat.div_eq_of_lt (a := 0 + (b.pixelsPerByte - 1)) (by omega)]
      exact Nat.div_eq_of_lt_le (by omega) (by omega)
    · rw [← Nat.add_div_right _ pos]
      congr 1
      omega
  rw [packedBytes, count, List.range_succ_eq_map, List.map_cons, List.map_map, packedBytes, List.length_drop,
    Nat.zero_mul, List.drop_zero]
  congr 1
  apply List.map_congr_left
  intro x _
  rw [Function.comp_apply, List.drop_drop]
  congr 2
  rw [Nat.succ_mul, Nat.add_comm]

end BitsPerPixel

/-- The packing of `painter.py`. -/
theorem convertImageBytes_eq (b : BitsPerPixel) {width height : Nat} {l : List Nat}
    (size : l.length = width * height) :
    convertImageBytes (2 ^ b.bits) width height l = b.packedBytes l := by
  have log : Nat.log2 (2 ^ b.bits) = b.bits := Nat.log2_two_pow
  rw [convertImageBytes, log, ← size]
  simp only
  apply List.map_congr_left
  intro x _
  rw [BitsPerPixel.packed, digits, ← fold_ofDigits b.bits_pos _ fun n => Nat.mod_lt _ (Nat.two_pow_pos _)]
  congr 1
  funext byte n
  have same : (l.drop (x * b.pixelsPerByte)).getD n 0 = l.getD (x * b.pixelsPerByte + n) 0 := by
    rw [List.getD_eq_getElem?_getD, List.getElem?_drop, List.getD_eq_getElem?_getD]
  rw [same, Nat.and_two_pow_sub_one_eq_mod]
  split
  case isTrue inside => rfl
  case isFalse outside =>
    have none : l.getD (x * b.pixelsPerByte + n) 0 = 0 := List.getD_eq_default _ _ (Nat.not_lt.1 outside)
    rw [none, Nat.zero_mod, Nat.zero_shiftLeft, Nat.or_zero]

/-! ## Unpacking -/

section Push

variable {σ β : Type} (output : β → UInt8 → Bool × β)

/-- The indices are pushed to the output callback until it gives up. -/
def push : List UInt8 → β → Bool × β
  | [], arg => (true, arg)
  | index :: rest, arg =>
    match output arg index with
    | (false, arg) => (false, arg)
    | (true, arg) => push rest arg

theorem push_append (l l' : List UInt8) : ∀ arg : β,
    push output (l ++ l') arg =
      match push output l arg with
      | (false, arg) => (false, arg)
      | (true, arg) => push output l' arg := by
  induction l with
  | nil => exact fun _ => rfl
  | cons index l ih =>
    intro arg
    rw [List.cons_append, push, push]
    rcases output arg index with ⟨_ | _, arg'⟩
    · rfl
    · exact ih arg'

/-- The pixels of a byte are its digits. -/
theorem decodePixels_ofDigits {k : Nat} (ds : List Nat) : ∀ (m : Nat) (arg : β), (∀ d ∈ ds, d < 2 ^ k) →
    m ≤ ds.length → k ≤ 8 →
    decodePixels output k (UInt8.ofNat (2 ^ k - 1)) m (Nat.ofDigits (2 ^ k) ds) arg =
      push output ((ds.take m).map UInt8.ofNat) arg := by
  induction ds with
  | nil =>
    intro m arg _ hm _
    obtain rfl : m = 0 := by simpa using hm
    rfl
  | cons d ds ih =>
    intro m arg small hm hk
    cases m with
    | zero => rfl
    | succ m =>
      have mask : (UInt8.ofNat (2 ^ k - 1)).toNat = 2 ^ k - 1 := by
        have le : 2 ^ k ≤ 2 ^ 8 := Nat.pow_le_pow_right (by decide) hk
        rw [UInt8.toNat_ofNat']
        exact Nat.mod_eq_of_lt (by omega)
      have hd := small d List.mem_cons_self
      have low : Nat.ofDigits (2 ^ k) (d :: ds) &&& (2 ^ k - 1) = d := by
        rw [Nat.and_two_pow_sub_one_eq_mod, Nat.ofDigits_cons, Nat.add_mul_mod_self_left, Nat.mod_eq_of_lt hd]
      have high : Nat.ofDigits (2 ^ k) (d :: ds) >>> k = Nat.ofDigits (2 ^ k) ds := by
        rw [Nat.shiftRight_eq_div_pow, Nat.ofDigits_cons, Nat.add_mul_div_left _ _ (Nat.two_pow_pos k),
          Nat.div_eq_of_lt hd, Nat.zero_add]
      rw [decodePixels, mask, low, high, List.take_succ_cons, List.map_cons, push]
      rcases output arg (UInt8.ofNat d) with ⟨_ | _, arg'⟩
      · rfl
      · exact ih m arg' (fun e he => small e (List.mem_cons_of_mem _ he)) (by simpa using hm) hk

/-- The digits of a byte start with the indices that it packs. -/
theorem take_digits (b : BitsPerPixel) {l : List Nat} (small : ∀ i ∈ l, i < 2 ^ b.bits) {m : Nat}
    (hm : m = min l.length b.pixelsPerByte) : (digits b l).take m = l.take b.pixelsPerByte := by
  apply List.ext_getElem
  · simp [digits, hm]
    omega
  · intro n h h'
    have inside : n < l.length := by simp at h'; omega
    simp only [List.getElem_take, digits, List.getElem_map, List.getElem_range]
    rw [List.getD_eq_getElem _ _ inside]
    exact Nat.mod_eq_of_lt (small _ (List.getElem_mem inside))

variable {input : σ → Int × σ}

/-- Decoding packed indices pushes them out one by one. -/
theorem decodeLoop_packed (b : BitsPerPixel) (fuel : Nat) : ∀ (l : List Nat) (remaining : UInt32) (s s' : σ) (arg : β),
    (∀ i ∈ l, i < 2 ^ b.bits) → remaining.toNat = l.length → l.length ≤ fuel →
    Delivers input s ((b.packedBytes l).map UInt8.ofNat) s' →
    decodeLoop output input b.bits (UInt8.ofNat (2 ^ b.bits - 1)) (UInt8.ofNat b.pixelsPerByte) fuel remaining s arg =
      push output (l.map UInt8.ofNat) arg := by
  induction fuel with
  | zero =>
    intro l remaining s s' arg _ _ enough _
    obtain rfl : l = [] := List.length_eq_zero_iff.1 (Nat.le_zero.1 enough)
    rfl
  | succ fuel ih =>
    intro l remaining s s' arg small count enough delivers
    rw [decodeLoop]
    by_cases empty : l = []
    · subst empty
      rw [if_pos (UInt32.toNat_inj.1 count)]
      rfl
    have pos := b.pixelsPerByte_pos
    have le : b.pixelsPerByte ≤ 8 := by cases b <;> decide
    have some : 0 < l.length := List.length_pos_of_ne_nil empty
    rw [b.packedBytes_of_ne_nil empty, List.map_cons] at delivers
    obtain ⟨mid, here, more⟩ := delivers.uncons
    have value : (UInt8.ofNat (b.packed l)).toNat = b.packed l := by
      rw [UInt8.toNat_ofNat']
      exact Nat.mod_eq_of_lt (b.packed_lt l)
    rw [value] at here
    have ppb : (UInt8.ofNat b.pixelsPerByte).toNat = b.pixelsPerByte := by
      rw [UInt8.toNat_ofNat']
      exact Nat.mod_eq_of_lt (by omega)
    -- the pixels of this turn
    let loop : UInt8 :=
      if remaining < (UInt8.ofNat b.pixelsPerByte).toUInt32 then remaining.toUInt8 else UInt8.ofNat b.pixelsPerByte
    have turn : loop.toNat = min l.length b.pixelsPerByte := by
      simp only [loop, UInt32.lt_iff_toNat_lt, UInt8.toNat_toUInt32, count, ppb]
      split
      case isTrue lt =>
        rw [UInt32.toNat_toUInt8, count]
        omega
      case isFalse ge => omega
    have rest : (remaining - loop.toUInt32).toNat = (l.drop b.pixelsPerByte).length := by
      have le : loop.toUInt32 ≤ remaining := by
        rw [UInt32.le_iff_toNat_le, UInt8.toNat_toUInt32, turn, count]
        omega
      rw [UInt32.toNat_sub_of_le _ _ le, UInt8.toNat_toUInt32, turn, count, List.length_drop]
      omega
    have pixels := decodePixels_ofDigits output (digits b l) loop.toNat arg (digits_lt b l)
      (by simp [digits, turn]) (by cases b <;> decide)
    rw [take_digits b small turn] at pixels
    have next := fun arg => ih (l.drop b.pixelsPerByte) (remaining - loop.toUInt32) mid s' arg
      (fun i hi => small i (List.mem_of_mem_drop hi)) rest (by rw [List.length_drop]; omega) more
    have split : l.map UInt8.ofNat = (l.take b.pixelsPerByte).map UInt8.ofNat ++ (l.drop b.pixelsPerByte).map UInt8.ofNat := by
      rw [← List.map_append, List.take_append_drop]
    have going : ¬ ((b.packed l : Nat) : Int) < 0 := by omega
    rw [if_neg (fun zero => by rw [zero] at count; simp at count; omega), here, split, push_append, ← pixels]
    simp only [if_neg going, Int.toNat_natCast]
    rw [show b.packed l = Nat.ofDigits (2 ^ b.bits) (digits b l) from rfl]
    show (match decodePixels output b.bits (UInt8.ofNat (2 ^ b.bits - 1)) loop.toNat
        (Nat.ofDigits (2 ^ b.bits) (digits b l)) arg with
      | (false, arg) => (false, arg)
      | (true, arg) => decodeLoop output input b.bits (UInt8.ofNat (2 ^ b.bits - 1)) (UInt8.ofNat b.pixelsPerByte) fuel
          (remaining - loop.toUInt32) mid arg) = _
    simp only [next]

end Push

/-! ## The main result -/

theorem bytes_of_lt {l : List Nat} (h : ∀ x ∈ l, x < 256) : bytes l = some (l.map UInt8.ofNat) := if_pos h

/-- The output callback that notes the indices. -/
def collect (l : List UInt8) (index : UInt8) : Bool × List UInt8 := (true, l ++ [index])

theorem push_collect (indices : List UInt8) : ∀ l, push collect indices l = (true, l ++ indices) := by
  induction indices with
  | nil => exact fun l => by simp [push]
  | cons i indices ih =>
    intro l
    rw [push, collect]
    simp only
    rw [ih, List.append_assoc]
    rfl

/-- The bytes in the file, for either compression. -/
def encoded (compression : Compression) (bytearray : List Nat) : List Nat :=
  match compression with
  | .uncompressed => bytearray
  | .rle => compressBytesQmkRle bytearray

/-- The callback delivers what was encoded, whatever follows it in the stream. -/
theorem encoded_delivers (compression : Compression) {l : List Nat} (small : ∀ x ∈ l, x < 256) :
    ∃ file, bytes (encoded compression l) = some file ∧
      ∀ (state : ByteInputState) (rest : List UInt8), state.srcStream.ahead = file ++ rest →
        ∃ state', Delivers (inputCallback compression) (prepareInputState state compression) (l.map UInt8.ofNat)
          state' := by
  cases compression with
  | uncompressed =>
    refine ⟨_, bytes_of_lt small, fun state rest ahead => ?_⟩
    obtain ⟨state', delivers, -⟩ := uncompressed_delivers (l.map UInt8.ofNat) ahead
    exact ⟨state', delivers⟩
  | rle =>
    refine ⟨_, bytes_of_lt (compress_lt small), fun state rest ahead => ?_⟩
    apply @compressed_delivers (l.map UInt8.ofNat) _ rest rfl
    have same : (l.map UInt8.ofNat).map UInt8.toNat = l := by
      rw [List.map_map]
      refine (List.map_congr_left fun x hx => ?_).trans (List.map_id l)
      exact (UInt8.toNat_ofNat').trans (Nat.mod_eq_of_lt (small x hx))
    rw [same]
    exact ahead

/-- Decoding the bytes that `painter.py` writes for a list of palette indices, compressed
or not, gives the list; and the decompressor delivers any byte list that was compressed. -/
theorem decode_encoded (b : BitsPerPixel) (width height : Nat) (indices : List UInt8)
    (size : indices.length = width * height) (palette : ∀ i ∈ indices, i.toNat < 2 ^ b.bits)
    (pixelCount : UInt32) (count : pixelCount.toNat = indices.length) (compression : Compression) :
    (∃ file, bytes (encoded compression (convertImageBytes (2 ^ b.bits) width height (indices.map UInt8.toNat))) =
        some file ∧
      ∀ (state : ByteInputState) (rest : List UInt8), state.srcStream.ahead = file ++ rest →
        decodePalette collect (inputCallback compression) pixelCount (UInt8.ofNat b.bits)
          (prepareInputState state compression) [] = (true, indices)) ∧
    ∀ data : List UInt8, ∃ file, bytes (compressBytesQmkRle (data.map UInt8.toNat)) = some file ∧
      ∀ (state : ByteInputState) (rest : List UInt8), state.srcStream.ahead = file ++ rest →
        (pull byteRleDecoder data.length (prepareInputState state .rle)).1 = data.map fun b => (b.toNat : Int) := by
  have back (l : List UInt8) : (l.map UInt8.toNat).map UInt8.ofNat = l := by
    rw [List.map_map]
    simp [Function.comp_def]
  constructor
  · rw [convertImageBytes_eq b (by simpa using size)]
    have small : ∀ x ∈ b.packedBytes (indices.map UInt8.toNat), x < 256 := by
      intro x hx
      obtain ⟨n, -, rfl⟩ := List.mem_map.1 hx
      exact b.packed_lt _
    obtain ⟨file, written, delivers⟩ := encoded_delivers compression small
    refine ⟨file, written, fun state rest ahead => ?_⟩
    obtain ⟨state', delivers⟩ := delivers state rest ahead
    have bits : (UInt8.ofNat b.bits).toNat = b.bits := by cases b <;> rfl
    rw [decodePalette, bits, Nat.one_shiftLeft]
    refine (decodeLoop_packed collect b pixelCount.toNat (indices.map UInt8.toNat) pixelCount _ state' [] ?_ ?_ ?_
      delivers).trans ?_
    · intro i hi
      obtain ⟨j, hj, rfl⟩ := List.mem_map.1 hi
      exact palette j hj
    · rw [List.length_map, count]
    · rw [List.length_map, count]
    · rw [push_collect, back, List.nil_append]
  · intro data
    obtain ⟨file, written, delivers⟩ := encoded_delivers .rle (l := data.map UInt8.toNat) (by
      intro x hx
      obtain ⟨j, -, rfl⟩ := List.mem_map.1 hx
      exact j.toNat_lt)
    refine ⟨file, written, fun state rest ahead => ?_⟩
    obtain ⟨state', delivers⟩ := delivers state rest ahead
    rw [back] at delivers
    exact congrArg Prod.fst delivers

theorem decode_encoded_row :
    (∃ file, bytes (encoded .rle (convertImageBytes (2 ^ BitsPerPixel.two.bits) 5 1 ([3, 3, 1, 0, 2].map UInt8.toNat))) =
        some file ∧
      ∀ (state : ByteInputState) (rest : List UInt8), state.srcStream.ahead = file ++ rest →
        decodePalette collect (inputCallback .rle) 5 (UInt8.ofNat BitsPerPixel.two.bits)
          (prepareInputState state .rle) [] = (true, [3, 3, 1, 0, 2])) ∧
    ∀ data : List UInt8, ∃ file, bytes (compressBytesQmkRle (data.map UInt8.toNat)) = some file ∧
      ∀ (state : ByteInputState) (rest : List UInt8), state.srcStream.ahead = file ++ rest →
        (pull byteRleDecoder data.length (prepareInputState state .rle)).1 = data.map fun b => (b.toNat : Int) :=
  decode_encoded .two 5 1 [3, 3, 1, 0, 2] (by decide) (by decide +kernel) 5 (by decide) .rle

end QmkFirmware.Painter
