import QmkFirmware.Lib.PatchLog
import QmkFirmware.WearLeveling.Store

/-!
# The write log as the reader sees it

A `Record` is an entry of the log: the bytes it takes in the store and the
logical bytes it sets. `Decodes` says that one iteration of the playback loop
on those bytes, from any readable store, makes that change and stops behind
them. `Stored m wa view` says that the contents `m` with the write pointer `wa`
stand for the logical data `view`: a fresh initialisation rebuilds it.
-/

namespace QmkFirmware.WearLeveling
open Lib

/-- An entry of the log. -/
structure Record where
  bytes : List UInt8
  effect : Patch UInt8

/-- Reading the record's bytes from a log makes its effect on the cache. -/
structure Decodes (c : Config) (r : Record) : Prop where
  below : r.effect.Below c.logicalSize
  pos : 0 < r.bytes.length
  aligned : r.bytes.length % c.ws = 0
  step : ∀ {σ : Type} {d : BackingStore σ} {mem : σ → Nat → UInt8}, Readable c d mem →
    ∀ pb : Playback σ, pb.address % c.ws = 0 → pb.address + r.bytes.length ≤ c.backingSize →
    slice (mem pb.state.store) pb.address r.bytes.length = r.bytes →
    ∃ store, mem store = mem pb.state.store ∧
      playbackStep d c pb =
        { pb with
          address := pb.address + r.bytes.length
          state := { pb.state with store, cache := r.effect.apply pb.state.cache } }

/-! ## Fetching the words of an entry -/

section Fetch

variable {σ : Type} {c : Config} {d : BackingStore σ} {mem : σ → Nat → UInt8}

theorem fetch_spec (R : Readable c d mem) {pb : Playback σ} (log : LogEntry) (pos : Nat)
    (ha : pb.address % c.ws = 0) (hb : pb.address + c.ws ≤ c.backingSize) :
    ∃ store, mem store = mem pb.state.store ∧
      fetch d c pb log pos =
        (some (patch log pos (slice (mem pb.state.store) pb.address c.ws)),
          { pb with address := pb.address + c.ws, state := { pb.state with store } }) := by
  obtain ⟨store, e, m⟩ := R.read pb.state.store pb.address ha hb
  exact ⟨store, m, by rw [fetch, e]⟩

/-- The byte positions of `n` consecutive words. -/
def positionsFrom (w : Nat) : Nat → Nat → List Nat
  | _, 0 => []
  | pos, n + 1 => pos :: positionsFrom w (pos + w) n

theorem fetchAll_spec (R : Readable c d mem) (n : Nat) : ∀ (pb : Playback σ) (log : LogEntry) (pos : Nat),
    pb.address % c.ws = 0 → pb.address + c.ws * n ≤ c.backingSize →
    ∃ store, mem store = mem pb.state.store ∧
      fetchAll d c pb log (positionsFrom c.ws pos n) =
        (some (patch log pos (slice (mem pb.state.store) pb.address (c.ws * n))),
          { pb with address := pb.address + c.ws * n, state := { pb.state with store } }) := by
  induction n with
  | zero => exact fun pb log pos _ _ => ⟨pb.state.store, rfl, by simp [positionsFrom, fetchAll]⟩
  | succ n ih =>
    intro pb log pos ha hb
    have hn : c.ws * (n + 1) = c.ws + c.ws * n := by ring
    obtain ⟨s₁, m₁, e₁⟩ := fetch_spec R log pos ha (by omega)
    obtain ⟨s₂, m₂, e₂⟩ := ih { pb with address := pb.address + c.ws, state := { pb.state with store := s₁ } }
      (patch log pos (slice (mem pb.state.store) pb.address c.ws)) (pos + c.ws) (add_self_mod ha)
      (by simp only; omega)
    simp only [m₁] at m₂ e₂
    refine ⟨s₂, m₂, ?_⟩
    rw [positionsFrom, fetchAll, e₁]
    simp only [e₂]
    rw [hn, slice_add, patch_append, length_slice, Nat.add_assoc]

end Fetch

/-! ## Multi-byte entries -/

/-- The words the reader takes for a multi-byte entry after the first one, for
the header and for the payload. -/
def headerRest (c : Config) : Nat := if c.writeSize = .two then 1 else 0

def payloadRest (c : Config) (length : Nat) : Nat :=
  match c.writeSize with
  | .two => (if 1 < length then 1 else 0) + (if 3 < length then 1 else 0)
  | .four => if 1 < length then 1 else 0
  | .eight => 0

theorem header_positions (c : Config) :
    (if c.writeSize = .two then [2] else []) = positionsFrom c.ws c.ws (headerRest c) := by
  cases h : c.writeSize <;> simp [headerRest, Config.ws, h, positionsFrom]

theorem payload_positions (c : Config) (length : Nat) :
    payloadPositions c length =
      positionsFrom c.ws (c.ws + c.ws * headerRest c) (payloadRest c length) := by
  unfold payloadPositions payloadRest
  cases h : c.writeSize <;> simp only [headerRest, Config.ws, h]
  · by_cases h1 : 1 < length <;> by_cases h3 : 3 < length <;> simp [h1, h3, positionsFrom]
    omega
  · by_cases h1 : 1 < length <;> simp [h1, positionsFrom]
  · rfl

/-- The bytes of a multi-byte entry in the store. -/
def multibyteSize (c : Config) (length : Nat) : Nat :=
  c.ws + c.ws * headerRest c + c.ws * payloadRest c length

namespace LogEntry

theorem getType_congr {e e' : LogEntry} (h : e 0 = e' 0) : e.getType = e'.getType := by
  simp only [getType, h]

theorem multibyteGet_congr {e e' : LogEntry} (h : ∀ i, i < 3 → e i = e' i) :
    e.multibyteGetAddress = e'.multibyteGetAddress ∧ e.multibyteGetLength = e'.multibyteGetLength := by
  simp only [multibyteGetAddress, multibyteGetLength, h 0 (by omega), h 1 (by omega), h 2 (by omega),
    and_self]

end LogEntry

/-- The entry the reader has on its stack once it has read the bytes `b`. -/
abbrev Config.entryOf (c : Config) (b : List UInt8) : LogEntry := patch c.uninit 0 b

theorem Config.entryOf_inside {c : Config} {b : List UInt8} {k : Nat} (h : k < b.length) :
    c.entryOf b k = b[k] := by
  simpa using patch_inside (m := c.uninit) (Nat.zero_le k) h

/-- What the reader assembles from consecutive words. -/
theorem assemble (u : LogEntry) (m : Nat → UInt8) (a n k : Nat) :
    patch (patch u 0 (slice m a n)) n (slice m (a + n) k) = patch u 0 (slice m a (n + k)) := by
  rw [slice_add, patch_append, length_slice, Nat.zero_add]

theorem header_le (c : Config) : 3 ≤ c.ws + c.ws * headerRest c := by
  cases h : c.writeSize <;> simp [headerRest, Config.ws, h]

/-- A multi-byte entry in the store, whatever its length field says, sets the
bytes that follow its header. -/
theorem decodes_multibyte {c : Config} {b : List UInt8} {address length : Nat}
    (ne : ∃ k, k < c.ws ∧ c.entryOf b k ≠ 0)
    (type : (c.entryOf b).getType = some .multibyte)
    (addr : (c.entryOf b).multibyteGetAddress = address)
    (len : (c.entryOf b).multibyteGetLength = length)
    (size : b.length = multibyteSize c length) (below : address + length ≤ c.logicalSize) :
    Decodes c ⟨b, ⟨address, slice (c.entryOf b) 3 length⟩⟩ where
  below := by simpa [Patch.Below] using below
  pos := by
    have := c.ws_pos
    simp only [size, multibyteSize]
    omega
  aligned := by
    simp only [size, multibyteSize]
    rw [Nat.add_assoc, ← Nat.mul_add, Nat.add_mul_mod_self_left, Nat.mod_self]
  step := by
    intro σ d mem R pb ha hb he
    simp only [size] at hb he ⊢
    have hdr := header_le c
    have sz : multibyteSize c length =
        c.ws + c.ws * headerRest c + c.ws * payloadRest c length := rfl
    have wpos := c.ws_pos
    have ha₁ := add_self_mod ha
    have ha₂ : (pb.address + c.ws + c.ws * headerRest c) % c.ws = 0 := by
      rw [Nat.add_mul_mod_self_left, ha₁]
    -- the first word
    obtain ⟨s₁, e₁, m₁⟩ := R.read pb.state.store pb.address ha (by omega)
    have first : ∀ k n, k < n → n ≤ multibyteSize c length →
        c.entryOf (slice (mem pb.state.store) pb.address n) k = c.entryOf b k := by
      intro k n hk hn
      rw [Config.entryOf_inside (by simpa using hk), Config.entryOf_inside (by omega)]
      simp [← he]
    have nz : ¬ ∀ x ∈ slice (mem pb.state.store) pb.address c.ws, x = 0 := by
      intro h
      obtain ⟨k, hk, ne⟩ := ne
      apply ne
      rw [← first k c.ws hk (by omega), Config.entryOf_inside (by simpa using hk)]
      exact h _ (List.getElem_mem _)
    have ty : (c.entryOf (slice (mem pb.state.store) pb.address c.ws)).getType =
        some .multibyte := by
      rw [← type]
      exact LogEntry.getType_congr (first 0 c.ws wpos (by omega))
    -- the rest of the header
    obtain ⟨s₂, m₂, e₂⟩ := fetchAll_spec R (headerRest c)
      { pb with address := pb.address + c.ws, state := { pb.state with store := s₁ } }
      (c.entryOf (slice (mem pb.state.store) pb.address c.ws)) c.ws ha₁ (by simp only; omega)
    simp only [m₁, assemble] at m₂ e₂
    obtain ⟨ga, gl⟩ := LogEntry.multibyteGet_congr
      (fun i hi => first i (c.ws + c.ws * headerRest c) (by omega) (by omega))
    -- the payload
    obtain ⟨s₃, m₃, e₃⟩ := fetchAll_spec R (payloadRest c length)
      { pb with address := pb.address + c.ws + c.ws * headerRest c, state := { pb.state with store := s₂ } }
      (c.entryOf (slice (mem pb.state.store) pb.address (c.ws + c.ws * headerRest c)))
      (c.ws + c.ws * headerRest c) ha₂ (by simp only; omega)
    simp only [m₂] at m₃ e₃
    rw [Nat.add_assoc pb.address, assemble, ← sz, he] at e₃
    refine ⟨s₃, m₃, ?_⟩
    simp only [playbackStep, e₁, if_neg nz, playbackEntry, ty, playbackMultibyte, header_positions, e₂,
      ga, gl, addr, len, if_neg (Nat.not_lt.2 below), payload_positions]
    rw [Nat.add_assoc pb.address, e₃]
    simp only [Playback.copy, Patch.apply, sz]
    congr 1
    omega

/-! ## Optimised entries -/

/-- What the two one-word encodings share: the word is read, is not empty, and
the `switch` leaves a known patch of the cache. -/
theorem decodes_word {c : Config} {b : List UInt8} {effect : Patch UInt8} (two : c.writeSize = .two)
    (size : b.length = 2) (ne : c.entryOf b 0 ≠ 0) (below : effect.Below c.logicalSize)
    (sw : ∀ {σ : Type} (d : BackingStore σ) (pb : Playback σ),
      playbackEntry d c pb (c.entryOf b) = pb.copy effect.addr effect.data) :
    Decodes c ⟨b, effect⟩ where
  below := below
  pos := by simp only [size]; omega
  aligned := by simp [size, Config.ws, two]
  step := by
    intro σ d mem R pb ha hb he
    have w2 : c.ws = 2 := by simp [Config.ws, two]
    simp only [size] at hb he ⊢
    obtain ⟨store, e, m⟩ := R.read pb.state.store pb.address ha (by omega)
    rw [w2, he] at e
    have nz : ¬ ∀ x ∈ b, x = 0 := by
      intro h
      apply ne
      rw [Config.entryOf_inside (by omega)]
      exact h _ (List.getElem_mem _)
    refine ⟨store, m, ?_⟩
    simp only [playbackStep, e, if_neg nz, sw, w2]
    rfl

theorem decodes_optimized64 {c : Config} {b : List UInt8} {address : Nat} {value : UInt8}
    (two : c.writeSize = .two) (size : b.length = 2) (ne : c.entryOf b 0 ≠ 0)
    (type : (c.entryOf b).getType = some .optimized64)
    (addr : (c.entryOf b).optimized64GetAddress = address)
    (val : (c.entryOf b).optimized64GetValue = value) (below : address < c.logicalSize) :
    Decodes c ⟨b, ⟨address, [value]⟩⟩ := by
  refine decodes_word two size ne below fun d pb => ?_
  simp only [playbackEntry, type, two, if_true, playbackOptimized64, addr, val,
    if_neg (Nat.not_le.2 below)]

theorem decodes_word01 {c : Config} {b : List UInt8} {address : Nat} {value : UInt8}
    (two : c.writeSize = .two) (size : b.length = 2) (ne : c.entryOf b 0 ≠ 0)
    (type : (c.entryOf b).getType = some .word01)
    (addr : (c.entryOf b).word01GetAddress = address)
    (val : (c.entryOf b).word01GetValue = value) (below : address + 1 < c.logicalSize) :
    Decodes c ⟨b, ⟨address, [value, 0]⟩⟩ := by
  refine decodes_word two size ne below fun d pb => ?_
  simp only [playbackEntry, type, two, if_true, playbackWord01, addr, val,
    if_neg (Nat.not_le.2 below)]

/-! ## Whole logs -/

/-- The records lie in the store one after the other from `a` on. -/
def LogAt (m : Nat → UInt8) : Nat → List Record → Prop
  | _, [] => True
  | a, r :: rs => slice m a r.bytes.length = r.bytes ∧ LogAt m (a + r.bytes.length) rs

/-- The bytes the records take. -/
def logLength (rs : List Record) : Nat := (rs.map fun r => r.bytes.length).sum

@[simp] theorem logLength_nil : logLength [] = 0 := rfl

@[simp] theorem logLength_cons (r : Record) (rs : List Record) :
    logLength (r :: rs) = r.bytes.length + logLength rs := rfl

@[simp] theorem logLength_append (rs rs' : List Record) :
    logLength (rs ++ rs') = logLength rs + logLength rs' := by
  simp [logLength]

/-- The patches of the records. -/
def effects (rs : List Record) : List (Patch UInt8) := rs.map Record.effect

theorem LogAt.congr {m m' : Nat → UInt8} {rs : List Record} {a : Nat} (h : LogAt m a rs)
    (agree : ∀ i, a ≤ i → i < a + logLength rs → m i = m' i) : LogAt m' a rs := by
  induction rs generalizing a with
  | nil => trivial
  | cons r rs ih =>
    simp only [logLength_cons] at agree
    refine ⟨?_, ih h.2 fun i lo hi => agree i (by omega) (by omega)⟩
    rw [← slice_congr fun i lo hi => agree i lo (by omega)]
    exact h.1

theorem LogAt.append {m : Nat → UInt8} {rs rs' : List Record} {a : Nat} :
    LogAt m a (rs ++ rs') ↔ LogAt m a rs ∧ LogAt m (a + logLength rs) rs' := by
  induction rs generalizing a with
  | nil => simp [LogAt]
  | cons r rs ih => simp only [List.cons_append, LogAt, ih, logLength_cons, and_assoc, Nat.add_assoc]

/-- Writing a record behind a log makes the longer log. -/
theorem LogAt.snoc {m : Nat → UInt8} {rs : List Record} {a : Nat} (h : LogAt m a rs) (r : Record) :
    LogAt (patch m (a + logLength rs) r.bytes) a (rs ++ [r]) := by
  refine LogAt.append.2 ⟨h.congr fun i _ hi => (patch_below hi).symm, ?_, trivial⟩
  exact slice_patch_self m _ r.bytes

/-- Playback of a log, from any readable store: all records take effect and the
loop stops at the first empty slot or the end of the store. -/
theorem playbackLoop_log {c : Config} {σ : Type} {d : BackingStore σ} {mem : σ → Nat → UInt8}
    (R : Readable c d mem) {rs : List Record} (dec : ∀ r ∈ rs, Decodes c r) :
    ∀ (fuel : Nat) (pb : Playback σ), rs.length < fuel → pb.cancel = false →
    pb.address % c.ws = 0 → LogAt (mem pb.state.store) pb.address rs →
    pb.address + logLength rs ≤ c.backingSize →
    Erased (mem pb.state.store) (pb.address + logLength rs)
      (c.backingSize - (pb.address + logLength rs)) →
    ∃ store cancel, mem store = mem pb.state.store ∧
      playbackLoop d c fuel pb =
        { pb with
          address := pb.address + logLength rs
          cancel
          state := { pb.state with store, cache := replay pb.state.cache (effects rs) } } := by
  induction rs with
  | nil =>
    intro fuel pb hf hc ha _ hb he
    obtain ⟨fuel, rfl⟩ : ∃ n, fuel = n + 1 := ⟨fuel - 1, by simp at hf; omega⟩
    simp only [logLength_nil, Nat.add_zero] at hb he
    rcases Nat.eq_or_lt_of_le hb with hend | hlt
    · refine ⟨pb.state.store, pb.cancel, rfl, ?_⟩
      rw [playbackLoop, if_pos (Or.inr (by omega))]
      rfl
    · have hw := add_le_of_lt_of_mod ha c.backing_mod_ws hlt
      obtain ⟨store, e, m⟩ := R.read pb.state.store pb.address ha hw
      have zero : ∀ x ∈ slice (mem pb.state.store) pb.address c.ws, x = 0 := by
        intro x hx
        obtain ⟨k, hk, rfl⟩ := List.getElem_of_mem hx
        simp only [length_slice] at hk
        rw [getElem_slice]
        exact he _ (by omega) (by omega)
      have stop : ∀ n (p : Playback σ), p.cancel = true → playbackLoop d c n p = p := by
        intro n p hp
        cases n with
        | zero => rfl
        | succ n => rw [playbackLoop, if_pos (Or.inl hp)]
      refine ⟨store, true, m, ?_⟩
      rw [playbackLoop, if_neg (by simp [hc]; omega), playbackStep, e]
      simp only [if_pos zero]
      rw [stop _ _ rfl]
      rfl
  | cons r rs ih =>
    intro fuel pb hf hc ha hl hb he
    obtain ⟨fuel, rfl⟩ : ∃ n, fuel = n + 1 := ⟨fuel - 1, by simp at hf; omega⟩
    simp only [logLength_cons] at hb he
    have hr := dec r List.mem_cons_self
    have hpos := hr.pos
    obtain ⟨s₁, m₁, e₁⟩ := hr.step R pb ha (by omega) hl.1
    obtain ⟨s₂, cancel, m₂, e₂⟩ := ih (fun q hq => dec q (List.mem_cons_of_mem _ hq)) fuel
      { pb with
        address := pb.address + r.bytes.length
        state := { pb.state with store := s₁, cache := r.effect.apply pb.state.cache } }
      (by simp at hf; omega) hc (by
        simp only
        rw [Nat.add_mod, ha, hr.aligned]
        exact Nat.zero_mod _)
      (by simpa only [m₁] using hl.2) (by simp only; omega)
      (by simpa only [m₁, Nat.add_assoc] using he)
    refine ⟨s₂, cancel, m₂.trans m₁, ?_⟩
    rw [playbackLoop, if_neg (by simp [hc]; omega), e₁, e₂]
    simp only [logLength_cons, Nat.add_assoc, effects, List.map_cons, replay_cons]

end QmkFirmware.WearLeveling
