import QmkFirmware.WearLeveling.Durability

/-!
# Power loss during an append

A `Cut` store loses power after a number of writes; nothing reaches it from then
on. Entries of one word are in the log or not. The reader takes the words that
are missing from a torn multi-byte entry for zeros: with words of four bytes,
and with words of two once the second one is written, zeros stand for the bytes
that are missing; with words of two after the first one, the low byte of the
address is missing as well.
-/

namespace QmkFirmware.WearLeveling
open Lib

/-- A store's contents and the writes it still takes. -/
structure Cut where
  mem : Nat → UInt8
  budget : Nat

def cutStore (c : Config) : BackingStore Cut where
  init s := (true, s)
  unlock s := (true, s)
  erase s := (true, if s.budget = 0 then s else { s with mem := fun _ => 0 })
  write s a w :=
    match s.budget with
    | 0 => (true, s)
    | budget + 1 => (true, ⟨patch s.mem a w, budget⟩)
  lock s := (true, s)
  read s a := (some (slice s.mem a c.ws), s)

/-- The same controller on a store that takes `budget` more writes. -/
def State.cutAfter (s : State (Nat → UInt8)) (budget : Nat) : State Cut :=
  ⟨s.cache, s.writeAddress, s.unlocked, s.store, budget⟩

/-- What the reader makes of the first `written` words of a torn entry that was
to set `data` at `address`. -/
def tornPatch (c : Config) (address : Nat) (data : List UInt8) (written : Nat) : Patch UInt8 :=
  if c.writeSize = .two ∧ written = 1 then ⟨address - address % 256, List.replicate data.length 0⟩
  else
    ⟨address, data.take (c.ws * written - 3) ++ List.replicate (data.length - (c.ws * written - 3)) 0⟩

/-- The logical data after `k` words of the entries for `p` at `address`. -/
def cutView (c : Config) : Nat → (Nat → UInt8) → Nat → List UInt8 → Nat → Nat → UInt8
  | 0, view, _, _, _ => view
  | fuel + 1, view, address, p, k =>
    if p.length = 0 ∨ k = 0 then view
    else
      let n := (nextWords c address p).length
      let e := (nextRecord c address p).effect
      if n ≤ k then
        cutView c fuel (e.apply view) (address + e.data.length) (p.drop e.data.length) (k - n)
      else (tornPatch c address e.data k).apply view

/-- The logical data after `k` store writes of a call. -/
def afterCut (c : Config) (view : Nat → UInt8) (address : Nat) (value : List UInt8) (k : Nat) :
    Nat → UInt8 :=
  if value = slice view address value.length then view
  else cutView c value.length view address value k

/-- All words of the entries for `p` at `address`. -/
def writerWords (c : Config) : Nat → Nat → List UInt8 → List Word
  | 0, _, _ => []
  | fuel + 1, address, p =>
    if p.length = 0 then []
    else
      let taken := (nextRecord c address p).effect.data.length
      nextWords c address p ++ writerWords c fuel (address + taken) (p.drop taken)

/-! ## Torn entries -/

theorem patch_zeros {m : Nat → UInt8} {a n : Nat} (h : Erased m a n) :
    patch m a (List.replicate n 0) = m := by
  funext i
  by_cases hi : a ≤ i ∧ i - a < n
  · rw [patch_inside hi.1 (by simpa using hi.2), h i hi.1 (by omega)]
    simp
  · exact patch_outside (by simp; omega)

theorem flatten_take {n : Nat} {words : List Word} (h : ∀ w ∈ words, w.length = n) (k : Nat) :
    (words.take k).flatten = words.flatten.take (n * k) := by
  induction words generalizing k with
  | nil => simp
  | cons w words ih =>
    have hw := h w List.mem_cons_self
    cases k with
    | zero => simp
    | succ k =>
      rw [List.take_succ_cons, List.flatten_cons, List.flatten_cons,
        ih (fun v hv => h v (List.mem_cons_of_mem _ hv)), List.take_append, hw,
        List.take_of_length_le (l := w) (by rw [hw, Nat.mul_succ]; omega)]
      congr 2
      rw [Nat.mul_succ]
      omega

theorem slice_take (m : Nat → UInt8) (a n k : Nat) (h : k ≤ n) : (slice m a n).take k = slice m a k := by
  obtain ⟨j, rfl⟩ : ∃ j, n = k + j := ⟨n - k, by omega⟩
  rw [slice_add, List.take_append_of_le_length (by simp), List.take_of_length_le (by simp)]

/-- The first `k` words of a multi-byte entry, with nothing behind them, decode
as the torn patch. -/
theorem decodes_torn {c : Config} (address : Nat) (data : List UInt8) {k : Nat} (pos : 0 < k)
    (torn : c.ws * k < multibyteSize c data.length) (nonempty : 0 < data.length)
    (le : data.length ≤ 5) (size : c.logicalSize ≤ 2 ^ 19)
    (below : address + data.length ≤ c.logicalSize) :
    Decodes c ⟨slice (multibyteLog address data) 0 (c.ws * k) ++
      List.replicate (multibyteSize c data.length - c.ws * k) 0, tornPatch c address data k⟩ := by
  have wk : c.ws ≤ c.ws * k := Nat.le_mul_of_pos_right _ pos
  have wpos := c.ws_pos
  have w2 : 2 ≤ c.ws := by rcases c.ws_cases with h | h | h <;> omega
  have room := le_multibyteSize (c := c) le
  -- the entry the reader assembles
  have low : ∀ i, i < c.ws * k → c.entryOf (slice (multibyteLog address data) 0 (c.ws * k) ++
      List.replicate (multibyteSize c data.length - c.ws * k) 0) i = multibyteLog address data i := by
    intro i hi
    rw [Config.entryOf_inside (by simp; omega), List.getElem_append_left (by simpa using hi),
      getElem_slice, Nat.zero_add]
  have high : ∀ i, c.ws * k ≤ i → i < multibyteSize c data.length →
      c.entryOf (slice (multibyteLog address data) 0 (c.ws * k) ++
        List.replicate (multibyteSize c data.length - c.ws * k) 0) i = 0 := by
    intro i lo hi
    rw [Config.entryOf_inside (by simp; omega), List.getElem_append_right (by simpa using lo)]
    simp
  have header : ∀ i, i < 3 → multibyteLog address data i = LogEntry.makeMultibyte address data.length i :=
    fun i hi => patch_below hi
  unfold tornPatch
  split
  case isTrue h =>
    obtain ⟨two, rfl⟩ := h
    have ws2 : c.ws = 2 := by simp [Config.ws, two]
    rw [Nat.mul_one] at low high torn ⊢
    -- the low byte of the address is missing
    have masked : ∀ i, i < 3 → c.entryOf (slice (multibyteLog address data) 0 c.ws ++
        List.replicate (multibyteSize c data.length - c.ws) 0) i =
          LogEntry.makeMultibyte (address - address % 256) data.length i := by
      have mid : (address - address % 256) / 2 ^ 8 = address / 2 ^ 8 := by omega
      have top : (address - address % 256) / 2 ^ 16 = address / 2 ^ 16 := by omega
      intro i hi
      rcases (by omega : i = 0 ∨ i = 1 ∨ i = 2) with rfl | rfl | rfl
      · rw [low 0 (by omega), header 0 (by omega)]
        simp only [LogEntry.makeMultibyte, Nat.shiftRight_eq_div_pow, top]
      · rw [low 1 (by omega), header 1 (by omega)]
        simp only [LogEntry.makeMultibyte, Nat.shiftRight_eq_div_pow, mid]
      · rw [high 2 (by omega) (by omega)]
        simp only [LogEntry.makeMultibyte, LogEntry.and_bitmask]
        rw [show (address - address % 256) % 2 ^ 8 = 0 by omega]
        rfl
    have payload : slice (c.entryOf (slice (multibyteLog address data) 0 c.ws ++
        List.replicate (multibyteSize c data.length - c.ws) 0)) 3 data.length =
          List.replicate data.length 0 := by
      refine (slice_eq_iff (by simp)).2 fun i hi => ?_
      rw [high (3 + i) (by omega) (by simp at hi; omega)]
      simp
    obtain ⟨e0, type, addr, len⟩ := LogEntry.multibyte_header masked (by omega) (by omega)
    have dec := decodes_multibyte ⟨0, c.ws_pos, LogEntry.byte0_ne_zero (by omega)⟩ type addr len
      (by simp; omega) (by omega)
    rwa [payload] at dec
  case isFalse h =>
    have three : 3 ≤ c.ws * k := by
      rcases c.ws_cases with h2 | h4 | h8
      · have : c.writeSize = .two := by
          rw [Config.ws] at h2
          cases hc : c.writeSize <;> simp [hc] at h2 ⊢
        have : k ≠ 1 := fun h1 => h ⟨this, h1⟩
        rw [h2]
        omega
      · omega
      · omega
    have whole : ∀ i, i < 3 → c.entryOf (slice (multibyteLog address data) 0 (c.ws * k) ++
        List.replicate (multibyteSize c data.length - c.ws * k) 0) i =
          LogEntry.makeMultibyte address data.length i :=
      fun i hi => by rw [low i (by omega), header i hi]
    have payload : slice (c.entryOf (slice (multibyteLog address data) 0 (c.ws * k) ++
        List.replicate (multibyteSize c data.length - c.ws * k) 0)) 3 data.length =
          data.take (c.ws * k - 3) ++ List.replicate (data.length - (c.ws * k - 3)) 0 := by
      refine (slice_eq_iff (by simp; omega)).2 fun i hi => ?_
      have hi : i < data.length := by simp at hi; omega
      rcases Nat.lt_or_ge (3 + i) (c.ws * k) with lo | hi'
      · rw [low _ lo, multibyteLog, patch_at hi, List.getElem_append_left (by simp; omega)]
        simp
      · rw [high _ hi' (by omega), List.getElem_append_right (by simp; omega)]
        simp
    obtain ⟨e0, type, addr, len⟩ := LogEntry.multibyte_header whole (by omega) (by omega)
    have dec := decodes_multibyte ⟨0, c.ws_pos, LogEntry.byte0_ne_zero (by omega)⟩ type addr len
      (by simp; omega) below
    rwa [payload] at dec

/-- Only multi-byte entries have more than one word. -/
theorem nextRecord_of_words (c : Config) (address : Nat) (p : List UInt8)
    (h : 1 < (nextWords c address p).length) :
    nextRecord c address p =
      multibyteRecord c address (p.take (min p.length LogEntry.multibyteMaxBytes)) := by
  simp only [nextWords] at h
  simp only [nextRecord]
  split_ifs at h ⊢ with h1 h2
  · simp at h
  · simp at h
  · rfl

/-- The words of an entry, cut short, leave a store that stands for the torn view. -/
theorem stored_torn {c : Config} (size : c.logicalSize ≤ 2 ^ 19) {m : Nat → UInt8} {wa : Nat}
    {view : Nat → UInt8} (st : Stored c m wa view) {address : Nat} {p : List UInt8}
    (hp : 0 < p.length) (below : address + p.length ≤ c.logicalSize)
    (fits : wa + c.ws * (nextWords c address p).length < c.backingSize) {k : Nat} (pos : 0 < k)
    (torn : k < (nextWords c address p).length) :
    Stored c (patch m wa ((nextWords c address p).take k).flatten)
      (wa + c.ws * (nextWords c address p).length)
      ((tornPatch c address (nextRecord c address p).effect.data k).apply view) := by
  have five : LogEntry.multibyteMaxBytes = 5 := rfl
  have entry := nextRecord_of_words c address p (by omega)
  have flat := nextWords_flatten c address p
  have lens := length_of_mem_nextWords c address p
  have hlen := length_flatten_words lens
  rw [flat, entry] at hlen
  rw [flatten_take lens, flat, entry]
  simp only [multibyteRecord, length_slice] at hlen ⊢
  have short : c.ws * k < multibyteSize c (p.take (min p.length LogEntry.multibyteMaxBytes)).length := by
    rw [hlen]
    exact Nat.mul_lt_mul_of_pos_left torn c.ws_pos
  rw [slice_take _ _ _ _ (Nat.le_of_lt short), ← hlen]
  have dec := decodes_torn address (p.take (min p.length LogEntry.multibyteMaxBytes))
    pos short (by simp; omega) (by simp; omega) size (by simp; omega)
  have tail := st.append dec (by
    simp only [List.length_append, length_slice, List.length_replicate]
    omega)
  simp only [List.length_append, length_slice, List.length_replicate] at tail
  rw [Nat.add_sub_cancel' (Nat.le_of_lt short)] at tail
  -- the words that are missing are zero already
  rw [patch_append, length_slice, patch_zeros ?_] at tail
  · exact tail
  · exact (st.fresh.sub (by omega) (by omega)).patch (Or.inr (by simp))

/-- The first `k` words of a whole write leave a store that stands for `cutView`. -/
theorem stored_cut {c : Config} (size : c.logicalSize ≤ 2 ^ 19) (fuel : Nat) :
    ∀ (m : Nat → UInt8) (wa : Nat) (view : Nat → UInt8) (address : Nat) (p : List UInt8) (k : Nat),
    Stored c m wa view → address + p.length ≤ c.logicalSize →
    wa + c.ws * (writerWords c fuel address p).length < c.backingSize →
    ∃ wa', Stored c (patch m wa ((writerWords c fuel address p).take k).flatten) wa'
      (cutView c fuel view address p k) := by
  induction fuel with
  | zero => exact fun m wa view address p k st _ _ => ⟨wa, by simpa [writerWords, cutView] using st⟩
  | succ fuel ih =>
    intro m wa view address p k st below fits
    by_cases hp : p.length = 0
    · exact ⟨wa, by simpa [writerWords, cutView, hp] using st⟩
    by_cases hk : k = 0
    · exact ⟨wa, by simpa [writerWords, cutView, hk] using st⟩
    rw [writerWords, if_neg hp] at fits ⊢
    rw [cutView, if_neg (by omega)]
    simp only [List.length_append, Nat.mul_add] at fits ⊢
    have hp : 0 < p.length := by omega
    obtain ⟨n, hn, hnp, he⟩ := nextRecord_effect c address hp
    have flat := nextWords_flatten c address p
    have hlen := length_flatten_words (length_of_mem_nextWords c address p)
    split
    case isTrue all =>
      rw [List.take_append, List.take_of_length_le all, List.flatten_append, patch_append]
      have st' := st.append (decodes_nextRecord hp size below) (by rw [← flat]; omega)
      rw [← flat, hlen] at st'
      rw [hlen]
      exact ih _ _ _ _ _ _ st' (by simp [he]; omega) (by omega)
    case isFalse torn =>
      rw [List.take_append_of_le_length (by omega)]
      exact ⟨_, stored_torn size st hp below (by omega) (by omega) (by omega)⟩

/-! ## The run on the cut store -/

section Cut

variable {c : Config}

theorem appendAll_cut (words : List Word) : ∀ (s : State Cut), (∀ w ∈ words, w.length = c.ws) →
    s.writeAddress + c.ws * words.length < c.backingSize →
    appendAll (cutStore c) c s words =
      (.success,
        { s with
          store := ⟨patch s.store.mem s.writeAddress (words.take s.store.budget).flatten,
            s.store.budget - words.length⟩
          writeAddress := s.writeAddress + c.ws * words.length }) := by
  induction words with
  | nil => exact fun s _ _ => by simp [appendAll]
  | cons w words ih =>
    intro s lens fits
    have hw := lens w List.mem_cons_self
    have hn : c.ws * (words.length + 1) = c.ws + c.ws * words.length := by ring
    rw [List.length_cons, hn] at fits
    have rest := fun (t : State Cut) (ht : t.writeAddress = s.writeAddress + c.ws) =>
      ih t (fun v hv => lens v (List.mem_cons_of_mem _ hv)) (by omega)
    cases hb : s.store.budget with
    | zero =>
      rw [appendAll, appendRaw]
      simp only [cutStore, hb, consolidateIfNeeded]
      rw [if_neg (by omega)]
      have := rest { s with writeAddress := s.writeAddress + c.ws } rfl
      simp only [cutStore, hb] at this
      simp only [this, List.length_cons, hn, Nat.add_assoc]
      simp
    | succ budget =>
      rw [appendAll, appendRaw]
      simp only [cutStore, hb, consolidateIfNeeded]
      rw [if_neg (by omega)]
      have := rest
        { s with store := ⟨patch s.store.mem s.writeAddress w, budget⟩, writeAddress := s.writeAddress + c.ws } rfl
      simp only [cutStore] at this
      simp only [this, List.length_cons, hn, Nat.add_assoc]
      simp [patch_append, hw]

theorem writeRawLoop_cut (fuel : Nat) : ∀ (s : State Cut) (address : Nat) (p : List UInt8),
    p.length ≤ fuel →
    s.writeAddress + c.ws * (writerWords c fuel address p).length < c.backingSize →
    ∃ s', writeRawLoop (cutStore c) c fuel s address p .success = (.success, s') ∧
      s'.store.mem = patch s.store.mem s.writeAddress
        ((writerWords c fuel address p).take s.store.budget).flatten ∧
      s'.writeAddress < c.backingSize := by
  induction fuel with
  | zero => exact fun s address p _ fits => ⟨s, rfl, by simp [writerWords], by simpa [writerWords] using fits⟩
  | succ fuel ih =>
    intro s address p hf fits
    by_cases hp : p.length = 0
    · refine ⟨s, ?_, ?_, ?_⟩
      · rw [writeRawLoop, if_pos hp]
      · simp [writerWords, hp]
      · simpa [writerWords, hp] using fits
    rw [writerWords, if_neg hp] at fits ⊢
    simp only [List.length_append, Nat.mul_add] at fits ⊢
    have hp : 0 < p.length := by omega
    obtain ⟨n, hn, hnp, he⟩ := nextRecord_effect c address hp
    have lens := length_of_mem_nextWords c address p
    rw [writeRawLoop_succ fuel s address hp, appendAll_cut _ s lens (by omega)]
    obtain ⟨s', e, m, w⟩ := ih
      { s with
        store := ⟨patch s.store.mem s.writeAddress
          ((nextWords c address p).take s.store.budget).flatten,
          s.store.budget - (nextWords c address p).length⟩
        writeAddress := s.writeAddress + c.ws * (nextWords c address p).length }
      (address + (nextRecord c address p).effect.data.length)
      (p.drop (nextRecord c address p).effect.data.length) (by simp [he]; omega) (by simp only; omega)
    refine ⟨s', e, ?_, w⟩
    rw [m, List.take_append, List.flatten_append, patch_append]
    rcases Nat.le_total (nextWords c address p).length s.store.budget with all | short
    · rw [List.take_of_length_le all, length_flatten_words lens]
    · rw [Nat.sub_eq_zero_of_le short]
      simp

/-- A write that does not consolidate has room for all of its words. -/
theorem writeRawLoop_fits {σ : Type} {d : BackingStore σ} {mem : σ → Nat → UInt8}
    (R : Reliable c d mem) (size : c.logicalSize ≤ 2 ^ 19) (fuel : Nat) :
    ∀ (s : State σ) (address : Nat) (p : List UInt8) (view : Nat → UInt8), p.length ≤ fuel →
    address + p.length ≤ c.logicalSize → Stored c (mem s.store) s.writeAddress view →
    (writeRawLoop d c fuel s address p .success).1 = .consolidated ∨
      s.writeAddress + c.ws * (writerWords c fuel address p).length < c.backingSize := by
  induction fuel with
  | zero => exact fun s address p view _ _ st => Or.inr (by simpa [writerWords] using st.room)
  | succ fuel ih =>
    intro s address p view hf below st
    by_cases hp : p.length = 0
    · exact Or.inr (by simpa [writerWords, hp] using st.room)
    rw [writerWords, if_neg hp]
    simp only [List.length_append, Nat.mul_add]
    have hp : 0 < p.length := by omega
    obtain ⟨n, hn, hnp, he⟩ := nextRecord_effect c address hp
    have flat := nextWords_flatten c address p
    have lens := length_of_mem_nextWords c address p
    have hlen := length_flatten_words lens
    rw [writeRawLoop_succ fuel s address hp]
    rcases appendAll_spec R _ s lens st.aligned st.logBase_le st.room st.fresh with
      ⟨lt, store, m, e⟩ | ⟨s', e, -, -⟩
    · have st' := st.append (decodes_nextRecord hp size below) (by rw [← flat]; omega)
      rw [← flat, ← m] at st'
      rw [e]
      rcases ih { s with store, writeAddress := s.writeAddress + (nextWords c address p).flatten.length }
        (address + (nextRecord c address p).effect.data.length)
        (p.drop (nextRecord c address p).effect.data.length) _ (by simp [he]; omega) (by simp [he]; omega)
        st' with h | h
      · exact Or.inl h
      · right
        simp only [hlen] at h
        omega
    · exact Or.inl (by rw [e])

/-- The contents after a write of which `s.store.budget` words reach the store. -/
theorem write_cut (s : State Cut) {address : Nat} {value : List UInt8}
    (range : address + value.length ≤ c.logicalSize)
    (change : value ≠ slice s.cache address value.length)
    (fits : s.writeAddress + c.ws * (writerWords c value.length address value).length < c.backingSize) :
    (write (cutStore c) c s address value).2.store.mem = patch s.store.mem s.writeAddress
      ((writerWords c value.length address value).take s.store.budget).flatten := by
  have body : ∀ unlocked, ∃ s',
      writeAndConsolidate (cutStore c) c
        ⟨patch s.cache address value, s.writeAddress, unlocked, s.store⟩ address value = (.success, s') ∧
      s'.store.mem = patch s.store.mem s.writeAddress
        ((writerWords c value.length address value).take s.store.budget).flatten := by
    intro unlocked
    obtain ⟨s', e, m, w⟩ := writeRawLoop_cut value.length
      ⟨patch s.cache address value, s.writeAddress, unlocked, s.store⟩ address value (Nat.le_refl _) fits
    refine ⟨s', ?_, m⟩
    rw [writeAndConsolidate, writeRaw, e]
    simp only [consolidateIfNeeded, if_neg (Nat.not_le.2 w)]
  unfold write
  rw [if_neg (by omega), if_neg change]
  by_cases hu : s.unlocked = true
  · obtain ⟨s', e, m⟩ := body true
    have un : unlock (cutStore c) { s with cache := patch s.cache address value } =
        (.unchanged, ⟨patch s.cache address value, s.writeAddress, true, s.store⟩) := by
      simp [unlock, hu]
    simp only [un, e, reduceCtorEq, if_false]
    exact m
  · obtain ⟨s', e, m⟩ := body true
    have un : unlock (cutStore c) { s with cache := patch s.cache address value } =
        (.success, ⟨patch s.cache address value, s.writeAddress, true, s.store⟩) := by
      simp [unlock, hu, cutStore]
    have locked : (lock (cutStore c) s').2.store = s'.store := by
      rw [lock]
      split <;> rfl
    simp only [un, e, if_true]
    rw [← m, ← locked]
    rcases lock (cutStore c) s' with ⟨_ | _ | _, t⟩ <;> rfl

/-- The loop's consolidation is reported by the write. -/
theorem write_consolidated {s : State (Nat → UInt8)} {address : Nat} {value : List UInt8}
    (range : address + value.length ≤ c.logicalSize)
    (change : value ≠ slice s.cache address value.length)
    (h : ∀ unlocked, (writeRawLoop (memStore c) c value.length
      ⟨patch s.cache address value, s.writeAddress, unlocked, s.store⟩ address value .success).1 =
        .consolidated) :
    (write (memStore c) c s address value).1 = .consolidated := by
  have body : ∀ unlocked, ∃ s', writeAndConsolidate (memStore c) c
      ⟨patch s.cache address value, s.writeAddress, unlocked, s.store⟩ address value =
        (.consolidated, s') := by
    intro unlocked
    obtain ⟨s', e⟩ : ∃ s', writeRawLoop (memStore c) c value.length
        ⟨patch s.cache address value, s.writeAddress, unlocked, s.store⟩ address value .success =
          (.consolidated, s') := ⟨_, Prod.ext (h unlocked) rfl⟩
    exact ⟨s', by rw [writeAndConsolidate, writeRaw, e]⟩
  unfold write
  rw [if_neg (by omega), if_neg change]
  by_cases hu : s.unlocked = true
  · obtain ⟨s', e⟩ := body true
    have un : unlock (memStore c) { s with cache := patch s.cache address value } =
        (.unchanged, ⟨patch s.cache address value, s.writeAddress, true, s.store⟩) := by
      simp [unlock, hu]
    simp only [un, e, reduceCtorEq, if_false]
  · obtain ⟨s', e⟩ := body true
    have un : unlock (memStore c) { s with cache := patch s.cache address value } =
        (.success, ⟨patch s.cache address value, s.writeAddress, true, s.store⟩) := by
      simp [unlock, hu, memStore]
    obtain ⟨ls, s₂, e₂, ne, -⟩ := lock_spec (memStore_reliable c) s'
    cases ls with
    | failure => exact absurd rfl ne
    | success => simp only [un, e, e₂, if_true]
    | unchanged => simp only [un, e, e₂, if_true]

end Cut

/-! ## What is left of the claim on old and new bytes -/

/-- Where the header fits in the first word, nothing outside the write changes. -/
theorem cutView_outside {c : Config} (ne : c.writeSize ≠ .two) (fuel : Nat) :
    ∀ {view : Nat → UInt8} {address : Nat} {p : List UInt8} {k i : Nat},
    i < address ∨ address + p.length ≤ i → cutView c fuel view address p k i = view i := by
  induction fuel with
  | zero => exact fun _ => rfl
  | succ fuel ih =>
    intro view address p k i out
    rw [cutView]
    split
    case isTrue => rfl
    case isFalse h =>
      obtain ⟨n, hn, hnp, he⟩ := nextRecord_effect c address (p := p) (by omega)
      simp only [he, List.length_take, Nat.min_eq_left hnp]
      split
      · rw [ih (by simp; omega)]
        exact patch_outside (by simp; omega)
      · rw [tornPatch, if_neg fun h => ne h.1]
        exact patch_outside (by simp; omega)

/-- Where a whole entry fits in one word, every byte is old or new. -/
theorem cutView_old_or_new {c : Config} (eight : c.writeSize = .eight) (fuel : Nat) :
    ∀ (view : Nat → UInt8) (address : Nat) (p : List UInt8) (k i : Nat), p.length ≤ fuel →
    cutView c fuel view address p k i = view i ∨
      cutView c fuel view address p k i = patch view address p i := by
  induction fuel with
  | zero => exact fun _ _ _ _ _ _ => Or.inl rfl
  | succ fuel ih =>
    intro view address p k i hf
    rw [cutView]
    split
    case isTrue => exact Or.inl rfl
    case isFalse h =>
      obtain ⟨n, hn, hnp, he⟩ := nextRecord_effect c address (p := p) (by omega)
      have one : (nextWords c address p).length = 1 := by
        simp [nextWords, eight, multibyteWords]
      simp only [he, List.length_take, Nat.min_eq_left hnp, one]
      rw [if_pos (by omega)]
      have split := patch_append view address (p.take n) (p.drop n)
      rw [List.take_append_drop, List.length_take, Nat.min_eq_left hnp] at split
      rcases ih (patch view address (p.take n)) (address + n) (p.drop n) (k - 1) i (by simp; omega) with h | h
      · rw [Patch.apply, h, split]
        by_cases hi : i < address + n
        · exact Or.inr (patch_below hi).symm
        · exact Or.inl (patch_above (by simp; omega))
      · rw [Patch.apply, h, ← split]
        exact Or.inr rfl

/-- Power is lost after `k` store writes of a call that does not consolidate. The
next start finds the data that `afterCut` describes. With words of eight bytes
every byte is old or new, and with words of four or eight nothing outside the
call's range changes. -/
theorem reload_after_cut {c : Config} (big : c.logicalSize + 8 < c.backingSize)
    (size : c.logicalSize ≤ 2 ^ 19) (ops : List Op) (range : ∀ op ∈ ops, op.InRange c) (address : Nat)
    (value : List UInt8) (inside : address + value.length ≤ c.logicalSize)
    (first : InitialisedFirst (ops ++ [.write address value]))
    (appends : (write (memStore c) c (run (memStore c) c (State.start fun _ => 0) ops)
      address value).1 ≠ .consolidated)
    (k : Nat) {σ : Type} {d : BackingStore σ} {mem : σ → Nat → UInt8} (R : Reliable c d mem)
    (ram : State σ)
    (same : mem ram.store = (write (cutStore c) c
      ((run (memStore c) c (State.start fun _ => 0) ops).cutAfter k) address value).2.store.mem) :
    ∃ s', init d c ram = (.success, s') ∧
      (∀ i, i < c.logicalSize → s'.cache i =
        afterCut c (run (memStore c) c (State.start fun _ => 0) ops).cache address value k i) ∧
      (c.writeSize ≠ .two → ∀ i, i < c.logicalSize → i < address ∨ address + value.length ≤ i →
        s'.cache i = (run (memStore c) c (State.start fun _ => 0) ops).cache i) ∧
      (c.writeSize = .eight → ∀ i, i < c.logicalSize →
        s'.cache i = (run (memStore c) c (State.start fun _ => 0) ops).cache i ∨
        s'.cache i = patch (run (memStore c) c (State.start fun _ => 0) ops).cache address value i) := by
  have start : Untouched c id (State.start fun _ => 0) := ⟨fun _ _ => rfl, rfl⟩
  have h := synced_before_write (memStore_reliable c) big size start ops range first
  revert appends same h
  generalize run (memStore c) c (State.start fun _ => 0) ops = s
  intro appends same h
  have st : Stored c s.store s.writeAddress s.cache := h.stored
  -- whatever is in the store, it stands for `afterCut`
  have after : ∃ wa, Stored c (mem ram.store) wa (afterCut c s.cache address value k) := by
    rw [same, afterCut]
    split
    case isTrue eq =>
      refine ⟨s.writeAddress, ?_⟩
      have skip : write (cutStore c) c (s.cutAfter k) address value = (.success, s.cutAfter k) := by
        rw [write, if_neg (by omega)]
        exact if_pos eq
      rw [skip]
      exact st
    case isFalse change =>
      have fits : s.writeAddress + c.ws * (writerWords c value.length address value).length <
          c.backingSize := by
        by_contra long
        refine appends (write_consolidated inside change fun unlocked => ?_)
        exact (writeRawLoop_fits (memStore_reliable c) size value.length
          ⟨patch s.cache address value, s.writeAddress, unlocked, s.store⟩ address value s.cache
          (Nat.le_refl _) inside st).resolve_right long
      rw [write_cut (s.cutAfter k) inside change fits]
      exact stored_cut size value.length s.store s.writeAddress s.cache address value k st inside fits
  obtain ⟨wa, st'⟩ := after
  obtain ⟨s', e, -, -, -, hc⟩ := init_spec R.toReadable ram (R.init ram.store) st'
  refine ⟨s', e, hc, fun ne i hi out => ?_, fun eight i hi => ?_⟩
  · rw [hc i hi, afterCut]
    split
    · rfl
    · exact cutView_outside ne _ out
  · rw [hc i hi, afterCut]
    split
    · exact Or.inl rfl
    · exact cutView_old_or_new eight _ _ _ _ _ i (Nat.le_refl _)

/-- A configuration whose addresses do not fit in a byte entry. -/
def tallConfig : Config where
  writeSize := .two
  logicalSize := 128
  backingSize := 256
  uninit := fun _ => 0
  backing_ge := by decide
  logical_aligned := by decide
  backing_multiple := by decide
  backing_lt := by decide

theorem tall_reload_after_cut :
    ∃ s', init (memStore tallConfig) tallConfig (State.start (write (cutStore tallConfig) tallConfig
        ((run (memStore tallConfig) tallConfig (State.start fun _ => 0) [.init]).cutAfter 2)
        71 [5, 6]).2.store.mem) = (.success, s') ∧ s'.cache 71 = 5 ∧ s'.cache 72 = 0 := by
  obtain ⟨s', e, hc, -, -⟩ := reload_after_cut (by decide) (by decide) [.init] (by decide) 71 [5, 6]
    (by decide) (by decide) (by decide +kernel) 2 (memStore_reliable tallConfig)
    (State.start (write (cutStore tallConfig) tallConfig
      ((run (memStore tallConfig) tallConfig (State.start fun _ => 0) [.init]).cutAfter 2)
      71 [5, 6]).2.store.mem) (by simp only [State.start, id])
  exact ⟨s', e, (hc 71 (by decide)).trans (by decide +kernel), (hc 72 (by decide)).trans (by decide +kernel)⟩

/-- Power is lost after the first word of an entry for byte 71: its address reads
as zero, and byte 0, which was not to be written, is zeroed. -/
theorem cut_write_changes_other_byte :
    (write (memStore tallConfig) tallConfig
      (run (memStore tallConfig) tallConfig (State.start fun _ => 0) [.init, .write 0 [7]]) 71 [5]).1 =
        .success ∧
    (run (memStore tallConfig) tallConfig (State.start fun _ => 0) [.init, .write 0 [7]]).cache 0 = 7 ∧
    (init (memStore tallConfig) tallConfig (State.start (write (cutStore tallConfig) tallConfig
      ((run (memStore tallConfig) tallConfig (State.start fun _ => 0) [.init, .write 0 [7]]).cutAfter 1)
      71 [5]).2.store.mem)).2.cache 0 = 0 := by
  decide +kernel

end QmkFirmware.WearLeveling
