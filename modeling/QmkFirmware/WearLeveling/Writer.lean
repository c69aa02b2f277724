import QmkFirmware.WearLeveling.Stored

/-!
# The writer

Each iteration of `wear_leveling_write_raw` appends the words of one record, and
the reader decodes that record to the bytes the iteration took. If the log fills
up on the way, consolidation writes the whole cache, which holds all of the new
data already, and the write stops there.
-/

namespace QmkFirmware.WearLeveling
open Lib

section Consolidate

variable {σ : Type} {c : Config} {d : BackingStore σ} {mem : σ → Nat → UInt8}

/-- Freshly consolidated contents stand for the cache. -/
theorem stored_image (big : c.logBase < c.backingSize) (cache : Nat → UInt8) :
    Stored c
      (patch (patch (fun _ => 0) 0 (slice cache 0 c.logicalSize)) c.logicalSize
        (checksum (slice cache 0 c.logicalSize))) c.logBase cache where
  consolidated := by
    left
    have sum := slice_patch_self (patch (fun _ => 0) 0 (slice cache 0 c.logicalSize)) c.logicalSize
      (checksum (slice cache 0 c.logicalSize))
    have data := slice_patch_self (fun _ => (0 : UInt8)) 0 (slice cache 0 c.logicalSize)
    rw [length_checksum] at sum
    rw [length_slice] at data
    rw [sum, slice_patch_of_disjoint (by omega), data]
  fresh := by
    intro i lo hi
    simp only [Config.logBase] at lo
    rw [patch_above (by simp; omega), patch_above (by simp; omega)]
  inside := by omega
  room := big
  log := by
    refine ⟨[], by simp, trivial, by simp, fun i hi => ?_⟩
    rw [effects, List.map_nil, replay_nil, patch_below hi]
    exact (patch_slice_of (by omega) (by omega)).symm

theorem consolidateForce_spec (R : Reliable c d mem) (big : c.logBase < c.backingSize) (s : State σ) :
    ∃ s', consolidateForce d c s = (.consolidated, s') ∧ s'.cache = s.cache ∧
      Stored c (mem s'.store) s'.writeAddress s.cache := by
  have hL := c.ws_mul_logical_div
  have h8 := c.ws_mul_eight_div
  have size : c.logicalSize + 8 ≤ c.backingSize := by
    simp only [Config.logBase] at big
    omega
  obtain ⟨s₁, e₁, m₁⟩ := R.erase s.store
  obtain ⟨ls, s₂, e₂, -, m₂, c₂, -⟩ := unlock_spec R ({ s with store := s₁ } : State σ)
  simp only [m₁] at m₂ c₂
  obtain ⟨s₃, e₃, m₃⟩ := writeBulk_spec R s₂.cache (c.logicalSize / c.ws) s₂.store 0 0 (Nat.zero_mod _)
    (by rw [hL]; omega) (by rw [m₂]; exact fun _ _ _ => rfl)
  rw [hL, m₂, c₂] at m₃
  obtain ⟨s₄, e₄, m₄⟩ := writeBulk_spec R
    (patch c.uninit 0 (checksum (slice s.cache 0 c.logicalSize))) (8 / c.ws) s₃ c.logicalSize 0
    c.logical_aligned (by rw [h8]; omega) (by
      rw [m₃, h8]
      intro i lo _
      rw [patch_above (by simp; omega)])
  have sum := slice_patch_self c.uninit 0 (checksum (slice s.cache 0 c.logicalSize))
  rw [length_checksum] at sum
  rw [h8, m₃, sum] at m₄
  have img := stored_image big s.cache
  rw [← m₄] at img
  have e₄' : writeBulk d c (patch c.uninit 0 (bytesOfUInt64 (fnv64aBuf (slice s₂.cache 0 c.logicalSize))))
      s₃ c.logicalSize 0 (8 / c.ws) = (true, s₄) := by
    rw [c₂]
    exact e₄
  obtain ⟨ls', s₅, e₅, -, m₅, c₅, -⟩ := lock_spec R ({ s₂ with store := s₄ } : State σ)
  refine ⟨{ (if ls = .success then s₅ else { s₂ with store := s₄ }) with writeAddress := c.logBase },
    ?_, ?_, ?_⟩
  · simp only [consolidateForce, e₁, writeConsolidated, e₂, e₃, if_true, e₄', e₅]
  · split
    · exact c₅.trans c₂
    · exact c₂
  · split
    · simpa only [m₅] using img
    · exact img

/-- Appending one word: the log grows, or it was the last word of the store and
the cache is consolidated. -/
theorem appendRaw_spec (R : Reliable c d mem) (s : State σ) {w : Word} (hw : w.length = c.ws)
    (ha : s.writeAddress % c.ws = 0) (lo : c.logBase ≤ s.writeAddress)
    (hi : s.writeAddress < c.backingSize)
    (he : Erased (mem s.store) s.writeAddress (c.backingSize - s.writeAddress)) :
    (s.writeAddress + c.ws < c.backingSize ∧
      ∃ store, mem store = patch (mem s.store) s.writeAddress w ∧
        appendRaw d c s w = (.success, { s with store, writeAddress := s.writeAddress + c.ws })) ∨
    ∃ s', appendRaw d c s w = (.consolidated, s') ∧ s'.cache = s.cache ∧
      Stored c (mem s'.store) s'.writeAddress s.cache := by
  have fits := add_le_of_lt_of_mod ha c.backing_mod_ws hi
  obtain ⟨store, e, m⟩ := R.write s.store s.writeAddress w ha fits hw
    (he.sub (Nat.le_refl _) (by omega))
  rcases Nat.lt_or_ge (s.writeAddress + c.ws) c.backingSize with h | h
  · refine Or.inl ⟨h, store, m, ?_⟩
    rw [appendRaw, e]
    simp only [consolidateIfNeeded]
    rw [if_neg (by omega)]
  · obtain ⟨s', e', c', st⟩ := consolidateForce_spec R (by omega)
      ({ s with store, writeAddress := s.writeAddress + c.ws } : State σ)
    refine Or.inr ⟨s', ?_, c', st⟩
    rw [appendRaw, e]
    simp only [consolidateIfNeeded]
    rw [if_pos h, e']

theorem appendAll_spec (R : Reliable c d mem) (words : List Word) : ∀ (s : State σ),
    (∀ w ∈ words, w.length = c.ws) → s.writeAddress % c.ws = 0 → c.logBase ≤ s.writeAddress →
    s.writeAddress < c.backingSize →
    Erased (mem s.store) s.writeAddress (c.backingSize - s.writeAddress) →
    (s.writeAddress + words.flatten.length < c.backingSize ∧
      ∃ store, mem store = patch (mem s.store) s.writeAddress words.flatten ∧
        appendAll d c s words =
          (.success, { s with store, writeAddress := s.writeAddress + words.flatten.length })) ∨
    ∃ s', appendAll d c s words = (.consolidated, s') ∧ s'.cache = s.cache ∧
      Stored c (mem s'.store) s'.writeAddress s.cache := by
  induction words with
  | nil => exact fun s _ _ _ hi _ => Or.inl ⟨by simpa using hi, s.store, by simp, rfl⟩
  | cons w words ih =>
    intro s hws ha lo hi he
    have hw := hws w List.mem_cons_self
    rcases appendRaw_spec R s hw ha lo hi he with ⟨h, store, m, e⟩ | ⟨s', e, c', st⟩
    · have hf : (w :: words).flatten = w ++ words.flatten := rfl
      rcases ih { s with store, writeAddress := s.writeAddress + c.ws }
          (fun v hv => hws v (List.mem_cons_of_mem _ hv)) (add_self_mod ha) (by simp only; omega) h
          (by
            simp only [m]
            exact (he.sub (by omega) (by omega)).patch (Or.inr (by omega)))
        with ⟨h', store', m', e'⟩ | ⟨s', e', c', st⟩
      · simp only [m] at m' h'
        refine Or.inl ⟨by rw [hf, List.length_append]; omega, store', ?_, ?_⟩
        · rw [m', hf, patch_append, hw]
        · rw [appendAll, e]
          simp only [e', hf, List.length_append, hw, Nat.add_assoc]
      · refine Or.inr ⟨s', ?_, c', st⟩
        rw [appendAll, e]
        exact e'
    · refine Or.inr ⟨s', ?_, c', st⟩
      rw [appendAll, e]

/-- Appending a record: the store stands for the patched view, or for the cache. -/
theorem appendRecord_spec (R : Reliable c d mem) {view : Nat → UInt8} (s : State σ) {r : Record}
    (dec : Decodes c r) {words : List Word} (hws : ∀ w ∈ words, w.length = c.ws)
    (hb : words.flatten = r.bytes) (st : Stored c (mem s.store) s.writeAddress view) :
    (∃ s', appendAll d c s words = (.success, s') ∧ s'.cache = s.cache ∧
      Stored c (mem s'.store) s'.writeAddress (r.effect.apply view)) ∨
    ∃ s', appendAll d c s words = (.consolidated, s') ∧ s'.cache = s.cache ∧
      Stored c (mem s'.store) s'.writeAddress s.cache := by
  rcases appendAll_spec R words s hws st.aligned st.logBase_le st.room st.fresh with
    ⟨h, store, m, e⟩ | h
  · refine Or.inl ⟨_, e, rfl, ?_⟩
    rw [hb] at m h
    simp only [m, hb]
    exact st.append dec h
  · exact Or.inr h

end Consolidate

/-! ## The writer's records -/

theorem multibyteWords_flatten (c : Config) (log : LogEntry) (length : Nat) :
    (multibyteWords c log length).flatten = slice log 0 (multibyteSize c length) := by
  unfold multibyteWords multibyteSize headerRest payloadRest
  cases h : c.writeSize <;> simp only [Config.ws, h]
  · by_cases h1 : 1 < length <;> by_cases h3 : 3 < length <;> simp only [h1, h3, if_true, if_false]
    all_goals first | rfl | omega
  · by_cases h1 : 1 < length <;> simp only [h1, if_true, if_false] <;> rfl
  · rfl

theorem length_of_mem_multibyteWords {c : Config} {log : LogEntry} {length : Nat} :
    ∀ w ∈ multibyteWords c log length, w.length = c.ws := by
  unfold multibyteWords
  cases h : c.writeSize <;> simp only [Config.ws, h, WriteSize.bytes]
  · grind [LogEntry.length_raw16]
  · grind [LogEntry.length_raw32]
  · grind [LogEntry.length_raw64]

/-- The multi-byte entry of `p` at `address`, as the writer assembles it. -/
def multibyteLog (address : Nat) (p : List UInt8) : LogEntry :=
  patch (LogEntry.makeMultibyte address p.length) 3 p

/-- Its record. -/
def multibyteRecord (c : Config) (address : Nat) (p : List UInt8) : Record :=
  ⟨slice (multibyteLog address p) 0 (multibyteSize c p.length), ⟨address, p⟩⟩

/-- The words the writer appends have room for the payload. -/
theorem le_multibyteSize {c : Config} {length : Nat} (h : length ≤ 5) :
    3 + length ≤ multibyteSize c length := by
  unfold multibyteSize headerRest payloadRest
  cases hw : c.writeSize <;> simp only [Config.ws, hw, WriteSize.bytes]
  · by_cases h1 : 1 < length <;> by_cases h3 : 3 < length <;> simp [h1, h3] <;> omega
  · by_cases h1 : 1 < length <;> simp [h1] <;> omega
  · simp
    omega

theorem decodes_multibyteRecord {c : Config} {address : Nat} {p : List UInt8} (pos : 0 < p.length)
    (le : p.length ≤ 5) (small : address < 2 ^ 19) (below : address + p.length ≤ c.logicalSize) :
    Decodes c (multibyteRecord c address p) := by
  have room := le_multibyteSize (c := c) le
  have agree : ∀ i, i < multibyteSize c p.length →
      c.entryOf (slice (multibyteLog address p) 0 (multibyteSize c p.length)) i =
        multibyteLog address p i := by
    intro i hi
    rw [Config.entryOf_inside (by simpa using hi), getElem_slice, Nat.zero_add]
  have header : ∀ i, i < 3 →
      c.entryOf (slice (multibyteLog address p) 0 (multibyteSize c p.length)) i =
        LogEntry.makeMultibyte address p.length i := by
    intro i hi
    rw [agree i (by omega), multibyteLog, patch_below hi]
  have payload : slice (c.entryOf (slice (multibyteLog address p) 0 (multibyteSize c p.length))) 3
      p.length = p := by
    rw [slice_congr fun i _ hi => agree i (by omega)]
    exact slice_patch_self _ 3 p
  obtain ⟨e0, type, addr, len⟩ := LogEntry.multibyte_header header small (by omega)
  have dec := decodes_multibyte ⟨0, c.ws_pos, LogEntry.byte0_ne_zero (by omega)⟩ type addr len (by simp) below
  rwa [payload] at dec

/-- The optimised byte entry's record. -/
def optimized64Record (address : Nat) (value : UInt8) : Record :=
  ⟨(LogEntry.makeOptimized64 address value).raw16 0, ⟨address, [value]⟩⟩

/-- The 0/1 word entry's record. -/
def word01Record (address value : Nat) : Record :=
  ⟨(LogEntry.makeWord01 address value).raw16 0, ⟨address, [UInt8.ofNat value, 0]⟩⟩

theorem entryOf_raw16 {c : Config} (e : LogEntry) {i : Nat} (hi : i < 2) :
    c.entryOf (e.raw16 0) i = e i := by
  rw [Config.entryOf_inside (by simpa using hi)]
  simp [LogEntry.raw16]

theorem decodes_optimized64Record {c : Config} (two : c.writeSize = .two) {address : Nat}
    (value : UInt8) (ha : address < 64) (below : address < c.logicalSize) :
    Decodes c (optimized64Record address value) := by
  obtain ⟨e0, type, addr, val⟩ := LogEntry.optimized64_header value
    (fun i hi => entryOf_raw16 (c := c) (LogEntry.makeOptimized64 address value) hi) ha
  exact decodes_optimized64 two (by simp) (LogEntry.byte0_ne_zero (by omega)) type addr val below

theorem decodes_word01Record {c : Config} (two : c.writeSize = .two) {address value : Nat}
    (hv : value < 2) (ha : address < 16384) (even : address % 2 = 0)
    (below : address + 1 < c.logicalSize) : Decodes c (word01Record address value) := by
  obtain ⟨e0, type, addr, val⟩ := LogEntry.word01_header
    (fun i hi => entryOf_raw16 (c := c) (LogEntry.makeWord01 address value) hi) ha even hv
  exact decodes_word01 two (by simp) (LogEntry.byte0_ne_zero (by omega)) type addr val below

/-! ## The loop -/

/-- The record an iteration of `wear_leveling_write_raw` appends when `p` is
left to be written at `address`. -/
def nextRecord (c : Config) (address : Nat) (p : List UInt8) : Record :=
  let v := (p.getD 1 0).toNat <<< 8 ||| (p.getD 0 0).toNat
  if c.writeSize = .two ∧ 2 ≤ p.length ∧ address % 2 = 0 ∧ address < 16384 ∧ (v = 0 ∨ v = 1) then
    word01Record address v
  else if c.writeSize = .two ∧ address < 64 then optimized64Record address (p.getD 0 0)
  else multibyteRecord c address (p.take (min p.length LogEntry.multibyteMaxBytes))

/-- Its words. -/
def nextWords (c : Config) (address : Nat) (p : List UInt8) : List Word :=
  let v := (p.getD 1 0).toNat <<< 8 ||| (p.getD 0 0).toNat
  if c.writeSize = .two ∧ 2 ≤ p.length ∧ address % 2 = 0 ∧ address < 16384 ∧ (v = 0 ∨ v = 1) then
    [(LogEntry.makeWord01 address v).raw16 0]
  else if c.writeSize = .two ∧ address < 64 then
    [(LogEntry.makeOptimized64 address (p.getD 0 0)).raw16 0]
  else
    let q := p.take (min p.length LogEntry.multibyteMaxBytes)
    multibyteWords c (multibyteLog address q) q.length

theorem nextWords_flatten (c : Config) (address : Nat) (p : List UInt8) :
    (nextWords c address p).flatten = (nextRecord c address p).bytes := by
  simp only [nextWords, nextRecord]
  split_ifs
  · simp [word01Record]
  · simp [optimized64Record]
  · exact multibyteWords_flatten _ _ _

theorem length_of_mem_nextWords (c : Config) (address : Nat) (p : List UInt8) :
    ∀ w ∈ nextWords c address p, w.length = c.ws := by
  simp only [nextWords]
  split_ifs with h1 h2
  · simp [Config.ws, h1.1]
  · simp [Config.ws, h2.1]
  · exact length_of_mem_multibyteWords

theorem length_flatten_words {n : Nat} {words : List Word} (h : ∀ w ∈ words, w.length = n) :
    words.flatten.length = n * words.length := by
  induction words with
  | nil => rfl
  | cons w words ih =>
    rw [List.flatten_cons, List.length_append, h w List.mem_cons_self,
      ih fun v hv => h v (List.mem_cons_of_mem _ hv), List.length_cons]
    ring

/-- A little-endian word of 0 or 1 has the bytes it is encoded as. -/
theorem word01_bytes {a b : UInt8} {v : Nat} (hv : v = b.toNat <<< 8 ||| a.toNat) (h : v = 0 ∨ v = 1) :
    [UInt8.ofNat v, 0] = [a, b] := by
  rw [← Nat.shiftLeft_add_eq_or_of_lt a.toNat_lt, Nat.shiftLeft_eq] at hv
  have hb : b.toNat = 0 := by omega
  have ha : a.toNat = v := by omega
  rw [← ha, UInt8.ofNat_toNat, show b = 0 from UInt8.toNat_inj.1 hb]

/-- An iteration takes the next one to five bytes of what is left. -/
theorem nextRecord_effect (c : Config) (address : Nat) {p : List UInt8} (hp : 0 < p.length) :
    ∃ n, 0 < n ∧ n ≤ p.length ∧ (nextRecord c address p).effect = ⟨address, p.take n⟩ := by
  simp only [nextRecord]
  split_ifs with h1 h2
  · obtain ⟨-, hp2, -, -, hv⟩ := h1
    refine ⟨2, by omega, hp2, ?_⟩
    match p, hp2 with
    | a :: b :: rest, _ => exact congrArg (Patch.mk address) (word01_bytes rfl hv)
  · refine ⟨1, by omega, hp, ?_⟩
    match p, hp with
    | a :: rest, _ => rfl
  · exact ⟨min p.length 5, by omega, by omega, rfl⟩

theorem decodes_nextRecord {c : Config} {address : Nat} {p : List UInt8} (hp : 0 < p.length)
    (size : c.logicalSize ≤ 2 ^ 19) (below : address + p.length ≤ c.logicalSize) :
    Decodes c (nextRecord c address p) := by
  simp only [nextRecord]
  split_ifs with h1 h2
  · obtain ⟨two, hp2, even, lt, hv⟩ := h1
    exact decodes_word01Record two (by omega) lt even (by omega)
  · exact decodes_optimized64Record h2.1 _ h2.2 (by omega)
  · have five : LogEntry.multibyteMaxBytes = 5 := rfl
    exact decodes_multibyteRecord (by simp; omega) (by simp; omega) (by omega) (by simp; omega)

section Loop

variable {σ : Type} {c : Config} {d : BackingStore σ} {mem : σ → Nat → UInt8}

theorem appendAll_singleton (s : State σ) (w : Word) : appendAll d c s [w] = appendRaw d c s w := by
  rw [appendAll]
  split
  · next h => rw [h, appendAll]
  · rfl

/-- One iteration of the loop, whatever the encoding. -/
theorem writeRawLoop_succ (fuel : Nat) (s : State σ) (address : Nat) {p : List UInt8}
    (hp : 0 < p.length) (status : Status) :
    writeRawLoop d c (fuel + 1) s address p status =
      match appendAll d c s (nextWords c address p) with
      | (.success, s) =>
        writeRawLoop d c fuel s (address + (nextRecord c address p).effect.data.length)
          (p.drop (nextRecord c address p).effect.data.length) .success
      | result => result := by
  have len : (if LogEntry.multibyteMaxBytes ≤ p.length then LogEntry.multibyteMaxBytes else p.length) =
      min p.length LogEntry.multibyteMaxBytes := by
    split <;> omega
  rw [writeRawLoop, if_neg (by omega)]
  simp only [nextWords, nextRecord, len]
  split_ifs with h1 h2
  · rw [appendAll_singleton]
    rfl
  · rw [appendAll_singleton]
    rfl
  · have taken : (p.take (min p.length LogEntry.multibyteMaxBytes)).length =
        min p.length LogEntry.multibyteMaxBytes := by simp
    simp only [writeRawMultibyte, multibyteRecord, multibyteLog]
    exact taken.symm ▸ rfl

/-- The loop from a store that stands for `view`: either all of `p` reaches the
log, or a consolidation stores the cache; the cache, which holds `p` already,
is what the store stands for in both cases. -/
theorem writeRawLoop_spec (R : Reliable c d mem) (size : c.logicalSize ≤ 2 ^ 19) (fuel : Nat) :
    ∀ (s : State σ) (address : Nat) (p : List UInt8) (view : Nat → UInt8), p.length ≤ fuel →
    address + p.length ≤ c.logicalSize → Stored c (mem s.store) s.writeAddress view →
    (∀ i, i < c.logicalSize → s.cache i = patch view address p i) →
    ∃ status s', writeRawLoop d c fuel s address p .success = (status, s') ∧ status ≠ .failed ∧
      s'.cache = s.cache ∧ Stored c (mem s'.store) s'.writeAddress s.cache := by
  induction fuel with
  | zero =>
    intro s address p view hf _ st hc
    have : p = [] := List.length_eq_zero_iff.1 (by omega)
    subst this
    exact ⟨_, s, rfl, by simp, rfl, st.congr fun i hi => by simpa using hc i hi⟩
  | succ fuel ih =>
    intro s address p view hf hb st hc
    by_cases hp : p.length = 0
    · have : p = [] := List.length_eq_zero_iff.1 hp
      subst this
      exact ⟨.success, s, by simp [writeRawLoop], by simp, rfl,
        st.congr fun i hi => by simpa using hc i hi⟩
    · have hp : 0 < p.length := by omega
      obtain ⟨n, hn, hnp, he⟩ := nextRecord_effect c address hp
      rw [writeRawLoop_succ fuel s address hp]
      rcases appendRecord_spec R s (decodes_nextRecord hp size hb) (length_of_mem_nextWords _ _ _)
        (nextWords_flatten c address p) st with ⟨s₁, e₁, c₁, st₁⟩ | ⟨s₁, e₁, c₁, st₁⟩
      · rw [he] at st₁
        simp only [e₁, he, List.length_take, Nat.min_eq_left hnp]
        obtain ⟨status, s₂, e₂, ok, c₂, st₂⟩ := ih s₁ (address + n) (p.drop n) _ (by simp; omega)
          (by simp; omega) st₁ (by
            intro i hi
            rw [c₁, hc i hi, Patch.apply]
            have split := patch_append view address (p.take n) (p.drop n)
            rw [List.take_append_drop, List.length_take, Nat.min_eq_left hnp] at split
            rw [split])
        exact ⟨status, s₂, e₂, ok, c₂.trans c₁, c₁ ▸ st₂⟩
      · exact ⟨_, s₁, by rw [e₁], by simp, c₁, st₁⟩

end Loop

end QmkFirmware.WearLeveling
