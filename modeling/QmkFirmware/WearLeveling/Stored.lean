import QmkFirmware.WearLeveling.Log

/-!
# What a store stands for

`Stored c m wa view`: the consolidated area of `m` is intact or erased, a log of
decodable records follows it up to `wa`, everything behind is erased, and the
consolidated data replayed through the log is `view`. Initialisation rebuilds
exactly that, and consolidation makes a store of this kind out of any cache.
-/

namespace QmkFirmware.WearLeveling
open Lib

/-- The eight bytes that guard the consolidated data. -/
def checksum (data : List UInt8) : Word := bytesOfUInt64 (fnv64aBuf data)

@[simp] theorem length_checksum (data : List UInt8) : (checksum data).length = 8 := by
  simp [checksum, bytesOfUInt64]

/-- A store whose log ends at `tail`, possibly at the end of the store. -/
structure Logged (c : Config) (m : Nat → UInt8) (tail : Nat) (view : Nat → UInt8) : Prop where
  consolidated : slice m c.logicalSize 8 = checksum (slice m 0 c.logicalSize) ∨
    Erased m 0 c.logicalSize
  fresh : Erased m tail (c.backingSize - tail)
  inside : tail ≤ c.backingSize
  log : ∃ rs, (∀ r ∈ rs, Decodes c r) ∧ LogAt m c.logBase rs ∧ tail = c.logBase + logLength rs ∧
    ∀ i, i < c.logicalSize → view i = replay m (effects rs) i

/-- The log has room for more. -/
structure Stored (c : Config) (m : Nat → UInt8) (wa : Nat) (view : Nat → UInt8) : Prop
    extends Logged c m wa view where
  room : wa < c.backingSize

theorem logLength_mod {c : Config} {rs : List Record} (dec : ∀ r ∈ rs, Decodes c r) :
    logLength rs % c.ws = 0 := by
  induction rs with
  | nil => simp
  | cons r rs ih =>
    rw [logLength_cons, Nat.add_mod, (dec r List.mem_cons_self).aligned,
      ih fun q hq => dec q (List.mem_cons_of_mem _ hq)]
    exact Nat.zero_mod _

theorem length_le_logLength {c : Config} {rs : List Record} (dec : ∀ r ∈ rs, Decodes c r) :
    rs.length ≤ logLength rs := by
  induction rs with
  | nil => simp
  | cons r rs ih =>
    have := (dec r List.mem_cons_self).pos
    have := ih fun q hq => dec q (List.mem_cons_of_mem _ hq)
    simp only [List.length_cons, logLength_cons]
    omega

namespace Logged

variable {c : Config} {m : Nat → UInt8} {tail : Nat} {view : Nat → UInt8}

theorem aligned (h : Logged c m tail view) : tail % c.ws = 0 := by
  obtain ⟨rs, dec, -, rfl, -⟩ := h.log
  rw [Nat.add_mod, c.logBase_mod_ws, logLength_mod dec]
  exact Nat.zero_mod _

theorem logBase_le (h : Logged c m tail view) : c.logBase ≤ tail := by
  obtain ⟨rs, -, -, rfl, -⟩ := h.log
  omega

theorem congr {view' : Nat → UInt8} (h : Logged c m tail view)
    (e : ∀ i, i < c.logicalSize → view' i = view i) : Logged c m tail view' := by
  obtain ⟨rs, dec, la, ht, hv⟩ := h.log
  exact ⟨h.consolidated, h.fresh, h.inside, rs, dec, la, ht, fun i hi => (e i hi).trans (hv i hi)⟩

/-- Writing a record behind the log. -/
theorem append (h : Logged c m tail view) {r : Record} (dec : Decodes c r)
    (hr : tail + r.bytes.length ≤ c.backingSize) :
    Logged c (patch m tail r.bytes) (tail + r.bytes.length) (r.effect.apply view) := by
  have hbase := h.logBase_le
  obtain ⟨rs, decs, la, ht, hv⟩ := h.log
  have low : ∀ a n, a + n ≤ c.logBase → slice (patch m tail r.bytes) a n = slice m a n :=
    fun a n hn => slice_patch_of_disjoint (by omega)
  refine ⟨?_, ?_, hr, rs ++ [r], ?_, ?_, ?_, ?_⟩
  · rw [low _ _ (by simp [Config.logBase]), low _ _ (by simp [Config.logBase])]
    refine h.consolidated.imp_right fun he => he.patch (Or.inl ?_)
    simp only [Config.logBase] at hbase
    omega
  · exact (h.fresh.sub (by omega) (by omega)).patch (Or.inr (by omega))
  · intro q hq
    rcases List.mem_append.1 hq with hq | hq
    · exact decs q hq
    · rw [List.mem_singleton.1 hq]
      exact dec
  · rw [ht]
    exact la.snoc r
  · simp [ht]
    omega
  · intro i hi
    rw [effects, List.map_append, List.map_singleton, replay_snoc]
    refine Patch.apply_congr ((hv i hi).trans (replay_congr (patch_below ?_).symm))
    simp only [Config.logBase] at hbase
    omega

end Logged

namespace Stored

variable {c : Config} {m : Nat → UInt8} {wa : Nat} {view : Nat → UInt8}

theorem congr {view' : Nat → UInt8} (h : Stored c m wa view)
    (e : ∀ i, i < c.logicalSize → view' i = view i) : Stored c m wa view' :=
  ⟨h.toLogged.congr e, h.room⟩

/-- An erased store stands for zeros. -/
theorem erased (big : c.logBase < c.backingSize) :
    Stored c (fun _ => 0) c.logBase (fun _ => 0) where
  consolidated := Or.inr fun _ _ _ => rfl
  fresh := fun _ _ _ => rfl
  inside := by omega
  room := big
  log := ⟨[], by simp, trivial, by simp, fun _ _ => rfl⟩

/-- Writing a record at the write pointer, short of the end of the store. -/
theorem append (h : Stored c m wa view) {r : Record} (dec : Decodes c r)
    (hr : wa + r.bytes.length < c.backingSize) :
    Stored c (patch m wa r.bytes) (wa + r.bytes.length) (r.effect.apply view) :=
  ⟨h.toLogged.append dec (by omega), hr⟩

end Stored

section Specs

variable {σ : Type} {c : Config} {d : BackingStore σ} {mem : σ → Nat → UInt8}

theorem clearCache_spec (s : State σ) : (∀ i, i < c.logicalSize → (clearCache c s).cache i = 0) ∧
    (clearCache c s).writeAddress = c.logBase ∧ (clearCache c s).unlocked = s.unlocked ∧
    (clearCache c s).store = s.store := by
  refine ⟨fun i hi => ?_, rfl, rfl, rfl⟩
  simp only [clearCache]
  rw [patch_inside (by omega) (by simpa using hi)]
  simp

/-- The consolidated data ends up in the cache: by the checksum, or because it is zero. -/
theorem readConsolidated_spec (R : Readable c d mem) (s : State σ) (size : c.logBase ≤ c.backingSize)
    (ok : slice (mem s.store) c.logicalSize 8 = checksum (slice (mem s.store) 0 c.logicalSize) ∨
      Erased (mem s.store) 0 c.logicalSize) :
    ∃ s', readConsolidated d c s = (.success, s') ∧ mem s'.store = mem s.store ∧
      s'.unlocked = s.unlocked ∧ ∀ i, i < c.logicalSize → s'.cache i = mem s.store i := by
  have hL := c.ws_mul_logical_div
  have h8 := c.ws_mul_eight_div
  simp only [Config.logBase] at size
  obtain ⟨s₁, e₁, m₁⟩ := readBulk_spec R (c.logicalSize / c.ws) s.store 0 (Nat.zero_mod _)
    (by rw [hL]; omega)
  obtain ⟨s₂, e₂, m₂⟩ := readBulk_spec R (8 / c.ws) s₁ c.logicalSize c.logical_aligned
    (by rw [h8]; omega)
  rw [hL] at e₁
  rw [h8, m₁] at e₂
  have cache : ∀ i, i < c.logicalSize →
      patch s.cache 0 (slice (mem s.store) 0 c.logicalSize) i = mem s.store i :=
    fun i hi => patch_slice_of (by omega) (by omega)
  have data : slice (patch s.cache 0 (slice (mem s.store) 0 c.logicalSize)) 0 c.logicalSize =
      slice (mem s.store) 0 c.logicalSize :=
    slice_congr fun i _ hi => cache i (by omega)
  have entry : LogEntry.raw64 (patch c.uninit 0 (slice (mem s.store) c.logicalSize 8)) =
      slice (mem s.store) c.logicalSize 8 := by
    simpa [LogEntry.raw64] using slice_patch_self c.uninit 0 (slice (mem s.store) c.logicalSize 8)
  simp only [readConsolidated, e₁, e₂, data, entry, if_true]
  split
  case isTrue => exact ⟨_, rfl, m₂.trans m₁, rfl, cache⟩
  case isFalse hne =>
    obtain ⟨hc, -, hu, hs⟩ := clearCache_spec (c := c)
      (⟨patch s.cache 0 (slice (mem s.store) 0 c.logicalSize), s.writeAddress, s.unlocked, s₂⟩ : State σ)
    refine ⟨_, rfl, by rw [hs, m₂, m₁], hu, fun i hi => ?_⟩
    rcases ok with ok | ok
    · exact absurd ok hne
    · rw [hc i hi, ok i (by omega) (by omega)]

theorem playbackLog_spec (R : Readable c d mem) {tail : Nat} {view : Nat → UInt8} (s : State σ)
    (h : Logged c (mem s.store) tail view)
    (hc : ∀ i, i < c.logicalSize → s.cache i = mem s.store i) :
    ∃ s', playbackLog d c s = consolidateIfNeeded d c s' ∧ mem s'.store = mem s.store ∧
      s'.writeAddress = tail ∧ s'.unlocked = s.unlocked ∧
      ∀ i, i < c.logicalSize → s'.cache i = view i := by
  have inside := h.inside
  obtain ⟨rs, dec, la, ht, hv⟩ := h.log
  have hlen := length_le_logLength dec
  have hb : c.logBase = c.logicalSize + 8 := rfl
  obtain ⟨store, cancel, hm, e⟩ := playbackLoop_log R dec c.backingSize ⟨c.logBase, false, .success, s⟩
    (by omega) rfl c.logBase_mod_ws la (by simp only; omega) (by simpa only [← ht] using h.fresh)
  simp only [← ht] at e
  refine ⟨⟨replay s.cache (effects rs), tail, s.unlocked, store⟩, ?_, hm, rfl, rfl, fun i hi => ?_⟩
  · simp only [playbackLog, e]
    rw [if_neg (by simp)]
  · exact (replay_congr (hc i hi)).trans (hv i hi).symm

/-- Initialisation replays the log and consolidates if the log is full. -/
theorem init_logged (R : Readable c d mem) {tail : Nat} {view : Nat → UInt8} (s : State σ)
    (start : ∃ store, d.init s.store = (true, store) ∧ mem store = mem s.store)
    (h : Logged c (mem s.store) tail view) :
    ∃ s', init d c s = (match consolidateIfNeeded d c s' with
        | (.failed, s) => (.failed, clearCache c s)
        | result => result) ∧
      mem s'.store = mem s.store ∧ s'.writeAddress = tail ∧ s'.unlocked = s.unlocked ∧
      ∀ i, i < c.logicalSize → s'.cache i = view i := by
  have hbase := h.logBase_le
  have inside := h.inside
  obtain ⟨store, e, m⟩ := start
  obtain ⟨s₁, e₁, m₁, u₁, c₁⟩ := readConsolidated_spec R
    ({ clearCache c s with store } : State σ) (by omega) (by simpa only [m] using h.consolidated)
  simp only [m] at m₁ c₁
  obtain ⟨s₂, e₂, m₂, w₂, u₂, c₂⟩ := playbackLog_spec R s₁ (by rwa [m₁]) (by rwa [m₁])
  refine ⟨s₂, ?_, m₂.trans m₁, w₂, u₂.trans u₁, c₂⟩
  have e' : d.init (clearCache c s).store = (true, store) := e
  have run := init.eq_1 d c s
  simp only [e', e₁, e₂] at run
  exact run

/-- Initialisation rebuilds what the store stands for, whatever the RAM held. It
writes nothing. -/
theorem init_spec (R : Readable c d mem) {wa : Nat} {view : Nat → UInt8} (s : State σ)
    (start : ∃ store, d.init s.store = (true, store) ∧ mem store = mem s.store)
    (h : Stored c (mem s.store) wa view) :
    ∃ s', init d c s = (.success, s') ∧ mem s'.store = mem s.store ∧ s'.writeAddress = wa ∧
      s'.unlocked = s.unlocked ∧ ∀ i, i < c.logicalSize → s'.cache i = view i := by
  obtain ⟨s', e, m, w, u, hc⟩ := init_logged R s start h.toLogged
  refine ⟨s', ?_, m, w, u, hc⟩
  rw [e, consolidateIfNeeded, if_neg (by rw [w]; exact Nat.not_le.2 h.room)]

end Specs

end QmkFirmware.WearLeveling
