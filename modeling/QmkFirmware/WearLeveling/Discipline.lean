import QmkFirmware.WearLeveling.Calls
import QmkFirmware.WearLeveling.Startup

/-!
# Where the flash is programmed

Whether every write of a run goes to an aligned word inside the store that was
not written since the last erase. What the store holds at the start is
arbitrary: the playback follows the entries it finds up to the first empty slot,
or it ends in a consolidation. The write pointer stands at the first empty slot
of the log ever after, with nothing written at it or behind it.
-/

namespace QmkFirmware.WearLeveling
open Lib

/-! ## The playback of arbitrary contents -/

section Playback

variable {σ : Type} {c : Config} {d : BackingStore σ} {mem : σ → Nat → UInt8}

/-- The slot at `a` is empty. -/
def EmptyAt (c : Config) (m : Nat → UInt8) (a : Nat) : Prop := ∀ b ∈ slice m a c.ws, b = 0

theorem emptyAt_of_erased {m : Nat → UInt8} {a n : Nat} (h : Erased m a n) (room : c.ws ≤ n) :
    EmptyAt c m a := by
  intro b hb
  obtain ⟨k, hk, rfl⟩ := List.getElem_of_mem hb
  rw [getElem_slice]
  simp only [length_slice] at hk
  exact h _ (by omega) (by omega)

/-- Reading the words of an entry fails for good, or moves the playback on by them. -/
theorem fetchAll_address (ps : List Nat) : ∀ (pb : Playback σ) (log : LogEntry),
    match fetchAll d c pb log ps with
    | (none, pb') => pb'.status = .failed ∧ pb'.cancel = true
    | (some _, pb') => pb'.address = pb.address + c.ws * ps.length := by
  induction ps with
  | nil => exact fun pb log => rfl
  | cons pos rest ih =>
    intro pb log
    rw [fetchAll, fetch]
    rcases d.read pb.state.store pb.address with ⟨_ | w, store⟩
    · exact ⟨rfl, rfl⟩
    · have rest' := ih { pb with address := pb.address + c.ws, state := { pb.state with store } } (patch log pos w)
      simp only
      generalize fetchAll d c { pb with address := pb.address + c.ws, state := { pb.state with store } }
        (patch log pos w) rest = result at rest' ⊢
      rcases result with ⟨_ | log', pb'⟩
      · exact rest'
      · have here : pb'.address = pb.address + c.ws + c.ws * rest.length := rest'
        show pb'.address = _
        rw [here, List.length_cons]
        ring

theorem length_positionsFrom (w n : Nat) : ∀ pos, (positionsFrom w pos n).length = n := by
  induction n with
  | zero => exact fun _ => rfl
  | succ n ih => exact fun pos => congrArg (· + 1) (ih _)

theorem entryOf_slice {m : Nat → UInt8} {a n k : Nat} (h : k < n) : c.entryOf (slice m a n) k = m (a + k) := by
  rw [Config.entryOf_inside (by simpa using h), getElem_slice]

theorem headerAt_eq {m : Nat → UInt8} {a k : Nat} (h : k < c.ws + c.ws * headerRest c) :
    headerAt c m a k = m (a + k) :=
  entryOf_slice h

/-- The bytes that an entry is read from agree with its header. -/
theorem entryOf_header {m : Nat → UInt8} {a n k : Nat} (h : k < c.ws + c.ws * headerRest c) (hn : k < n) :
    c.entryOf (slice m a n) k = headerAt c m a k := by
  rw [entryOf_slice hn, headerAt_eq h]

/-- An entry that the playback follows inside the store is decoded. -/
theorem decodes_of_entryEnd {m : Nat → UInt8} {a b : Nat} (h : entryEnd c m a = some b) :
    ∃ r, Decodes c r ∧ slice m a r.bytes.length = r.bytes ∧ b = a + r.bytes.length := by
  have wpos := c.ws_pos
  have hdr := header_le c
  rw [entryEnd] at h
  by_cases empty : ∀ b ∈ slice m a c.ws, b = 0
  · rw [if_pos empty] at h
    cases h
  rw [if_neg empty] at h
  have two_bytes (two : c.writeSize = .two) : c.ws = 2 := by simp [Config.ws, two]
  -- what an entry of one word has in its two bytes
  have word (two : c.writeSize = .two) (k : Nat) (hk : k < 2) :
      c.entryOf (slice m a 2) k = headerAt c m a k :=
    entryOf_header (by have := two_bytes two; omega) hk
  cases type : (headerAt c m a).getType with
  | none => simp [type] at h
  | some kind =>
    cases kind with
    | multibyte =>
      simp only [type] at h
      split_ifs at h with range
      have size : 3 ≤ multibyteSize c (headerAt c m a).multibyteGetLength := by
        rw [multibyteSize]
        omega
      have used : ∃ k, k < c.ws ∧
          c.entryOf (slice m a (multibyteSize c (headerAt c m a).multibyteGetLength)) k ≠ 0 := by
        push Not at empty
        obtain ⟨x, hx, ne⟩ := empty
        obtain ⟨k, hk, rfl⟩ := List.getElem_of_mem hx
        simp only [length_slice] at hk
        refine ⟨k, hk, ?_⟩
        rw [entryOf_slice (by rw [multibyteSize]; omega)]
        simpa using ne
      obtain ⟨addr, len⟩ := LogEntry.multibyteGet_congr fun i hi =>
        entryOf_header (c := c) (m := m) (a := a) (n := multibyteSize c (headerAt c m a).multibyteGetLength)
          (k := i) (by omega) (by omega)
      refine ⟨_, decodes_multibyte used ?_ addr len (length_slice _ _ _) (Nat.not_lt.1 range), ?_, ?_⟩
      · rw [← type]
        exact LogEntry.getType_congr (entryOf_header (by omega) (by omega))
      · simp
      · simpa using (Option.some.inj h).symm
    | optimized64 =>
      simp only [type] at h
      split_ifs at h with fits
      have nz : c.entryOf (slice m a 2) 0 ≠ 0 := by
        rw [word fits.1 0 (by omega)]
        intro zero
        simp [LogEntry.getType, zero] at type
      refine ⟨_, decodes_optimized64 fits.1 (length_slice _ _ _) nz ?_ ?_ rfl fits.2, ?_, ?_⟩
      · rw [← type]
        exact LogEntry.getType_congr (word fits.1 0 (by omega))
      · simp only [LogEntry.optimized64GetAddress, word fits.1 0 (by omega)]
      · simp
      · simpa using (Option.some.inj h).symm
    | word01 =>
      simp only [type] at h
      split_ifs at h with fits
      have nz : c.entryOf (slice m a 2) 0 ≠ 0 := by
        rw [word fits.1 0 (by omega)]
        intro zero
        simp [LogEntry.getType, zero] at type
      refine ⟨_, decodes_word01 fits.1 (length_slice _ _ _) nz ?_ ?_ rfl fits.2, ?_, ?_⟩
      · rw [← type]
        exact LogEntry.getType_congr (word fits.1 0 (by omega))
      · simp only [LogEntry.word01GetAddress, word fits.1 0 (by omega), word fits.1 1 (by omega)]
      · simp
      · simpa using (Option.some.inj h).symm

/-- The playback of a decoded entry ends behind it. -/
theorem Decodes.entryEnd {r : Record} (dec : Decodes c r) {m : Nat → UInt8} {a : Nat} (aligned : a % c.ws = 0)
    (inside : a + r.bytes.length ≤ c.backingSize) (here : slice m a r.bytes.length = r.bytes) :
    entryEnd c m a = some (a + r.bytes.length) := by
  let t : Traced (Nat → UInt8) := ⟨⟨a, false, .success, State.start m⟩, []⟩
  obtain ⟨store, -, step⟩ := dec.step (memStore_reliable c).toReadable t.playback aligned inside here
  have follows := (tracedStep_mem (c := c) (m := m) t rfl).2.2
  rw [tracedStep_playback, step] at follows
  cases e : WearLeveling.entryEnd c m a with
  | none =>
    simp only [t, e] at follows
    cases follows
  | some b =>
    simp only [t, e] at follows
    rw [follows.2]

/-- The playback is over, and not at an empty slot. -/
def Astray (c : Config) (pb : Playback σ) : Prop :=
  (pb.status = .failed ∧ pb.cancel = true) ∨ c.backingSize ≤ pb.address

theorem astray_fail (pb : Playback σ) : Astray c pb.fail := Or.inl ⟨rfl, rfl⟩

/-- A multi-byte entry that is not followed inside the store leads the playback astray. -/
theorem playbackMultibyte_astray (R : Readable c d mem) {pb : Playback σ} {a : Nat}
    (ha : pb.address = a + c.ws) (aligned : a % c.ws = 0)
    (outside : c.logicalSize < (headerAt c (mem pb.state.store) a).multibyteGetAddress +
        (headerAt c (mem pb.state.store) a).multibyteGetLength ∨
      c.backingSize < a + multibyteSize c (headerAt c (mem pb.state.store) a).multibyteGetLength) :
    Astray c (playbackMultibyte d c pb (c.entryOf (slice (mem pb.state.store) a c.ws))) := by
  rw [playbackMultibyte, header_positions]
  by_cases header : a + c.ws + c.ws * headerRest c ≤ c.backingSize
  · obtain ⟨store, m, e⟩ := fetchAll_spec R (headerRest c) pb
      (c.entryOf (slice (mem pb.state.store) a c.ws)) c.ws (by rw [ha]; exact add_self_mod aligned) (by omega)
    rw [ha, assemble] at e
    rw [e]
    simp only
    rw [show patch c.uninit 0 (slice (mem pb.state.store) a (c.ws + c.ws * headerRest c)) =
      headerAt c (mem pb.state.store) a from rfl]
    split
    case isTrue => exact astray_fail _
    case isFalse range =>
      have size := outside.resolve_left range
      rw [payload_positions]
      have rest := fetchAll_address (d := d) (c := c)
        (positionsFrom c.ws (c.ws + c.ws * headerRest c)
          (payloadRest c (headerAt c (mem pb.state.store) a).multibyteGetLength))
        { pb with address := a + c.ws + c.ws * headerRest c, state := { pb.state with store } }
        (headerAt c (mem pb.state.store) a)
      generalize fetchAll d c _ _ _ = result at rest ⊢
      rcases result with ⟨_ | log', pb'⟩
      · exact Or.inl rest
      · simp only [length_positionsFrom] at rest
        rw [multibyteSize] at size
        refine Or.inr ?_
        show c.backingSize ≤ pb'.address
        omega
  · have rest := fetchAll_address (d := d) (c := c) (positionsFrom c.ws c.ws (headerRest c)) pb
      (c.entryOf (slice (mem pb.state.store) a c.ws))
    generalize fetchAll d c pb _ _ = result at rest ⊢
    rcases result with ⟨_ | log', pb'⟩
    · exact Or.inl rest
    · simp only [length_positionsFrom, ha] at rest
      simp only
      split
      case isTrue => exact astray_fail _
      case isFalse =>
        have rest' := fetchAll_address (d := d) (c := c) (payloadPositions c log'.multibyteGetLength) pb' log'
        generalize fetchAll d c pb' log' _ = result at rest' ⊢
        rcases result with ⟨_ | log'', pb''⟩
        · exact Or.inl rest'
        · simp only at rest'
          refine Or.inr ?_
          show c.backingSize ≤ pb''.address
          omega

/-- One iteration on arbitrary contents: an entry is replayed, an empty slot ends the
playback, or it goes astray. -/
theorem playbackStep_contents (R : Readable c d mem) {pb : Playback σ} {m : Nat → UInt8}
    (hm : mem pb.state.store = m) (aligned : pb.address % c.ws = 0) (below : pb.address < c.backingSize) :
    (∃ b store cache, entryEnd c m pb.address = some b ∧ mem store = m ∧
      playbackStep d c pb = { pb with address := b, state := { pb.state with store, cache } }) ∨
    (EmptyAt c m pb.address ∧ ∃ store, mem store = m ∧
      playbackStep d c pb = { pb with cancel := true, state := { pb.state with store } }) ∨
    Astray c (playbackStep d c pb) := by
  have room := add_le_of_lt_of_mod aligned c.backing_mod_ws below
  by_cases fits : ∃ b, entryEnd c m pb.address = some b ∧ b ≤ c.backingSize
  · obtain ⟨b, on, inside⟩ := fits
    obtain ⟨r, dec, here, rfl⟩ := decodes_of_entryEnd on
    obtain ⟨store, kept, step⟩ := dec.step R pb aligned inside (hm ▸ here)
    exact Or.inl ⟨_, store, _, on, kept.trans hm, step⟩
  obtain ⟨store, e, kept⟩ := R.read pb.state.store pb.address aligned room
  rw [playbackStep, e, hm]
  simp only
  by_cases empty : EmptyAt c m pb.address
  · exact Or.inr (Or.inl ⟨empty, store, kept.trans hm,
      if_pos (show ∀ b ∈ slice m pb.address c.ws, b = 0 from empty)⟩)
  refine Or.inr (Or.inr ?_)
  rw [if_neg (show ¬ ∀ b ∈ slice m pb.address c.ws, b = 0 from empty), playbackEntry]
  have wpos := c.ws_pos
  have first : c.entryOf (slice m pb.address c.ws) 0 = headerAt c m pb.address 0 :=
    entryOf_header (by omega) wpos
  rw [LogEntry.getType_congr first]
  simp only [entryEnd, if_neg (show ¬ ∀ b ∈ slice m pb.address c.ws, b = 0 from empty)] at fits
  cases type : (headerAt c m pb.address).getType with
  | none => exact astray_fail _
  | some kind =>
    simp only [type] at fits
    cases kind with
    | multibyte =>
      have kept' : mem store = m := kept.trans hm
      have astray := @playbackMultibyte_astray _ _ _ _ R
        { pb with address := pb.address + c.ws, state := { pb.state with store } } pb.address rfl aligned
      simp only [kept'] at astray
      apply astray
      by_contra within
      push Not at within
      exact fits ⟨_, if_neg (Nat.not_lt.2 within.1), within.2⟩
    | optimized64 =>
      simp only
      split
      case isFalse => exact astray_fail _
      case isTrue two =>
        have w2 : c.ws = 2 := by simp [Config.ws, two]
        have addr : LogEntry.optimized64GetAddress (c.entryOf (slice m pb.address c.ws)) =
            (headerAt c m pb.address).optimized64GetAddress := by
          simp only [LogEntry.optimized64GetAddress, first]
        rw [playbackOptimized64]
        simp only [addr]
        rw [if_pos]
        · exact astray_fail _
        · by_contra within
          exact fits ⟨_, if_pos ⟨two, Nat.not_le.1 within⟩, by omega⟩
    | word01 =>
      simp only
      split
      case isFalse => exact astray_fail _
      case isTrue two =>
        have w2 : c.ws = 2 := by simp [Config.ws, two]
        have second : c.entryOf (slice m pb.address c.ws) 1 = headerAt c m pb.address 1 :=
          entryOf_header (by omega) (by omega)
        have addr : LogEntry.word01GetAddress (c.entryOf (slice m pb.address c.ws)) =
            (headerAt c m pb.address).word01GetAddress := by
          simp only [LogEntry.word01GetAddress, first, second]
        rw [playbackWord01]
        simp only [addr]
        rw [if_pos]
        · exact astray_fail _
        · by_contra within
          exact fits ⟨_, if_pos ⟨two, Nat.not_le.1 within⟩, by omega⟩

/-- The playback of arbitrary contents goes astray, or it follows the entries to the
first empty slot of the log. -/
theorem playbackLoop_contents (R : Readable c d mem) {m : Nat → UInt8} (fuel : Nat) : ∀ pb : Playback σ,
    mem pb.state.store = m → pb.address % c.ws = 0 → pb.cancel = false → pb.status = .success →
    c.backingSize ≤ pb.address + fuel →
    Astray c (playbackLoop d c fuel pb) ∨
      ((playbackLoop d c fuel pb).status = .success ∧ mem (playbackLoop d c fuel pb).state.store = m ∧
        ReachedFrom c m pb.address (playbackLoop d c fuel pb).address ∧
        EmptyAt c m (playbackLoop d c fuel pb).address) := by
  induction fuel with
  | zero => exact fun pb _ _ _ _ enough => Or.inl (Or.inr enough)
  | succ fuel ih =>
    intro pb hm aligned going success enough
    have stop (pb : Playback σ) (h : pb.cancel = true ∨ c.backingSize ≤ pb.address) :
        playbackLoop d c fuel pb = pb := by
      cases fuel with
      | zero => rfl
      | succ fuel => rw [playbackLoop, if_pos h]
    rw [playbackLoop]
    split
    case isTrue past => exact Or.inl (Or.inr (past.resolve_left (by simp [going])))
    case isFalse past =>
      have below : pb.address < c.backingSize := by
        push Not at past
        exact past.2
      rcases playbackStep_contents R hm aligned below with
        ⟨b, store, cache, on, kept, step⟩ | ⟨empty, store, kept, step⟩ | astray
      · obtain ⟨further, aligned'⟩ := entryEnd_spec on aligned
        rw [step]
        refine (ih { pb with address := b, state := { pb.state with store, cache } } kept aligned' going success
          (by simp only; omega)).imp_right ?_
        rintro ⟨success', kept', reached, empty⟩
        exact ⟨success', kept', .later below on reached, empty⟩
      · rw [step, stop _ (Or.inl rfl)]
        exact Or.inr ⟨success, kept, .here below, empty⟩
      · rw [stop _ (astray.imp_left And.right)]
        exact Or.inl astray

end Playback

/-! ## Following the log -/

section Chain

variable {c : Config} {m m' : Nat → UInt8}

theorem ReachedFrom.lt {z a : Nat} (h : ReachedFrom c m z a) : a < c.backingSize := by
  induction h with
  | here lt => exact lt
  | later _ _ _ ih => exact ih

theorem ReachedFrom.le {z a : Nat} (h : ReachedFrom c m z a) (aligned : z % c.ws = 0) : z ≤ a ∧ a % c.ws = 0 := by
  induction h with
  | here lt => exact ⟨Nat.le_refl _, aligned⟩
  | later lt on rest ih =>
    obtain ⟨further, aligned'⟩ := entryEnd_spec on aligned
    obtain ⟨above, aligned''⟩ := ih aligned'
    exact ⟨by omega, aligned''⟩

theorem entryEnd_of_empty {a : Nat} (h : EmptyAt c m a) : entryEnd c m a = none := by
  rw [entryEnd, if_pos (show ∀ b ∈ slice m a c.ws, b = 0 from h)]

/-- The log has one first empty slot. -/
theorem ReachedFrom.unique {z a b : Nat} (ha : ReachedFrom c m z a) (hb : ReachedFrom c m z b)
    (emptyA : EmptyAt c m a) (emptyB : EmptyAt c m b) : a = b := by
  induction ha with
  | here lt =>
    cases hb with
    | here _ => rfl
    | later _ on _ => rw [entryEnd_of_empty emptyA] at on; cases on
  | later lt on rest ih =>
    cases hb with
    | here _ => rw [entryEnd_of_empty emptyB] at on; cases on
    | later _ on' rest' =>
      rw [on] at on'
      cases on'
      exact ih rest' emptyA

/-- An entry depends on its own bytes. -/
theorem entryEnd_congr {a b : Nat} (h : entryEnd c m a = some b) (aligned : a % c.ws = 0)
    (inside : b ≤ c.backingSize) (agree : ∀ i, a ≤ i → i < b → m' i = m i) : entryEnd c m' a = some b := by
  obtain ⟨r, dec, here, rfl⟩ := decodes_of_entryEnd h
  refine dec.entryEnd aligned inside ?_
  rw [slice_congr fun i lo hi => agree i lo hi]
  exact here

theorem ReachedFrom.congr {z a : Nat} (h : ReachedFrom c m z a) (aligned : z % c.ws = 0)
    (agree : ∀ i, i < a → m' i = m i) : ReachedFrom c m' z a := by
  induction h with
  | here lt => exact .here lt
  | @later z b a lt on rest ih =>
    obtain ⟨-, aligned'⟩ := entryEnd_spec on aligned
    have below := (rest.le aligned').1
    have inside := rest.lt
    exact .later lt (entryEnd_congr on aligned (by omega) fun i _ hi => agree i (by omega)) (ih aligned' agree)

theorem ReachedFrom.snoc {z a b : Nat} (h : ReachedFrom c m z a) (on : entryEnd c m a = some b)
    (lt : b < c.backingSize) : ReachedFrom c m z b := by
  induction h with
  | here below => exact .later below on (.here lt)
  | later below on' _ ih => exact .later below on' (ih on)

end Chain

/-! ## Where the calls write -/

/-- The words written since the last erase; before the first one those of `W` are. -/
def writtenSince (W : List Nat) : List StoreCall → List Nat
  | [] => W
  | .erase true :: _ => []
  | .write a _ :: before => a :: writtenSince W before
  | _ :: before => writtenSince W before

/-- A write goes to an aligned word inside the store, not written since the last erase. -/
def WellPlaced (c : Config) (W : List Nat) (before : List StoreCall) : StoreCall → Prop
  | .write a _ => a % c.ws = 0 ∧ a + c.ws ≤ c.backingSize ∧ a ∉ writtenSince W before
  | _ => True

instance (c : Config) (W : List Nat) (before : List StoreCall) : DecidablePred (WellPlaced c W before)
  | .write _ _ => inferInstanceAs (Decidable (_ ∧ _ ∧ _))
  | .init _ => isTrue trivial
  | .unlock _ => isTrue trivial
  | .erase _ => isTrue trivial
  | .lock _ => isTrue trivial
  | .read _ _ => isTrue trivial

/-- Every write of the log is well placed. -/
def Disciplined (c : Config) (W : List Nat) : List StoreCall → Prop := Each (WellPlaced c W)

instance (c : Config) (W : List Nat) : DecidablePred (Disciplined c W) := inferInstanceAs (DecidablePred (Each _))

/-- The log is disciplined, and nothing is written from `top` on. -/
structure Placed (c : Config) (W : List Nat) (top : Nat) (log : List StoreCall) : Prop where
  disciplined : Disciplined c W log
  below : ∀ a ∈ writtenSince W log, a < top

namespace Placed

variable {c : Config} {W : List Nat} {top : Nat} {log new : List StoreCall}

theorem mono {top' : Nat} (h : Placed c W top log) (le : top ≤ top') : Placed c W top' log :=
  ⟨h.disciplined, fun a ha => Nat.lt_of_lt_of_le (h.below a ha) le⟩

/-- Calls that change nothing. -/
theorem append (h : Placed c W top log) (quiet : ∀ call ∈ new, call.changes = false) :
    Placed c W top (new ++ log) ∧ writtenSince W (new ++ log) = writtenSince W log := by
  induction new with
  | nil => exact ⟨h, rfl⟩
  | cons call new ih =>
    obtain ⟨placed, same⟩ := ih fun call hc => quiet call (List.mem_cons_of_mem _ hc)
    have here := quiet call List.mem_cons_self
    have same' : writtenSince W (call :: (new ++ log)) = writtenSince W (new ++ log) := by
      cases call with
      | erase ok => cases here
      | write a ok => cases here
      | _ => rfl
    have well : WellPlaced c W (new ++ log) call := by
      cases call with
      | write a ok => cases here
      | _ => trivial
    exact ⟨⟨⟨well, placed.disciplined⟩, fun a ha => placed.below a (same' ▸ ha)⟩, same'.trans same⟩

theorem write {a : Nat} (h : Placed c W top log) (ok : Bool) (aligned : a % c.ws = 0)
    (inside : a + c.ws ≤ c.backingSize) (le : top ≤ a) : Placed c W (a + c.ws) (.write a ok :: log) := by
  have wpos := c.ws_pos
  refine ⟨⟨⟨aligned, inside, fun ha => ?_⟩, h.disciplined⟩, fun b hb => ?_⟩
  · have := h.below a ha
    omega
  · rcases List.mem_cons.1 hb with rfl | hb
    · omega
    · have := h.below b hb
      omega

theorem erase (h : Disciplined c W log) : Placed c W 0 (.erase true :: log) :=
  ⟨⟨trivial, h⟩, fun _ ha => nomatch ha⟩

end Placed

section Writing

variable {σ : Type} {c : Config} {d : BackingStore σ} {W : List Nat} {top : Nat}
  {s : State (σ × List StoreCall)}

theorem unlock_placed (h : Placed c W top s.store.2) : Placed c W top (unlock (logged d) s).2.store.2 := by
  rw [unlock]
  split
  · exact h
  · have noted (ok : Bool) : Placed c W top (.unlock ok :: s.store.2) :=
      (@Placed.append _ _ _ _ [.unlock ok] h (by simp [StoreCall.changes])).1
    simp only [logged]
    rcases d.unlock s.store.1 with ⟨_ | _, store⟩
    · exact noted false
    · exact noted true

theorem lock_placed (h : Placed c W top s.store.2) : Placed c W top (lock (logged d) s).2.store.2 := by
  rw [lock]
  split
  · exact h
  · have noted (ok : Bool) : Placed c W top (.lock ok :: s.store.2) :=
      (@Placed.append _ _ _ _ [.lock ok] h (by simp [StoreCall.changes])).1
    simp only [logged]
    rcases d.lock s.store.1 with ⟨_ | _, store⟩
    · exact noted false
    · exact noted true

/-- A bulk write that succeeds fills the words from `a` on. -/
theorem writeBulk_placed (values : Nat → UInt8) (n : Nat) : ∀ (store : σ × List StoreCall) (a src : Nat),
    a % c.ws = 0 → a + c.ws * n ≤ c.backingSize → Placed c W a store.2 →
    (writeBulk (logged d) c values store a src n).1 = true →
    Placed c W (a + c.ws * n) (writeBulk (logged d) c values store a src n).2.2 := by
  induction n with
  | zero => exact fun store a src _ _ h _ => h
  | succ n ih =>
    intro store a src aligned inside h
    have hn : c.ws * (n + 1) = c.ws + c.ws * n := by ring
    have noted (ok : Bool) := h.write ok aligned (by omega) (Nat.le_refl a)
    rw [writeBulk, hn, ← Nat.add_assoc]
    simp only [logged]
    rcases d.write store.1 a (slice values src c.ws) with ⟨_ | _, store'⟩
    · exact fun h => absurd h Bool.false_ne_true
    · exact ih _ (a + c.ws) (src + c.ws) (add_self_mod aligned) (by omega) (noted true)

theorem writeConsolidated_placed (room : c.logBase ≤ c.backingSize) (h : Placed c W 0 s.store.2)
    (ok : (writeConsolidated (logged d) c s).1 ≠ .failed) :
    (writeConsolidated (logged d) c s).1 = .consolidated ∧
      Placed c W c.logBase (writeConsolidated (logged d) c s).2.store.2 := by
  have hL := c.ws_mul_logical_div
  have h8 := c.ws_mul_eight_div
  have size : c.logicalSize + 8 ≤ c.backingSize := room
  have placed := unlock_placed (d := d) h
  rw [writeConsolidated] at ok ⊢
  generalize unlock (logged d) s = result at placed ok ⊢
  obtain ⟨lockStatus, r⟩ := result
  have data := writeBulk_placed (d := d) (W := W) r.cache (c.logicalSize / c.ws) r.store 0 0 (Nat.zero_mod _)
    (by omega) placed
  have sum (store) := writeBulk_placed (d := d) (W := W)
    (patch c.uninit 0 (bytesOfUInt64 (fnv64aBuf (slice r.cache 0 c.logicalSize)))) (8 / c.ws) store c.logicalSize 0
    c.logical_aligned (by omega)
  simp only at ok ⊢
  generalize writeBulk (logged d) c r.cache r.store 0 0 (c.logicalSize / c.ws) = result at data ok ⊢
  obtain ⟨ok₁, store₁⟩ := result
  cases ok₁ with
  | false => simp at ok
  | true =>
    simp only [if_true] at ok ⊢
    have sum := sum store₁ (by simpa [hL] using data)
    generalize writeBulk (logged d) c _ store₁ c.logicalSize 0 (8 / c.ws) = result at sum ok ⊢
    obtain ⟨ok₂, store₂⟩ := result
    cases ok₂ with
    | false => simp at ok
    | true =>
      have written : Placed c W c.logBase store₂.2 := by simpa [h8, Config.logBase] using sum
      refine ⟨rfl, ?_⟩
      simp only
      split
      · exact lock_placed (s := { r with store := store₂ }) written
      · exact written

theorem consolidateForce_placed (room : c.logBase ≤ c.backingSize) (h : Disciplined c W s.store.2)
    (ok : (consolidateForce (logged d) c s).1 ≠ .failed) :
    (consolidateForce (logged d) c s).1 = .consolidated ∧
      Placed c W c.logBase (consolidateForce (logged d) c s).2.store.2 ∧
      (consolidateForce (logged d) c s).2.writeAddress = c.logBase := by
  rw [consolidateForce] at ok ⊢
  simp only [logged] at ok ⊢
  generalize d.erase s.store.1 = result at ok ⊢
  rcases result with ⟨_ | _, store⟩
  · simp at ok
  · obtain ⟨status, placed⟩ := writeConsolidated_placed (d := d) (W := W) room
      (s := { s with store := (store, .erase true :: s.store.2) }) (Placed.erase h) ok
    exact ⟨status, placed, rfl⟩

/-- What an append leaves if it does not fail: the write pointer at the first word that
is not written. -/
structure Appended (c : Config) (W : List Nat) (status : Status) (s : State (σ × List StoreCall)) : Prop where
  placed : Placed c W s.writeAddress s.store.2
  aligned : s.writeAddress % c.ws = 0
  above : c.logBase ≤ s.writeAddress
  room : status = .success → s.writeAddress < c.backingSize

theorem appendRaw_placed (room : c.logBase ≤ c.backingSize) (value : Word) (h : Appended c W .success s)
    (ok : (appendRaw (logged d) c s value).1 ≠ .failed) :
    Appended c W (appendRaw (logged d) c s value).1 (appendRaw (logged d) c s value).2 := by
  have inside := add_le_of_lt_of_mod h.aligned c.backing_mod_ws (h.room rfl)
  have above := h.above
  have noted := h.placed.write true h.aligned inside (Nat.le_refl _)
  rw [appendRaw] at ok ⊢
  simp only [logged] at ok ⊢
  generalize d.write s.store.1 s.writeAddress value = result at ok ⊢
  rcases result with ⟨_ | _, store⟩
  · simp at ok
  simp only [consolidateIfNeeded] at ok ⊢
  split at ok
  case isTrue full =>
    rw [if_pos full]
    obtain ⟨status, placed, wa⟩ := consolidateForce_placed (d := d) (W := W) room
      (s := { s with
        writeAddress := s.writeAddress + c.ws, store := (store, .write s.writeAddress true :: s.store.2) })
      noted.disciplined ok
    refine ⟨wa ▸ placed, wa ▸ c.logBase_mod_ws, Nat.le_of_eq wa.symm, fun success => ?_⟩
    exact absurd (success.symm.trans status) (by decide)
  case isFalse full =>
    rw [if_neg full]
    exact ⟨noted, add_self_mod h.aligned, by simp only; omega, fun _ => Nat.not_le.1 full⟩

theorem appendAll_placed (room : c.logBase ≤ c.backingSize) (words : List Word) :
    ∀ {s : State (σ × List StoreCall)}, Appended c W .success s → (appendAll (logged d) c s words).1 ≠ .failed →
    Appended c W (appendAll (logged d) c s words).1 (appendAll (logged d) c s words).2 := by
  induction words with
  | nil => exact fun h _ => h
  | cons value rest ih =>
    intro s h ok
    have here := appendRaw_placed (d := d) room value h
    rw [appendAll] at ok ⊢
    generalize appendRaw (logged d) c s value = result at here ok ⊢
    rcases result with ⟨_ | _ | _, s'⟩
    · exact absurd rfl ok
    · exact ih (here (by simp)) ok
    · exact here (by simp)

end Writing

/-! ## The write pointer at the first empty slot -/

theorem LogAt.reachedFrom {c : Config} {m : Nat → UInt8} {rs : List Record} (dec : ∀ r ∈ rs, Decodes c r) :
    ∀ {a : Nat}, LogAt m a rs → a % c.ws = 0 → a + logLength rs < c.backingSize →
    ReachedFrom c m a (a + logLength rs) := by
  induction rs with
  | nil => exact fun _ _ lt => .here (by simpa using lt)
  | cons r rs ih =>
    intro a log aligned lt
    have here := dec r List.mem_cons_self
    rw [logLength_cons] at lt ⊢
    have aligned' : (a + r.bytes.length) % c.ws = 0 := by
      rw [Nat.add_mod, aligned, here.aligned]
      exact Nat.zero_mod _
    rw [← Nat.add_assoc]
    exact .later (by omega) (here.entryEnd aligned (by omega) log.1)
      (ih (fun q hq => dec q (List.mem_cons_of_mem _ hq)) log.2 aligned' (by omega))

/-- The header holds the address modulo its nineteen bits. -/
theorem makeMultibyte_mod (address length : Nat) :
    LogEntry.makeMultibyte (address % 2 ^ 19) length = LogEntry.makeMultibyte address length := by
  have low : address % 2 ^ 19 % 2 ^ 8 = address % 2 ^ 8 := by omega
  have mid : address % 2 ^ 19 / 2 ^ 8 % 2 ^ 8 = address / 2 ^ 8 % 2 ^ 8 := by omega
  have high : address % 2 ^ 19 / 2 ^ 16 % 2 ^ 3 = address / 2 ^ 16 % 2 ^ 3 := by omega
  funext i
  match i with
  | 0 => simp only [LogEntry.makeMultibyte, LogEntry.and_bitmask, Nat.shiftRight_eq_div_pow, high]
  | 1 => simp only [LogEntry.makeMultibyte, LogEntry.and_bitmask, Nat.shiftRight_eq_div_pow, mid]
  | 2 => simp only [LogEntry.makeMultibyte, LogEntry.and_bitmask, low]
  | i + 3 => rfl

/-- What the writer appends is an entry that the playback follows. -/
theorem nextRecord_decodes {c : Config} {address : Nat} {p : List UInt8} (hp : 0 < p.length)
    (range : address + p.length ≤ c.logicalSize) : ∃ r, Decodes c r ∧ r.bytes = (nextRecord c address p).bytes := by
  simp only [nextRecord]
  split_ifs with h1 h2
  · obtain ⟨two, hp2, even, lt, hv⟩ := h1
    exact ⟨_, decodes_word01Record two (by omega) lt even (by omega), rfl⟩
  · exact ⟨_, decodes_optimized64Record h2.1 _ h2.2 (by omega), rfl⟩
  · have five : LogEntry.multibyteMaxBytes = 5 := rfl
    have mod := Nat.mod_le address (2 ^ 19)
    refine ⟨_, @decodes_multibyteRecord c (address % 2 ^ 19) (p.take (min p.length LogEntry.multibyteMaxBytes))
      (by simp; omega) (by simp; omega)
      (Nat.mod_lt _ (by decide)) (by simp; omega), ?_⟩
    simp only [multibyteRecord, multibyteLog, makeMultibyte_mod]

section Tidy

variable {σ : Type} {c : Config} {d : BackingStore σ} {mem : σ → Nat → UInt8} {W : List Nat}
  {s s' : State (σ × List StoreCall)}

/-- The write pointer is the first empty slot of the log, and nothing is written from
there on. -/
structure Tidy (c : Config) (mem : σ → Nat → UInt8) (W : List Nat) (s : State (σ × List StoreCall)) : Prop where
  placed : Placed c W s.writeAddress s.store.2
  reached : ReachedFrom c (mem s.store.1) c.logBase s.writeAddress
  fresh : Erased (mem s.store.1) s.writeAddress (c.backingSize - s.writeAddress)

theorem logged_result {α : Type} {r : α × σ} {v : α} {t : σ} {m : Nat → UInt8} (e : r = (v, t)) (h : mem t = m)
    (log : List StoreCall) : ∃ t', (r.1, r.2, log) = (v, t') ∧ mem t'.1 = m :=
  ⟨(t, log), by rw [e], h⟩

theorem Reliable.logged (R : Reliable c d mem) : Reliable c (logged d) fun s => mem s.1 where
  read s a aligned inside := by
    obtain ⟨s', e, m⟩ := R.read s.1 a aligned inside
    exact logged_result e m _
  init s := by
    obtain ⟨s', e, m⟩ := R.init s.1
    exact logged_result e m _
  unlock s := by
    obtain ⟨s', e, m⟩ := R.unlock s.1
    exact logged_result e m _
  lock s := by
    obtain ⟨s', e, m⟩ := R.lock s.1
    exact logged_result e m _
  erase s := by
    obtain ⟨s', e, m⟩ := R.erase s.1
    exact logged_result e m _
  write s a w aligned inside len fresh := by
    obtain ⟨s', e, m⟩ := R.write s.1 a w aligned inside len fresh
    exact logged_result e m _

theorem Tidy.appended (h : Tidy c mem W s) : Appended c W .success s := by
  obtain ⟨above, aligned⟩ := h.reached.le c.logBase_mod_ws
  exact ⟨h.placed, aligned, above, fun _ => h.reached.lt⟩

theorem Tidy.of_stored {view : Nat → UInt8} (h : Placed c W s.writeAddress s.store.2)
    (st : Stored c (mem s.store.1) s.writeAddress view) : Tidy c mem W s := by
  obtain ⟨rs, dec, log, tail, -⟩ := st.log
  refine ⟨h, ?_, st.fresh⟩
  have room := st.room
  rw [tail] at room ⊢
  exact log.reachedFrom dec c.logBase_mod_ws room

/-- Moving the lock changes nothing. -/
theorem Tidy.congr (h : Tidy c mem W s) (placed : Placed c W s.writeAddress s'.store.2)
    (m : mem s'.store.1 = mem s.store.1) (wa : s'.writeAddress = s.writeAddress) : Tidy c mem W s' := by
  refine ⟨wa ▸ placed, ?_, ?_⟩
  · rw [m, wa]; exact h.reached
  · rw [m, wa]; exact h.fresh

/-- Consolidating needs a disciplined log only. -/
theorem tidy_consolidateForce (R : Reliable c d mem) (big : c.logBase < c.backingSize)
    (h : Disciplined c W s.store.2) :
    ∃ s', consolidateForce (logged d) c s = (.consolidated, s') ∧ Tidy c mem W s' := by
  obtain ⟨s', e, -, st⟩ := consolidateForce_spec R.logged big s
  obtain ⟨-, placed, wa⟩ := consolidateForce_placed (d := d) (W := W) (Nat.le_of_lt big) h (by rw [e]; simp)
  rw [e] at placed wa
  exact ⟨s', e, .of_stored (wa ▸ placed) st⟩

/-- The loop of `wear_leveling_write_raw`. -/
theorem tidy_writeRawLoop (R : Reliable c d mem) (big : c.logBase < c.backingSize) (fuel : Nat) :
    ∀ (s : State (σ × List StoreCall)) (address : Nat) (p : List UInt8), p.length ≤ fuel →
    address + p.length ≤ c.logicalSize → Tidy c mem W s →
    ∃ status s', writeRawLoop (logged d) c fuel s address p .success = (status, s') ∧ status ≠ .failed ∧
      Tidy c mem W s' := by
  induction fuel with
  | zero => exact fun s address p _ _ h => ⟨_, s, rfl, by simp, h⟩
  | succ fuel ih =>
    intro s address p enough range h
    by_cases hp : p.length = 0
    · exact ⟨.success, s, by simp [writeRawLoop, hp], by simp, h⟩
    have hp : 0 < p.length := by omega
    obtain ⟨n, hn, hnp, effect⟩ := nextRecord_effect c address hp
    obtain ⟨above, aligned⟩ := h.reached.le c.logBase_mod_ws
    have lt := h.reached.lt
    have placed := appendAll_placed (d := d) (Nat.le_of_lt big) (nextWords c address p) h.appended
    rw [writeRawLoop_succ fuel s address hp]
    rcases appendAll_spec R.logged (nextWords c address p) s (length_of_mem_nextWords _ _ _) aligned above lt h.fresh
      with ⟨room, store, m, e⟩ | ⟨s', e, -, st⟩
    · rw [e] at placed ⊢
      have placed := placed (by simp)
      obtain ⟨r, dec, bytes⟩ := nextRecord_decodes hp range
      rw [nextWords_flatten, ← bytes] at room m placed ⊢
      have next : Tidy c mem W { s with store, writeAddress := s.writeAddress + r.bytes.length } := by
        have on : entryEnd c (mem store.1) s.writeAddress = some (s.writeAddress + r.bytes.length) := by
          refine dec.entryEnd aligned (by omega) ?_
          rw [m]
          exact slice_patch_self _ _ _
        refine ⟨placed.placed, ?_, ?_⟩
        · refine ReachedFrom.snoc (h.reached.congr c.logBase_mod_ws fun i hi => ?_) on room
          rw [m, patch_below hi]
        · simp only [m]
          exact (h.fresh.sub (by omega) (by omega)).patch (Or.inr (by omega))
      simp only [effect, List.length_take, Nat.min_eq_left hnp]
      exact ih _ (address + n) (p.drop n) (by simp; omega) (by simp; omega) next
    · rw [e] at placed ⊢
      exact ⟨_, s', rfl, by simp, .of_stored (placed (by simp)).placed st⟩

theorem tidy_writeAndConsolidate (R : Reliable c d mem) (big : c.logBase < c.backingSize) {address : Nat}
    {value : List UInt8} (range : address + value.length ≤ c.logicalSize) (h : Tidy c mem W s) :
    Tidy c mem W (writeAndConsolidate (logged d) c s address value).2 := by
  obtain ⟨status, s', e, ok, tidy⟩ := tidy_writeRawLoop R big value.length s address value (Nat.le_refl _) range h
  rw [writeAndConsolidate, writeRaw, e]
  cases status with
  | failed => exact absurd rfl ok
  | consolidated => exact tidy
  | success =>
    -- the write pointer is inside the log, so nothing is left to consolidate
    simp only [consolidateIfNeeded]
    rw [if_neg (Nat.not_le.2 tidy.reached.lt)]
    exact tidy

/-! ## The operations -/

theorem tidy_write (R : Reliable c d mem) (big : c.logBase < c.backingSize) (h : Tidy c mem W s) (address : Nat)
    (value : List UInt8) : Tidy c mem W (write (logged d) c s address value).2 := by
  rw [write]
  split
  case isTrue => exact h
  case isFalse range =>
  split
  case isTrue => exact h
  case isFalse =>
  have patched : Tidy c mem W { s with cache := patch s.cache address value } := ⟨h.placed, h.reached, h.fresh⟩
  obtain ⟨ls, s₁, e₁, ne, m₁, -, w₁⟩ := unlock_spec R.logged { s with cache := patch s.cache address value }
  have placed₁ := unlock_placed (d := d) patched.placed
  rw [e₁] at placed₁ ⊢
  have unlocked := patched.congr placed₁ m₁ w₁
  have written := tidy_writeAndConsolidate R big (Nat.not_lt.1 range) unlocked
  generalize eq : writeAndConsolidate (logged d) c s₁ address value = result at written
  obtain ⟨status, s₂⟩ := result
  obtain ⟨ls', s₃, e₃, -, m₃, -, w₃⟩ := lock_spec R.logged s₂
  have placed₃ := lock_placed (d := d) written.placed
  rw [e₃] at placed₃
  have locked := written.congr placed₃ m₃ w₃
  cases ls with
  | failure => exact absurd rfl ne
  | unchanged => simpa [eq] using written
  | success => cases ls' <;> simpa [eq, e₃] using locked

theorem Disciplined.placed {log : List StoreCall} (h : Disciplined c W log) : ∃ top, Placed c W top log := by
  have bounded (l : List Nat) : ∃ top, ∀ a ∈ l, a < top := by
    induction l with
    | nil => exact ⟨0, by simp⟩
    | cons b l ih =>
      obtain ⟨top, below⟩ := ih
      refine ⟨max top (b + 1), fun a ha => ?_⟩
      rcases List.mem_cons.1 ha with rfl | ha
      · omega
      · have := below a ha
        omega
  obtain ⟨top, below⟩ := bounded (writtenSince W log)
  exact ⟨top, h, below⟩

/-- Erasing leaves an empty log, whatever there was. -/
theorem tidy_erase (R : Reliable c d mem) (big : c.logBase < c.backingSize) (h : Disciplined c W s.store.2) :
    Tidy c mem W (erase (logged d) c s).2 := by
  obtain ⟨top, placed⟩ := h.placed
  obtain ⟨ls, s₁, e₁, ne, -, -, -⟩ := unlock_spec R.logged s
  have placed₁ := unlock_placed (d := d) placed
  rw [e₁] at placed₁
  obtain ⟨store, e₂, m₂⟩ := R.logged.erase s₁.store
  have noted : store.2 = .erase true :: s₁.store.2 := by
    have log : ((logged d).erase s₁.store).2.2 = .erase ((logged d).erase s₁.store).1 :: s₁.store.2 := rfl
    rw [e₂] at log
    exact log
  have cleared : Tidy c mem W (clearCache c { s₁ with store }) := by
    refine ⟨?_, .here big, fun i _ _ => ?_⟩
    · show Placed c W c.logBase store.2
      rw [noted]
      exact (Placed.erase placed₁.disciplined).mono (Nat.zero_le _)
    · show mem store.1 i = 0
      rw [m₂]
  obtain ⟨ls', s₃, e₃, -, m₃, -, w₃⟩ := lock_spec R.logged (clearCache c { s₁ with store })
  have placed₃ := lock_placed (d := d) cleared.placed
  rw [e₃] at placed₃
  have locked := cleared.congr placed₃ m₃ w₃
  rw [erase]
  cases ls with
  | failure => exact absurd rfl ne
  | unchanged => simpa [e₁, e₂] using cleared
  | success => simpa [e₁, e₂, e₃] using locked

/-- Wherever the log ends at an empty slot, nothing is written from there on. -/
def Clean (c : Config) (mem : σ → Nat → UInt8) (W : List Nat) (s : State (σ × List StoreCall)) : Prop :=
  ∀ w, ReachedFrom c (mem s.store.1) c.logBase w → EmptyAt c (mem s.store.1) w →
    Placed c W w s.store.2 ∧ Erased (mem s.store.1) w (c.backingSize - w)

theorem Tidy.clean (h : Tidy c mem W s) : Clean c mem W s := by
  intro w reached empty
  obtain ⟨-, aligned⟩ := h.reached.le c.logBase_mod_ws
  have room := add_le_of_lt_of_mod aligned c.backing_mod_ws h.reached.lt
  cases reached.unique h.reached empty (emptyAt_of_erased h.fresh (by omega))
  exact ⟨h.placed, h.fresh⟩

theorem readConsolidated_kept (R : Readable c (logged d) fun s => mem s.1) (room : c.logBase ≤ c.backingSize)
    (s : State (σ × List StoreCall)) :
    ∃ s', readConsolidated (logged d) c s = (.success, s') ∧ mem s'.store.1 = mem s.store.1 := by
  have hL := c.ws_mul_logical_div
  have h8 := c.ws_mul_eight_div
  have size : c.logicalSize + 8 ≤ c.backingSize := room
  obtain ⟨s₁, e₁, m₁⟩ := readBulk_spec R (c.logicalSize / c.ws) s.store 0 (Nat.zero_mod _) (by rw [hL]; omega)
  obtain ⟨s₂, e₂, m₂⟩ := readBulk_spec R (8 / c.ws) s₁ c.logicalSize c.logical_aligned (by rw [h8]; omega)
  simp only [readConsolidated, e₁, e₂, if_true]
  split
  · exact ⟨_, rfl, m₂.trans m₁⟩
  · exact ⟨_, rfl, m₂.trans m₁⟩

/-- Reading changes neither what is written nor the discipline. -/
theorem OnlyReads.placed {top : Nat} (h : OnlyReads (logged d) s s') (placed : Placed c W top s.store.2) :
    Placed c W top s'.store.2 := by
  obtain ⟨new, e, reads⟩ := h.1.log
  rw [e]
  exact (placed.append fun call hc => StoreCall.changes_of_reads (reads call hc)).1

/-- A start on arbitrary contents finds the first empty slot, or makes one. -/
theorem tidy_init (R : Reliable c d mem) (big : c.logBase < c.backingSize) (disciplined : Disciplined c W s.store.2)
    (clean : Clean c mem W s) : Tidy c mem W (init (logged d) c s).2 := by
  obtain ⟨store, e₀, m₀⟩ := R.logged.init (clearCache c s).store
  have started : OnlyReads (logged d) s { clearCache c s with store } := by
    have here := Call.init (d := logged d) (clearCache c s).store
    rw [e₀] at here
    exact ⟨.one here rfl, rfl⟩
  obtain ⟨s₁, e₁, m₁⟩ := readConsolidated_kept (d := d) R.logged.toReadable (Nat.le_of_lt big)
    { clearCache c s with store }
  have read := readConsolidated_reads (logged d) c { clearCache c s with store }
  rw [e₁] at read
  have kept : mem s₁.store.1 = mem s.store.1 := m₁.trans m₀
  have replay := playbackLoop_reads (logged d) c c.backingSize ⟨c.logBase, false, .success, s₁⟩
  have contents := playbackLoop_contents (c := c) R.logged.toReadable (m := mem s.store.1) c.backingSize
    ⟨c.logBase, false, .success, s₁⟩ kept c.logBase_mod_ws rfl rfl (Nat.le_add_left _ _)
  rw [init, e₀]
  simp only [e₁, playbackLog]
  generalize playbackLoop (logged d) c c.backingSize ⟨c.logBase, false, .success, s₁⟩ = pb at replay contents
  have reads : OnlyReads (logged d) s { pb.state with writeAddress := pb.address } :=
    (started.trans read).trans replay
  have consolidated : ∃ s', consolidateForce (logged d) c { pb.state with writeAddress := pb.address } =
      (.consolidated, s') ∧ Tidy c mem W s' := by
    obtain ⟨top, placed⟩ := disciplined.placed
    exact tidy_consolidateForce R big (reads.placed placed).disciplined
  rcases contents with astray | ⟨success, m, reached, empty⟩
  · obtain ⟨s', e, tidy⟩ := consolidated
    rcases astray with ⟨failed, -⟩ | past
    · rw [if_pos failed, e]
      exact tidy
    · rw [consolidateIfNeeded, if_pos past, e, ite_self]
      exact tidy
  · rw [if_neg (by simp [success]), consolidateIfNeeded, if_neg (Nat.not_le.2 reached.lt)]
    obtain ⟨placed, fresh⟩ := clean pb.address reached empty
    exact ⟨reads.placed placed, by simp only [m]; exact reached, by simp only [m]; exact fresh⟩

/-! ## Runs -/

theorem tidy_step (R : Reliable c d mem) (big : c.logBase < c.backingSize) (h : Tidy c mem W s) (op : Op) :
    Tidy c mem W (op.step (logged d) c s) := by
  cases op with
  | init => exact tidy_init R big h.placed.disciplined h.clean
  | write address value => exact tidy_write R big h address value
  | read address length => exact h
  | erase => exact tidy_erase R big h.placed.disciplined

theorem tidy_run (R : Reliable c d mem) (big : c.logBase < c.backingSize) (h : Tidy c mem W s) (ops : List Op) :
    Tidy c mem W (run (logged d) c s ops) :=
  List.foldlRecOn ops (Op.step (logged d) c) h fun _ h op _ => tidy_step R big h op

/-- Until the first initialisation or erase nothing is called. -/
theorem raw_run (R : Reliable c d mem) (big : c.logBase < c.backingSize)
    (disciplined : Disciplined c W s.store.2) (clean : Clean c mem W s) (ops : List Op) (first : InitialisedFirst ops) :
    run (logged d) c s ops = s ∨ Tidy c mem W (run (logged d) c s ops) := by
  induction ops with
  | nil => exact Or.inl rfl
  | cons op ops ih =>
    cases op with
    | init => exact Or.inr (tidy_run R big (tidy_init R big disciplined clean) ops)
    | erase => exact Or.inr (tidy_run R big (tidy_erase R big disciplined) ops)
    | write address value => exact first.elim
    | read address length => exact ih first

end Tidy

/-- The write pointer is the first empty slot of the log. -/
def AtFirstEmpty {σ : Type} (c : Config) (mem : σ → Nat → UInt8) (s : State σ) : Prop :=
  ReachedFrom c (mem s.store) c.logBase s.writeAddress ∧ EmptyAt c (mem s.store) s.writeAddress

/-- From a store of which the words `W` are programmed, none of them at or behind the
first empty slot of the log: in every run that writes only after an initialisation or
an erase, every write goes to an aligned word inside the store that was not written
since the last erase, and an initialisation leaves the write pointer at the first
empty slot. -/
theorem flash_discipline {σ : Type} {c : Config} {d : BackingStore σ} {mem : σ → Nat → UInt8}
    (R : Reliable c d mem) (big : c.logicalSize + 8 < c.backingSize) {store : σ} (W : List Nat)
    (programmed : ∀ i, i < c.backingSize → mem store i ≠ 0 → ∃ a ∈ W, a ≤ i ∧ i < a + c.ws)
    (before : ∀ w, ReachedFrom c (mem store) c.logBase w → EmptyAt c (mem store) w → ∀ a ∈ W, a < w)
    (aligned : ∀ a ∈ W, a % c.ws = 0) (ops : List Op) (first : InitialisedFirst ops) :
    Disciplined c W (run (logged d) c (State.start (store, [])) ops).store.2 ∧
    ∀ past, past ++ [.init] <+: ops →
      AtFirstEmpty c (fun s => mem s.1) (run (logged d) c (State.start (store, [])) (past ++ [.init])) := by
  have clean : Clean c mem W (State.start (store, [])) := by
    intro w reached empty
    refine ⟨⟨trivial, before w reached empty⟩, fun i lo hi => ?_⟩
    by_contra ne
    have lt := reached.lt
    obtain ⟨a, ha, le, below⟩ := programmed i (by omega) ne
    have inside := add_le_of_lt_of_mod (aligned a ha) (reached.le c.logBase_mod_ws).2 (before w reached empty a ha)
    omega
  have unwritten : Disciplined c W (State.start (store, [])).store.2 := trivial
  constructor
  · rcases raw_run R big unwritten clean ops first with h | h
    · rw [h]
      exact trivial
    · exact h.placed.disciplined
  · rintro past ⟨after, rfl⟩
    have first' : InitialisedFirst past := by
      clear clean
      induction past with
      | nil => trivial
      | cons op past ih =>
        cases op with
        | init => trivial
        | erase => trivial
        | write address value => exact first.elim
        | read address length => exact ih first
    have tidy : Tidy c mem W (run (logged d) c (State.start (store, [])) (past ++ [.init])) := by
      have last : run (logged d) c (State.start (store, [])) (past ++ [.init]) =
          (init (logged d) c (run (logged d) c (State.start (store, [])) past)).2 := by
        rw [run, List.foldl_append]
        rfl
      rw [last]
      rcases raw_run R big unwritten clean past first' with h | h
      · rw [h]
        exact tidy_init R big unwritten clean
      · exact tidy_init R big h.placed.disciplined h.clean
    obtain ⟨-, aligned'⟩ := tidy.reached.le c.logBase_mod_ws
    have room := add_le_of_lt_of_mod aligned' c.backing_mod_ws tidy.reached.lt
    exact ⟨tidy.reached, emptyAt_of_erased tidy.fresh (by omega)⟩

/-- A log of one entry: the value 7 for address 0. -/
def oneEntryLog : Nat → UInt8 := fun i => if i = 24 then 0x40 else if i = 25 then 7 else 0

theorem flash_discipline_one :
    Disciplined smallConfig [24] (run (logged (memStore smallConfig)) smallConfig (State.start (oneEntryLog, []))
      [.init, .write 3 [1, 2, 3], .write 4 [7]]).store.2 ∧
    ∀ past, past ++ [.init] <+: [.init, .write 3 [1, 2, 3], .write 4 [7]] →
      AtFirstEmpty smallConfig (fun s => id s.1)
        (run (logged (memStore smallConfig)) smallConfig (State.start (oneEntryLog, [])) (past ++ [.init])) := by
  have on : entryEnd smallConfig oneEntryLog smallConfig.logBase = some 26 := by decide
  have slot : ReachedFrom smallConfig oneEntryLog smallConfig.logBase 26 :=
    .later (by decide) on (.here (by decide))
  have empty : EmptyAt smallConfig oneEntryLog 26 := by
    unfold EmptyAt
    decide +kernel
  have before (w : Nat) (reached : ReachedFrom smallConfig oneEntryLog smallConfig.logBase w)
      (empty' : EmptyAt smallConfig oneEntryLog w) : ∀ a ∈ [24], a < w := by
    have last : w = 26 := ReachedFrom.unique reached slot empty' empty
    simp [last]
  have programmed : ∀ i, i < smallConfig.backingSize → oneEntryLog i ≠ 0 →
      ∃ a ∈ [24], a ≤ i ∧ i < a + smallConfig.ws := by decide
  have first : InitialisedFirst [.init, .write 3 [1, 2, 3], .write 4 [7]] := by decide
  exact @flash_discipline _ smallConfig (memStore smallConfig) id (memStore_reliable smallConfig) (by decide)
    oneEntryLog [24] programmed before (by decide) _ first

theorem fullConfig_multiple : 16 % 8 = 0 := by decide

/-- The smallest sizes that the header accepts for eight bytes: no room for a log. -/
def fullConfig : Config where
  writeSize := .two
  logicalSize := 8
  backingSize := 16
  uninit := fun _ => 0
  backing_ge := by decide
  logical_aligned := by decide
  backing_multiple := fullConfig_multiple
  backing_lt := by decide

/-- Without room for a log a write goes behind the store; before an initialisation it
goes to the consolidated data; and behind an empty slot it finds what is there. -/
theorem writes_misplaced :
    ¬ Disciplined fullConfig [] (run (logged (memStore fullConfig)) fullConfig (State.start (fun _ => 0, []))
      [.init, .write 0 [1]]).store.2 ∧
    ¬ Disciplined smallConfig [0] (run (logged (memStore smallConfig)) smallConfig
      (State.start (fun i => if i = 0 then 1 else 0, [])) [.write 0 [5]]).store.2 ∧
    ¬ Disciplined smallConfig [26] (run (logged (memStore smallConfig)) smallConfig
      (State.start (fun i => if i = 26 then 1 else 0, [])) [.init, .write 0 [1], .write 1 [2]]).store.2 := by
  decide +kernel

end QmkFirmware.WearLeveling
