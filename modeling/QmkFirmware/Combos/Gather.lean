import QmkFirmware.Combos.Flush

/-!
# Gathering keys

Between two ends of a gathering the bits of a combo stand for presses in the key
buffer, and a combo that is fully pressed, neither active nor disabled, waits in the
combo buffer. Those that wait share no key, unless one of them was disabled for it.
-/

namespace QmkFirmware.Combos

variable {n w : Nat}

/-- The keycodes in the key buffer -/
def State.lookups (s : State n w) : List Nat := s.keyBuffer.map (·.press.lookup)

/-- The invariant. `extra` is the keycode of a press that is being processed, before it is in the
buffer. -/
structure Inv (cfg : Config n) (extra : List Nat) (s : State n w) : Prop where
  fresh : ∀ q ∈ s.keyBuffer, Config.Untouched q
  key : ∀ q ∈ s.keyBuffer, q.press.lookup ≠ comboEnd
  nodup : s.comboBuffer.Nodup
  quiet : ∀ c ∈ s.comboBuffer, (s.flags c).active = false
  waits : ∀ c ∈ s.comboBuffer, cfg.keys c ≠ [] ∧ cfg.Complete w c (s.lookups ++ extra)
  apart : ∀ c ∈ s.comboBuffer, ∀ d ∈ s.comboBuffer, c ≠ d → (s.flags c).disabled = false →
    (s.flags d).disabled = false → cfg.Apart c d
  bits : ∀ c, (s.flags c).active = false → (s.flags c).disabled = false → ∀ i, (s.flags c).state.getLsbD i = true →
    ∃ k ∈ s.lookups ++ extra, cfg.keyIndex c k = some i
  disabled : ∀ c, (s.flags c).active = true → (s.flags c).disabled = true
  ready : ∀ c, (s.flags c).active = false → (s.flags c).disabled = false → cfg.keys c ≠ [] →
    allDown (s.flags c).state (cfg.keys c).length = true → c ∈ s.comboBuffer

/-- Every combo that waits is enabled, or only dropped when the gathering ends. -/
def Clean (cfg : Config n) (s : State n w) : Prop :=
  ∀ c ∈ s.comboBuffer, cfg.mustTap c = false → (s.flags c).disabled = false

variable {cfg : Config n} {extra : List Nat} {s s' : State n w} {c : Fin n}

theorem inv_initial : Inv cfg extra (initial : State n w) where
  fresh _ mem := absurd mem List.not_mem_nil
  key _ mem := absurd mem List.not_mem_nil
  nodup := List.nodup_nil
  quiet _ mem := absurd mem List.not_mem_nil
  waits _ mem := absurd mem List.not_mem_nil
  apart _ mem := absurd mem List.not_mem_nil
  bits _ _ _ i bit := absurd bit (by simp [initial])
  disabled _ on := absurd on (by simp [initial])
  ready c _ _ nonempty all := by
    have bits := (allDown_iff.mp all).2 0
    simp [initial, List.length_pos_of_ne_nil nonempty] at bits

/-! ## What only takes away -/

/-- A step that presses nothing: bits go, combos are disabled or released, and the ones that
leave the combo buffer are disabled. -/
structure Narrowed (cfg : Config n) (s s' : State n w) : Prop where
  keyBuffer : s'.keyBuffer = s.keyBuffer
  comboBuffer : s'.comboBuffer.Sublist s.comboBuffer
  active : ∀ c, (s'.flags c).active = true → (s.flags c).active = true
  disabled : ∀ c, (s.flags c).disabled = true → (s'.flags c).disabled = true
  bits : ∀ c i, (s'.flags c).state.getLsbD i = true → (s.flags c).state.getLsbD i = true
  full : ∀ c, cfg.keys c ≠ [] → allDown (s'.flags c).state (cfg.keys c).length = true →
    allDown (s.flags c).state (cfg.keys c).length = true
  stays : ∀ c ∈ s.comboBuffer, (s'.flags c).disabled = false → c ∈ s'.comboBuffer

theorem Inv.narrow (h : Inv cfg extra s) (less : Narrowed cfg s s') : Inv cfg extra s' := by
  have lookups : s'.lookups = s.lookups := by
    unfold State.lookups
    rw [less.keyBuffer]
  have enabled : ∀ c, (s'.flags c).disabled = false → (s.flags c).disabled = false := by
    intro c off
    by_contra on
    rw [less.disabled c (by simpa using on)] at off
    exact absurd off (by decide)
  have quiet : ∀ c, (s'.flags c).disabled = false → (s.flags c).active = false := by
    intro c off
    by_contra on
    have := less.disabled c (h.disabled c (by simpa using on))
    rw [this] at off
    exact absurd off (by decide)
  have mem := less.comboBuffer.subset
  refine ⟨less.keyBuffer ▸ h.fresh, less.keyBuffer ▸ h.key, h.nodup.sublist less.comboBuffer, fun c memC => ?_,
    fun c memC => ?_, fun c memC d memD ne offC offD => ?_, fun c _ off i bit => ?_, fun c on => ?_,
    fun c _ off nonempty all => ?_⟩
  · by_contra on
    have := less.active c (by simpa using on)
    rw [h.quiet c (mem memC)] at this
    exact absurd this (by decide)
  · rw [lookups]
    exact h.waits c (mem memC)
  · exact h.apart c (mem memC) d (mem memD) ne (enabled c offC) (enabled d offD)
  · rw [lookups]
    exact h.bits c (quiet c off) (enabled c off) i (less.bits c i bit)
  · exact less.disabled c (h.disabled c (less.active c on))
  · exact less.stays c (h.ready c (quiet c off) (enabled c off) nonempty (less.full c nonempty all)) off

theorem Narrowed.refl (s : State n w) : Narrowed cfg s s :=
  ⟨rfl, List.Sublist.refl _, fun _ => id, fun _ => id, fun _ _ => id, fun _ _ => id, fun _ mem _ => mem⟩

theorem Narrowed.trans {s'' : State n w} (h : Narrowed cfg s s') (h' : Narrowed cfg s' s'') : Narrowed cfg s s'' where
  keyBuffer := h'.keyBuffer.trans h.keyBuffer
  comboBuffer := h'.comboBuffer.trans h.comboBuffer
  active c on := h.active c (h'.active c on)
  disabled c on := h'.disabled c (h.disabled c on)
  bits c i bit := h.bits c i (h'.bits c i bit)
  full c nonempty all := h.full c nonempty (h'.full c nonempty all)
  stays c mem off := by
    refine h'.stays c (h.stays c mem ?_) off
    by_contra on
    rw [h'.disabled c (by simpa using on)] at off
    exact absurd off (by decide)

/-- A change of the flags of one combo that keeps the bits -/
theorem narrowed_update {f : Flags w → Flags w} (state : (f (s.flags c)).state = (s.flags c).state)
    (active : (f (s.flags c)).active = true → (s.flags c).active = true)
    (disabled : (s.flags c).disabled = true → (f (s.flags c)).disabled = true) : Narrowed cfg s (s.update c f) := by
  refine ⟨rfl, List.Sublist.refl _, fun d => ?_, fun d => ?_, fun d i => ?_, fun d _ => ?_, fun d mem _ => mem⟩
  all_goals
    by_cases same : d = c
    · subst same
      rw [State.update_flags_self]
      first
        | exact active
        | exact disabled
        | (rw [state]; exact id)
    · rw [State.update_flags_of_ne _ _ same]
      exact id

theorem narrowed_drop : Narrowed cfg s (dropComboFromBuffer c s) := by
  have flags : ∀ d, (dropComboFromBuffer c s).flags d = s.flags d ∨
      (dropComboFromBuffer c s).flags d = { s.flags d with disabled := true } := by
    intro d
    rw [drop_flags]
    split
    next both => exact .inr (by rw [both.1])
    next => exact .inl rfl
  refine ⟨drop_keyBuffer, ?_, fun d => ?_, fun d => ?_, fun d i => ?_, fun d _ => ?_, fun d mem off => ?_⟩
  · rw [drop_comboBuffer]
    split
    · exact List.tail_sublist _
    · exact List.Sublist.refl _
  · obtain eq | eq := flags d <;> rw [eq] <;> exact id
  · obtain eq | eq := flags d <;> rw [eq]
    · exact id
    · exact fun _ => rfl
  · obtain eq | eq := flags d <;> rw [eq] <;> exact id
  · obtain eq | eq := flags d <;> rw [eq] <;> exact id
  · rw [drop_comboBuffer]
    split
    next head =>
      have ne : d ≠ c := by
        rintro rfl
        rw [drop_flags, if_pos ⟨rfl, mem⟩] at off
        exact absurd off (by simp)
      rw [← List.cons_head?_tail head, List.mem_cons] at mem
      exact mem.resolve_left ne
    next => exact mem

/-- The bit of a key goes. -/
theorem keyUp_bit {index i : Nat} : ((s.keyUp c index).flags c).state.getLsbD i =
    ((s.flags c).state.getLsbD i && decide (i ≠ index)) := by
  unfold State.keyUp
  rw [State.update_flags_self]
  dsimp only
  rw [BitVec.getLsbD_and, BitVec.getLsbD_not, BitVec.getLsbD_twoPow]
  by_cases bit : (s.flags c).state.getLsbD i = true
  · have := BitVec.lt_of_getLsbD bit
    by_cases same : i = index
    · subst same
      simp [this]
    · simp [this, same, Ne.symm same]
  · simp [bit]

theorem narrowed_keyUp {index : Nat} (lt : index < (cfg.keys c).length) : Narrowed cfg s (s.keyUp c index) := by
  have other : ∀ d, d ≠ c → (s.keyUp c index).flags d = s.flags d := fun d ne => State.update_flags_of_ne _ _ ne
  have self : (s.keyUp c index).flags c = { s.flags c with state := ((s.keyUp c index).flags c).state } := by
    unfold State.keyUp
    rw [State.update_flags_self]
  refine ⟨rfl, List.Sublist.refl _, fun d => ?_, fun d => ?_, fun d i => ?_, fun d nonempty all => ?_,
    fun d mem _ => mem⟩
  · by_cases same : d = c
    · subst same
      rw [self]
      exact id
    · rw [other d same]
      exact id
  · by_cases same : d = c
    · subst same
      rw [self]
      exact id
    · rw [other d same]
      exact id
  · by_cases same : d = c
    · subst same
      rw [keyUp_bit, Bool.and_eq_true]
      exact And.left
    · rw [other d same]
      exact id
  · by_cases same : d = c
    · subst same
      have := (allDown_iff.mp all).2 index
      rw [keyUp_bit] at this
      simp [lt] at this
    · rwa [other d same] at all

theorem narrowed_release : Narrowed cfg s (cfg.releaseCombo c s) := by
  have logged : Narrowed cfg s { s with log := s.log ++ [.release c (cfg.combos c).keycode] } :=
    ⟨rfl, List.Sublist.refl _, fun _ => id, fun _ => id, fun _ _ => id, fun _ _ => id, fun _ mem _ => mem⟩
  exact logged.trans (narrowed_update (f := fun f => { f with active := false }) rfl (fun on => absurd on (by simp)) id)

/-! ## The end of a gathering -/

theorem Flushed.inv {fired : List (Fin n)} (h : Inv cfg extra s) (flushed : Flushed cfg s s' fired) (extra' : List Nat) :
    Inv cfg extra' s' := by
  have zero : ∀ c, (s'.flags c).active = false → s'.flags c = ⟨false, false, 0⟩ := by
    intro c off
    have new : c ∉ fired := by
      intro mem
      rw [(flushed.fires c mem).2] at off
      simp at off
    cases on : (s.flags c).active with
    | true =>
      rw [flushed.active c new on, on] at off
      exact absurd off (by decide)
    | false => exact flushed.inactive c new on
  have none : ∀ c, c ∉ s'.comboBuffer := by
    rw [flushed.comboBuffer]
    exact fun _ => List.not_mem_nil
  refine ⟨?_, ?_, ?_, fun c mem => absurd mem (none c), fun c mem => absurd mem (none c),
    fun c mem => absurd mem (none c), fun c off _ i bit => ?_, fun c on => ?_, fun c off _ nonempty all => ?_⟩
  · rw [flushed.keyBuffer]
    exact fun _ mem => absurd mem List.not_mem_nil
  · rw [flushed.keyBuffer]
    exact fun _ mem => absurd mem List.not_mem_nil
  · rw [flushed.comboBuffer]
    exact List.nodup_nil
  · rw [zero c off] at bit
    exact absurd bit (by simp)
  · by_cases mem : c ∈ fired
    · rw [(flushed.fires c mem).2]
    · cases before : (s.flags c).active with
      | true =>
        rw [flushed.active c mem before]
        exact h.disabled c before
      | false =>
        rw [flushed.inactive c mem before] at on
        exact absurd on (by simp)
  · rw [zero c off] at all
    have bits := (allDown_iff.mp all).2 0
    simp [List.length_pos_of_ne_nil nonempty] at bits

/-- Nothing is applied yet. -/
theorem Inv.applying (h : Inv cfg [] s) (clean : Clean cfg s) : Applying cfg s s [] s.comboBuffer where
  comboBuffer := rfl
  enabled := rfl
  log := rfl
  presses := rfl
  marked := cfg.marked_nil h.fresh
  key := h.key
  fires _ mem := absurd mem List.not_mem_nil
  active _ _ := rfl
  same _ _ _ := rfl
  state _ _ := rfl
  nodup := h.nodup
  quiet := h.quiet
  waits d mem tap := by
    obtain ⟨nonempty, complete⟩ := h.waits d mem
    rw [List.append_nil] at complete
    exact ⟨clean d mem tap, List.not_mem_nil, nonempty, complete, fun _ mem => absurd mem List.not_mem_nil⟩
  apart b memB d memD ne tapB tapD := h.apart b memB d memD ne (clean b memB tapB) (clean d memD tapD)
  queued _ mem := mem
  on _ off := off
  waited _ mem := absurd mem List.not_mem_nil

/-- `apply_combos` at the end of a gathering -/
theorem Inv.applyCombos (h : Inv cfg [] s) (clean : Clean cfg s) : ∃ fired, Flushed cfg s (cfg.applyCombos s) fired := by
  obtain ⟨fired, flushed, -⟩ := (h.applying clean).applyCombos
  exact ⟨fired, flushed⟩

/-- A tap-only combo that waits is applied before the others. -/
theorem Inv.applyTapped (h : Inv cfg [] s) (clean : Clean cfg s) (mem : c ∈ s.comboBuffer) (tap : cfg.mustTap c = true)
    (enabled : (s.flags c).disabled = false) :
    ∃ fired, Flushed cfg s (cfg.applyCombos (cfg.applyCombo c s)) fired ∧ c ∈ fired := by
  obtain ⟨nonempty, complete⟩ := h.waits c mem
  rw [List.append_nil] at complete
  have first := (h.applying clean).fire mem enabled List.not_mem_nil nonempty complete
    (fun _ mem => absurd mem List.not_mem_nil) (.inr tap)
    fun d memD ne tapD => h.apart d memD c mem ne (clean d memD tapD) enabled
  rw [← first.comboBuffer] at first
  obtain ⟨fired, flushed, keep⟩ := first.applyCombos
  exact ⟨fired, flushed, keep c List.mem_cons_self⟩

/-- Nothing waits, and the buffer is dumped. -/
theorem Inv.dump (h : Inv cfg [] s) (none : s.comboBuffer = []) :
    Flushed cfg s (clearCombos (cfg.dumpKeyBuffer s)) [] := by
  have clean : Clean cfg s := by
    intro c mem
    rw [none] at mem
    exact absurd mem List.not_mem_nil
  have applying := h.applying clean
  rw [none] at applying
  exact applying.flushed

/-! ## The press of a key -/

theorem apart_of_overlaps {b c : Fin n} (h : cfg.overlaps b c = none) : cfg.Apart b c := by
  unfold Config.overlaps at h
  split at h
  · split at h <;> exact absurd h (by simp)
  next no =>
    intro key mem mem'
    exact no (List.any_eq_true.mpr ⟨key, mem, by simpa using mem'⟩)

theorem overlaps_eq {b c d : Fin n} (h : cfg.overlaps b c = some d) : d = c ∨ d = b := by
  unfold Config.overlaps at h
  split at h
  · split at h
    · exact .inl (Option.some.inj h).symm
    · exact .inr (Option.some.inj h).symm
  · exact absurd h (by simp)

/-- What the loop over the combos that wait does, once another is fully pressed. -/
structure Dropped (cfg : Config n) (c : Fin n) (s : State n w) (queue : List (Fin n)) (s' : State n w)
    (left : List (Fin n)) (keep : Bool) : Prop where
  same : s' = { s with flags := s'.flags }
  active : ∀ d, (s'.flags d).active = (s.flags d).active
  state : ∀ d, (s'.flags d).state = (s.flags d).state
  disabled : ∀ d, (s.flags d).disabled = true → (s'.flags d).disabled = true
  gone : ∀ b ∈ queue, b ∉ left → (s'.flags b).disabled = true
  lost : keep = false → (s'.flags c).disabled = true
  kept : keep = true → (s'.flags c).disabled = (s.flags c).disabled ∧ (cfg.keys c ≠ [] → c ∉ queue) ∧
    ∀ b ∈ queue, (s'.flags b).disabled = false → cfg.Apart b c

theorem Dropped.cons {b : Fin n} {queue left : List (Fin n)} {keep : Bool} (ne : b ≠ c)
    (h : Dropped cfg c (s.disable b) queue s' left keep) : Dropped cfg c s (b :: queue) s' left keep := by
  have self : ((s.disable b).flags b).disabled = true := by
    unfold State.disable
    rw [State.update_flags_self]
  have other : ∀ d, d ≠ b → (s.disable b).flags d = s.flags d := fun d ne => State.update_flags_of_ne _ _ ne
  refine ⟨h.same, fun d => (h.active d).trans ?_, fun d => (h.state d).trans ?_, fun d off => h.disabled d ?_,
    fun d mem out => ?_, h.lost, fun keep => ?_⟩
  · by_cases same : d = b
    · subst same
      unfold State.disable
      rw [State.update_flags_self]
    · rw [other d same]
  · by_cases same : d = b
    · subst same
      unfold State.disable
      rw [State.update_flags_self]
    · rw [other d same]
  · by_cases same : d = b
    · rw [same]
      exact self
    · rw [other d same]
      exact off
  · obtain rfl | mem := List.mem_cons.mp mem
    · exact h.disabled d self
    · exact h.gone d mem out
  · obtain ⟨flags, out, apart⟩ := h.kept keep
    refine ⟨flags.trans (by rw [other c ne.symm]), fun nonempty => ?_, fun d mem on => ?_⟩
    · rw [List.mem_cons, not_or]
      exact ⟨ne.symm, out nonempty⟩
    · obtain rfl | mem := List.mem_cons.mp mem
      · rw [h.disabled d self] at on
        exact absurd on (by decide)
      · exact apart d mem on

theorem dropOverlapping_spec (c : Fin n) (queue : List (Fin n)) : ∀ (s : State n w) (kept : List (Fin n)),
    ∃ s' left keep, cfg.dropOverlapping c s kept queue = (s', kept ++ left, keep) ∧ left.Sublist queue ∧
      Dropped cfg c s queue s' left keep := by
  induction queue with
  | nil =>
    intro s kept
    refine ⟨s, [], true, by rw [Config.dropOverlapping, List.append_nil], List.Sublist.refl _, rfl, fun _ => rfl,
      fun _ => rfl, fun _ => id, fun b mem => absurd mem List.not_mem_nil, fun no => absurd no (by decide),
      fun _ => ⟨rfl, fun _ => List.not_mem_nil, fun b mem => absurd mem List.not_mem_nil⟩⟩
  | cons b queue ih =>
    intro s kept
    unfold Config.dropOverlapping
    cases drop : cfg.overlaps b c with
    | none =>
      obtain ⟨s', left, keep, eq, sub, dropped⟩ := ih s (kept ++ [b])
      have apart := apart_of_overlaps drop
      refine ⟨s', b :: left, keep, ?_, sub.cons_cons b, dropped.same, dropped.active, dropped.state, dropped.disabled,
        fun d mem out => ?_, dropped.lost, fun keep => ?_⟩
      · simp only [eq, List.append_assoc, List.singleton_append]
      · rw [List.mem_cons, not_or] at out
        exact dropped.gone d ((List.mem_cons.mp mem).resolve_left out.1) out.2
      · obtain ⟨flags, out, rest⟩ := dropped.kept keep
        refine ⟨flags, fun nonempty => ?_, fun d mem on => ?_⟩
        · rw [List.mem_cons, not_or]
          refine ⟨?_, out nonempty⟩
          rintro rfl
          obtain ⟨key, mem⟩ := List.exists_mem_of_ne_nil _ nonempty
          exact apart key mem mem
        · obtain rfl | mem := List.mem_cons.mp mem
          · exact apart
          · exact rest d mem on
    | some d =>
      dsimp only
      split
      next same =>
        subst same
        have flags : ∀ a, ((s.disable d).flags a).active = (s.flags a).active ∧
            ((s.disable d).flags a).state = (s.flags a).state ∧
            ((s.flags a).disabled = true → ((s.disable d).flags a).disabled = true) := by
          intro a
          unfold State.disable
          rw [State.update_flags]
          split
          next eq => exact ⟨by rw [eq], by rw [eq], fun _ => rfl⟩
          next => exact ⟨rfl, rfl, id⟩
        have self : ((s.disable d).flags d).disabled = true := by
          unfold State.disable
          rw [State.update_flags_self]
        exact ⟨s.disable d, b :: queue, false, rfl, List.Sublist.refl _, rfl, fun a => (flags a).1,
          fun a => (flags a).2.1, fun a => (flags a).2.2, fun a mem out => absurd mem out, fun _ => self,
          fun no => absurd no (by decide)⟩
      next ne =>
        obtain rfl := (overlaps_eq drop).resolve_left ne
        split
        next empty =>
          obtain ⟨s', left, keep, eq, sub, dropped⟩ := ih (s.disable d) []
          refine ⟨s', left, keep, ?_, sub.cons d, dropped.cons ne⟩
          rw [eq, empty]
        next =>
          obtain ⟨s', left, keep, eq, sub, dropped⟩ := ih (s.disable d) (kept ++ [d])
          have dropped := dropped.cons ne
          refine ⟨s', d :: left, keep, ?_, sub.cons_cons d, dropped.same, dropped.active, dropped.state,
            dropped.disabled, fun a mem out => ?_, dropped.lost, dropped.kept⟩
          · rw [eq]
            simp
          · exact dropped.gone a mem fun mem => out (List.mem_cons_of_mem _ mem)

/-- What the press of a key that counts does for its combo: the bit of the key is set, and the combo
waits if it is fully pressed and not disabled. -/
structure Pressed (cfg : Config n) (c : Fin n) (index : Nat) (s s' : State n w) : Prop where
  keyBuffer : s'.keyBuffer = s.keyBuffer
  log : s'.log = s.log
  enabled : s'.enabled = s.enabled
  active : ∀ d, (s'.flags d).active = (s.flags d).active
  self : (s'.flags c).state = (s.flags c).state ||| BitVec.twoPow w index
  other : ∀ d, d ≠ c → (s'.flags d).state = (s.flags d).state
  disabled : ∀ d, (s.flags d).disabled = true → (s'.flags d).disabled = true
  comboBuffer : ∃ left, left.Sublist s.comboBuffer ∧ (∀ b ∈ s.comboBuffer, b ∉ left → (s'.flags b).disabled = true) ∧
    (s'.comboBuffer = left ∧
        ((s'.flags c).disabled = true ∨ allDown (s'.flags c).state (cfg.keys c).length = false) ∨
      s'.comboBuffer = left ++ [c] ∧ c ∉ s.comboBuffer ∧ (s.flags c).disabled = false ∧
        allDown (s'.flags c).state (cfg.keys c).length = true ∧
        ∀ b ∈ s.comboBuffer, (s'.flags b).disabled = false → cfg.Apart b c)

theorem Pressed.length_le {index : Nat} (h : Pressed cfg c index s s') :
    s'.comboBuffer.length ≤ s.comboBuffer.length + 1 := by
  obtain ⟨left, sub, -, ⟨eq, -⟩ | ⟨eq, -⟩⟩ := h.comboBuffer
  · rw [eq]
    exact sub.length_le.trans (Nat.le_succ _)
  · rw [eq, List.length_append]
    exact Nat.succ_le_succ sub.length_le

/-- A combo that is fully pressed finds room. -/
def Completes (cfg : Config n) (c : Fin n) (index : Nat) (s : State n w) : Bool :=
  !(s.flags c).active && allDown ((s.flags c).state ||| BitVec.twoPow w index) (cfg.keys c).length

/-- The combo does not start to wait. -/
theorem pressed_bit {index : Nat} {t : State n w} (keyBuffer : t.keyBuffer = s.keyBuffer) (log : t.log = s.log)
    (enabled : t.enabled = s.enabled) (comboBuffer : t.comboBuffer = s.comboBuffer)
    (self : (t.flags c).active = (s.flags c).active ∧ (t.flags c).state = (s.flags c).state ||| BitVec.twoPow w index)
    (other : ∀ d, d ≠ c → t.flags d = s.flags d) (on : (s.flags c).disabled = false)
    (wait : (t.flags c).disabled = true ∨ allDown (t.flags c).state (cfg.keys c).length = false) :
    Pressed cfg c index s t := by
  refine ⟨keyBuffer, log, enabled, fun d => ?_, self.2, fun d ne => by rw [other d ne], fun d off => ?_,
    s.comboBuffer, List.Sublist.refl _, fun b mem out => absurd mem out, .inl ⟨comboBuffer, wait⟩⟩
  · by_cases same : d = c
    · rw [same]
      exact self.1
    · rw [other d same]
  · by_cases same : d = c
    · rw [same, on] at off
      exact absurd off (by decide)
    · rwa [other d same]

theorem queueCombo_pressed {index : Nat} {t : State n w} (keyBuffer : t.keyBuffer = s.keyBuffer) (log : t.log = s.log)
    (enabled : t.enabled = s.enabled) (comboBuffer : t.comboBuffer = s.comboBuffer)
    (flags : t.flags = (s.keyDown c index).flags) (on : (s.flags c).disabled = false)
    (all : allDown (t.flags c).state (cfg.keys c).length = true) (nonempty : cfg.keys c ≠ [])
    (room : s.comboBuffer.length + 1 < cfg.comboBufferLength) : Pressed cfg c index s (cfg.queueCombo c t) := by
  have self : t.flags c = { s.flags c with state := (s.flags c).state ||| BitVec.twoPow w index } := by
    rw [flags]
    exact State.update_flags_self _ _ _
  have other : ∀ d, d ≠ c → t.flags d = s.flags d := by
    intro d ne
    rw [flags]
    exact State.update_flags_of_ne _ _ ne
  obtain ⟨t', left, keep, eq, sub, dropped⟩ := @dropOverlapping_spec n w cfg c t.comboBuffer t []
  rw [List.nil_append] at eq
  rw [comboBuffer] at sub dropped
  have active : ∀ d, (t'.flags d).active = (s.flags d).active := by
    intro d
    rw [dropped.active]
    by_cases same : d = c
    · rw [same, self]
    · rw [other d same]
  have state : (t'.flags c).state = (t.flags c).state := dropped.state c
  have disabled : ∀ d, (s.flags d).disabled = true → (t'.flags d).disabled = true := by
    intro d off
    refine dropped.disabled d ?_
    by_cases same : d = c
    · rw [same, self]
      rwa [same] at off
    · rwa [other d same]
  have keyBuffer' : t'.keyBuffer = s.keyBuffer := by rw [dropped.same]; exact keyBuffer
  have log' : t'.log = s.log := by rw [dropped.same]; exact log
  have enabled' : t'.enabled = s.enabled := by rw [dropped.same]; exact enabled
  unfold Config.queueCombo
  rw [eq]
  cases keep with
  | true =>
    obtain ⟨-, out, apart⟩ := dropped.kept rfl
    have fits : cfg.enqueue left c = left ++ [c] := by
      unfold Config.enqueue
      have := sub.length_le
      rw [if_neg (by omega)]
    refine ⟨keyBuffer', log', enabled', active, ?_, fun d ne => ?_, disabled, left, sub, dropped.gone, .inr ⟨fits,
      out nonempty, on, ?_, apart⟩⟩
    · exact state.trans (by rw [self])
    · exact (dropped.state d).trans (by rw [other d ne])
    · exact (congrArg (allDown · _) state).trans all
  | false =>
    refine ⟨keyBuffer', log', enabled', active, ?_, fun d ne => ?_, disabled, left, sub, dropped.gone,
      .inl ⟨rfl, .inl (dropped.lost rfl)⟩⟩
    · exact state.trans (by rw [self])
    · exact (dropped.state d).trans (by rw [other d ne])

theorem pressCombo_pressed {index : Nat} {now : BitVec 16} (quiet : (s.flags c).active = false)
    (on : (s.flags c).disabled = false) (nonempty : cfg.keys c ≠ [])
    (room : Completes cfg c index s = true → s.comboBuffer.length + 1 < cfg.comboBufferLength) :
    Pressed cfg c index s (cfg.pressCombo c index now s) := by
  unfold Config.pressCombo
  simp only [quiet, Bool.false_eq_true, if_false]
  have self : (s.keyDown c index).flags c = { s.flags c with state := (s.flags c).state ||| BitVec.twoPow w index } :=
    State.update_flags_self _ _ _
  have other : ∀ d, d ≠ c → (s.keyDown c index).flags d = s.flags d := fun d ne => State.update_flags_of_ne _ _ ne
  have active : ((s.keyDown c index).flags c).active = (s.flags c).active := by rw [self]
  have state : ((s.keyDown c index).flags c).state = (s.flags c).state ||| BitVec.twoPow w index := by rw [self]
  split
  next all =>
    split
    next =>
      refine pressed_bit rfl rfl rfl rfl ?_ (fun d ne => ?_) on (.inl ?_)
      · unfold State.disable
        rw [State.update_flags_self]
        exact ⟨active, state⟩
      · unfold State.disable
        rw [State.update_flags_of_ne _ _ ne]
        exact other d ne
      · unfold State.disable
        rw [State.update_flags_self]
    next =>
      refine queueCombo_pressed rfl rfl rfl rfl rfl on all nonempty (room ?_)
      unfold Completes
      rw [quiet]
      simpa [self] using all
  next up =>
    exact pressed_bit rfl rfl rfl rfl ⟨active, state⟩ (fun d ne => other d ne) on (.inr (by simpa using up))

theorem Inv.press {index k : Nat} (h : Inv cfg extra s) (pressed : Pressed cfg c index s s')
    (quiet : (s.flags c).active = false) (on : (s.flags c).disabled = false) (mem : k ∈ extra) (ne : k ≠ comboEnd)
    (key : cfg.keyIndex c k = some index) : Inv cfg extra s' := by
  have lookups : s'.lookups = s.lookups := by
    unfold State.lookups
    rw [pressed.keyBuffer]
  have nonempty : cfg.keys c ≠ [] := List.ne_nil_of_length_pos (Nat.zero_lt_of_lt (cfg.keyIndex_lt key ne))
  have enabled : ∀ d, (s'.flags d).disabled = false → (s.flags d).disabled = false := by
    intro d off
    by_contra on
    rw [pressed.disabled d (by simpa using on)] at off
    exact absurd off (by decide)
  have bits : ∀ i, (s'.flags c).state.getLsbD i = true → ∃ k ∈ s.lookups ++ extra, cfg.keyIndex c k = some i := by
    intro i bit
    rw [pressed.self, BitVec.getLsbD_or, Bool.or_eq_true, BitVec.getLsbD_twoPow] at bit
    obtain old | new := bit
    · exact h.bits c quiet on i old
    · rw [Bool.and_eq_true, decide_eq_true_eq, decide_eq_true_eq] at new
      exact ⟨k, List.mem_append_right _ mem, new.2 ▸ key⟩
  obtain ⟨left, sub, gone, waiting⟩ := pressed.comboBuffer
  have inBuffer : ∀ d ∈ s'.comboBuffer, d ∈ s.comboBuffer ∨ d = c ∧ c ∉ s.comboBuffer ∧
      allDown (s'.flags c).state (cfg.keys c).length = true ∧
      ∀ b ∈ s.comboBuffer, (s'.flags b).disabled = false → cfg.Apart b c := by
    intro d memD
    obtain ⟨eq, -⟩ | ⟨eq, new, -, all, apart⟩ := waiting
    · exact .inl (sub.subset (eq ▸ memD))
    · rw [eq, List.mem_append, List.mem_singleton] at memD
      exact memD.imp (fun mem => sub.subset mem) fun same => ⟨same, new, all, apart⟩
  refine ⟨pressed.keyBuffer ▸ h.fresh, pressed.keyBuffer ▸ h.key, ?_, fun d memD => ?_, fun d memD => ?_,
    fun a memA b memB neAB onA onB => ?_, fun d quietD onD i bit => ?_, fun d onD => ?_,
    fun d quietD onD nonemptyD all => ?_⟩
  · obtain ⟨eq, -⟩ | ⟨eq, new, -⟩ := waiting
    · rw [eq]
      exact h.nodup.sublist sub
    · rw [eq, List.nodup_append]
      refine ⟨h.nodup.sublist sub, List.nodup_singleton c, fun a memA b memB => ?_⟩
      rw [List.mem_singleton] at memB
      rintro rfl
      exact new (sub.subset (memB ▸ memA))
  · rw [pressed.active]
    obtain mem | ⟨rfl, -⟩ := inBuffer d memD
    · exact h.quiet d mem
    · exact quiet
  · rw [lookups]
    obtain mem | ⟨rfl, -, all, -⟩ := inBuffer d memD
    · exact h.waits d mem
    · obtain ⟨width, full⟩ := allDown_iff.mp all
      exact ⟨nonempty, width, fun i lt => bits i ((full i).trans (decide_eq_true lt))⟩
  · obtain memA | ⟨rfl, -, -, apart⟩ := inBuffer a memA
    · obtain memB | ⟨rfl, -, -, apart⟩ := inBuffer b memB
      · exact h.apart a memA b memB neAB (enabled a onA) (enabled b onB)
      · exact apart a memA onA
    · obtain memB | ⟨same, -⟩ := inBuffer b memB
      · exact (apart b memB onB).symm
      · exact absurd same.symm neAB
  · rw [lookups]
    rw [pressed.active] at quietD
    by_cases same : d = c
    · rw [same] at bit ⊢
      exact bits i bit
    · rw [pressed.other d same] at bit
      exact h.bits d quietD (enabled d onD) i bit
  · rw [pressed.active] at onD
    exact pressed.disabled d (h.disabled d onD)
  · rw [pressed.active] at quietD
    by_cases same : d = c
    · obtain ⟨-, off | up⟩ | ⟨eq, -⟩ := waiting
      · rw [← same, onD] at off
        exact absurd off (by decide)
      · rw [← same, all] at up
        exact absurd up (by decide)
      · rw [eq, same]
        exact List.mem_append_right _ (List.mem_singleton_self c)
    · rw [pressed.other d same] at all
      have mem := h.ready d quietD (enabled d onD) nonemptyD all
      have stays : d ∈ left := by
        by_contra out
        rw [gone d mem out] at onD
        exact absurd onD (by decide)
      obtain ⟨eq, -⟩ | ⟨eq, -⟩ := waiting
      · exact eq ▸ stays
      · rw [eq]
        exact List.mem_append_left _ stays

end QmkFirmware.Combos
