import QmkFirmware.Combos.Apply

/-!
# The end of a gathering

`apply_combos`, the dump of the buffer and `clear_combos`: after them both buffers are
empty, the combos that fired are active and disabled, and every combo that is not
active is as at the start.
-/

namespace QmkFirmware.Combos

variable {n w : Nat}

namespace State

variable (s : State n w) (c d : Fin n) (f : Flags w → Flags w)

@[simp] theorem update_timer : (s.update c f).timer = s.timer := rfl
@[simp] theorem update_enabled : (s.update c f).enabled = s.enabled := rfl
@[simp] theorem update_keyBuffer : (s.update c f).keyBuffer = s.keyBuffer := rfl
@[simp] theorem update_comboBuffer : (s.update c f).comboBuffer = s.comboBuffer := rfl
@[simp] theorem update_log : (s.update c f).log = s.log := rfl

theorem update_flags : (s.update c f).flags d = if d = c then f (s.flags c) else s.flags d := by
  exact Function.update_apply _ _ _ _

@[simp] theorem update_flags_self : (s.update c f).flags c = f (s.flags c) := by
  rw [update_flags, if_pos rfl]

variable {c d} in
theorem update_flags_of_ne (ne : d ≠ c) : (s.update c f).flags d = s.flags d := by
  rw [update_flags, if_neg ne]

end State

/-! ## `drop_combo_from_buffer` -/

variable {s : State n w} {c d : Fin n}

@[simp] theorem drop_keyBuffer : (dropComboFromBuffer c s).keyBuffer = s.keyBuffer := by
  unfold dropComboFromBuffer
  dsimp only
  split
  · split <;> rfl
  · rfl

@[simp] theorem drop_log : (dropComboFromBuffer c s).log = s.log := by
  unfold dropComboFromBuffer
  dsimp only
  split
  · split <;> rfl
  · rfl

@[simp] theorem drop_enabled : (dropComboFromBuffer c s).enabled = s.enabled := by
  unfold dropComboFromBuffer
  dsimp only
  split
  · split <;> rfl
  · rfl

theorem drop_flags : (dropComboFromBuffer c s).flags d =
    if d = c ∧ c ∈ s.comboBuffer then { s.flags c with disabled := true } else s.flags d := by
  have disabled : (s.disable c).flags d = if d = c then { s.flags c with disabled := true } else s.flags d :=
    s.update_flags c d _
  unfold dropComboFromBuffer
  dsimp only
  split
  next mem =>
    simp only [mem, and_true]
    split <;> exact disabled
  next mem => simp [mem]

theorem drop_comboBuffer : (dropComboFromBuffer c s).comboBuffer =
    if s.comboBuffer.head? = some c then s.comboBuffer.tail else s.comboBuffer := by
  unfold dropComboFromBuffer
  dsimp only
  split
  next mem => split <;> simp_all [State.disable]
  next mem =>
    split
    next head => exact absurd (List.mem_of_mem_head? head) mem
    next => rfl

theorem drop_comboBuffer_cons {queue : List (Fin n)} (h : s.comboBuffer = c :: queue) :
    (dropComboFromBuffer c s).comboBuffer = queue := by
  rw [drop_comboBuffer, h]
  exact if_pos rfl

/-! ## `apply_combos` -/

/-- What the end of a gathering does to the state. -/
structure Flushed (cfg : Config n) (s s' : State n w) (fired : List (Fin n)) : Prop where
  keyBuffer : s'.keyBuffer = []
  comboBuffer : s'.comboBuffer = []
  enabled : s'.enabled = s.enabled
  log : ∃ out, Settled cfg (s.keyBuffer.map (·.press)) out ∧ (out.filterMap Out.fired?).Perm fired ∧
    (∀ d keycode, Out.combo d keycode false ∉ out) ∧
    s'.log = s.log ++ if s.keyBuffer = [] then [] else [.dump (s.keyBuffer.map (·.press)) out]
  fires : ∀ d ∈ fired, (s.flags d).active = false ∧ s'.flags d = ⟨true, true, (s.flags d).state⟩
  active : ∀ d ∉ fired, (s.flags d).active = true → s'.flags d = s.flags d
  inactive : ∀ d ∉ fired, (s.flags d).active = false → s'.flags d = ⟨false, false, 0⟩
  waited : ∀ d ∈ fired, d ∈ s.comboBuffer ∧ (s.flags d).disabled = false

/-- Between two combos that are applied: `s₀` is the state before the first. -/
structure Applying (cfg : Config n) (s₀ s : State n w) (fired queue : List (Fin n)) : Prop where
  comboBuffer : s.comboBuffer = queue
  enabled : s.enabled = s₀.enabled
  log : s.log = s₀.log
  presses : s.keyBuffer.map (·.press) = s₀.keyBuffer.map (·.press)
  marked : cfg.Marked fired s.keyBuffer
  key : ∀ q ∈ s.keyBuffer, q.press.lookup ≠ comboEnd
  fires : ∀ d ∈ fired, (s₀.flags d).active = false ∧ s.flags d = ⟨true, true, (s₀.flags d).state⟩
  active : ∀ d ∉ fired, (s.flags d).active = (s₀.flags d).active
  same : ∀ d ∉ fired, (s₀.flags d).active = true → s.flags d = s₀.flags d
  state : ∀ d ∉ fired, (s.flags d).state = (s₀.flags d).state
  nodup : queue.Nodup
  quiet : ∀ d ∈ queue, (s₀.flags d).active = false
  waits : ∀ d ∈ queue, cfg.mustTap d = false → (s.flags d).disabled = false ∧ d ∉ fired ∧ cfg.keys d ≠ [] ∧
    cfg.Complete w d (s.keyBuffer.map (·.press.lookup)) ∧ ∀ b ∈ fired, cfg.Apart d b
  apart : ∀ b ∈ queue, ∀ d ∈ queue, b ≠ d → cfg.mustTap b = false → cfg.mustTap d = false → cfg.Apart b d
  queued : ∀ d ∈ queue, d ∈ s₀.comboBuffer
  on : ∀ d, (s.flags d).disabled = false → (s₀.flags d).disabled = false
  waited : ∀ d ∈ fired, d ∈ s₀.comboBuffer ∧ (s₀.flags d).disabled = false

namespace Applying

variable {cfg : Config n} {s₀ s : State n w} {fired queue : List (Fin n)} {c : Fin n}

/-- A tap-only combo is dropped. -/
theorem drop (h : Applying cfg s₀ s fired (c :: queue)) : Applying cfg s₀ (dropComboFromBuffer c s) fired queue := by
  have mem : c ∈ s.comboBuffer := by
    rw [h.comboBuffer]
    exact List.mem_cons_self
  have other : ∀ d, d ≠ c → (dropComboFromBuffer c s).flags d = s.flags d := by
    intro d ne
    rw [drop_flags, if_neg (fun both => ne both.1)]
  have self : (dropComboFromBuffer c s).flags c = { s.flags c with disabled := true } := by
    rw [drop_flags, if_pos ⟨rfl, mem⟩]
  refine ⟨drop_comboBuffer_cons h.comboBuffer, drop_enabled.trans h.enabled, drop_log.trans h.log, ?_, ?_, ?_,
    fun d memD => ?_, fun d new => ?_, fun d new on => ?_, fun d new => ?_, h.nodup.of_cons,
    fun d memD => h.quiet d (List.mem_cons_of_mem _ memD), fun d memD tap => ?_, fun b memB d memD =>
      h.apart b (List.mem_cons_of_mem _ memB) d (List.mem_cons_of_mem _ memD),
    fun d memD => h.queued d (List.mem_cons_of_mem _ memD), fun d off => h.on d ?_, h.waited⟩
  · rw [drop_keyBuffer]
    exact h.presses
  · rw [drop_keyBuffer]
    exact h.marked
  · rw [drop_keyBuffer]
    exact h.key
  · refine ⟨(h.fires d memD).1, ?_⟩
    by_cases eq : d = c
    · subst eq
      rw [self, (h.fires d memD).2]
    · rw [other d eq]
      exact (h.fires d memD).2
  · by_cases eq : d = c
    · subst eq
      rw [self]
      exact h.active d new
    · rw [other d eq]
      exact h.active d new
  · by_cases eq : d = c
    · subst eq
      rw [h.quiet d List.mem_cons_self] at on
      exact absurd on (by decide)
    · rw [other d eq]
      exact h.same d new on
  · by_cases eq : d = c
    · subst eq
      rw [self]
      exact h.state d new
    · rw [other d eq]
      exact h.state d new
  · have ne : d ≠ c := by
      rintro rfl
      exact (List.nodup_cons.mp h.nodup).1 memD
    rw [other d ne, drop_keyBuffer]
    exact h.waits d (List.mem_cons_of_mem _ memD) tap
  · by_cases eq : d = c
    · subst eq
      rw [self] at off
      exact absurd off (by simp)
    · rw [← other d eq]
      exact off

/-- A combo that waits, with all its keys in the buffer, is applied. A tap-only one may stay in the
buffer, to be dropped later. -/
theorem fire (h : Applying cfg s₀ s fired queue) (mem : c ∈ queue) (enabled : (s.flags c).disabled = false)
    (new : c ∉ fired) (nonempty : cfg.keys c ≠ []) (complete : cfg.Complete w c (s.keyBuffer.map (·.press.lookup)))
    (apart : ∀ b ∈ fired, cfg.Apart c b) (stays : queue.head? = some c ∨ cfg.mustTap c = true)
    (others : ∀ d ∈ queue, d ≠ c → cfg.mustTap d = false → cfg.Apart d c) :
    Applying cfg s₀ (cfg.applyCombo c s) (c :: fired) (if queue.head? = some c then queue.tail else queue) := by
  obtain ⟨keyBuffer, applied, marked, presses⟩ := h.marked.apply new apart nonempty h.key complete
  have eq : cfg.applyCombo c s = dropComboFromBuffer c (State.activate { s with keyBuffer := keyBuffer } c) := by
    unfold Config.applyCombo
    rw [if_neg (by simp [enabled]), applied]
    rfl
  have other : ∀ d, d ≠ c → (cfg.applyCombo c s).flags d = s.flags d := by
    intro d ne
    rw [eq, drop_flags, if_neg (fun both => ne both.1)]
    exact State.update_flags_of_ne _ _ ne
  have self : (cfg.applyCombo c s).flags c = ⟨true, true, (s.flags c).state⟩ := by
    rw [eq, drop_flags, if_pos ⟨rfl, by exact h.comboBuffer ▸ mem⟩]
    unfold State.activate
    rw [State.update_flags_self]
  have buffer : (cfg.applyCombo c s).keyBuffer = keyBuffer := by
    rw [eq, drop_keyBuffer]
    rfl
  have lookups : (cfg.applyCombo c s).keyBuffer.map (·.press.lookup) = s.keyBuffer.map (·.press.lookup) := by
    rw [buffer]
    simpa [Function.comp_def] using congrArg (List.map Event.lookup) presses
  have rest : ∀ d ∈ if queue.head? = some c then queue.tail else queue, d ∈ queue := by
    intro d memD
    split at memD
    · exact List.mem_of_mem_tail memD
    · exact memD
  refine ⟨?_, ?_, ?_, ?_, ?_, ?_, fun d memD => ?_, fun d newD => ?_, fun d newD on => ?_, fun d newD => ?_, ?_,
    fun d memD => h.quiet d (rest d memD), fun d memD tapD => ?_,
    fun b memB d memD => h.apart b (rest b memB) d (rest d memD), fun d memD => h.queued d (rest d memD),
    fun d off => h.on d ?_, fun d memD => ?_⟩
  · rw [eq, drop_comboBuffer]
    change (if s.comboBuffer.head? = some c then s.comboBuffer.tail else s.comboBuffer) = _
    rw [h.comboBuffer]
  · rw [eq, drop_enabled]
    exact h.enabled
  · rw [eq, drop_log]
    exact h.log
  · rw [buffer, presses]
    exact h.presses
  · rw [buffer]
    exact marked
  · intro q memQ
    have memL : q.press.lookup ∈ s.keyBuffer.map (·.press.lookup) := by
      rw [← lookups]
      exact List.mem_map_of_mem (f := fun q => q.press.lookup) memQ
    obtain ⟨p, memP, same⟩ := List.mem_map.mp memL
    rw [← same]
    exact h.key p memP
  · obtain rfl | memD := List.mem_cons.mp memD
    · rw [self, h.state d new]
      exact ⟨h.quiet d mem, rfl⟩
    · have ne : d ≠ c := fun same => new (same ▸ memD)
      rw [other d ne]
      exact h.fires d memD
  · rw [other d (List.ne_of_not_mem_cons newD)]
    exact h.active d (List.not_mem_of_not_mem_cons newD)
  · rw [other d (List.ne_of_not_mem_cons newD)]
    exact h.same d (List.not_mem_of_not_mem_cons newD) on
  · rw [other d (List.ne_of_not_mem_cons newD)]
    exact h.state d (List.not_mem_of_not_mem_cons newD)
  · split
    · exact h.nodup.sublist (List.tail_sublist _)
    · exact h.nodup
  · have ne : d ≠ c := by
      rintro rfl
      obtain head | tap := stays
      · rw [if_pos head] at memD
        exact (List.nodup_cons.mp (List.cons_head?_tail head ▸ h.nodup)).1 memD
      · exact absurd (tap.symm.trans tapD) (by decide)
    obtain ⟨enabledD, newD, nonemptyD, completeD, apartD⟩ := h.waits d (rest d memD) tapD
    rw [other d ne, lookups]
    refine ⟨enabledD, ?_, nonemptyD, completeD, ?_⟩
    · rw [List.mem_cons, not_or]
      exact ⟨ne, newD⟩
    · intro b memB
      obtain rfl | memB := List.mem_cons.mp memB
      · exact others d (rest d memD) ne tapD
      · exact apartD b memB
  · by_cases same : d = c
    · subst same
      rw [self] at off
      exact absurd off (by simp)
    · rw [← other d same]
      exact off
  · obtain rfl | memD := List.mem_cons.mp memD
    · exact ⟨h.queued d mem, h.on d enabled⟩
    · exact h.waited d memD

/-- The first of the combos that wait is applied. -/
theorem fire_head (h : Applying cfg s₀ s fired (c :: queue)) (tap : cfg.mustTap c = false) :
    Applying cfg s₀ (cfg.applyCombo c s) (c :: fired) queue := by
  obtain ⟨enabled, new, nonempty, complete, apart⟩ := h.waits c List.mem_cons_self tap
  have applied := h.fire List.mem_cons_self enabled new nonempty complete apart (.inl rfl)
    fun d memD ne tapD => h.apart d memD c List.mem_cons_self ne tapD tap
  simpa using applied

/-- The loop over the combos that wait -/
theorem run (h : Applying cfg s₀ s fired queue) :
    ∃ fired', Applying cfg s₀ (queue.foldl cfg.applyQueued s) fired' [] ∧ ∀ d ∈ fired, d ∈ fired' := by
  induction queue generalizing s fired with
  | nil => exact ⟨fired, h, fun _ => id⟩
  | cons c queue ih =>
    rw [List.foldl_cons]
    unfold Config.applyQueued
    cases tap : cfg.mustTap c with
    | true => exact ih h.drop
    | false =>
      obtain ⟨fired', applied, keep⟩ := ih (h.fire_head tap)
      exact ⟨fired', applied, fun d mem => keep d (List.mem_cons_of_mem _ mem)⟩

end Applying

variable {cfg : Config n}

theorem dump_flags : (cfg.dumpKeyBuffer s).flags = s.flags := by
  unfold Config.dumpKeyBuffer
  split <;> rfl

theorem dump_comboBuffer : (cfg.dumpKeyBuffer s).comboBuffer = s.comboBuffer := by
  unfold Config.dumpKeyBuffer
  split <;> rfl

theorem dump_enabled : (cfg.dumpKeyBuffer s).enabled = s.enabled := by
  unfold Config.dumpKeyBuffer
  split <;> rfl

theorem dump_keyBuffer : (cfg.dumpKeyBuffer s).keyBuffer = [] := by
  unfold Config.dumpKeyBuffer
  split
  · assumption
  · rfl

theorem dump_log : (cfg.dumpKeyBuffer s).log = s.log ++
    if s.keyBuffer = [] then [] else [.dump (s.keyBuffer.map (·.press)) (s.keyBuffer.filterMap cfg.emit)] := by
  unfold Config.dumpKeyBuffer
  split
  · rw [List.append_nil]
  · rfl

theorem emit_pressed {queue : List (QueuedRecord n)} {keycode : Nat} :
    Out.combo d keycode false ∉ queue.filterMap cfg.emit := by
  intro mem
  obtain ⟨q, -, eq⟩ := List.mem_filterMap.mp mem
  unfold Config.emit at eq
  split at eq
  · exact absurd eq (by simp)
  · split at eq <;> simp at eq

/-- **The dump and `clear_combos`** end the gathering. -/
theorem Applying.flushed {s₀ s : State n w} {fired : List (Fin n)} (h : Applying cfg s₀ s fired []) :
    Flushed cfg s₀ (clearCombos (cfg.dumpKeyBuffer s)) fired := by
  have flags : ∀ d, (clearCombos (cfg.dumpKeyBuffer s)).flags d =
      if (s.flags d).active then s.flags d else { s.flags d with disabled := false, state := 0 } := by
    intro d
    unfold clearCombos
    rw [dump_flags]
  have empty : s.keyBuffer = [] ↔ s₀.keyBuffer = [] := by
    rw [← List.map_eq_nil_iff (f := (·.press)), h.presses, List.map_eq_nil_iff]
  refine ⟨dump_keyBuffer, dump_comboBuffer.trans h.comboBuffer, dump_enabled.trans h.enabled,
    ⟨s.keyBuffer.filterMap cfg.emit, ?_, h.marked.fired, fun _ _ => emit_pressed, ?_⟩, fun d mem => ?_,
    fun d new on => ?_, fun d new off => ?_, h.waited⟩
  · rw [← h.presses]
    exact h.marked.settled
  · change (cfg.dumpKeyBuffer s).log = _
    rw [dump_log, h.log, h.presses]
    simp only [empty]
  · obtain ⟨quiet, eq⟩ := h.fires d mem
    refine ⟨quiet, ?_⟩
    rw [flags, eq]
    rfl
  · rw [flags, h.same d new on, if_pos on]
  · have quiet := (h.active d new).trans off
    rw [flags, if_neg (by simp [quiet])]
    dsimp only
    rw [quiet]

/-- **The whole of `apply_combos`** -/
theorem Applying.applyCombos {s₀ s : State n w} {fired : List (Fin n)} (h : Applying cfg s₀ s fired s.comboBuffer) :
    ∃ fired', Flushed cfg s₀ (cfg.applyCombos s) fired' ∧ ∀ d ∈ fired, d ∈ fired' := by
  obtain ⟨fired', applied, keep⟩ := h.run
  exact ⟨fired', applied.flushed, keep⟩

end QmkFirmware.Combos
