import QmkFirmware.Combos.Gather

/-!
# An event and the combos

What `process_single_combo` can do with an event, and the loop of `process_combo` over
all combos. The conditions keep the loop from the ways in which the two buffers go
wrong: a combo that is left in the combo buffer disabled, a press or a combo that
finds no room, and a tap-only combo that is applied in the middle of a press.
-/

namespace QmkFirmware.Combos

variable {n w : Nat}

/-- What `process_single_combo` does with an event: the state after it, and whether the event
counts. -/
inductive Change (cfg : Config n) (e : Event) (c : Fin n) (s : State n w) : Bool → State n w → Prop
  | skip (none : cfg.keyIndex c e.lookup = none) : Change cfg e c s false s
  | press (index : Nat) (s' : State n w) (key : cfg.keyIndex c e.lookup = some index) (down : e.pressed = true)
      (counts : cfg.isPart s c e index = true) (quiet : (s.flags c).active = false)
      (on : (s.flags c).disabled = false) (pressed : Pressed cfg c index s s') : Change cfg e c s true s'
  | up (index : Nat) (part : Bool) (key : cfg.keyIndex c e.lookup = some index)
      (other : (s.flags c).active = true → (s.flags c).state.getLsbD index = true →
        onlyOneDown (s.flags c).state = false) (missed : e.pressed = true → cfg.isPart s c e index = false) :
      Change cfg e c s part (s.keyUp c index)
  | drop (index : Nat) (key : cfg.keyIndex c e.lookup = some index) (quiet : (s.flags c).active = false)
      (why : (s.flags c).disabled = true ∨ cfg.mustHold c = true) :
      Change cfg e c s false ((dropComboFromBuffer c s).keyUp c index)
  | release (index : Nat) (key : cfg.keyIndex c e.lookup = some index) (active : (s.flags c).active = true) :
      Change cfg e c s true ((cfg.releaseCombo c s).keyUp c index)
  | tap (index : Nat) (part : Bool) (fired : List (Fin n)) (t s' : State n w)
      (key : cfg.keyIndex c e.lookup = some index) (down : e.pressed = false) (flushed : Flushed cfg s t fired)
      (mem : c ∈ fired) (after : s' = t.keyUp c index ∨ s' = (cfg.releaseCombo c t).keyUp c index) :
      Change cfg e c s part s'

/-- Whether the press completes the combo. -/
def counts (cfg : Config n) (e : Event) (s : State n w) (c : Fin n) : Bool :=
  (cfg.keyIndex c e.lookup).any fun index => cfg.isPart s c e index && Completes cfg c index s

/-- While `rest` are the combos still to come. -/
structure During (cfg : Config n) (e : Event) (extra : List Nat) (rest : List (Fin n)) (s : State n w) : Prop where
  inv : Inv cfg extra s
  hold : ∀ c ∈ rest, c ∈ s.comboBuffer.tail → cfg.mustHold c = true → cfg.keyIndex c e.lookup = none
  tap : e.pressed = true → ∀ c ∈ rest, c ∈ s.comboBuffer → cfg.mustTap c = true → cfg.keyIndex c e.lookup = none
  room : e.pressed = true → s.comboBuffer.length + rest.countP (counts cfg e s) < cfg.comboBufferLength

variable {cfg : Config n} {e : Event} {extra : List Nat} {rest : List (Fin n)} {s s' : State n w} {c : Fin n}

/-- The other branch of `process_single_combo` -/
theorem releaseKey_change {index : Nat} {part : Bool} (h : During cfg e extra (c :: rest) s)
    (ne : e.lookup ≠ comboEnd) (key : cfg.keyIndex c e.lookup = some index)
    (clean : e.pressed = false → Clean cfg s) (release : e.pressed = false → extra = [])
    (missed : e.pressed = true → cfg.isPart s c e index = false) :
    Change cfg e c s (cfg.releaseKey c index e part s).1 (cfg.releaseKey c index e part s).2 := by
  have nonempty : cfg.keys c ≠ [] := List.ne_nil_of_length_pos (Nat.zero_lt_of_lt (cfg.keyIndex_lt key ne))
  unfold Config.releaseKey
  dsimp only
  split
  next ready =>
    rw [Bool.and_eq_true, Bool.not_eq_true'] at ready
    split
    next why =>
      rw [Bool.or_eq_true] at why
      exact .drop index key ready.1 why
    next tappable =>
      rw [Bool.or_eq_true, not_or, Bool.not_eq_true, Bool.not_eq_true] at tappable
      have mem := h.inv.ready c ready.1 tappable.1 nonempty ready.2
      split
      next tap =>
        have down : e.pressed = false := by
          by_contra pressed
          rw [h.tap (by simpa using pressed) c List.mem_cons_self mem tap] at key
          exact absurd key (by simp)
        have inv := h.inv
        rw [release down] at inv
        obtain ⟨fired, flushed, memF⟩ := inv.applyTapped (clean down) mem tap tappable.1
        refine .tap index part fired _ _ key down flushed memF ?_
        split
        · exact .inr rfl
        · exact .inl rfl
      next => exact .up index part key (fun active => absurd (ready.1.symm.trans active) (by decide)) missed
  next =>
    split
    next held =>
      rw [Bool.and_eq_true] at held
      split
      next => exact .release index key held.1
      next other =>
        rw [Bool.or_eq_true, not_or, Bool.not_eq_true] at other
        exact .up index true key (fun _ _ => other.1) missed
    next none =>
      rw [Bool.and_eq_true, not_and] at none
      exact .up index false key (fun active bit => absurd bit (none active)) missed

/-- **What `process_single_combo` does.** -/
theorem processSingleCombo_change (h : During cfg e extra (c :: rest) s) (ne : e.lookup ≠ comboEnd)
    (clean : e.pressed = false → Clean cfg s) (release : e.pressed = false → extra = []) :
    Change cfg e c s (cfg.processSingleCombo c e s).1 (cfg.processSingleCombo c e s).2 := by
  unfold Config.processSingleCombo
  split
  next none => exact .skip none
  next index key =>
    have nonempty : cfg.keys c ≠ [] := List.ne_nil_of_length_pos (Nat.zero_lt_of_lt (cfg.keyIndex_lt key ne))
    dsimp only
    split
    next down =>
      rw [Bool.and_eq_true] at down
      have on : (s.flags c).disabled = false := by
        have part := down.2
        unfold Config.isPart at part
        simp only [Bool.and_eq_true, Bool.not_eq_true'] at part
        exact part.1.1.1
      have quiet : (s.flags c).active = false := by
        by_contra active
        rw [h.inv.disabled c (by simpa using active)] at on
        exact absurd on (by decide)
      refine .press index _ key down.1 down.2 quiet on (pressCombo_pressed quiet on nonempty fun completes => ?_)
      have room := h.room down.1
      rw [List.countP_cons_of_pos (by simp [counts, key, down.2, completes])] at room
      omega
    next other =>
      rw [Bool.and_eq_true, not_and, Bool.not_eq_true] at other
      exact releaseKey_change h ne key clean release other

/-- A key goes up, or its combo is dropped or released. -/
structure Lets (cfg : Config n) (c : Fin n) (s s' : State n w) : Prop where
  narrowed : Narrowed cfg s s'
  enabled : s'.enabled = s.enabled
  others : ∀ d, d ≠ c → s'.flags d = s.flags d
  comboBuffer : s'.comboBuffer = s.comboBuffer ∨ s'.comboBuffer = s.comboBuffer.tail

theorem lets_keyUp {index : Nat} (lt : index < (cfg.keys c).length) : Lets cfg c s (s.keyUp c index) :=
  ⟨narrowed_keyUp lt, rfl, fun _ ne => State.update_flags_of_ne _ _ ne, .inl rfl⟩

theorem lets_drop {index : Nat} (lt : index < (cfg.keys c).length) :
    Lets cfg c s ((dropComboFromBuffer c s).keyUp c index) := by
  refine ⟨narrowed_drop.trans (narrowed_keyUp lt), drop_enabled, fun d ne => ?_, ?_⟩
  · refine (State.update_flags_of_ne _ _ ne).trans ?_
    rw [drop_flags, if_neg (fun both => ne both.1)]
  · change (dropComboFromBuffer c s).comboBuffer = _ ∨ (dropComboFromBuffer c s).comboBuffer = _
    rw [drop_comboBuffer]
    split
    · exact .inr rfl
    · exact .inl rfl

theorem lets_release {index : Nat} (lt : index < (cfg.keys c).length) :
    Lets cfg c s ((cfg.releaseCombo c s).keyUp c index) := by
  refine ⟨narrowed_release.trans (narrowed_keyUp lt), rfl, fun d ne => ?_, .inl rfl⟩
  refine (State.update_flags_of_ne _ _ ne).trans ?_
  unfold Config.releaseCombo
  exact State.update_flags_of_ne _ _ ne

/-- What a combo waits for does not get more. -/
theorem counts_le (enabled : s'.enabled = s.enabled) (new : c ∉ rest)
    (active : ∀ d, d ≠ c → (s'.flags d).active = (s.flags d).active)
    (state : ∀ d, d ≠ c → (s'.flags d).state = (s.flags d).state)
    (disabled : ∀ d, d ≠ c → (s.flags d).disabled = true → (s'.flags d).disabled = true) :
    rest.countP (counts cfg e s') ≤ rest.countP (counts cfg e s) := by
  refine List.countP_mono_left fun d mem h => ?_
  have ne : d ≠ c := fun same => new (same ▸ mem)
  unfold counts at h ⊢
  obtain ⟨index, key, both⟩ := Option.any_eq_true _ _ |>.mp h
  refine Option.any_eq_true _ _ |>.mpr ⟨index, key, ?_⟩
  unfold Config.isPart Config.keysPressedInOrder Completes at both ⊢
  rw [active d ne, state d ne, enabled] at both
  simp only [Bool.and_eq_true, Bool.not_eq_true'] at both ⊢
  refine ⟨⟨⟨⟨?_, both.1.1.1.2⟩, both.1.1.2⟩, both.1.2⟩, both.2⟩
  by_contra on
  rw [disabled d ne (by simpa using on)] at both
  exact absurd both.1.1.1.1 (by decide)

theorem During.lets (h : During cfg e extra (c :: rest) s) (new : c ∉ rest) (less : Lets cfg c s s') :
    During cfg e extra rest s' := by
  have sub := less.narrowed.comboBuffer
  refine ⟨h.inv.narrow less.narrowed, fun d mem tail => ?_, fun down d mem waits => ?_, fun down => ?_⟩
  · exact h.hold d (List.mem_cons_of_mem _ mem) (sub.tail.subset tail)
  · exact h.tap down d (List.mem_cons_of_mem _ mem) (sub.subset waits)
  · have fewer := @counts_le n w cfg e _ _ _ _ less.enabled new (fun d ne => by rw [less.others d ne])
      (fun d ne => by rw [less.others d ne]) (fun d _ => less.narrowed.disabled d)
    have shorter := sub.length_le
    have more := (List.sublist_cons_self c rest).countP_le (p := counts cfg e s)
    have room := h.room down
    omega

theorem During.pressed {index : Nat} (h : During cfg e extra (c :: rest) s) (new : c ∉ rest)
    (key : cfg.keyIndex c e.lookup = some index) (ne : e.lookup ≠ comboEnd) (mem : e.lookup ∈ extra)
    (part : cfg.isPart s c e index = true) (quiet : (s.flags c).active = false) (on : (s.flags c).disabled = false)
    (pressed : Pressed cfg c index s s') : During cfg e extra rest s' := by
  refine ⟨h.inv.press pressed quiet on mem ne key, fun d memD tail => ?_, fun down d memD waits => ?_, fun down => ?_⟩
  · have neD : d ≠ c := fun same => new (same ▸ memD)
    refine h.hold d (List.mem_cons_of_mem _ memD) ?_
    obtain ⟨left, sub, -, ⟨eq, -⟩ | ⟨eq, -⟩⟩ := pressed.comboBuffer
    · exact sub.tail.subset (eq ▸ tail)
    · rw [eq] at tail
      cases left with
      | nil => exact absurd tail List.not_mem_nil
      | cons b left =>
        rw [List.cons_append, List.tail_cons, List.mem_append, List.mem_singleton] at tail
        exact sub.tail.subset (tail.resolve_right neD)
  · have neD : d ≠ c := fun same => new (same ▸ memD)
    refine h.tap down d (List.mem_cons_of_mem _ memD) ?_
    obtain ⟨left, sub, -, ⟨eq, -⟩ | ⟨eq, -⟩⟩ := pressed.comboBuffer
    · exact sub.subset (eq ▸ waits)
    · rw [eq, List.mem_append, List.mem_singleton] at waits
      exact sub.subset (waits.resolve_right neD)
  · have fewer := @counts_le n w cfg e _ _ _ _ pressed.enabled new (fun d _ => pressed.active d) pressed.other
      (fun d _ => pressed.disabled d)
    have room := h.room down
    obtain ⟨left, sub, -, ⟨eq, -⟩ | ⟨eq, -, -, all, -⟩⟩ := pressed.comboBuffer
    · have shorter := sub.length_le
      have more := (List.sublist_cons_self c rest).countP_le (p := counts cfg e s)
      rw [eq]
      omega
    · have completes : Completes cfg c index s = true := by
        unfold Completes
        rw [quiet, ← pressed.self, all]
        rfl
      rw [List.countP_cons_of_pos (by simp [counts, key, part, completes])] at room
      have shorter := sub.length_le
      rw [eq, List.length_append, List.length_singleton]
      omega

theorem During.flushed {fired : List (Fin n)} (h : During cfg e extra rest s) (down : e.pressed = false)
    (flushed : Flushed cfg s s' fired) : During cfg e extra rest s' := by
  refine ⟨flushed.inv h.inv extra, fun d _ tail => ?_, fun up => ?_, fun up => ?_⟩
  · rw [flushed.comboBuffer] at tail
    exact absurd tail List.not_mem_nil
  · exact absurd (down.symm.trans up) (by decide)
  · exact absurd (down.symm.trans up) (by decide)

theorem During.change {part : Bool} (h : During cfg e extra (c :: rest) s) (new : c ∉ rest)
    (ne : e.lookup ≠ comboEnd) (mem : part = true → e.pressed = true → e.lookup ∈ extra)
    (change : Change cfg e c s part s') : During cfg e extra rest s' := by
  cases change with
  | skip _ =>
    exact h.lets new ⟨Narrowed.refl s, rfl, fun _ _ => rfl, .inl rfl⟩
  | press index _ key down counts quiet on pressed =>
    exact h.pressed new key ne (mem rfl down) counts quiet on pressed
  | up index _ key _ => exact h.lets new (lets_keyUp (cfg.keyIndex_lt key ne))
  | drop index key _ _ => exact h.lets new (lets_drop (cfg.keyIndex_lt key ne))
  | release index key _ => exact h.lets new (lets_release (cfg.keyIndex_lt key ne))
  | tap index _ fired t _ key down flushed _ after =>
    have lt := cfg.keyIndex_lt key ne
    have during := h.flushed down flushed
    obtain rfl | rfl := after
    · exact during.lets new (lets_keyUp lt)
    · exact during.lets new (lets_release lt)

/-! ## The combos that wait -/

theorem Clean.lets (clean : Clean cfg s) (comboBuffer : s'.comboBuffer.Sublist s.comboBuffer)
    (same : ∀ d ∈ s'.comboBuffer, cfg.mustTap d = false → (s'.flags d).disabled = (s.flags d).disabled) :
    Clean cfg s' := by
  intro d mem tap
  rw [same d mem tap]
  exact clean d (comboBuffer.subset mem) tap

/-- An event that is no counting press leaves no disabled combo behind, unless it is a key of one
that is to be held and waits behind another. -/
theorem Clean.change (h : During cfg e extra (c :: rest) s) (clean : Clean cfg s)
    {part : Bool} (change : Change cfg e c s part s') (other : part = false ∨ e.pressed = false) : Clean cfg s' := by
  cases change with
  | skip _ => exact clean
  | press index _ _ down _ _ _ _ =>
    obtain no | up := other
    · exact absurd no (by decide)
    · exact absurd (down.symm.trans up) (by decide)
  | up index _ key _ =>
    refine clean.lets (List.Sublist.refl _) fun d _ _ => ?_
    unfold State.keyUp
    rw [State.update_flags]
    split
    next same => rw [same]
    next => rfl
  | drop index key quiet why =>
    have flags : ∀ d, (((dropComboFromBuffer c s).keyUp c index).flags d).disabled =
        ((dropComboFromBuffer c s).flags d).disabled := by
      intro d
      unfold State.keyUp
      rw [State.update_flags]
      split
      next same => rw [same]
      next => rfl
    have sub : ((dropComboFromBuffer c s).keyUp c index).comboBuffer.Sublist s.comboBuffer :=
      (@narrowed_drop n w cfg s c).comboBuffer
    refine clean.lets sub fun d mem tap => ?_
    rw [flags, drop_flags]
    split
    next both =>
      obtain ⟨rfl, waits⟩ := both
      have on := clean d waits tap
      have held := why.resolve_left (by simp [on])
      have stays : d ∈ s.comboBuffer.tail := by
        change d ∈ (dropComboFromBuffer d s).comboBuffer at mem
        rw [drop_comboBuffer] at mem
        split at mem
        · exact mem
        next behind =>
          cases queue : s.comboBuffer with
          | nil => exact absurd (queue ▸ waits) List.not_mem_nil
          | cons b left =>
            rw [queue, List.mem_cons] at waits
            rw [queue, List.head?_cons, Option.some_inj] at behind
            exact waits.resolve_left fun same => behind same.symm
      rw [h.hold d List.mem_cons_self stays held] at key
      exact absurd key (by simp)
    next => rfl
  | release index key _ =>
    refine clean.lets (List.Sublist.refl _) fun d _ _ => ?_
    unfold State.keyUp Config.releaseCombo State.deactivate
    simp only [State.update_flags]
    split
    next same =>
      rw [same]
      simp
    next => rfl
  | tap index _ fired t _ key down flushed _ after =>
    have none : s'.comboBuffer = [] := by
      obtain rfl | rfl := after
      · exact flushed.comboBuffer
      · exact flushed.comboBuffer
    intro d mem
    rw [none] at mem
    exact absurd mem List.not_mem_nil

/-! ## The loop -/

/-- One turn of the loop of `process_combo` -/
def turn (cfg : Config n) (e : Event) (r : Bool × State n w) (c : Fin n) : Bool × State n w :=
  (r.1 || (cfg.processSingleCombo c e r.2).1, (cfg.processSingleCombo c e r.2).2)

theorem processCombos_eq : cfg.processCombos e s = (List.finRange n).foldl (turn cfg e) (false, s) := rfl

/-- An event that counts for one combo counts. -/
theorem turns_true : (rest.foldl (turn cfg e) (true, s)).1 = true := by
  induction rest generalizing s with
  | nil => rfl
  | cons c rest ih =>
    rw [List.foldl_cons]
    exact ih

/-- **The loop over the combos** keeps the invariant, and whatever every turn keeps. -/
theorem turns (P : List (Fin n) → State n w → Prop) (ne : e.lookup ≠ comboEnd)
    (release : e.pressed = false → extra = [])
    (keep : ∀ c rest part (s s' : State n w), c ∉ rest → During cfg e extra (c :: rest) s →
      (part = true → e.pressed = true → e.lookup ∈ extra) → Change cfg e c s part s' → P (c :: rest) s → P rest s')
    (distinct : rest.Nodup) {part : Bool} (h : During cfg e extra rest s) (start : P rest s)
    (clean : (rest.foldl (turn cfg e) (part, s)).1 = false ∨ e.pressed = false → Clean cfg s)
    (mem : (rest.foldl (turn cfg e) (part, s)).1 = true → e.pressed = true → e.lookup ∈ extra) :
    Inv cfg extra (rest.foldl (turn cfg e) (part, s)).2 ∧ P [] (rest.foldl (turn cfg e) (part, s)).2 ∧
      ((rest.foldl (turn cfg e) (part, s)).1 = false ∨ e.pressed = false →
        Clean cfg (rest.foldl (turn cfg e) (part, s)).2) := by
  induction rest generalizing s part with
  | nil => exact ⟨h.inv, start, clean⟩
  | cons c rest ih =>
    obtain ⟨new, distinct⟩ := List.nodup_cons.mp distinct
    rw [List.foldl_cons] at clean mem ⊢
    have change := processSingleCombo_change h ne (fun up => clean (.inr up)) release
    have counted : (cfg.processSingleCombo c e s).1 = true →
        (rest.foldl (turn cfg e) (turn cfg e (part, s) c)).1 = true := by
      intro counts
      unfold turn
      rw [counts, Bool.or_true]
      exact turns_true
    have mem' : (cfg.processSingleCombo c e s).1 = true → e.pressed = true → e.lookup ∈ extra :=
      fun counts => mem (counted counts)
    refine ih distinct (h.change new ne mem' change) (keep c rest _ s _ new h mem' change start) (fun other => ?_) mem
    refine (clean other).change h change (other.imp_left fun none => ?_)
    by_contra counts
    exact absurd ((counted (by simpa using counts)).symm.trans none) (by decide)

/-! ## The conditions -/

/-- The combos that wait are enabled, or only dropped in the end; a key of one that is to be held
and waits behind another, or a press of a key of a tap-only one that waits, does not come in; and a
press finds room in both buffers. `KC_NO`, which the keys of a combo end with, is not a key. -/
structure EventOk (cfg : Config n) (s : State n w) (e : Event) : Prop where
  notEnd : e.lookup ≠ comboEnd
  clean : Clean cfg s
  hold : ∀ c ∈ s.comboBuffer.tail, cfg.mustHold c = true → cfg.keyIndex c e.lookup = none
  tap : e.pressed = true → ∀ c ∈ s.comboBuffer, cfg.mustTap c = true → cfg.keyIndex c e.lookup = none
  room : e.pressed = true → s.keyBuffer.length < cfg.keyBufferLength ∨ ∀ c, cfg.keyIndex c e.lookup = none
  roomCombo : e.pressed = true →
    s.comboBuffer.length + (List.finRange n).countP (counts cfg e s) < cfg.comboBufferLength

/-- The conditions of a step -/
def InputOk (cfg : Config n) (s : State n w) : Input → Prop
  | .event e => EventOk cfg s e
  | .task _ => Clean cfg s

theorem eventOk_iff : EventOk cfg s e ↔ e.lookup ≠ comboEnd ∧
    (∀ c ∈ s.comboBuffer, cfg.mustTap c = false → (s.flags c).disabled = false) ∧
    (∀ c ∈ s.comboBuffer.tail, cfg.mustHold c = true → cfg.keyIndex c e.lookup = none) ∧
    (e.pressed = true → ∀ c ∈ s.comboBuffer, cfg.mustTap c = true → cfg.keyIndex c e.lookup = none) ∧
    (e.pressed = true → s.keyBuffer.length < cfg.keyBufferLength ∨ ∀ c, cfg.keyIndex c e.lookup = none) ∧
    (e.pressed = true →
      s.comboBuffer.length + (List.finRange n).countP (counts cfg e s) < cfg.comboBufferLength) :=
  ⟨fun ⟨a, b, c, d, f, g⟩ => ⟨a, b, c, d, f, g⟩, fun ⟨a, b, c, d, f, g⟩ => ⟨a, b, c, d, f, g⟩⟩

instance : Decidable (EventOk cfg s e) :=
  haveI (l : List (Fin n)) (p : Fin n → Prop) [DecidablePred p] : Decidable (∀ c ∈ l, p c) := List.decidableBAll p l
  decidable_of_iff' _ eventOk_iff

instance : Decidable (Clean cfg s) :=
  inferInstanceAs (Decidable (∀ c ∈ s.comboBuffer, cfg.mustTap c = false → (s.flags c).disabled = false))

instance (cfg : Config n) (s : State n w) : ∀ input, Decidable (InputOk cfg s input)
  | .event e => inferInstanceAs (Decidable (EventOk cfg s e))
  | .task _ => inferInstanceAs (Decidable (Clean cfg s))

/-! ## A whole event -/

theorem Inv.mono (h : Inv cfg [] s) (extra : List Nat) : Inv cfg extra s := by
  have more : ∀ k ∈ s.lookups ++ [], k ∈ s.lookups ++ extra := by
    intro k mem
    rw [List.append_nil] at mem
    exact List.mem_append_left _ mem
  refine ⟨h.fresh, h.key, h.nodup, h.quiet, fun c mem => ?_, h.apart, fun c quiet on i bit => ?_, h.disabled, h.ready⟩
  · obtain ⟨nonempty, width, keys⟩ := h.waits c mem
    refine ⟨nonempty, width, fun i lt => ?_⟩
    obtain ⟨k, mem, key⟩ := keys i lt
    exact ⟨k, more k mem, key⟩
  · obtain ⟨k, mem, key⟩ := h.bits c quiet on i bit
    exact ⟨k, more k mem, key⟩

theorem turns_none (none : ∀ c, cfg.keyIndex c e.lookup = none) {part : Bool} :
    rest.foldl (turn cfg e) (part, s) = (part, s) := by
  induction rest with
  | nil => rfl
  | cons c rest ih =>
    have skip : turn cfg e (part, s) c = (part, s) := by
      unfold turn Config.processSingleCombo
      simp [none c]
    rw [List.foldl_cons, skip]
    exact ih

/-- The keycode that a counting press adds to the buffer -/
def added (cfg : Config n) (e : Event) (s : State n w) : List Nat :=
  if e.pressed = true ∧ (cfg.processCombos e s).1 = true then [e.lookup] else []

/-- A press is processed without a change of the buffer. -/
theorem Change.keyBuffer {part : Bool} (change : Change cfg e c s part s') (down : e.pressed = true) :
    s'.keyBuffer = s.keyBuffer := by
  cases change with
  | skip _ => rfl
  | press _ _ _ _ _ _ _ pressed => exact pressed.keyBuffer
  | up _ _ _ _ _ => rfl
  | drop _ _ _ _ => exact drop_keyBuffer
  | release _ _ _ => rfl
  | tap _ _ _ _ _ _ up _ _ _ => exact absurd (down.symm.trans up) (by decide)

/-- **The loop of `process_combo`** from one event to the next -/
theorem processCombos_spec (P : List (Fin n) → State n w → Prop) (h : Inv cfg [] s) (ok : EventOk cfg s e)
    (keep : ∀ extra c rest part (s s' : State n w), c ∉ rest → During cfg e extra (c :: rest) s →
      Change cfg e c s part s' → P (c :: rest) s → P rest s') (start : P (List.finRange n) s) :
    Inv cfg (added cfg e s) (cfg.processCombos e s).2 ∧ P [] (cfg.processCombos e s).2 ∧
      (e.pressed = true → (cfg.processCombos e s).2.keyBuffer = s.keyBuffer) ∧
      ((cfg.processCombos e s).1 = false ∨ e.pressed = false → Clean cfg (cfg.processCombos e s).2) := by
  have during : During cfg e (added cfg e s) (List.finRange n) s :=
    ⟨h.mono _, fun c _ => ok.hold c, fun down c _ => ok.tap down c, ok.roomCombo⟩
  have release : e.pressed = false → added cfg e s = [] := by
    intro up
    unfold added
    rw [if_neg (by simp [up])]
  have mem : (cfg.processCombos e s).1 = true → e.pressed = true → e.lookup ∈ added cfg e s := by
    intro counts down
    unfold added
    rw [if_pos ⟨down, counts⟩]
    exact List.mem_singleton_self _
  obtain ⟨inv, ⟨kept, buffer⟩, clean⟩ := turns
    (fun rest t => P rest t ∧ (e.pressed = true → t.keyBuffer = s.keyBuffer)) ok.notEnd release
    (fun c rest part t t' new during _ change kept => ⟨keep _ c rest part t t' new during change kept.1,
      fun down => (change.keyBuffer down).trans (kept.2 down)⟩)
    (List.nodup_finRange n) during ⟨start, fun _ => rfl⟩ (fun _ => ok.clean) mem
  exact ⟨inv, kept, buffer, clean⟩

/-- The press goes to the buffer. -/
theorem bufferPress_keyBuffer (room : s.keyBuffer.length < cfg.keyBufferLength) :
    (cfg.bufferPress e s).keyBuffer = s.keyBuffer ++ [⟨e, true, none⟩] := by
  unfold Config.bufferPress
  dsimp only
  split <;> rfl

theorem bufferPress_flags : (cfg.bufferPress e s).flags = s.flags ∧ (cfg.bufferPress e s).comboBuffer = s.comboBuffer ∧
    (cfg.bufferPress e s).log = s.log ∧ (cfg.bufferPress e s).enabled = s.enabled := by
  unfold Config.bufferPress
  dsimp only
  split <;> split <;> exact ⟨rfl, rfl, rfl, rfl⟩

theorem Inv.bufferPress (h : Inv cfg [e.lookup] s) (ne : e.lookup ≠ comboEnd)
    (room : s.keyBuffer.length < cfg.keyBufferLength) : Inv cfg [] (cfg.bufferPress e s) := by
  have buffer := @bufferPress_keyBuffer n w cfg e s room
  obtain ⟨flags, comboBuffer, -, -⟩ := @bufferPress_flags n w cfg e s
  have lookups : (cfg.bufferPress e s).lookups ++ [] = s.lookups ++ [e.lookup] := by
    unfold State.lookups
    rw [buffer]
    simp
  refine ⟨fun q mem => ?_, fun q mem => ?_, ?_, ?_, ?_, ?_, ?_, ?_, ?_⟩
  · rw [buffer, List.mem_append, List.mem_singleton] at mem
    obtain mem | rfl := mem
    · exact h.fresh q mem
    · exact ⟨rfl, rfl⟩
  · rw [buffer, List.mem_append, List.mem_singleton] at mem
    obtain mem | rfl := mem
    · exact h.key q mem
    · exact ne
  · rw [comboBuffer]
    exact h.nodup
  · rw [comboBuffer, flags]
    exact h.quiet
  · rw [comboBuffer, lookups]
    exact h.waits
  · rw [comboBuffer, flags]
    exact h.apart
  · rw [flags, lookups]
    exact h.bits
  · rw [flags]
    exact h.disabled
  · rw [flags, comboBuffer]
    exact h.ready

/-- Any other event ends the gathering. -/
theorem Inv.endGathering (h : Inv cfg [] s) (clean : Clean cfg s) :
    ∃ fired, Flushed cfg s (cfg.endGathering s) fired := by
  unfold Config.endGathering
  split
  next => exact h.applyCombos clean
  next none =>
    obtain ⟨a, b, c, d, e, f, g, i⟩ := h.dump (not_not.mp none)
    exact ⟨[], a, b, c, d, e, f, g, i⟩

/-- `combo_disable` -/
theorem Inv.comboDisable (h : Inv cfg [] s) :
    Flushed cfg { s with enabled := false } (cfg.comboDisable s) [] := by
  have commute : cfg.comboDisable s =
      clearCombos (cfg.dumpKeyBuffer { s with timer := 0, enabled := false, comboBuffer := [] }) := by
    unfold Config.comboDisable Config.dumpKeyBuffer clearCombos
    split <;> rfl
  have applying : Applying cfg { s with timer := 0, enabled := false, comboBuffer := [] }
      { s with timer := 0, enabled := false, comboBuffer := [] } [] [] :=
    ⟨rfl, rfl, rfl, rfl, cfg.marked_nil h.fresh, h.key, fun _ mem => absurd mem List.not_mem_nil, fun _ _ => rfl,
      fun _ _ _ => rfl, fun _ _ => rfl, List.nodup_nil, fun _ mem => absurd mem List.not_mem_nil,
      fun _ mem => absurd mem List.not_mem_nil, fun _ mem => absurd mem List.not_mem_nil,
      fun _ mem => absurd mem List.not_mem_nil, fun _ off => off, fun _ mem => absurd mem List.not_mem_nil⟩
  rw [commute]
  obtain ⟨a, b, c, d, e, f, g, -⟩ := applying.flushed
  exact ⟨a, b, c, d, e, f, g, fun _ mem => absurd mem List.not_mem_nil⟩

theorem Inv.setEnabled (h : Inv cfg extra s) (enabled : Bool) : Inv cfg extra { s with enabled := enabled } :=
  ⟨h.fresh, h.key, h.nodup, h.quiet, h.waits, h.apart, h.bits, h.disabled, h.ready⟩

/-- **What `process_combo` does with an event**: the combos are switched on or off, a press that
counts goes to the buffer, or the gathering ends. -/
theorem processCombo_cases (P : List (Fin n) → State n w → Prop) (h : Inv cfg [] s) (ok : EventOk cfg s e)
    (keep : ∀ extra c rest part (s s' : State n w), c ∉ rest → During cfg e extra (c :: rest) s →
      Change cfg e c s part s' → P (c :: rest) s → P rest s') (start : P (List.finRange n) s) :
    (e.pressed = true ∧ (e.keycode = qkComboOn ∨ e.keycode = qkComboToggle ∧ s.enabled = false) ∧
      cfg.processCombo e s = (true, Config.comboEnable s)) ∨
    (e.pressed = true ∧ ∃ s', Flushed cfg { s with enabled := false } s' [] ∧ cfg.processCombo e s = (true, s')) ∨
    (e.pressed = true ∧ ∃ t, Inv cfg [e.lookup] t ∧ P [] t ∧ t.keyBuffer.length < cfg.keyBufferLength ∧
      cfg.processCombo e s = (false, cfg.bufferPress e t)) ∨
    (∃ t part fired s', Inv cfg [] t ∧ P [] t ∧ Flushed cfg t s' fired ∧ (e.pressed = true → part = false) ∧
      cfg.processCombo e s = (!part, s')) := by
  unfold Config.processCombo
  split
  next on => exact .inl ⟨on.2, .inl on.1, rfl⟩
  next =>
    split
    next off => exact .inr (.inl ⟨off.2, _, h.comboDisable, rfl⟩)
    next =>
      split
      next toggle =>
        unfold Config.comboToggle
        cases on : s.enabled with
        | true => exact .inr (.inl ⟨toggle.2, _, h.comboDisable, rfl⟩)
        | false => exact .inl ⟨toggle.2, .inr ⟨toggle.1, rfl⟩, rfl⟩
      next =>
        obtain ⟨inv, kept, buffer, clean⟩ := processCombos_spec P h ok keep start
        dsimp only
        split
        next press =>
          rw [Bool.and_eq_true] at press
          refine .inr (.inr (.inl ⟨press.1, _, ?_, kept, ?_, by rw [press.2]; rfl⟩))
          · rwa [added, if_pos press] at inv
          · rw [buffer press.1]
            refine (ok.room press.1).resolve_right fun none => ?_
            have count := press.2
            rw [processCombos_eq, turns_none none] at count
            simp at count
        next other =>
          rw [Bool.and_eq_true] at other
          have ends : (cfg.processCombos e s).1 = false ∨ e.pressed = false := by
            by_contra both
            rw [not_or, Bool.not_eq_false, Bool.not_eq_false] at both
            exact other ⟨both.2, both.1⟩
          rw [added, if_neg other] at inv
          obtain ⟨fired, flushed⟩ := inv.endGathering (clean ends)
          exact .inr (.inr (.inr ⟨_, _, fired, _, inv, kept, flushed,
            fun down => ends.resolve_right (by simp [down]), rfl⟩))

/-- **The invariant is kept** by every event. -/
theorem Inv.processCombo (h : Inv cfg [] s) (ok : EventOk cfg s e) : Inv cfg [] (cfg.processCombo e s).2 := by
  obtain ⟨-, -, eq⟩ | ⟨-, s', flushed, eq⟩ | ⟨-, t, inv, -, room, eq⟩ | ⟨t, part, fired, s', inv, -, flushed, -, eq⟩ :=
    processCombo_cases (fun _ _ => True) h ok (fun _ _ _ _ _ _ _ _ _ _ => trivial) trivial
  · rw [eq]
    exact h.setEnabled true
  · rw [eq]
    exact flushed.inv (h.setEnabled false) []
  · rw [eq]
    exact inv.bufferPress ok.notEnd room
  · rw [eq]
    exact flushed.inv inv []

/-- `combo_task` ends a gathering or does nothing. -/
theorem comboTask_cases (h : Inv cfg [] s) (clean : Clean cfg s) (now : BitVec 16) :
    cfg.comboTask now s = s ∨ ∃ fired, Flushed cfg s (cfg.comboTask now s) fired := by
  unfold Config.comboTask
  split
  · exact .inl rfl
  · split
    · split
      next =>
        obtain ⟨fired, a, b, c, d, e, f, g, i⟩ := h.applyCombos clean
        exact .inr ⟨fired, a, b, c, d, e, f, g, i⟩
      next none =>
        obtain ⟨a, b, c, d, e, f, g, i⟩ := h.dump (not_not.mp none)
        exact .inr ⟨[], a, b, c, d, e, f, g, i⟩
    · exact .inl rfl

theorem Inv.step (h : Inv cfg [] s) {input : Input} (ok : InputOk cfg s input) : Inv cfg [] (cfg.step s input) := by
  cases input with
  | event e =>
    have inv := h.processCombo ok
    unfold Config.step
    dsimp only
    split
    · exact ⟨inv.fresh, inv.key, inv.nodup, inv.quiet, inv.waits, inv.apart, inv.bits, inv.disabled, inv.ready⟩
    · exact inv
  | task now =>
    obtain eq | ⟨fired, flushed⟩ := comboTask_cases h ok now
    · change Inv cfg [] (cfg.comboTask now s)
      rw [eq]
      exact h
    · exact flushed.inv h []

end QmkFirmware.Combos
