import QmkFirmware.Combos.Presses

/-!
# Presses and releases of a combo are paired

The bits of a combo stand for keys that are held, an active combo has one of them, and
the events of every combo alternate: the last one is a press as long as the combo is
active.
-/

namespace QmkFirmware.Combos
open Lib

variable {n w : Nat}

/-- The combos and the keys that are held, each with the keycode it was pressed with -/
structure World (n w : Nat) where
  state : State n w
  held : Nat × Nat → Option Nat

/-- Nothing is held at the start. -/
def World.initial : World n w := ⟨Combos.initial, fun _ => none⟩

/-- The keys that are held after an event -/
def Event.holds (e : Event) (held : Nat × Nat → Option Nat) : Nat × Nat → Option Nat :=
  Function.update held e.key (if e.pressed then some e.lookup else none)

/-- A step of the world -/
def World.step (cfg : Config n) (x : World n w) (input : Input) : World n w where
  state := cfg.step x.state input
  held := match input with
    | .event e => e.holds x.held
    | .task _ => x.held

/-! ## The events of a combo -/

/-- What is processed as an event of the combo: whether it is pressed. -/
def Out.action? (c : Fin n) : Out n → Option Bool
  | .record _ => none
  | .combo d _ pressed => if d = c then some pressed else none

/-- The presses and releases of a combo -/
def Entry.actions (c : Fin n) : Entry n → List Bool
  | .dump _ out => out.filterMap (Out.action? c)
  | .pass _ => []
  | .release d _ => if d = c then [false] else []

/-- An event of a combo is a change. -/
def flip (on action : Bool) : Option Bool := if action = on then none else some action

/-- The presses and releases of a combo alternate: whether it is pressed after the last one. -/
def pairing (c : Fin n) (log : List (Entry n)) : Option Bool := (log.flatMap (Entry.actions c)).foldlM flip false

theorem pairing_append {c : Fin n} {log more : List (Entry n)} :
    pairing c (log ++ more) = (pairing c log).bind fun on => (more.flatMap (Entry.actions c)).foldlM flip on := by
  unfold pairing
  rw [List.flatMap_append, List.foldlM_append]
  rfl

/-- A dump that releases no combo presses it as often as it fires. -/
theorem actions_fired {c : Fin n} {out : List (Out n)} (presses : ∀ d keycode, Out.combo d keycode false ∉ out) :
    out.filterMap (Out.action? c) = List.replicate ((out.filterMap Out.fired?).count c) true := by
  induction out with
  | nil => rfl
  | cons o out ih =>
    have ih := ih fun d keycode mem => presses d keycode (List.mem_cons_of_mem _ mem)
    match o with
    | .record e => exact ih
    | .combo d keycode false => exact absurd List.mem_cons_self (presses d keycode)
    | .combo d keycode true =>
      have fired : (Out.combo d keycode true :: out).filterMap Out.fired? = d :: out.filterMap Out.fired? := rfl
      rw [fired]
      by_cases same : d = c
      · subst same
        have action : (Out.combo d keycode true :: out).filterMap (Out.action? d) = true :: out.filterMap (Out.action? d) := by
          rw [List.filterMap_cons_some (b := true)]
          exact if_pos rfl
        rw [action, ih, List.count_cons_self, List.replicate_succ]
      · rw [List.filterMap_cons_none (by exact if_neg same), ih, List.count_cons_of_ne same]

/-- **The end of a gathering** presses the combos that fire, once. -/
theorem Flushed.pairing {cfg : Config n} {s s' : State n w} {fired : List (Fin n)} (flushed : Flushed cfg s s' fired)
    (nonempty : ∀ c, cfg.keys c ≠ []) {c : Fin n} (paired : pairing c s.log = some (s.flags c).active) :
    Combos.pairing c s'.log = some (s'.flags c).active := by
  obtain ⟨out, settled, perm, presses, log⟩ := flushed.log
  have fires : c ∈ out.filterMap Out.fired? ↔ c ∈ fired := perm.mem_iff
  obtain ⟨fates, gathered, fates'⟩ := settled
  have count := actions_fired (c := c) presses
  rw [log, pairing_append, paired, Option.bind_some]
  by_cases mem : c ∈ fired
  · have some : s.keyBuffer ≠ [] := by
      intro none
      obtain ⟨key, memK⟩ := List.exists_mem_of_ne_nil _ (nonempty c)
      obtain ⟨e, memE, -⟩ := fates'.whole c (fires.mpr mem) key memK
      rw [none, List.map_nil, List.map_eq_nil_iff] at gathered
      rw [gathered] at memE
      exact List.not_mem_nil memE
    obtain ⟨quiet, flags⟩ := flushed.fires c mem
    rw [List.count_eq_one_of_mem fates'.once (fires.mpr mem)] at count
    rw [if_neg some, flags, quiet]
    change (out.filterMap (Out.action? c) ++ []).foldlM flip false = _
    rw [count]
    rfl
  · have same : (s'.flags c).active = (s.flags c).active := by
      cases on : (s.flags c).active with
      | true => rw [flushed.active c mem on, on]
      | false => rw [flushed.inactive c mem on]
    rw [List.count_eq_zero_of_not_mem (mt fires.mp mem)] at count
    rw [same]
    split
    next => rfl
    next =>
      change (out.filterMap (Out.action? c) ++ []).foldlM flip _ = _
      rw [count]
      rfl

/-- The release of an active combo -/
theorem pairing_release {cfg : Config n} {s : State n w} {c d : Fin n} (active : (s.flags c).active = true)
    (paired : pairing d s.log = some (s.flags d).active) :
    pairing d (cfg.releaseCombo c s).log = some ((cfg.releaseCombo c s).flags d).active := by
  have log : (cfg.releaseCombo c s).log = s.log ++ [.release c (cfg.combos c).keycode] := rfl
  have flags : (cfg.releaseCombo c s).flags d = if d = c then { s.flags c with active := false } else s.flags d := by
    unfold Config.releaseCombo State.deactivate
    exact State.update_flags _ _ _ _
  rw [log, pairing_append, paired, Option.bind_some, flags]
  by_cases same : d = c
  · subst same
    rw [if_pos rfl, active]
    change ((if d = d then [false] else []) ++ []).foldlM flip true = _
    rw [if_pos rfl]
    rfl
  · rw [if_neg same]
    change ((if c = d then [false] else []) ++ []).foldlM flip _ = _
    rw [if_neg fun eq => same eq.symm]
    rfl

/-! ## The bits of a combo -/

/-- The key of a bit is held. -/
def Held (cfg : Config n) (held : Nat × Nat → Option Nat) (c : Fin n) (i : Nat) : Prop :=
  ∃ pos k, held pos = some k ∧ cfg.keyIndex c k = some i

variable {cfg : Config n} {e : Event} {rest : List (Fin n)} {held before after : Nat × Nat → Option Nat}
  {s s' : State n w} {c d : Fin n}

/-- The invariant -/
structure Paired (cfg : Config n) (held : Nat × Nat → Option Nat) (s : State n w) : Prop where
  bits : ∀ c i, (s.flags c).state.getLsbD i = true → Held cfg held c i
  live : ∀ c, (s.flags c).active = true → ∃ i, (s.flags c).state.getLsbD i = true
  full : ∀ c ∈ s.comboBuffer, (s.flags c).disabled = false → allDown (s.flags c).state (cfg.keys c).length = true
  paired : ∀ c, pairing c s.log = some (s.flags c).active

/-- The combos have two keys or more. -/
def Chords (cfg : Config n) : Prop := ∀ c, 2 ≤ (cfg.keys c).length

/-- The invariant while `rest` are the combos still to come; `before` and `after` are the keys that
are held for them and for the others. -/
structure Amid (cfg : Config n) (e : Event) (before after : Nat × Nat → Option Nat) (rest : List (Fin n))
    (s : State n w) : Prop where
  bits : ∀ c i, (s.flags c).state.getLsbD i = true → Held cfg (if c ∈ rest then before else after) c i
  live : ∀ c, (s.flags c).active = true → ∃ i, (s.flags c).state.getLsbD i = true
  waits : ∀ c ∈ s.comboBuffer, (s.flags c).disabled = false → ∃ i, (s.flags c).state.getLsbD i = true
  full : ∀ c ∈ s.comboBuffer, (s.flags c).disabled = false → c ∈ rest ∨ e.pressed = true →
    allDown (s.flags c).state (cfg.keys c).length = true
  counts : e.pressed = true → ∀ c ∈ rest, c ∈ s.comboBuffer → (s.flags c).disabled = false →
    ∀ i, cfg.keyIndex c e.lookup = some i → cfg.isPart s c e i = true
  paired : ∀ c, pairing c s.log = some (s.flags c).active

/-- Between the keys that are held before an event and after it: the key of the event goes up, or
it is down for all combos. -/
def Between (e : Event) (before after : Nat × Nat → Option Nat) : Prop :=
  e.pressed = true ∧ before = after ∧ after e.key = some e.lookup ∨
    e.pressed = false ∧ before e.key = some e.lookup ∧ after = Function.update before e.key none

/-- Another key than that of the event is still held. -/
theorem Held.other {i : Nat} (h : Held cfg before c i) (between : Between e before after)
    (other : cfg.keyIndex c e.lookup ≠ some i) : Held cfg after c i := by
  obtain ⟨pos, k, down, key⟩ := h
  obtain ⟨-, rfl, -⟩ | ⟨-, here, rfl⟩ := between
  · exact ⟨pos, k, down, key⟩
  · refine ⟨pos, k, ?_, key⟩
    rw [Function.update_of_ne]
    · exact down
    · rintro rfl
      rw [here] at down
      exact other (Option.some.inj down ▸ key)

/-- If a key of a combo is released and another is down, a bit stays. -/
theorem exists_other_bit {state : BitVec w} {index : Nat} (bit : state.getLsbD index = true)
    (several : onlyOneDown state = false) : ∃ i, i ≠ index ∧ state.getLsbD i = true := by
  by_contra none
  push Not at none
  have lt : index < w := by
    by_contra le
    rw [BitVec.getLsbD_of_ge state index (not_lt.mp le)] at bit
    exact absurd bit (by decide)
  have only : state = BitVec.twoPow w index := by
    apply BitVec.eq_of_getLsbD_eq
    intro i _
    rw [BitVec.getLsbD_twoPow]
    by_cases same : i = index
    · subst same
      simp [bit, lt]
    · have up := none i same
      simp [up, Ne.symm same]
  subst only
  have zero : BitVec.twoPow w index &&& (BitVec.twoPow w index - 1) = 0#w := by
    have pos : 2 ^ index < 2 ^ w := Nat.pow_lt_pow_right (by decide) lt
    have one : (1#w).toNat = 1 := by
      rw [BitVec.toNat_ofNat, Nat.mod_eq_of_lt]
      exact Nat.lt_of_le_of_lt (Nat.one_le_two_pow (n := index)) pos
    have value := BitVec.toNat_twoPow_of_lt lt
    apply BitVec.eq_of_toNat_eq
    rw [BitVec.toNat_and, BitVec.toNat_sub_of_le, value]
    · change 2 ^ index &&& (2 ^ index - (1#w).toNat) = _
      rw [one, Nat.and_two_pow_sub_one_eq_mod, Nat.mod_self]
      rfl
    · rw [BitVec.le_def, value]
      change (1#w).toNat ≤ _
      rw [one]
      exact Nat.one_le_two_pow
  unfold onlyOneDown at several
  rw [zero] at several
  exact absurd several (by simp)

/-- A combo of two keys or more that is fully pressed keeps a bit when one key is released. -/
theorem exists_bit_of_full {state : BitVec w} {count : Nat} (all : allDown state count = true) (two : 2 ≤ count)
    (index : Nat) : ∃ i, i ≠ index ∧ state.getLsbD i = true := by
  have bits := (allDown_iff.mp all).2
  by_cases zero : index = 0
  · exact ⟨1, by omega, by rw [bits]; exact decide_eq_true (by omega)⟩
  · exact ⟨0, by omega, by rw [bits]; exact decide_eq_true (by omega)⟩

/-! ## One turn of the loop -/

theorem isPart_congr {i : Nat} (disabled : (s'.flags c).disabled = (s.flags c).disabled)
    (state : (s'.flags c).state = (s.flags c).state) (enabled : s'.enabled = s.enabled) :
    cfg.isPart s' c e i = cfg.isPart s c e i := by
  unfold Config.isPart Config.keysPressedInOrder
  rw [disabled, state, enabled]

/-- The end of a gathering -/
theorem Amid.flushed {fired : List (Fin n)} (h : Amid cfg e before after rest s) (nonempty : ∀ c, cfg.keys c ≠ [])
    (flushed : Flushed cfg s s' fired) : Amid cfg e before after rest s' := by
  have none : ∀ c, c ∉ s'.comboBuffer := by
    rw [flushed.comboBuffer]
    exact fun _ => List.not_mem_nil
  have cases : ∀ c, (s'.flags c).state = (s.flags c).state ∨ s'.flags c = ⟨false, false, 0⟩ := by
    intro c
    by_cases mem : c ∈ fired
    · left
      rw [(flushed.fires c mem).2]
    · cases on : (s.flags c).active with
      | true => exact .inl (by rw [flushed.active c mem on])
      | false => exact .inr (flushed.inactive c mem on)
  constructor
  · intro c i bit
    obtain same | zero := cases c
    · exact h.bits c i (same ▸ bit)
    · rw [zero] at bit
      exact absurd bit (by simp)
  · intro c on
    obtain same | zero := cases c
    · rw [same]
      by_cases mem : c ∈ fired
      · obtain ⟨memB, enabled⟩ := flushed.waited c mem
        exact h.waits c memB enabled
      · cases before : (s.flags c).active with
        | true => exact h.live c before
        | false =>
          rw [flushed.inactive c mem before] at on
          exact absurd on (by simp)
    · rw [zero] at on
      exact absurd on (by simp)
  · exact fun c mem => absurd mem (none c)
  · exact fun c mem => absurd mem (none c)
  · exact fun _ c _ mem => absurd mem (none c)
  · exact fun c => flushed.pairing nonempty (h.paired c)

/-- A combo of which a key goes up -/
theorem Amid.lets {index : Nat} (h : Amid cfg e before after (c :: rest) s) (new : c ∉ rest)
    (between : Between e before after) (key : cfg.keyIndex c e.lookup = some index) (lets : Lets cfg c s s')
    (gone : (s'.flags c).state.getLsbD index = false)
    (live : (s'.flags c).active = true → ∃ i, (s'.flags c).state.getLsbD i = true)
    (waits : c ∈ s'.comboBuffer → (s'.flags c).disabled = false →
      e.pressed = false ∧ ∃ i, (s'.flags c).state.getLsbD i = true)
    (paired : ∀ d, pairing d s'.log = some (s'.flags d).active) : Amid cfg e before after rest s' := by
  have sub := lets.narrowed.comboBuffer.subset
  have cons : ∀ d, d ≠ c → (d ∈ c :: rest ↔ d ∈ rest) := by
    intro d ne
    rw [List.mem_cons, or_iff_right ne]
  constructor
  · intro d i bit
    by_cases same : d = c
    · subst same
      have held := h.bits d i (lets.narrowed.bits d i bit)
      rw [if_pos List.mem_cons_self] at held
      rw [if_neg new]
      refine held.other between fun eq => ?_
      rw [key, Option.some.injEq] at eq
      rw [← eq, gone] at bit
      exact absurd bit (by decide)
    · rw [lets.others d same] at bit
      simpa only [cons d same] using h.bits d i bit
  · intro d on
    by_cases same : d = c
    · subst same
      exact live on
    · rw [lets.others d same] at on ⊢
      exact h.live d on
  · intro d mem off
    by_cases same : d = c
    · subst same
      exact (waits mem off).2
    · rw [lets.others d same] at off ⊢
      exact h.waits d (sub mem) off
  · intro d mem off which
    by_cases same : d = c
    · subst same
      obtain memR | down := which
      · exact absurd memR new
      · exact absurd (down.symm.trans (waits mem off).1) (by decide)
    · rw [lets.others d same] at off ⊢
      exact h.full d (sub mem) off (which.imp_left (List.mem_cons_of_mem _))
  · intro down d memR mem off i key
    have ne : d ≠ c := fun same => new (same ▸ memR)
    have flags := lets.others d ne
    rw [isPart_congr (by rw [flags]) (by rw [flags]) lets.enabled]
    rw [flags] at off
    exact h.counts down d (List.mem_cons_of_mem _ memR) (sub mem) off i key
  · exact paired

/-- The press of a key that counts -/
theorem Amid.press {index : Nat} (h : Amid cfg e before after (c :: rest) s) (new : c ∉ rest)
    (between : Between e before after) (down : e.pressed = true) (key : cfg.keyIndex c e.lookup = some index)
    (chords : Chords cfg) (lt : index < (cfg.keys c).length) (pressed : Pressed cfg c index s s') :
    Amid cfg e before after rest s' := by
  obtain ⟨-, rfl, here⟩ | ⟨up, -, -⟩ := between
  swap
  · exact absurd (down.symm.trans up) (by decide)
  have grows : ∀ d i, (s.flags d).state.getLsbD i = true → (s'.flags d).state.getLsbD i = true := by
    intro d i bit
    by_cases same : d = c
    · subst same
      rw [pressed.self, BitVec.getLsbD_or, bit, Bool.true_or]
    · rwa [pressed.other d same]
  have enabled : ∀ d, (s'.flags d).disabled = false → (s.flags d).disabled = false := by
    intro d off
    by_contra on
    rw [pressed.disabled d (by simpa using on)] at off
    exact absurd off (by decide)
  have full : ∀ d, allDown (s.flags d).state (cfg.keys d).length = true →
      allDown (s'.flags d).state (cfg.keys d).length = true := by
    intro d all
    by_cases same : d = c
    · subst same
      obtain ⟨width, bits⟩ := allDown_iff.mp all
      refine allDown_iff.mpr ⟨width, fun i => ?_⟩
      rw [pressed.self, BitVec.getLsbD_or, bits, BitVec.getLsbD_twoPow]
      by_cases here : i < (cfg.keys d).length
      · simp [here]
      · have ne : index ≠ i := by omega
        simp [here, ne]
    · rwa [pressed.other d same]
  have waits : ∀ d ∈ s'.comboBuffer, (s'.flags d).disabled = false →
      allDown (s'.flags d).state (cfg.keys d).length = true := by
    intro d mem off
    obtain ⟨left, sub, -, ⟨eq, -⟩ | ⟨eq, -, -, all, -⟩⟩ := pressed.comboBuffer
    · rw [eq] at mem
      exact full d (h.full d (sub.subset mem) (enabled d off) (.inr down))
    · rw [eq, List.mem_append, List.mem_singleton] at mem
      obtain mem | rfl := mem
      · exact full d (h.full d (sub.subset mem) (enabled d off) (.inr down))
      · exact all
  constructor
  · intro d i bit
    by_cases old : (s.flags d).state.getLsbD i = true
    · have held := h.bits d i old
      rw [ite_self] at held ⊢
      exact held
    · have same : d = c := by
        by_contra ne
        rw [pressed.other d ne] at bit
        exact old bit
      subst same
      rw [pressed.self, BitVec.getLsbD_or, BitVec.getLsbD_twoPow] at bit
      have eq : index = i := by
        by_contra ne
        simp [old, ne] at bit
      subst eq
      rw [ite_self]
      exact ⟨e.key, e.lookup, here, key⟩
  · intro d on
    rw [pressed.active] at on
    obtain ⟨i, bit⟩ := h.live d on
    exact ⟨i, grows d i bit⟩
  · intro d mem off
    obtain ⟨i, -, bit⟩ := exists_bit_of_full (waits d mem off) (chords d) 0
    exact ⟨i, bit⟩
  · exact fun d mem off _ => waits d mem off
  · intro _ d memR mem off i keyD
    have ne : d ≠ c := fun same => new (same ▸ memR)
    have memS : d ∈ s.comboBuffer := by
      obtain ⟨left, sub, -, ⟨eq, -⟩ | ⟨eq, -⟩⟩ := pressed.comboBuffer
      · exact sub.subset (eq ▸ mem)
      · rw [eq, List.mem_append, List.mem_singleton] at mem
        exact sub.subset (mem.resolve_right ne)
    have offS := enabled d off
    rw [isPart_congr (off.trans offS.symm) (pressed.other d ne) pressed.enabled]
    exact h.counts down d (List.mem_cons_of_mem _ memR) memS offS i keyD
  · intro d
    rw [pressed.log, pressed.active]
    exact h.paired d

theorem keyUp_active {index : Nat} : ((s.keyUp c index).flags d).active = (s.flags d).active := by
  unfold State.keyUp
  rw [State.update_flags]
  split
  next same => rw [same]
  next => rfl

theorem keyUp_gone {index : Nat} : ((s.keyUp c index).flags c).state.getLsbD index = false := by
  rw [keyUp_bit]
  simp

/-- **What one turn does.** -/
theorem Amid.change {part : Bool} {extra : List Nat} (h : Amid cfg e before after (c :: rest) s) (new : c ∉ rest)
    (between : Between e before after) (chords : Chords cfg) (ne : e.lookup ≠ comboEnd)
    (during : During cfg e extra (c :: rest) s) (change : Change cfg e c s part s') :
    Amid cfg e before after rest s' := by
  have nonempty : ∀ c, cfg.keys c ≠ [] := fun c => List.ne_nil_of_length_pos (by have := chords c; omega)
  cases change with
  | skip none =>
    refine ⟨fun d i bit => ?_, h.live, h.waits, fun d mem off which => ?_, fun down d memR => ?_, h.paired⟩
    · have held := h.bits d i bit
      by_cases same : d = c
      · subst same
        rw [if_pos List.mem_cons_self] at held
        rw [if_neg new]
        exact held.other between (by rw [none]; simp)
      · simpa only [List.mem_cons, or_iff_right same] using held
    · exact h.full d mem off (which.imp_left (List.mem_cons_of_mem _))
    · exact h.counts down d (List.mem_cons_of_mem _ memR)
  | press index _ key down _ _ _ pressed => exact h.press new between down key chords (cfg.keyIndex_lt key ne) pressed
  | up index _ key other missed =>
    have lt := cfg.keyIndex_lt key ne
    refine h.lets new between key (lets_keyUp lt) keyUp_gone (fun on => ?_) (fun mem off => ?_) fun d => ?_
    · rw [keyUp_active] at on
      cases bit : (s.flags c).state.getLsbD index with
      | true =>
        obtain ⟨i, different, bit'⟩ := exists_other_bit bit (other on bit)
        exact ⟨i, by rw [keyUp_bit, bit']; exact decide_eq_true different⟩
      | false =>
        obtain ⟨i, bit'⟩ := h.live c on
        refine ⟨i, ?_⟩
        rw [keyUp_bit, bit', Bool.true_and]
        refine decide_eq_true ?_
        rintro rfl
        exact absurd (bit'.symm.trans bit) (by decide)
    · have offS : (s.flags c).disabled = false := by
        by_contra on
        rw [(lets_keyUp lt).narrowed.disabled c (by simpa using on)] at off
        exact absurd off (by decide)
      have up : e.pressed = false := by
        by_contra down
        rw [Bool.not_eq_false] at down
        have counts := h.counts down c List.mem_cons_self mem offS index key
        exact absurd (counts.symm.trans (missed down)) (by decide)
      obtain ⟨i, different, bit⟩ := exists_bit_of_full (h.full c mem offS (.inl List.mem_cons_self)) (chords c) index
      exact ⟨up, i, by rw [keyUp_bit, bit]; exact decide_eq_true different⟩
    · rw [keyUp_active]
      exact h.paired d
  | drop index key quiet why =>
    have lt := cfg.keyIndex_lt key ne
    have active : ∀ d, (((dropComboFromBuffer c s).keyUp c index).flags d).active = (s.flags d).active := by
      intro d
      rw [keyUp_active, drop_flags]
      split
      next same => rw [same.1]
      next => rfl
    refine h.lets new between key (lets_drop lt) keyUp_gone (fun on => ?_) (fun mem off => ?_) fun d => ?_
    · rw [active, quiet] at on
      exact absurd on (by decide)
    · have memS := (lets_drop lt).narrowed.comboBuffer.subset mem
      have disabled : (((dropComboFromBuffer c s).keyUp c index).flags c).disabled = true := by
        unfold State.keyUp
        rw [State.update_flags_self, drop_flags, if_pos ⟨rfl, memS⟩]
      exact absurd (off.symm.trans disabled) (by decide)
    · rw [active]
      change pairing d (dropComboFromBuffer c s).log = _
      rw [drop_log]
      exact h.paired d
  | release index key active =>
    have lt := cfg.keyIndex_lt key ne
    have off : ((cfg.releaseCombo c s).flags c).active = false := by
      unfold Config.releaseCombo State.deactivate
      rw [State.update_flags_self]
    refine h.lets new between key (lets_release lt) keyUp_gone (fun on => ?_) (fun mem _ => ?_) fun d => ?_
    · rw [keyUp_active, off] at on
      exact absurd on (by decide)
    · exact absurd (active.symm.trans (during.inv.quiet c mem)) (by decide)
    · rw [keyUp_active]
      exact pairing_release active (h.paired d)
  | tap index _ fired t _ key up flushed mem how =>
    have lt := cfg.keyIndex_lt key ne
    have h' := h.flushed nonempty flushed
    have none : c ∉ t.comboBuffer := by
      rw [flushed.comboBuffer]
      exact List.not_mem_nil
    obtain ⟨-, flags⟩ := flushed.fires c mem
    obtain ⟨memS, offS⟩ := flushed.waited c mem
    obtain rfl | rfl := how
    · refine h'.lets new between key (lets_keyUp lt) keyUp_gone (fun _ => ?_) (fun mem => absurd mem none) fun d => ?_
      · obtain ⟨i, different, bit⟩ := exists_bit_of_full (h.full c memS offS (.inl List.mem_cons_self)) (chords c) index
        refine ⟨i, ?_⟩
        rw [keyUp_bit, flags]
        dsimp only
        rw [bit]
        exact decide_eq_true different
      · rw [keyUp_active]
        exact h'.paired d
    · have off : ((cfg.releaseCombo c t).flags c).active = false := by
        unfold Config.releaseCombo State.deactivate
        rw [State.update_flags_self]
      refine h'.lets new between key (lets_release lt) keyUp_gone (fun on => ?_) (fun mem => absurd mem none) fun d => ?_
      · rw [keyUp_active, off] at on
        exact absurd on (by decide)
      · rw [keyUp_active]
        exact pairing_release (by rw [flags]) (h'.paired d)

/-! ## A whole step -/

/-- A key goes down when it is up, and up when it is down. -/
def Physical (x : World n w) : Input → Prop
  | .event e => e.pressed = (x.held e.key).isNone
  | .task _ => True

/-- The conditions of a step: those of the buffers, a key is looked up at its release as it was at
its press, and a press of a key of a combo that waits counts for it. -/
def PairOk (cfg : Config n) (x : World n w) : Input → Prop
  | .event e => EventOk cfg x.state e ∧ (e.pressed = false → x.held e.key = some e.lookup) ∧
      (e.pressed = true → ∀ c ∈ x.state.comboBuffer, (x.state.flags c).disabled = false →
        ∀ i ∈ cfg.keyIndex c e.lookup, cfg.isPart x.state c e i = true)
  | .task _ => Clean cfg x.state

instance (x : World n w) : ∀ input, Decidable (Physical x input)
  | .event e => inferInstanceAs (Decidable (e.pressed = (x.held e.key).isNone))
  | .task _ => isTrue trivial

instance (cfg : Config n) (x : World n w) : ∀ input, Decidable (PairOk cfg x input)
  | .event e => inferInstanceAs (Decidable (EventOk cfg x.state e ∧ (e.pressed = false → x.held e.key = some e.lookup) ∧
      (e.pressed = true → ∀ c ∈ x.state.comboBuffer, (x.state.flags c).disabled = false →
        ∀ i ∈ cfg.keyIndex c e.lookup, cfg.isPart x.state c e i = true)))
  | .task _ => inferInstanceAs (Decidable (Clean cfg x.state))

theorem inputOk {x : World n w} {input : Input} (ok : PairOk cfg x input) : InputOk cfg x.state input := by
  cases input with
  | event e => exact ok.1
  | task now => exact ok

/-- No bit, no combo and no event at the start -/
theorem paired_initial : Paired cfg held (initial : State n w) where
  bits _ _ bit := absurd bit (by simp [initial])
  live _ on := absurd on (by simp [initial])
  full _ mem := absurd mem List.not_mem_nil
  paired _ := rfl

theorem Paired.of_eq (h : Paired cfg held s) (flags : s'.flags = s.flags) (comboBuffer : s'.comboBuffer = s.comboBuffer)
    (log : ∀ c, pairing c s'.log = pairing c s.log) : Paired cfg held s' := by
  constructor
  · rw [flags]
    exact h.bits
  · rw [flags]
    exact h.live
  · rw [flags, comboBuffer]
    exact h.full
  · intro c
    rw [flags, log]
    exact h.paired c

/-- An event that passes is no event of a combo. -/
theorem Paired.pass (h : Paired cfg held s) : Paired cfg held { s with log := s.log ++ [.pass e] } := by
  refine h.of_eq rfl rfl fun c => ?_
  change pairing c (s.log ++ [.pass e]) = _
  rw [pairing_append]
  cases pairing c s.log <;> rfl

theorem Paired.amid (h : Paired cfg held s) (chords : Chords cfg)
    (same : ∀ c, (if c ∈ rest then before else after) = held)
    (counts : e.pressed = true → ∀ c ∈ s.comboBuffer, (s.flags c).disabled = false →
      ∀ i, cfg.keyIndex c e.lookup = some i → cfg.isPart s c e i = true) :
    Amid cfg e before after rest s := by
  refine ⟨fun c i bit => ?_, h.live, fun c mem off => ?_, fun c mem off _ => h.full c mem off,
    fun down c _ => counts down c, h.paired⟩
  · rw [same]
    exact h.bits c i bit
  · obtain ⟨i, -, bit⟩ := exists_bit_of_full (h.full c mem off) (chords c) 0
    exact ⟨i, bit⟩

/-- After the loop, or after a gathering -/
theorem Amid.steady (h : Amid cfg e before after [] s) (full : e.pressed = true ∨ s.comboBuffer = []) :
    Paired cfg after s := by
  refine ⟨fun c i bit => ?_, h.live, fun c mem off => ?_, h.paired⟩
  · have held := h.bits c i bit
    rwa [if_neg List.not_mem_nil] at held
  · obtain down | none := full
    · exact h.full c mem off (.inr down)
    · rw [none] at mem
      exact absurd mem List.not_mem_nil

theorem Paired.flushed {fired : List (Fin n)} (h : Paired cfg held s) (chords : Chords cfg)
    (flushed : Flushed cfg s s' fired) : Paired cfg held s' := by
  have nonempty : ∀ c, cfg.keys c ≠ [] := fun c => List.ne_nil_of_length_pos (by have := chords c; omega)
  have up : Amid cfg ⟨(0, 0), false, 0, 0, 0⟩ held held [] s :=
    h.amid chords (fun _ => ite_self _) fun down => absurd down (by decide)
  exact (up.flushed nonempty flushed).steady (.inr flushed.comboBuffer)

/-- **What one step does.** -/
theorem Paired.step {x : World n w} {input : Input} (h : Paired cfg x.held x.state) (inv : Inv cfg [] x.state)
    (chords : Chords cfg) (physical : Physical x input) (ok : PairOk cfg x input) :
    Paired cfg (x.step cfg input).held (x.step cfg input).state := by
  cases input with
  | task now =>
    change Paired cfg x.held (cfg.comboTask now x.state)
    obtain eq | ⟨fired, flushed⟩ := comboTask_cases inv ok now
    · rw [eq]
      exact h
    · exact h.flushed chords flushed
  | event e =>
    change Paired cfg (e.holds x.held) (cfg.step x.state (.event e))
    obtain ⟨eventOk, release, counts⟩ := ok
    obtain ⟨before, between, same⟩ : ∃ before, Between e before (e.holds x.held) ∧ Paired cfg before x.state := by
      cases down : e.pressed with
      | true =>
        have holds : e.holds x.held = Function.update x.held e.key (some e.lookup) := by
          unfold Event.holds
          rw [down, if_pos rfl]
        refine ⟨e.holds x.held, .inl ⟨down, rfl, ?_⟩, fun c i bit => ?_, h.live, h.full, h.paired⟩
        · rw [holds, Function.update_self]
        · obtain ⟨pos, k, held, key⟩ := h.bits c i bit
          refine ⟨pos, k, ?_, key⟩
          rw [holds, Function.update_of_ne]
          · exact held
          · rintro rfl
            rw [Physical, down, held] at physical
            exact absurd physical (by simp)
      | false =>
        refine ⟨x.held, .inr ⟨down, release down, ?_⟩, h⟩
        unfold Event.holds
        rw [down, if_neg (by decide)]
    have start : Amid cfg e before (e.holds x.held) (List.finRange n) x.state :=
      same.amid chords (fun c => if_pos (List.mem_finRange c)) counts
    have lift : e.pressed = true → Paired cfg (e.holds x.held) x.state := by
      intro down
      obtain ⟨-, rfl, -⟩ | ⟨up, -, -⟩ := between
      · exact same
      · exact absurd (down.symm.trans up) (by decide)
    have nonempty : ∀ c, cfg.keys c ≠ [] := fun c => List.ne_nil_of_length_pos (by have := chords c; omega)
    rw [step_event]
    obtain ⟨down, -, eq⟩ | ⟨down, s', flushed, eq⟩ | ⟨down, t, -, amid, -, eq⟩ |
        ⟨t, part, fired, s', -, amid, flushed, -, eq⟩ :=
      processCombo_cases (fun rest t => Amid cfg e before (e.holds x.held) rest t) inv eventOk
        (fun _ _ _ _ _ _ new during change amid => amid.change new between chords eventOk.notEnd during change) start
    · rw [eq]
      exact Paired.pass (s := Config.comboEnable x.state) ((lift down).of_eq rfl rfl fun _ => rfl)
    · rw [eq]
      have off : Paired cfg (e.holds x.held) { x.state with enabled := false } := (lift down).of_eq rfl rfl fun _ => rfl
      exact (off.flushed chords flushed).pass
    · rw [eq]
      obtain ⟨flags, comboBuffer, log, -⟩ := @bufferPress_flags n w cfg e t
      exact (amid.steady (.inl down)).of_eq flags comboBuffer fun c => congrArg (pairing c) log
    · rw [eq]
      have after := (amid.flushed nonempty flushed).steady (.inr flushed.comboBuffer)
      cases part with
      | true => exact after
      | false => exact after.pass

/-- **Presses and releases of a combo are paired**: in every run that meets the conditions, the
events of every combo alternate, the last one is a press as long as the combo is active, and when
all keys are up no combo is active and no bit is set. -/
theorem combos_paired (chords : Chords cfg) {inputs : List Input}
    (physical : Along (World.step cfg) Physical (World.initial : World n w) inputs)
    (ok : Along (World.step cfg) (PairOk cfg) (World.initial : World n w) inputs) :
    let x := inputs.foldl (World.step cfg) (World.initial : World n w)
    (∀ c, pairing c x.state.log = some (x.state.flags c).active) ∧
      ((∀ pos, x.held pos = none) → ∀ c, (x.state.flags c).active = false ∧ (x.state.flags c).state = 0) := by
  have h := Along.invariant (p := fun x input => Physical x input ∧ PairOk cfg x input)
    (fun x => Paired cfg x.held x.state ∧ Inv cfg [] x.state)
    (fun x input h ok => ⟨h.1.step h.2 chords ok.1 ok.2, h.2.step (inputOk ok.2)⟩) ⟨paired_initial, inv_initial⟩
    (physical.and ok)
  refine ⟨h.1.paired, fun up c => ?_⟩
  have none : ∀ i, ((inputs.foldl (World.step cfg) (World.initial : World n w)).state.flags c).state.getLsbD i = false := by
    intro i
    by_contra bit
    obtain ⟨pos, k, held, -⟩ := h.1.bits c i (by simpa using bit)
    rw [up pos] at held
    exact absurd held (by simp)
  constructor
  · by_contra on
    obtain ⟨i, bit⟩ := h.1.live c (by simpa using on)
    exact absurd (bit.symm.trans (none i)) (by decide)
  · apply BitVec.eq_of_getLsbD_eq
    intro i _
    rw [none]
    exact BitVec.getLsbD_zero.symm

theorem combos_paired_chord :
    let x := chord.foldl (World.step (sample nested)) (World.initial : World 3 8)
    (∀ c, pairing c x.state.log = some (x.state.flags c).active) ∧
      ((∀ pos, x.held pos = none) → ∀ c, (x.state.flags c).active = false ∧ (x.state.flags c).state = 0) :=
  combos_paired (by unfold Chords; decide) (by decide) (by decide)

/-- A combo of one key -/
def single : Fin 1 → Combo := ![⟨[4], 41, by decide⟩]

/-- A combo of one key that is tapped stays active. -/
theorem single_key_stuck :
    let taps := [key 4 10 true, key 4 11 false]
    let x := taps.foldl (World.step (sample single)) (World.initial : World 1 8)
    Along (World.step (sample single)) Physical (World.initial : World 1 8) taps ∧ (∀ pos, x.held pos = none) ∧
      x.state.keyBuffer = [] ∧ x.state.comboBuffer = [] ∧ (x.state.flags 0).active = true := by
  refine ⟨by decide, fun pos => ?_, by decide, by decide, by decide⟩
  change Function.update (Function.update (fun _ => none) (0, 4) (some 4)) (0, 4) none pos = none
  by_cases same : pos = (0, 4)
  · rw [same, Function.update_self]
  · rw [Function.update_of_ne same, Function.update_of_ne same]

end QmkFirmware.Combos
