import QmkFirmware.Combos.Code

/-!
# What becomes of a key buffer

`apply_combos` turns the records of the key buffer into ticks and combo events, one
combo after the other, and dumps the buffer. As long as every combo that is applied
has all its keys in the buffer and shares none with the others, each press is either
processed as it was or is a key of the one combo that took it.
-/

namespace QmkFirmware.Combos

variable {n w : Nat}

/-! ## The keys of a combo -/

/-- The loop finds nothing but what it was given, a key, or the end. -/
theorem findKeyIndex_some {keycode : Nat} {keys : List Nat} {count index : Nat} {found : Option Nat}
    (h : findKeyIndex keycode keys count found = some index) :
    found = some index ∨ (∃ i, index = count + i ∧ keys[i]? = some keycode) ∨
      index = count + keys.length ∧ keycode = comboEnd := by
  induction keys generalizing count found with
  | nil =>
    unfold findKeyIndex at h
    split at h
    next last => exact .inr (.inr ⟨(Option.some.inj h).symm, last⟩)
    next => exact .inl h
  | cons key keys ih =>
    unfold findKeyIndex at h
    obtain given | ⟨i, rfl, mem⟩ | ⟨rfl, last⟩ := ih h
    · split at given
      next same => exact .inr (.inl ⟨0, (Option.some.inj given).symm, by simp [same]⟩)
      next => exact .inl given
    · exact .inr (.inl ⟨i + 1, by omega, by simpa using mem⟩)
    · exact .inr (.inr ⟨by simp; omega, last⟩)

/-- A bit mask of all keys has the bits of the keys and no other. -/
theorem allDown_iff {state : BitVec w} {count : Nat} :
    allDown state count = true ↔ count ≤ w ∧ ∀ i, state.getLsbD i = decide (i < count) := by
  unfold allDown
  rw [beq_iff_eq]
  constructor
  · intro h
    have bits : ∀ i, state.getLsbD i = decide (i < count) := by
      intro i
      rw [← BitVec.testBit_toNat, h, Nat.testBit_two_pow_sub_one]
    refine ⟨?_, bits⟩
    by_contra wide
    have top := bits w
    rw [BitVec.getLsbD_of_ge state w (le_refl w)] at top
    simp at top
    omega
  · rintro ⟨-, bits⟩
    apply Nat.eq_of_testBit_eq
    intro i
    rw [BitVec.testBit_toNat, bits, Nat.testBit_two_pow_sub_one]

namespace Config

variable (cfg : Config n)

/-- A keycode other than the end is found as one of the keys. -/
theorem keyIndex_some {c : Fin n} {keycode index : Nat} (h : cfg.keyIndex c keycode = some index)
    (ne : keycode ≠ comboEnd) : (cfg.keys c)[index]? = some keycode := by
  obtain none | ⟨i, rfl, key⟩ | ⟨-, last⟩ := findKeyIndex_some h
  · exact absurd none (by simp)
  · simpa using key
  · exact absurd last ne

theorem keyIndex_lt {c : Fin n} {keycode index : Nat} (h : cfg.keyIndex c keycode = some index)
    (ne : keycode ≠ comboEnd) : index < (cfg.keys c).length :=
  (List.getElem?_eq_some_iff.mp (cfg.keyIndex_some h ne)).1

theorem mem_keys {c : Fin n} {keycode index : Nat} (h : cfg.keyIndex c keycode = some index)
    (ne : keycode ≠ comboEnd) : keycode ∈ cfg.keys c :=
  List.mem_of_getElem? (cfg.keyIndex_some h ne)

/-- Two combos share no key. -/
def Apart (c d : Fin n) : Prop := ∀ key ∈ cfg.keys c, key ∉ cfg.keys d

theorem Apart.symm {cfg : Config n} {c d : Fin n} (h : cfg.Apart c d) : cfg.Apart d c :=
  fun key mem mem' => h key mem' mem

/-- All keys of a combo are among these keycodes. -/
structure Complete (w : Nat) (c : Fin n) (keycodes : List Nat) : Prop where
  width : (cfg.keys c).length ≤ w
  keys : ∀ i < (cfg.keys c).length, ∃ k ∈ keycodes, cfg.keyIndex c k = some i

/-! ## One combo -/

/-- A record with a key of the combo becomes a tick. -/
def tick (c : Fin n) (q : QueuedRecord n) : QueuedRecord n :=
  if (cfg.keyIndex c q.press.lookup).isSome then { q with live := false } else q

@[simp] theorem tick_press (c : Fin n) (q : QueuedRecord n) : (cfg.tick c q).press = q.press := by
  unfold tick
  split <;> rfl

@[simp] theorem tick_combo (c : Fin n) (q : QueuedRecord n) : (cfg.tick c q).combo = q.combo := by
  unfold tick
  split <;> rfl

/-- **What applying a combo does** when all its keys are down or in the buffer: the records up to
its last key become ticks, and that one its event. -/
theorem applyKeys_found {c : Fin n} (width : (cfg.keys c).length ≤ w) {queue : List (QueuedRecord n)}
    (key : ∀ q ∈ queue, q.press.lookup ≠ comboEnd) {state : BitVec w}
    (low : ∀ i, state.getLsbD i = true → i < (cfg.keys c).length)
    (up : allDown state (cfg.keys c).length = false)
    (complete : ∀ i < (cfg.keys c).length, state.getLsbD i = true ∨
      ∃ q ∈ queue, cfg.keyIndex c q.press.lookup = some i) :
    ∃ before last after, queue = before ++ last :: after ∧
      cfg.applyKeys c state queue = (true, before.map (cfg.tick c) ++ { last with combo := some c } :: after) ∧
      (cfg.keyIndex c last.press.lookup).isSome ∧
      ∀ i < (cfg.keys c).length, state.getLsbD i = true ∨
        ∃ q ∈ before ++ [last], cfg.keyIndex c q.press.lookup = some i := by
  induction queue generalizing state with
  | nil =>
    have all : allDown state (cfg.keys c).length = true := by
      rw [allDown_iff]
      refine ⟨width, fun i => ?_⟩
      rw [Bool.eq_iff_iff, decide_eq_true_eq]
      exact ⟨low i, fun lt => (complete i lt).resolve_right (by simp)⟩
    exact absurd all (by simp [up])
  | cons q queue ih =>
    have key' := fun p hp => key p (List.mem_cons_of_mem _ hp)
    cases found : cfg.keyIndex c q.press.lookup with
    | none =>
      obtain ⟨before, last, after, split, applied, isKey, covers⟩ := ih key' low up (by
        intro i lt
        obtain down | ⟨p, mem, eq⟩ := complete i lt
        · exact .inl down
        · obtain rfl | mem := List.mem_cons.mp mem
          · simp [found] at eq
          · exact .inr ⟨p, mem, eq⟩)
      refine ⟨q :: before, last, after, by rw [split]; rfl, ?_, isKey, ?_⟩
      · unfold applyKeys tick
        simp only [found, applied]
        simp [found, tick]
      · intro i lt
        obtain down | ⟨p, mem, eq⟩ := covers i lt
        · exact .inl down
        · exact .inr ⟨p, List.mem_cons_of_mem _ mem, eq⟩
    | some index =>
      have lt := cfg.keyIndex_lt found (key q List.mem_cons_self)
      have bit : ∀ i, (state ||| BitVec.twoPow w index).getLsbD i = (state.getLsbD i || decide (index = i)) := by
        intro i
        rw [BitVec.getLsbD_or, BitVec.getLsbD_twoPow]
        simp [lt.trans_le width]
      cases all : allDown (state ||| BitVec.twoPow w index) (cfg.keys c).length with
      | true =>
        refine ⟨[], q, queue, rfl, ?_, by simp [found], ?_⟩
        · unfold applyKeys
          simp only [found, all, if_true]
          rfl
        · intro i lt'
          have := (allDown_iff.mp all).2 i
          rw [bit, decide_eq_true lt', Bool.or_eq_true, decide_eq_true_eq] at this
          obtain down | rfl := this
          · exact .inl down
          · exact .inr ⟨q, by simp, found⟩
      | false =>
        have carry : ∀ i, (state ||| BitVec.twoPow w index).getLsbD i = true →
            state.getLsbD i = true ∨ cfg.keyIndex c q.press.lookup = some i := by
          intro i down
          rw [bit, Bool.or_eq_true, decide_eq_true_eq] at down
          exact down.imp_right fun (eq : index = i) => eq ▸ found
        obtain ⟨before, last, after, split, applied, isKey, covers⟩ := ih key' (by
            intro i down
            obtain down | eq := carry i down
            · exact low i down
            · rw [found, Option.some_inj] at eq
              exact eq ▸ lt) all (by
            intro i lt'
            rw [bit, Bool.or_eq_true, decide_eq_true_eq]
            obtain down | ⟨p, mem, eq⟩ := complete i lt'
            · exact .inl (.inl down)
            · obtain rfl | mem := List.mem_cons.mp mem
              · rw [found, Option.some_inj] at eq
                exact .inl (.inr eq)
              · exact .inr ⟨p, mem, eq⟩)
        refine ⟨q :: before, last, after, by rw [split]; rfl, ?_, isKey, ?_⟩
        · unfold applyKeys tick
          simp only [found, applied, all]
          simp [found, tick]
        · intro i lt'
          obtain down | ⟨p, mem, eq⟩ := covers i lt'
          · obtain down | eq := carry i down
            · exact .inl down
            · exact .inr ⟨q, by simp, eq⟩
          · exact .inr ⟨p, List.mem_cons_of_mem _ mem, eq⟩

/-! ## One combo after the other -/

/-- A record that is processed as it was -/
def Untouched (q : QueuedRecord n) : Prop := q.live = true ∧ q.combo = none

instance (q : QueuedRecord n) : Decidable (Untouched q) :=
  inferInstanceAs (Decidable (q.live = true ∧ q.combo = none))

/-- The records after some combos were applied. -/
structure Marked (fired : List (Fin n)) (queue : List (QueuedRecord n)) : Prop where
  fate : ∀ q ∈ queue, Untouched q ∨ ∃ c ∈ fired, q.press.lookup ∈ cfg.keys c ∧
    (q.live = true ∧ q.combo = some c ∨ q.live = false ∧ q.combo = none)
  events : (queue.filterMap (·.combo)).Perm fired
  nodup : fired.Nodup
  apart : ∀ c ∈ fired, ∀ d ∈ fired, c ≠ d → cfg.Apart c d
  keys : ∀ c ∈ fired, ∀ key ∈ cfg.keys c, ∃ q ∈ queue, q.press.lookup = key ∧ ¬ Untouched q

theorem marked_nil {queue : List (QueuedRecord n)} (fresh : ∀ q ∈ queue, Untouched q) : cfg.Marked [] queue where
  fate q mem := .inl (fresh q mem)
  events := by
    have none : queue.filterMap (·.combo) = [] := List.filterMap_eq_nil_iff.mpr fun q mem => (fresh q mem).2
    rw [none]
  nodup := List.nodup_nil
  apart c mem := absurd mem List.not_mem_nil
  keys c mem := absurd mem List.not_mem_nil

variable {cfg}

/-- A record with a key of a combo that shares none with those applied is as it was. -/
theorem Marked.untouched {fired : List (Fin n)} {queue : List (QueuedRecord n)} (h : cfg.Marked fired queue)
    {c : Fin n} (apart : ∀ d ∈ fired, cfg.Apart c d) {q : QueuedRecord n} (mem : q ∈ queue)
    (key : q.press.lookup ∈ cfg.keys c) : Untouched q := by
  obtain untouched | ⟨d, fired, key', -⟩ := h.fate q mem
  · exact untouched
  · exact absurd key' (apart d fired _ key)

/-- What applying a combo does to the records. -/
structure Taken (cfg : Config n) (c : Fin n) (queue queue' : List (QueuedRecord n)) : Prop where
  presses : queue'.map (·.press) = queue.map (·.press)
  split : ∃ before last after, queue = before ++ last :: after ∧
    queue' = before.map (cfg.tick c) ++ { last with combo := some c } :: after ∧ last.press.lookup ∈ cfg.keys c
  keys : ∀ key ∈ cfg.keys c, ∃ q ∈ queue', q.press.lookup = key ∧ ¬ Untouched q

theorem touched_tick {c : Fin n} {q : QueuedRecord n} (h : (cfg.keyIndex c q.press.lookup).isSome ∨ ¬ Untouched q) :
    ¬ Untouched (cfg.tick c q) := by
  unfold tick
  split
  next => exact fun untouched => absurd untouched.1 (by simp)
  next no => exact h.resolve_left no

theorem touched_event {c : Fin n} {q : QueuedRecord n} : ¬ Untouched { q with combo := some c } :=
  fun untouched => absurd untouched.2 (by simp)

theorem applyKeys_taken {queue : List (QueuedRecord n)} {c : Fin n} (nonempty : cfg.keys c ≠ [])
    (key : ∀ q ∈ queue, q.press.lookup ≠ comboEnd)
    (complete : cfg.Complete w c (queue.map (·.press.lookup))) :
    ∃ queue', cfg.applyKeys c (0#w) queue = (true, queue') ∧ Taken cfg c queue queue' := by
  have length := List.length_pos_of_ne_nil nonempty
  obtain ⟨before, last, after, split, applied, isKey, covers⟩ :=
    @applyKeys_found n w cfg c complete.width queue key 0#w (by simp) (by
      rw [← Bool.not_eq_true, allDown_iff]
      rintro ⟨-, bits⟩
      simpa [length] using bits 0) (by
      intro i lt
      obtain ⟨k, inQueue, index⟩ := complete.keys i lt
      obtain ⟨q, mem, rfl⟩ := List.mem_map.mp inQueue
      exact .inr ⟨q, mem, index⟩)
  have lastMem : last ∈ queue := by
    rw [split]
    exact List.mem_append_right _ List.mem_cons_self
  obtain ⟨index, lastIndex⟩ := Option.isSome_iff_exists.mp isKey
  refine ⟨_, applied, ?_, ⟨before, last, after, split, rfl, cfg.mem_keys lastIndex (key last lastMem)⟩, ?_⟩
  · rw [split]
    simp [Function.comp_def]
  · intro k inKeys
    obtain ⟨i, lt, eq⟩ := List.mem_iff_getElem.mp inKeys
    obtain ⟨q, mem, index⟩ := (covers i lt).resolve_left (by simp)
    have same : q.press.lookup ≠ comboEnd → q.press.lookup = k := by
      intro ne
      have this := cfg.keyIndex_some index ne
      rw [List.getElem?_eq_getElem lt, Option.some_inj] at this
      exact this.symm.trans eq
    obtain inBefore | isLast := List.mem_append.mp mem
    · have inQueue : q ∈ queue := by
        rw [split]
        exact List.mem_append_left _ inBefore
      refine ⟨cfg.tick c q, List.mem_append_left _ (List.mem_map_of_mem inBefore), ?_, touched_tick (.inl ?_)⟩
      · rw [tick_press]
        exact same (key q inQueue)
      · rw [index]
        rfl
    · obtain rfl := List.mem_singleton.mp isLast
      exact ⟨_, List.mem_append_right _ List.mem_cons_self, same (key q lastMem), touched_event⟩

/-- A record after a combo was applied was there before, and is touched if it was. -/
theorem Taken.carry {c : Fin n} {queue queue' : List (QueuedRecord n)} (h : Taken cfg c queue queue')
    {q : QueuedRecord n} (mem : q ∈ queue) :
    ∃ q' ∈ queue', q'.press = q.press ∧ (¬ Untouched q → ¬ Untouched q') := by
  obtain ⟨before, last, after, rfl, rfl, -⟩ := h.split
  obtain inBefore | inRest := List.mem_append.mp mem
  · exact ⟨cfg.tick c q, List.mem_append_left _ (List.mem_map_of_mem inBefore), cfg.tick_press c q,
      fun touched => touched_tick (.inr touched)⟩
  · obtain rfl | inAfter := List.mem_cons.mp inRest
    · exact ⟨_, List.mem_append_right _ List.mem_cons_self, rfl, fun _ => touched_event⟩
    · exact ⟨q, List.mem_append_right _ (List.mem_cons_of_mem _ inAfter), rfl, id⟩

theorem Taken.fate {c : Fin n} {queue queue' : List (QueuedRecord n)} (h : Taken cfg c queue queue')
    (fresh : ∀ q ∈ queue, q.press.lookup ∈ cfg.keys c → Untouched q)
    (key : ∀ q ∈ queue, q.press.lookup ≠ comboEnd) {q' : QueuedRecord n} (mem : q' ∈ queue') :
    q' ∈ queue ∨ q'.press.lookup ∈ cfg.keys c ∧
      (q'.live = true ∧ q'.combo = some c ∨ q'.live = false ∧ q'.combo = none) := by
  obtain ⟨before, last, after, rfl, rfl, lastKey⟩ := h.split
  obtain inBefore | inRest := List.mem_append.mp mem
  · obtain ⟨q, memQ, rfl⟩ := List.mem_map.mp inBefore
    have inQueue : q ∈ before ++ last :: after := List.mem_append_left _ memQ
    by_cases isKey : (cfg.keyIndex c q.press.lookup).isSome
    · obtain ⟨index, eq⟩ := Option.isSome_iff_exists.mp isKey
      have inKeys := cfg.mem_keys eq (key q inQueue)
      refine .inr ⟨by rwa [tick_press], .inr ⟨?_, ?_⟩⟩
      · unfold tick
        rw [if_pos isKey]
      · rw [tick_combo]
        exact (fresh q inQueue inKeys).2
    · rw [tick, if_neg isKey]
      exact .inl inQueue
  · obtain rfl | inAfter := List.mem_cons.mp inRest
    · have inQueue : last ∈ before ++ last :: after := List.mem_append_right _ List.mem_cons_self
      exact .inr ⟨lastKey, .inl ⟨(fresh last inQueue lastKey).1, rfl⟩⟩
    · exact .inl (List.mem_append_right _ (List.mem_cons_of_mem _ inAfter))

theorem Taken.events {c : Fin n} {queue queue' : List (QueuedRecord n)} (h : Taken cfg c queue queue')
    (fresh : ∀ q ∈ queue, q.press.lookup ∈ cfg.keys c → Untouched q) :
    (queue'.filterMap (·.combo)).Perm (c :: queue.filterMap (·.combo)) := by
  obtain ⟨before, last, after, rfl, rfl, lastKey⟩ := h.split
  have same : (before.map (cfg.tick c)).filterMap (·.combo) = before.filterMap (·.combo) := by
    rw [List.filterMap_map]
    exact congrArg (List.filterMap · before) (funext fun q => cfg.tick_combo c q)
  have none : last.combo = none := (fresh last (List.mem_append_right _ List.mem_cons_self) lastKey).2
  simp only [List.filterMap_append, List.filterMap_cons, none, same]
  exact List.perm_middle

/-- **Applying one more combo**, with all its keys in the buffer and none in common with the
others. -/
theorem Marked.apply {fired : List (Fin n)} {queue : List (QueuedRecord n)} (h : cfg.Marked fired queue) {c : Fin n}
    (new : c ∉ fired) (apart : ∀ d ∈ fired, cfg.Apart c d) (nonempty : cfg.keys c ≠ [])
    (key : ∀ q ∈ queue, q.press.lookup ≠ comboEnd)
    (complete : cfg.Complete w c (queue.map (·.press.lookup))) :
    ∃ queue', cfg.applyKeys c (0#w) queue = (true, queue') ∧ cfg.Marked (c :: fired) queue' ∧
      queue'.map (·.press) = queue.map (·.press) := by
  obtain ⟨queue', applied, taken⟩ := applyKeys_taken nonempty key complete
  have fresh : ∀ q ∈ queue, q.press.lookup ∈ cfg.keys c → Untouched q := fun q mem => h.untouched apart mem
  refine ⟨queue', applied, ⟨?_, ?_, List.nodup_cons.mpr ⟨new, h.nodup⟩, ?_, ?_⟩, taken.presses⟩
  · intro q mem
    obtain old | ⟨inKeys, now⟩ := taken.fate fresh key mem
    · exact (h.fate q old).imp_right fun ⟨d, memD, rest⟩ => ⟨d, List.mem_cons_of_mem _ memD, rest⟩
    · exact .inr ⟨c, List.mem_cons_self, inKeys, now⟩
  · exact (taken.events fresh).trans (h.events.cons c)
  · intro a memA b memB ne
    obtain isA | memA := List.mem_cons.mp memA
    · obtain isB | memB := List.mem_cons.mp memB
      · exact absurd (isA.trans isB.symm) ne
      · exact isA ▸ apart b memB
    · obtain isB | memB := List.mem_cons.mp memB
      · exact isB ▸ (apart a memA).symm
      · exact h.apart a memA b memB ne
  · intro d memD k inKeys
    obtain isC | memD := List.mem_cons.mp memD
    · exact taken.keys k (isC ▸ inKeys)
    · obtain ⟨q, memQ, same, touched⟩ := h.keys d memD k inKeys
      obtain ⟨q', memQ', press, still⟩ := taken.carry memQ
      exact ⟨q', memQ', by rw [press]; exact same, still touched⟩

end Config

/-! ## The dump of the buffer -/

/-- The event that is processed as it was -/
def Out.event? : Out n → Option Event
  | .record e => some e
  | .combo _ _ _ => none

/-- The combo that fires -/
def Out.fired? : Out n → Option (Fin n)
  | .combo c _ true => some c
  | _ => none

/-- What became of the presses that were gathered, each with the combo that took it, if one did:
the others are processed as they were, in order, and the combos that fire took all their keys,
fire once and share no key. -/
structure Fates (cfg : Config n) (fates : List (Event × Option (Fin n))) (out : List (Out n)) : Prop where
  processed : out.filterMap Out.event? = (fates.filter (·.2.isNone)).map Prod.fst
  once : (out.filterMap Out.fired?).Nodup
  taken : ∀ e c, (e, some c) ∈ fates → c ∈ out.filterMap Out.fired? ∧ e.lookup ∈ cfg.keys c
  apart : ∀ c ∈ out.filterMap Out.fired?, ∀ d ∈ out.filterMap Out.fired?, c ≠ d → cfg.Apart c d
  whole : ∀ c ∈ out.filterMap Out.fired?, ∀ key ∈ cfg.keys c, ∃ e, (e, some c) ∈ fates ∧ e.lookup = key

/-- Each of the gathered presses is processed once, or a key of exactly one combo that fired. -/
def Settled (cfg : Config n) (gathered : List Event) (out : List (Out n)) : Prop :=
  ∃ fates, fates.map Prod.fst = gathered ∧ Fates cfg fates out

namespace Config

variable {cfg : Config n}

theorem emit_event (q : QueuedRecord n) :
    (cfg.emit q).bind Out.event? = if Untouched q then some q.press else none := by
  obtain ⟨press, live, combo⟩ := q
  cases live <;> cases combo <;> simp [emit, Untouched, Out.event?]

theorem Marked.emit_fired {fired : List (Fin n)} {queue : List (QueuedRecord n)} (h : cfg.Marked fired queue)
    {q : QueuedRecord n} (mem : q ∈ queue) : (cfg.emit q).bind Out.fired? = q.combo := by
  unfold emit
  obtain ⟨live, none⟩ | ⟨c, -, -, ⟨live, combo⟩ | ⟨live, none⟩⟩ := h.fate q mem
  · simp [live, none, Out.fired?]
  · simp [live, combo, Out.fired?]
  · simp [live, none]

theorem Marked.fired {fired : List (Fin n)} {queue : List (QueuedRecord n)} (h : cfg.Marked fired queue) :
    ((queue.filterMap cfg.emit).filterMap Out.fired?).Perm fired := by
  rw [List.filterMap_filterMap, List.filterMap_congr fun q mem => h.emit_fired mem]
  exact h.events

/-- The combo that took a record -/
def takenBy (cfg : Config n) (fired : List (Fin n)) (q : QueuedRecord n) : Option (Fin n) :=
  if Untouched q then none else fired.find? fun c => (cfg.keys c).contains q.press.lookup

theorem Marked.takenBy_isNone {fired : List (Fin n)} {queue : List (QueuedRecord n)} (h : cfg.Marked fired queue)
    {q : QueuedRecord n} (mem : q ∈ queue) : (cfg.takenBy fired q).isNone = decide (Untouched q) := by
  unfold takenBy
  split
  next untouched => simp [untouched]
  next touched =>
    obtain ⟨c, memC, key, -⟩ := (h.fate q mem).resolve_left touched
    have found : (fired.find? fun c => (cfg.keys c).contains q.press.lookup).isSome := by
      rw [List.find?_isSome]
      exact ⟨c, memC, by simpa using key⟩
    rw [Option.isNone_eq_false_iff.mpr found, decide_eq_false touched]

/-- The combo of a touched record is the one that has its key. -/
theorem Marked.takenBy_eq {fired : List (Fin n)} {queue : List (QueuedRecord n)} (h : cfg.Marked fired queue)
    {q : QueuedRecord n} (touched : ¬ Untouched q) {c : Fin n} (mem : c ∈ fired) (key : q.press.lookup ∈ cfg.keys c) :
    cfg.takenBy fired q = some c := by
  unfold takenBy
  rw [if_neg touched]
  have found : (fired.find? fun c => (cfg.keys c).contains q.press.lookup).isSome := by
    rw [List.find?_isSome]
    exact ⟨c, mem, by simpa using key⟩
  obtain ⟨d, eq⟩ := Option.isSome_iff_exists.mp found
  have keyD : q.press.lookup ∈ cfg.keys d := by simpa using List.find?_some eq
  rw [eq]
  by_contra ne
  exact h.apart d (List.mem_of_find?_eq_some eq) c mem (fun same => ne (congrArg some same)) _ keyD key

/-- **The dump settles what was gathered.** -/
theorem Marked.settled {fired : List (Fin n)} {queue : List (QueuedRecord n)} (h : cfg.Marked fired queue) :
    Settled cfg (queue.map (·.press)) (queue.filterMap cfg.emit) := by
  have mem_fired : ∀ c, c ∈ (queue.filterMap cfg.emit).filterMap Out.fired? ↔ c ∈ fired := fun c => h.fired.mem_iff
  refine ⟨queue.map fun q => (q.press, cfg.takenBy fired q), by simp [Function.comp_def], ?_, ?_, ?_, ?_, ?_⟩
  · rw [List.filterMap_filterMap, List.filterMap_congr fun q _ => emit_event q, List.filter_map, List.map_map]
    rw [← List.filterMap_eq_map, List.filterMap_filter]
    refine List.filterMap_congr fun q mem => ?_
    have none := h.takenBy_isNone mem
    simp only [Function.comp_apply, none, decide_eq_true_eq]
  · exact h.fired.nodup_iff.mpr h.nodup
  · intro e c mem
    obtain ⟨q, memQ, eq⟩ := List.mem_map.mp mem
    obtain ⟨rfl, taken⟩ := Prod.mk.inj eq
    rw [mem_fired]
    unfold takenBy at taken
    split at taken
    · exact absurd taken (by simp)
    · exact ⟨List.mem_of_find?_eq_some taken, by simpa using List.find?_some taken⟩
  · intro c memC d memD
    exact h.apart c ((mem_fired c).mp memC) d ((mem_fired d).mp memD)
  · intro c memC key inKeys
    obtain ⟨q, memQ, rfl, touched⟩ := h.keys c ((mem_fired c).mp memC) key inKeys
    refine ⟨q.press, List.mem_map.mpr ⟨q, memQ, ?_⟩, rfl⟩
    rw [h.takenBy_eq touched ((mem_fired c).mp memC) inKeys]

end Config

end QmkFirmware.Combos
