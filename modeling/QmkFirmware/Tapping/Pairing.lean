import QmkFirmware.Tapping.PerKey

/-!
# Presses and the releases that close them

For every key the records handed out take turns, and a release is a tap or a hold as the press
before it was: the release that makes a key a tap is marked in the buffer, and that of a sequential
tap takes the count of `tapping_key`. A release made up for a sequential tap leaves the key's own
release behind, which is then handed out as that of a hold.
-/

namespace QmkFirmware.Tapping

variable {σ : Type}

/-! ## The records of a key -/

/-- Presses and releases take turns. -/
def Turns (events : List KeyEvent) : Prop := events.IsChain fun a b => a.pressed ≠ b.pressed

instance (events : List KeyEvent) : Decidable (Turns events) := inferInstanceAs (Decidable (List.IsChain _ _))

/-- Presses and releases take turns, and a press comes first. -/
def Alternates (events : List KeyEvent) : Prop := (∀ e ∈ events.head?, e.pressed = true) ∧ Turns events

instance (events : List KeyEvent) : Decidable (Alternates events) := inferInstanceAs (Decidable (_ ∧ _))

/-- The record that follows a press has its interpretation. -/
def Closes (press record : Record) : Prop :=
  press.event.pressed = true → (press.tap.count = 0 ↔ record.tap.count = 0)

instance (press record : Record) : Decidable (Closes press record) := inferInstanceAs (Decidable (_ → _))

/-- All records of a key that were handed out -/
def given (key : KeyPos) (handed : List Handed) : List Record :=
  (handed.map Handed.record).filter fun r => r.event.key == key

/-- The records of a key in a queue -/
def ofKey (key : KeyPos) (queue : List Record) : List Record := queue.filter fun r => r.event.key == key

/-- The last of the records is a press handed out as a tap. -/
def OpenTap (records : List Record) : Prop :=
  ∃ r, records.getLast? = some r ∧ r.event.pressed = true ∧ r.tap.count ≠ 0

/-- The key is down after a sequential tap. -/
def Many (tappingKey : Record) (key : KeyPos) : Prop :=
  tappingKey.Tapped ∧ 1 < tappingKey.tap.count ∧ tappingKey.event.key = key

/-- What was handed out of a key is closed in its kind, and a record that waits is marked if and only if it closes a tap. -/
structure KeyTagged (given : List Record) (many : Prop) (waiting : List Record) : Prop where
  closes : given.IsChain Closes
  marked : OpenTap given → many ∨ ∃ r ∈ waiting.head?, r.tap.count ≠ 0
  opened : ∀ r ∈ waiting.head?, r.tap.count ≠ 0 → OpenTap given
  later : ∀ r ∈ waiting.tail, r.tap.count = 0

/-- Every key is tagged, for the records that wait in a queue. -/
structure Tagged (tappingKey : Record) (handed : List Handed) (queue : List Record) : Prop where
  received : ∀ h ∈ handed, h.synthesised = false
  held : tappingKey.Tapped → OpenTap (given tappingKey.event.key handed)
  keys : ∀ key, key ≠ tickPos → KeyTagged (given key handed) (Many tappingKey key) (ofKey key queue)

/-- What was handed out of a key, the undecided press and what waits in a queue take turns. -/
def TakesTurns (tappingKey : Record) (handed : List Handed) (queue : List Record) : Prop :=
  ∀ key, key ≠ tickPos →
    Turns (keyEvents key (handedEvents handed ++ undecidedEvents tappingKey ++ queue.map Record.event))

section Lists

variable {a b : List KeyEvent} {e : KeyEvent} {key : KeyPos} {handed : List Handed} {r : Record} {queue : List Record}

/-- Before a press there is a release or nothing. -/
theorem Turns.release_before (h : Turns (a ++ e :: b)) (pressed : e.pressed = true) :
    ∀ p ∈ a.getLast?, p.pressed = false := by
  intro p last
  have turn := (List.isChain_append.1 h).2.2 p last e (by simp)
  rw [pressed] at turn
  simpa using turn

/-- After a press there is a release or nothing. -/
theorem Turns.release_after (h : Turns (a ++ e :: b)) (pressed : e.pressed = true) :
    ∀ q ∈ b.head?, q.pressed = false := by
  intro q first
  have turn := (List.isChain_cons.1 (List.isChain_append.1 h).2.1).1 q first
  rw [pressed] at turn
  simpa using turn

@[simp] theorem given_append (more : List Handed) : given key (handed ++ more) = given key handed ++ given key more := by
  simp [given]

theorem given_own {b : Bool} (h : r.event.key = key) : given key [⟨r, b⟩] = [r] := by
  simp [given, h]

theorem given_other {b : Bool} (h : r.event.key ≠ key) : given key [⟨r, b⟩] = [] := by
  simp [given, h]

theorem ofKey_cons_own : ofKey r.event.key (r :: queue) = r :: ofKey r.event.key queue := by
  simp [ofKey]

theorem ofKey_cons_other (h : r.event.key ≠ key) : ofKey key (r :: queue) = ofKey key queue := by
  simp [ofKey, h]

/-- What was handed out are the events received. -/
theorem map_given (received : ∀ h ∈ handed, h.synthesised = false) :
    (given key handed).map Record.event = keyEvents key (handedEvents handed) := by
  have all : (handed.filter fun h => !h.synthesised) = handed := by
    apply List.filter_eq_self.2
    intro h mem
    rw [received h mem]
    rfl
  rw [handedEvents, all, keyEvents, given, List.filter_map, List.filter_map, List.map_map]
  rfl

theorem OpenTap.snoc (pressed : r.event.pressed = true) (tapped : r.tap.count ≠ 0) (l : List Record) : OpenTap (l ++ [r]) :=
  ⟨r, by simp, pressed, tapped⟩

theorem not_openTap_snoc {l : List Record} (h : r.event.pressed = true → r.tap.count = 0) : ¬ OpenTap (l ++ [r]) := by
  rintro ⟨q, last, pressed, tapped⟩
  rw [List.getLast?_concat] at last
  cases last
  exact tapped (h pressed)

theorem not_many_of_single {t : Record} (h : t.Tapped → t.tap.count ≤ 1) : ¬ Many t key := fun m =>
  absurd m.2.1 (Nat.not_lt.2 (h m.1))

end Lists

/-! ## What happens to a key -/

namespace KeyTagged

variable {l waiting : List Record} {many : Prop} {p r : Record}

theorem chain_snoc (h : KeyTagged l many waiting) (closes : ∀ p ∈ l.getLast?, Closes p r) : (l ++ [r]).IsChain Closes := by
  apply h.closes.append (List.isChain_singleton r)
  intro p last q first
  obtain rfl := Option.mem_some.1 first
  exact closes p last

theorem not_openTap (last : ∀ p ∈ l.getLast?, p.event.pressed = false) : ¬ OpenTap l := by
  rintro ⟨p, is, pressed, -⟩
  exact absurd (pressed.symm.trans (last p is)) (by decide)

/-- After a press there is nothing to close. -/
theorem closes_release (last : ∀ p ∈ l.getLast?, p.event.pressed = false) : ∀ p ∈ l.getLast?, Closes p r := by
  intro p mem pressed
  exact absurd (pressed.symm.trans (last p mem)) (by decide)

/-- The release that waits first closes the press, unless the key is down after a sequential tap. -/
theorem release (h : KeyTagged l many (r :: waiting)) (single : ¬ many) (up : r.event.pressed = false)
    (many' : Prop) : KeyTagged (l ++ [r]) many' waiting := by
  have closed : ¬ OpenTap (l ++ [r]) := not_openTap_snoc fun pressed => absurd (pressed.symm.trans up) (by decide)
  constructor
  · apply h.chain_snoc
    intro p last pressed
    constructor
    · intro zero
      by_contra tapped
      obtain ⟨q, last', -, tapped'⟩ := h.opened r rfl tapped
      obtain rfl := Option.mem_unique last last'
      exact tapped' zero
    · intro zero
      by_contra tapped
      rcases h.marked ⟨p, last, pressed, tapped⟩ with many | ⟨q, first, marked⟩
      · exact single many
      · obtain rfl := Option.mem_some.1 first
        exact marked zero
  · exact fun isOpen => absurd isOpen closed
  · exact fun q first marked => absurd (h.later q (List.mem_of_mem_head? first)) marked
  · exact fun q mem => h.later q (List.mem_of_mem_tail mem)

/-- The release of a key that is down as a tap takes its count. -/
theorem tapRelease (h : KeyTagged l many (r :: waiting)) (tap : OpenTap l) (up : p.event.pressed = false)
    (tapped : p.tap.count ≠ 0) (many' : Prop) : KeyTagged (l ++ [p]) many' waiting := by
  constructor
  · apply h.chain_snoc
    intro q last _
    obtain ⟨q', last', -, tapped'⟩ := tap
    obtain rfl := Option.mem_unique last last'
    exact iff_of_false tapped' tapped
  · exact fun isOpen => absurd isOpen (not_openTap_snoc fun pressed => absurd (pressed.symm.trans up) (by decide))
  · exact fun q first marked => absurd (h.later q (List.mem_of_mem_head? first)) marked
  · exact fun q mem => h.later q (List.mem_of_mem_tail mem)

/-- A press comes to be decided. -/
theorem begins (h : KeyTagged l many (r :: waiting)) (last : ∀ p ∈ l.getLast?, p.event.pressed = false) (many' : Prop) :
    KeyTagged l many' waiting := by
  constructor
  · exact h.closes
  · exact fun isOpen => absurd isOpen (not_openTap last)
  · exact fun q first marked => absurd (h.later q (List.mem_of_mem_head? first)) marked
  · exact fun q mem => h.later q (List.mem_of_mem_tail mem)

/-- A press is handed out as that of a hold. -/
theorem hold (h : KeyTagged l many waiting) (last : ∀ p ∈ l.getLast?, p.event.pressed = false) (zero : p.tap.count = 0)
    (many' : Prop) : KeyTagged (l ++ [p]) many' waiting := by
  constructor
  · exact h.chain_snoc (closes_release last)
  · exact fun isOpen => absurd isOpen (not_openTap_snoc fun _ => zero)
  · exact fun q first marked => absurd (h.opened q first marked) (not_openTap last)
  · exact h.later

/-- A press is handed out as that of a tap, and the release that waits first is marked. -/
theorem tap (h : KeyTagged l many (r :: waiting)) (last : ∀ p ∈ l.getLast?, p.event.pressed = false) (down : p.event.pressed = true)
    (tapped : p.tap.count ≠ 0) {q : Record} (marked : q.tap.count ≠ 0) (many' : Prop) :
    KeyTagged (l ++ [p]) many' (q :: waiting) := by
  constructor
  · exact h.chain_snoc (closes_release last)
  · exact fun _ => .inr ⟨q, rfl, marked⟩
  · exact fun _ _ _ => .snoc down tapped l
  · exact h.later

/-- A press is handed out as that of a sequential tap. -/
theorem sequential (h : KeyTagged l many (r :: waiting)) (last : ∀ p ∈ l.getLast?, p.event.pressed = false)
    (down : p.event.pressed = true) (tapped : p.tap.count ≠ 0) {many' : Prop} (isMany : many') :
    KeyTagged (l ++ [p]) many' waiting := by
  constructor
  · exact h.chain_snoc (closes_release last)
  · exact fun _ => .inl isMany
  · exact fun _ _ _ => .snoc down tapped l
  · exact fun q mem => h.later q (List.mem_of_mem_tail mem)

theorem congr (h : KeyTagged l many waiting) {many' : Prop} (same : many → many') : KeyTagged l many' waiting :=
  ⟨h.closes, fun isOpen => (h.marked isOpen).imp_left same, h.opened, h.later⟩

end KeyTagged

section Turns

variable {tappingKey tappingKey' x r : Record} {handed : List Handed} {queue rest rest' : List Record} {key : KeyPos}

theorem key_ne_tickPos {event : KeyEvent} (h : event.isEvent = true) : event.key ≠ tickPos := by
  intro tick
  simp [KeyEvent.isEvent, KeyEvent.isNoEvent, tick] at h

theorem TakesTurns.split (h : TakesTurns tappingKey handed queue) (received : ∀ h ∈ handed, h.synthesised = false)
    (ne : key ≠ tickPos) :
    Turns ((given key handed).map Record.event ++
      (keyEvents key (undecidedEvents tappingKey) ++ (ofKey key queue).map Record.event)) := by
  have turns := h key ne
  rw [keyEvents_append, keyEvents_append, ← map_given received, List.append_assoc] at turns
  convert turns using 3
  rw [keyEvents, List.filter_map]
  rfl

theorem TakesTurns.released (h : TakesTurns tappingKey handed (x :: rest)) (received : ∀ h ∈ handed, h.synthesised = false)
    (ne : x.event.key ≠ tickPos) (idle : keyEvents x.event.key (undecidedEvents tappingKey) = [])
    (pressed : x.event.pressed = true) : ∀ p ∈ (given x.event.key handed).getLast?, p.event.pressed = false := by
  have turns := h.split received ne
  rw [idle, List.nil_append, ofKey_cons_own, List.map_cons] at turns
  intro p last
  apply turns.release_before pressed
  rw [List.getLast?_map, Option.mem_def.1 last]
  rfl

/-- The undecided press comes after a release. -/
theorem TakesTurns.undecided (h : TakesTurns tappingKey handed queue) (received : ∀ h ∈ handed, h.synthesised = false)
    (undecided : tappingKey.Undecided) : ∀ p ∈ (given tappingKey.event.key handed).getLast?, p.event.pressed = false := by
  have turns := h.split received (key_ne_tickPos undecided.1)
  have own : keyEvents tappingKey.event.key [tappingKey.event] = [tappingKey.event] := by simp [keyEvents]
  rw [undecidedEvents_of_undecided undecided, own, List.singleton_append] at turns
  intro p last
  apply turns.release_before undecided.2.1
  rw [List.getLast?_map, Option.mem_def.1 last]
  rfl

/-- What waits of the undecided key begins with a release. -/
theorem TakesTurns.waiting (h : TakesTurns tappingKey handed queue) (received : ∀ h ∈ handed, h.synthesised = false)
    (undecided : tappingKey.Undecided) : ∀ r ∈ (ofKey tappingKey.event.key queue).head?, r.event.pressed = false := by
  have turns := h.split received (key_ne_tickPos undecided.1)
  have own : keyEvents tappingKey.event.key [tappingKey.event] = [tappingKey.event] := by simp [keyEvents]
  rw [undecidedEvents_of_undecided undecided, own, List.singleton_append] at turns
  intro r first
  apply turns.release_after undecided.2.1
  rw [List.head?_map, Option.mem_def.1 first]
  rfl

/-- The first record of the queue comes to be decided. -/
theorem TakesTurns.begins (h : TakesTurns tappingKey handed (x :: rest)) (decided : ¬ tappingKey.Undecided)
    (undecided : x.Undecided) : TakesTurns x handed rest := by
  intro key ne
  have turns := h key ne
  rw [undecidedEvents_of_decided decided, List.append_nil, List.map_cons, keyEvents_append, keyEvents_cons] at turns
  rw [undecidedEvents_of_undecided undecided, keyEvents_append, keyEvents_append, List.append_assoc]
  exact turns

/-- A record is handed out for the first one of the queue. -/
theorem Tagged.give (h : Tagged tappingKey handed (x :: rest)) (same : r.event.key = x.event.key)
    (held : tappingKey'.Tapped → OpenTap (given tappingKey'.event.key (handed ++ [⟨r, false⟩])))
    (others : ∀ key, key ≠ x.event.key → Many tappingKey key → Many tappingKey' key)
    (kept : ∀ key, key ≠ x.event.key → ofKey key rest' = ofKey key rest)
    (own : x.event.key ≠ tickPos → KeyTagged (given x.event.key handed) (Many tappingKey x.event.key) (x :: ofKey x.event.key rest) →
      KeyTagged (given x.event.key handed ++ [r]) (Many tappingKey' x.event.key) (ofKey x.event.key rest')) :
    Tagged tappingKey' (handed ++ [⟨r, false⟩]) rest' := by
  constructor
  · intro h' mem
    rcases List.mem_append.1 mem with mem | mem
    · exact h.received h' mem
    · rw [List.mem_singleton.1 mem]
  · exact held
  · intro key ne
    have here := h.keys key ne
    rw [given_append]
    by_cases hk : key = x.event.key
    · subst hk
      rw [ofKey_cons_own] at here
      rw [given_own same]
      exact own ne here
    · rw [ofKey_cons_other (Ne.symm hk)] at here
      rw [given_other (fun e => hk (e.symm.trans same)), List.append_nil, kept key hk]
      exact here.congr (others key hk)

/-- The first record of the queue becomes the tapping key. -/
theorem Tagged.begins (h : Tagged tappingKey handed (x :: rest)) (undecided : x.Undecided)
    (single : ∀ key, ¬ Many tappingKey key)
    (last : ∀ p ∈ (given x.event.key handed).getLast?, p.event.pressed = false) : Tagged x handed rest := by
  constructor
  · exact h.received
  · exact fun tapped => absurd undecided.2.2 tapped.2.2
  · intro key ne
    have here := h.keys key ne
    by_cases hk : key = x.event.key
    · subst hk
      rw [ofKey_cons_own] at here
      exact here.begins last _
    · rw [ofKey_cons_other (Ne.symm hk)] at here
      exact here.congr fun many => absurd many (single key)

/-- The first record of the queue is handed out as it is. -/
theorem Tagged.direct (h : Tagged tappingKey handed (x :: rest)) (turns : TakesTurns tappingKey handed (x :: rest))
    (fresh : x.Fresh) (idle : keyEvents x.event.key (undecidedEvents tappingKey) = [])
    (other : tappingKey.Tapped → x.event.key = tappingKey.event.key → x.event.pressed = true) (b : Bool) :
    Tagged (tappingKey.withInterrupted b) (handed ++ [⟨x, false⟩]) rest := by
  have released (ne : x.event.key ≠ tickPos) := turns.released h.received ne idle
  have apart : tappingKey.Tapped → x.event.key ≠ tappingKey.event.key := by
    intro tapped same
    obtain ⟨p, last, pressed, -⟩ := h.held tapped
    rw [← same] at last
    have up := released (same ▸ key_ne_tickPos tapped.1) (other tapped same) p last
    exact absurd (pressed.symm.trans up) (by decide)
  apply h.give rfl
  · intro tapped
    have none : given tappingKey.event.key [⟨x, false⟩] = [] := given_other (apart tapped)
    change OpenTap (given tappingKey.event.key _)
    rw [given_append, none, List.append_nil]
    exact h.held tapped
  · exact fun key _ many => many
  · exact fun _ _ => rfl
  · intro ne own
    cases down : x.event.pressed with
    | true =>
      have last := released ne down
      exact (own.begins last (Many tappingKey x.event.key)).hold last (by rw [fresh down]) _
    | false =>
      apply own.release _ down
      intro many
      exact apart many.1 many.2.2.symm

/-- A sequential tap is handed out. -/
theorem Tagged.sequential (h : Tagged tappingKey handed (x :: rest)) (turns : TakesTurns tappingKey handed (x :: rest))
    (up : ¬ tappingKey.Tapped) (decided : ¬ tappingKey.Undecided) (isEvent : x.event.isEvent = true)
    (pressed : x.event.pressed = true) {count : Nat} (many : 1 < count) (hr : r = { x with tap := ⟨false, count⟩ }) :
    Tagged r (handed ++ [⟨r, false⟩]) rest := by
  have idle : keyEvents x.event.key (undecidedEvents tappingKey) = [] := by
    rw [undecidedEvents_of_decided decided, keyEvents_nil]
  have last := turns.released h.received (key_ne_tickPos isEvent) idle pressed
  have same : r.event = x.event := by rw [hr]
  have down : r.event.pressed = true := by rw [same, pressed]
  have isMany : 1 < r.tap.count := by
    rw [hr]
    exact many
  have tapped : r.tap.count ≠ 0 := Nat.ne_of_gt (Nat.lt_of_succ_lt isMany)
  apply h.give (by rw [same])
  · intro _
    rw [given_append, given_own rfl]
    exact .snoc down tapped _
  · exact fun key _ many => absurd many.1 up
  · exact fun _ _ => rfl
  · intro _ own
    exact own.sequential last down tapped ⟨⟨same ▸ isEvent, down, tapped⟩, isMany, by rw [same]⟩

/-- The release of the tapped key is handed out with its count. -/
theorem Tagged.tapRelease (h : Tagged tappingKey handed (x :: rest)) (tapped : tappingKey.Tapped)
    (own : x.event.key = tappingKey.event.key) (released : x.event.pressed = false) (up : ¬ tappingKey'.Tapped) :
    Tagged tappingKey' (handed ++ [⟨{ x with tap := tappingKey.tap }, false⟩]) rest := by
  apply h.give (r := { x with tap := tappingKey.tap }) rfl
  · exact fun tapped' => absurd tapped' up
  · intro key ne many
    exact absurd (many.2.2.symm.trans own.symm) ne
  · exact fun _ _ => rfl
  · intro _ here
    apply here.tapRelease (p := { x with tap := tappingKey.tap }) _ released tapped.2.2
    rw [own]
    exact h.held tapped

/-- The undecided press is handed out as that of a hold. -/
theorem Tagged.hold (h : Tagged tappingKey handed queue) (undecided : tappingKey.Undecided)
    (last : ∀ p ∈ (given tappingKey.event.key handed).getLast?, p.event.pressed = false) (b : Bool) :
    Tagged .empty (handed ++ [⟨tappingKey.withInterrupted b, false⟩]) queue := by
  have none : ∀ key, ¬ Many tappingKey key := fun key => not_many_of_single fun tapped => absurd undecided.2.2 tapped.2.2
  constructor
  · intro h' mem
    rcases List.mem_append.1 mem with mem | mem
    · exact h.received h' mem
    · rw [List.mem_singleton.1 mem]
  · exact fun tapped => absurd tapped Record.empty_not_tapped
  · intro key ne
    have here := h.keys key ne
    rw [given_append]
    by_cases hk : key = tappingKey.event.key
    · subst hk
      have own : given tappingKey.event.key [⟨tappingKey.withInterrupted b, false⟩] = [tappingKey.withInterrupted b] :=
        given_own rfl
      rw [own]
      exact here.hold (p := tappingKey.withInterrupted b) last undecided.2.2 _
    · rw [given_other (r := tappingKey.withInterrupted b) (Ne.symm hk), List.append_nil]
      exact here.congr fun many => absurd many (none key)

/-- The undecided press is handed out as that of a tap, and the release that waits first is marked. The tapping key is left
a tap as it is, or none any more. -/
theorem Tagged.tap (h : Tagged tappingKey handed queue) (undecided : tappingKey.Undecided)
    (left : tappingKey'.Tapped → tappingKey' = tappingKey.withCount 1)
    (last : ∀ p ∈ (given tappingKey.event.key handed).getLast?, p.event.pressed = false) {waiting : List Record}
    (first : ofKey tappingKey.event.key queue = r :: waiting) (marked : x.tap.count ≠ 0)
    (first' : ofKey tappingKey.event.key rest = x :: waiting)
    (kept : ∀ key, key ≠ tappingKey.event.key → ofKey key rest = ofKey key queue) :
    Tagged tappingKey' (handed ++ [⟨tappingKey.withCount 1, false⟩]) rest := by
  have none : ∀ key, ¬ Many tappingKey key := fun key => not_many_of_single fun tapped => absurd undecided.2.2 tapped.2.2
  have down : (tappingKey.withCount 1).event.pressed = true := undecided.2.1
  constructor
  · intro h' mem
    rcases List.mem_append.1 mem with mem | mem
    · exact h.received h' mem
    · rw [List.mem_singleton.1 mem]
  · intro tapped
    rw [left tapped, given_append, given_own rfl]
    exact .snoc down (by simp) _
  · intro key ne
    have here := h.keys key ne
    rw [given_append]
    by_cases hk : key = tappingKey.event.key
    · subst hk
      have own : given tappingKey.event.key [⟨tappingKey.withCount 1, false⟩] = [tappingKey.withCount 1] := given_own rfl
      rw [own, first']
      rw [first] at here
      exact here.tap last down (by simp) marked _
    · rw [given_other (r := tappingKey.withCount 1) (Ne.symm hk), List.append_nil, kept key hk]
      exact here.congr fun many => absurd many (none key)

/-- The tapping key is given up, or interrupted. -/
theorem Tagged.tappingKey_congr (h : Tagged tappingKey handed queue)
    (held : tappingKey'.Tapped → tappingKey.Tapped ∧ tappingKey'.event.key = tappingKey.event.key)
    (many : ∀ key, Many tappingKey key → Many tappingKey' key) : Tagged tappingKey' handed queue := by
  constructor
  · exact h.received
  · intro tapped
    obtain ⟨before, same⟩ := held tapped
    rw [same]
    exact h.held before
  · exact fun key ne => (h.keys key ne).congr (many key)

/-- Only what waits of each key matters. -/
theorem Tagged.queue_congr (h : Tagged tappingKey handed queue) (same : ∀ key, key ≠ tickPos → ofKey key rest = ofKey key queue) :
    Tagged tappingKey handed rest := by
  refine ⟨h.received, h.held, fun key ne => ?_⟩
  rw [same key ne]
  exact h.keys key ne

end Turns

/-! ## One call -/

section Calls

variable {env : Env σ} {s t u : Engine σ} {x y : Record} {queue rest rest' : List Record}

/-- A tap-hold key is pressed while another one is down after a sequential tap: its release is made up. -/
def MakesUp (env : Env σ) (s : Engine σ) (x : Record) : Prop :=
  s.tappingKey.Tapped ∧ 1 < s.tappingKey.tap.count ∧ x.event.pressed = true ∧ isTapRecord env s x = true

instance (env : Env σ) (s : Engine σ) (x : Record) : Decidable (MakesUp env s x) := inferInstanceAs (Decidable (_ ∧ _))

/-- The press of a sequential tap ends a one-shot layer: `process_action` writes `pressed = false` into the record that becomes
the tapping key, which takes the key for released. -/
def EndsOneshot (env : Env σ) (s : Engine σ) (x : Record) : Prop :=
  ∃ y ∈ sequentialTap env s x, releases env s.keyboard y = true

instance (env : Env σ) (s : Engine σ) (x : Record) : Decidable (EndsOneshot env s x) :=
  inferInstanceAs (Decidable (∃ y ∈ sequentialTap env s x, _))

/-- The release of the undecided key makes it a tap as it comes in or is replayed. -/
def MakesTap (env : Env σ) (s : Engine σ) (x : Record) : Prop :=
  s.tappingKey.Undecided ∧ x.event.key = s.tappingKey.event.key ∧ x.event.pressed = false ∧
    (withinTappingTerm env s x.event || maybeRetroShifting env s x.event) = true

instance (env : Env σ) (s : Engine σ) (x : Record) : Decidable (MakesTap env s x) := inferInstanceAs (Decidable (_ ∧ _))

/-- The press of such a tap ends a one-shot layer, and the release that `process_action` makes of it clears the tapping key,
that of a swap-hands key. -/
def ClearsTap (env : Env σ) (s : Engine σ) (x : Record) : Prop :=
  MakesTap env s x ∧ resets env (env.retroShiftSwapTimes s.keyboard) (s.tappingKey.withCount 1) = true

instance (env : Env σ) (s : Engine σ) (x : Record) : Decidable (ClearsTap env s x) := inferInstanceAs (Decidable (_ ∧ _))

/-- The call leaves a release of a tap its interpretation: none is made up, and no tap is lost to what `process_action`
writes into the tapping key. -/
def KeepsTap (env : Env σ) (s : Engine σ) (x : Record) : Prop :=
  ¬ MakesUp env s x ∧ ¬ EndsOneshot env s x ∧ ¬ ClearsTap env s x

instance (env : Env σ) (s : Engine σ) (x : Record) : Decidable (KeepsTap env s x) := inferInstanceAs (Decidable (_ ∧ _))

/-- The releases of a key -/
def isReleaseOf (key : KeyPos) (r : Record) : Bool := r.event.key == key && !r.event.pressed

/-- If the scan of the call finds a release within the term, the first one of the key is. -/
def ScansFirst (env : Env σ) (s : Engine σ) (x : Record) : Bool :=
  (scanFrom env s x).all fun u => !u.waitingBuffer.any (scanned env u) ||
    (u.waitingBuffer.find? (isReleaseOf x.event.key)).all (scanned env u)

/-- The record is left in the buffer: the engine may have decided on the tapping key, and nothing else. -/
theorem Call.left_tagged (h : Call env s x (some y, t)) (notTap : ¬ MakesTap env s x)
    (tagged : Tagged s.tappingKey s.handed queue) (turns : TakesTurns s.tappingKey s.handed queue) :
    y = x ∧ t.waitingBuffer = s.waitingBuffer ∧ Tagged t.tappingKey t.handed queue := by
  cases h with
  | firstTap undecided own released inTerm => exact absurd ⟨undecided, own, released, inTerm⟩ notTap
  | ended undecided b =>
    exact ⟨rfl, rfl, tagged.hold undecided (turns.undecided tagged.received undecided) b⟩
  | waits undecided b =>
    refine ⟨rfl, rfl, tagged.tappingKey_congr ?_ ?_⟩
    · exact fun tapped => absurd undecided.2.2 tapped.2.2
    · exact fun key many => absurd undecided.2.2 many.1.2.2
  | expired up =>
    refine ⟨rfl, rfl, tagged.tappingKey_congr ?_ ?_⟩
    · exact fun tapped => absurd tapped Record.empty_not_tapped
    · intro key many
      simp [Engine.isTappingReleased, many.1.2.1] at up

/-- A scan marks the first release of the key. -/
theorem markFirst_ofKey {p : Record → Bool} {key : KeyPos} (of : ∀ r, p r = true → isReleaseOf key r = true)
    (head : ∀ r ∈ (ofKey key queue).head?, r.event.pressed = false)
    (first : ((queue.find? (isReleaseOf key)).all p) = true) (marked : markFirst p queue = some rest) :
    ∃ r waiting, ofKey key queue = r :: waiting ∧ ofKey key rest = r.withCount 1 :: waiting ∧
      ∀ other, other ≠ key → ofKey other rest = ofKey other queue := by
  induction queue generalizing rest with
  | nil => cases marked
  | cons q queue ih =>
    rw [markFirst] at marked
    by_cases own : q.event.key = key
    · subst own
      rw [ofKey_cons_own] at head ⊢
      have found : isReleaseOf q.event.key q = true := by
        simp [isReleaseOf, head q rfl]
      rw [List.find?_cons_of_pos found] at first
      rw [if_pos (by simpa using first)] at marked
      cases marked
      refine ⟨q, ofKey q.event.key queue, rfl, ofKey_cons_own (r := q.withCount 1), fun other ne => ?_⟩
      rw [ofKey_cons_other ne.symm]
      exact ofKey_cons_other (r := q.withCount 1) ne.symm
    · have notFound : ¬ isReleaseOf key q = true := by
        simp [isReleaseOf, own]
      rw [List.find?_cons_of_neg notFound] at first
      rw [if_neg fun is => notFound (of q is)] at marked
      obtain ⟨rest', marked', rfl⟩ := Option.map_eq_some_iff.1 marked
      rw [ofKey_cons_other own] at head ⊢
      obtain ⟨r, waiting, before, after, kept⟩ := ih head first marked'
      refine ⟨r, waiting, before, (ofKey_cons_other own).trans after, fun other ne => ?_⟩
      by_cases same : q.event.key = other
      · subst same
        rw [ofKey_cons_own, ofKey_cons_own, kept _ ne]
      · rw [ofKey_cons_other same, ofKey_cons_other same, kept other ne]

theorem any_of_markFirst {p : Record → Bool} (marked : markFirst p queue = some rest) : queue.any p = true := by
  induction queue generalizing rest with
  | nil => cases marked
  | cons q queue ih =>
    rw [markFirst] at marked
    split at marked
    case isTrue is => simp [is]
    case isFalse =>
      obtain ⟨rest', marked', -⟩ := Option.map_eq_some_iff.1 marked
      rw [List.any_cons, ih marked', Bool.or_true]

theorem markFirst_append {p : Record → Bool} {front : List Record} (passed : ∀ r ∈ front, ¬ p r = true) :
    markFirst p (front ++ queue) = (markFirst p queue).map (front ++ ·) := by
  induction front with
  | nil => simp
  | cons q front ih =>
    rw [List.cons_append, markFirst, if_neg (passed q List.mem_cons_self), ih fun r mem => passed r (List.mem_cons_of_mem _ mem),
      Option.map_map]
    rfl

/-- The state of a scan differs in the tapping key only. -/
theorem scanFrom_fields (h : scanFrom env s x = some u) (calm : ¬ MakesUp env s x) :
    u.tappingKey = x ∧ u.handed = s.handed ∧ u.waitingBuffer = s.waitingBuffer ∧ x.event.pressed = true ∧
      x.event.isEvent = true ∧ ¬ s.tappingKey.Undecided ∧ ∀ key, ¬ Many s.tappingKey key := by
  obtain ⟨tk, decided, -, -⟩ := processTapping_scan h
  rw [scanFrom] at h
  split at h
  case isFalse => cases h
  case isTrue tap =>
    rw [Bool.and_eq_true] at tap
    have isEvent : x.event.isEvent = true := by
      have record := tap.2
      rw [isTapRecord, Bool.and_eq_true] at record
      exact record.1
    have single : ∀ key, ¬ Many s.tappingKey key := fun key many => calm ⟨many.1, many.2.1, tap⟩
    refine ⟨tk, ?_, ?_, tap.1, isEvent, decided, single⟩
    all_goals
      split at h
      · split at h
        · cases h
        · rename_i pressed pos
          rw [Engine.isTappingPressed, Bool.and_eq_true] at pressed
          rw [if_neg fun many => single _ ⟨⟨pressed.1, pressed.2, pos⟩, many, rfl⟩] at h
          cases h
          rfl
      · split at h
        · split at h <;> cases h
          rfl
        · cases h
          rfl

theorem asksQuickTap_of_none {o : Engine σ} (call : processTapping env s x = (none, o)) (decided : ¬ s.tappingKey.Undecided)
    (pressed : x.event.pressed = true) (tap : isTapRecord env s x = true) (none : scanFrom env s x = none) :
    asksQuickTap env s x = true := by
  have up : ¬ s.isTappingPressed = true := by
    intro down
    rw [scanFrom, pressed, tap, Bool.and_self, if_pos rfl, if_pos down] at none
    rw [Engine.isTappingPressed, Bool.and_eq_true] at down
    rw [if_neg fun zero => decided ⟨down.1, down.2, zero⟩] at none
    split at none <;> cases none
  have released : s.isTappingReleased = true := by
    by_contra idle
    rw [scanFrom, pressed, tap, Bool.and_self, if_pos rfl, if_neg up, if_neg idle] at none
    cases none
  have inTerm : (withinTappingTerm env s x.event || maybeRetroShifting env s x.event) = true := by
    by_contra expired
    rw [processTapping, if_neg up, if_pos released, processReleased, if_neg expired] at call
    cases call
  have own : s.isTappingKey x.event.key = true := by
    by_contra other
    rw [scanFrom, pressed, tap, Bool.and_self, if_pos rfl, if_neg up, if_pos released, if_pos (by simp [inTerm, other])] at none
    cases none
  simp [asksQuickTap, released, pressed, own, inTerm]

/-- A scan hands out the undecided press if it finds its release, and marks the release. -/
theorem scan_tagged (front : List Record) (isFront : ∀ r ∈ front, r.event.pressed = true) (wb : s.waitingBuffer = front ++ rest)
    (undecided : s.tappingKey.Undecided)
    (first : (!s.waitingBuffer.any (scanned env s) ||
      (s.waitingBuffer.find? (isReleaseOf s.tappingKey.event.key)).all (scanned env s)) = true)
    (tagged : Tagged s.tappingKey s.handed rest) (turns : TakesTurns s.tappingKey s.handed rest) :
    ∃ rest', (waitingBufferScanTap env s).waitingBuffer = front ++ rest' ∧
      Tagged (waitingBufferScanTap env s).tappingKey (waitingBufferScanTap env s).handed rest' := by
  rcases waitingBufferScanTap_cases env s with same | ⟨buffer, -, -, found, same⟩
  · rw [same]
    exact ⟨rest, wb, tagged⟩
  · rw [same]
    have of : ∀ r, scanned env s r = true → isReleaseOf s.tappingKey.event.key r = true := by
      intro r is
      simp only [scanned, Bool.and_eq_true, Bool.not_eq_true'] at is
      rw [isReleaseOf, is.1.2, (isTappingKey_iff r.event.key undecided.1).1 is.1.1]
      simp
    -- the presses before the queue are passed over
    have passed : ∀ r ∈ front, ¬ isReleaseOf s.tappingKey.event.key r = true := by
      intro r mem
      simp [isReleaseOf, isFront r mem]
    rw [any_of_markFirst found, Bool.not_true, Bool.false_or, wb, List.find?_append,
      List.find?_eq_none.2 passed, Option.none_or] at first
    rw [wb, markFirst_append fun r mem is => passed r mem (of r is)] at found
    obtain ⟨rest', found', rfl⟩ := Option.map_eq_some_iff.1 found
    obtain ⟨r, waiting, before, after, kept⟩ :=
      markFirst_ofKey of (turns.waiting tagged.received undecided) first found'
    refine ⟨rest', rfl, ?_⟩
    exact tagged.tap undecided written_tapped (turns.undecided tagged.received undecided) before (by simp) after kept

/-- The release that makes the undecided key a tap is left in the buffer, and marked. -/
theorem firstTap_tagged (makes : MakesTap env s x) (uncancelled : ¬ CancelsTap env s x) (kept : ¬ ClearsTap env s x) (call : processTapping env s x = (some y, t))
    (tagged : Tagged s.tappingKey s.handed (x :: rest)) (turns : TakesTurns s.tappingKey s.handed (x :: rest)) :
    y.event = x.event ∧ t.waitingBuffer = s.waitingBuffer ∧ Tagged t.tappingKey t.handed (y :: rest) := by
  have unreset : resets env (env.retroShiftSwapTimes s.keyboard) (s.tappingKey.withCount 1) = false := by
    rw [← Bool.not_eq_true]
    exact fun c => kept ⟨makes, c⟩
  obtain ⟨undecided, own, released, inTerm⟩ := makes
  have calm : cancels env (env.retroShiftSwapTimes s.keyboard) (s.tappingKey.withCount 1) = false := by
    rw [← Bool.not_eq_true]
    exact fun c => uncancelled ⟨undecided, own, released, inTerm, c⟩
  have down : s.isTappingPressed = true := by
    rw [Engine.isTappingPressed, undecided.1, undecided.2.1, Bool.and_self]
  have isOwn : (s.isTappingKey x.event.key && !x.event.pressed) = true := by
    rw [(isTappingKey_iff x.event.key undecided.1).2 own, released]
    rfl
  rw [processTapping, if_pos down, if_pos inTerm, if_pos undecided.2.2, processUndecided] at call
  simp only [if_pos isOwn] at call
  -- the release takes the tap that is left in the tapping key
  have result : (some { x with tap := (written env (env.retroShiftSwapTimes s.keyboard) (s.tappingKey.withCount 1)).tap },
      processTappingKey env
        { s with keyboard := env.retroShiftSwapTimes s.keyboard, tappingKey := s.tappingKey.withCount 1 }) = (some y, t) := call
  rw [written_tap calm unreset] at result
  cases result
  have first : ofKey s.tappingKey.event.key (x :: rest) = x :: ofKey s.tappingKey.event.key rest := by
    rw [← own, ofKey_cons_own]
  refine ⟨rfl, rfl, tagged.tap (x := { x with tap := (s.tappingKey.withCount 1).tap }) undecided written_tapped
    (turns.undecided tagged.received undecided) first Nat.one_ne_zero ?_ ?_⟩
  · rw [← own]
    exact ofKey_cons_own (r := { x with tap := (s.tappingKey.withCount 1).tap })
  · intro key ne
    have other : x.event.key ≠ key := fun e => ne (e.symm.trans own)
    rw [ofKey_cons_other other]
    exact ofKey_cons_other (r := { x with tap := (s.tappingKey.withCount 1).tap }) other

/-- The record is dealt with. -/
theorem done_tagged (front : List Record) (isFront : ∀ r ∈ front, r = x) (wb : s.waitingBuffer = front ++ rest)
    (call : processTapping env s x = (none, t)) (wf : x.event.WellFormed) (fresh : x.Fresh) (calm : ¬ MakesUp env s x)
    (unended : ¬ EndsOneshot env s x) (first : ScansFirst env s x = true)
    (tagged : Tagged s.tappingKey s.handed (x :: rest)) (turns : TakesTurns s.tappingKey s.handed (x :: rest)) :
    ∃ rest', t.waitingBuffer = front ++ rest' ∧ Tagged t.tappingKey t.handed rest' := by
  have spec := processTapping_call env s x
  rw [call] at spec
  cases scan : scanFrom env s x with
  | some u =>
    obtain ⟨tk, handed, buffer, pressed, isEvent, decided, single⟩ := scanFrom_fields scan calm
    have undecided : x.Undecided := ⟨isEvent, pressed, by rw [fresh pressed]⟩
    have last := turns.released tagged.received (key_ne_tickPos isEvent)
      (by rw [undecidedEvents_of_decided decided, keyEvents_nil]) pressed
    obtain ⟨-, -, -, result⟩ := processTapping_scan scan
    rw [call] at result
    cases result
    rw [ScansFirst, scan, Option.all_some] at first
    have begun := tagged.begins undecided single last
    rw [← tk, ← handed] at begun
    refine scan_tagged front ?_ (buffer.trans wb) (tk.symm ▸ undecided) (tk.symm ▸ first) begun ?_
    · intro r mem
      rw [isFront r mem, pressed]
    · rw [tk, handed]
      exact turns.begins decided undecided
  | none =>
    have untapped (up : s.isTappingReleased = true) : ¬ s.tappingKey.Tapped := by
      intro tapped
      simp [Engine.isTappingReleased, tapped.2.1] at up
    have begins (up : s.isTappingReleased = true) (isEvent : x.event.isEvent = true) (pressed : x.event.pressed = true) :
        Tagged x s.handed rest := by
      refine tagged.begins ⟨isEvent, pressed, by rw [fresh pressed]⟩ (fun key many => untapped up many.1) ?_
      apply turns.released tagged.received (key_ne_tickPos isEvent) _ pressed
      rw [undecidedEvents_of_decided (isTappingReleased_decided up), keyEvents_nil]
    have isEvent (up : s.isTappingReleased = true) (own : x.event.key = s.tappingKey.event.key) : x.event.isEvent = true := by
      refine wf.resolve_left fun tick => ?_
      simp [Engine.isTappingReleased, KeyEvent.isEvent, KeyEvent.isNoEvent, ← own, tick.1] at up
    have again (up : s.isTappingReleased = true) (own : x.event.key = s.tappingKey.event.key)
        (pressed : x.event.pressed = true) {y : Record} (tap : sequentialTap env s x = some y) :
        Tagged (written env s.keyboard y) (s.handed ++ [⟨y, false⟩]) rest := by
      have uncancelled := sequentialTap_uncancelled tap s.keyboard
      have unreleased : releases env s.keyboard y = false := by
        rw [← Bool.not_eq_true]
        exact fun ends => unended ⟨y, tap, ends⟩
      obtain ⟨count, many, hy⟩ := sequentialTap_spec tap
      have unreset : resets env s.keyboard y = false := by
        have down : y.event.pressed = true := by rw [hy, pressed]
        simp [resets, down, unreleased]
      rw [written_of_kept uncancelled unreleased unreset]
      exact tagged.sequential turns (untapped up) (isTappingReleased_decided up) (isEvent up own) pressed many hy
    cases spec with
    | early undecided other released =>
      have idle : keyEvents x.event.key (undecidedEvents s.tappingKey) = [] := by
        rw [undecidedEvents_of_undecided undecided, keyEvents_of_ne other.symm]
      have here := tagged.direct turns fresh idle (fun tapped => absurd undecided.2.2 tapped.2.2) s.tappingKey.tap.interrupted
      exact ⟨rest, wb, here⟩
    | tapRelease tapped own released ht =>
      refine ⟨rest, wb, tagged.tapRelease tapped own released fun tapped' => ?_⟩
      rcases ht with rfl | rfl
      · exact Record.empty_not_tapped tapped'
      · exact absurd (tapped'.2.1.symm.trans released) (by decide)
    | interrupts tapped many pressed tapRecord => exact absurd ⟨tapped, many, pressed, tapRecord⟩ calm
    | starts decided single pressed tapRecord hk =>
      have quick := asksQuickTap_of_none call decided pressed tapRecord scan
      have is : s.isTappingReleased = true ∧ x.event.key = s.tappingKey.event.key := by
        simp only [asksQuickTap, Bool.and_eq_true] at quick
        have up := quick.1.1.1
        rw [Engine.isTappingReleased, Bool.and_eq_true] at up
        exact ⟨quick.1.1.1, (isTappingKey_iff _ up.1).1 quick.1.2⟩
      rcases processTapping_again quick with same | ⟨y, tap, same⟩
      · rw [(Prod.mk.inj (call.symm.trans same)).2]
        exact ⟨rest, wb, begins is.1 (isEvent is.1 is.2) pressed⟩
      · rw [(Prod.mk.inj (call.symm.trans same)).2]
        exact ⟨rest, wb, again is.1 is.2 pressed tap⟩
    | again up own pressed => exact ⟨rest, wb, begins up (isEvent up own) pressed⟩
    | sequential up own pressed tap => exact ⟨rest, wb, again up own pressed tap⟩
    | direct decided other b hb =>
      have idle : keyEvents x.event.key (undecidedEvents s.tappingKey) = [] := by
        rw [undecidedEvents_of_decided decided, keyEvents_nil]
      exact ⟨rest, wb, tagged.direct turns fresh idle other b⟩

end Calls

/-! ## Runs -/

section Runs

variable {env : Env σ} {s t : Engine σ} {x : Record}

/-- A release that comes in and makes the undecided key a tap finds no record of its key in the buffer. -/
def TapsFirst (env : Env σ) (s : Engine σ) (event : KeyEvent) : Prop :=
  MakesTap env s event.record → ∀ r ∈ s.waitingBuffer, r.event.key ≠ event.key

instance (env : Env σ) (s : Engine σ) (event : KeyEvent) : Decidable (TapsFirst env s event) :=
  inferInstanceAs (Decidable (_ → _))

/-- The step on an event keeps the order and the taps, and what makes a key a tap is its first event that waits. -/
def KeepsPairs (env : Env σ) (s : Engine σ) (event : KeyEvent) : Prop :=
  KeepsOrder env s event ∧ TapsFirst env s event ∧
    ∀ c ∈ calls env s event.record, KeepsTap env c.1 c.2 ∧ ScansFirst env c.1 c.2 = true

instance (env : Env σ) (s : Engine σ) (event : KeyEvent) : Decidable (KeepsPairs env s event) :=
  inferInstanceAs (Decidable (_ ∧ _ ∧ _))

theorem takesTurns_iff : TakesTurns s.tappingKey s.handed s.waitingBuffer ↔ ∀ key, key ≠ tickPos → Turns (s.flow key) := by
  unfold TakesTurns Engine.flow Engine.waiting
  simp only [List.append_assoc]

/-- The loop over the buffer keeps the marks. -/
theorem processWaitingBuffer_tagged (fuel : Nat) (settled : s.Settled)
    (turns : ∀ key, key ≠ tickPos → Turns (s.flow key)) (tagged : Tagged s.tappingKey s.handed s.waitingBuffer)
    (uncancelled : ∀ c ∈ bufferCalls env fuel s, ¬ CancelsTap env c.1 c.2)
    (calm : ∀ c ∈ bufferCalls env fuel s, KeepsTap env c.1 c.2 ∧ ScansFirst env c.1 c.2 = true) :
    Tagged (processWaitingBuffer env fuel s).tappingKey (processWaitingBuffer env fuel s).handed
      (processWaitingBuffer env fuel s).waitingBuffer := by
  induction fuel generalizing s with
  | zero => exact tagged
  | succ fuel ih =>
    cases hs : s.waitingBuffer with
    | nil => rwa [processWaitingBuffer_nil hs]
    | cons record l =>
      rw [bufferCalls_cons hs, List.forall_mem_cons] at uncancelled calm
      rw [processWaitingBuffer_cons hs]
      obtain ⟨here, uncancelled⟩ := uncancelled
      obtain ⟨⟨⟨unmade, unended, kept⟩, first⟩, calm⟩ := calm
      have turns' := takesTurns_iff.2 turns
      rw [hs] at tagged turns'
      have wf := settled record (hs ▸ List.mem_cons_self)
      have flow := processTapping_call env s record
      cases call : processTapping env s record with
      | mk o t =>
        rw [call] at uncancelled calm flow
        obtain ⟨settled', flow⟩ := flow.head_flow hs settled here
        cases o with
        | none =>
          obtain ⟨rest, buffer, tagged'⟩ := done_tagged [record] (by simp) hs call wf.1 wf.2 unmade unended first tagged turns'
          have tail : t.waitingBuffer.tail = rest := by rw [buffer]; rfl
          apply ih settled' _ _ uncancelled calm
          · exact fun key ne => (flow key).symm ▸ turns key ne
          · change Tagged t.tappingKey t.handed t.waitingBuffer.tail
            rwa [tail]
        | some y =>
          change Tagged t.tappingKey t.handed (y :: t.waitingBuffer.tail)
          by_cases tap : MakesTap env s record
          · obtain ⟨-, buffer, tagged'⟩ := firstTap_tagged tap here kept call tagged turns'
            rw [buffer, hs]
            exact tagged'
          · have spec := processTapping_call env s record
            rw [call] at spec
            obtain ⟨rfl, buffer, tagged'⟩ := spec.left_tagged tap tagged turns'
            rw [buffer, hs]
            exact tagged'

theorem ofKey_append {key : KeyPos} (a b : List Record) : ofKey key (a ++ b) = ofKey key a ++ ofKey key b :=
  List.filter_append ..

theorem ofKey_eq_nil {key : KeyPos} {l : List Record} (h : ∀ r ∈ l, r.event.key ≠ key) : ofKey key l = [] := by
  apply List.filter_eq_nil_iff.2
  intro r mem
  simpa using h r mem

/-- A record that comes in waits behind the others. -/
theorem Tagged.push {tappingKey : Record} {handed : List Handed} {queue : List Record} (h : Tagged tappingKey handed queue)
    (zero : x.tap.count = 0) : Tagged tappingKey handed (queue ++ [x]) := by
  refine ⟨h.received, h.held, fun key ne => ?_⟩
  have here := h.keys key ne
  rw [ofKey_append]
  by_cases own : x.event.key = key
  · have single : ofKey key [x] = [x] := by simp [ofKey, own]
    rw [single]
    cases waiting : ofKey key queue with
    | nil =>
      rw [waiting] at here
      constructor
      · exact here.closes
      · exact fun isOpen => (here.marked isOpen).imp_right fun ⟨r, first, _⟩ => nomatch first
      · intro r first marked
        cases first
        exact absurd zero marked
      · exact fun r mem => nomatch mem
    | cons first later =>
      rw [waiting] at here
      constructor
      · exact here.closes
      · exact here.marked
      · exact here.opened
      · intro r mem
        rcases List.mem_append.1 mem with mem | mem
        · exact here.later r mem
        · rw [List.mem_singleton.1 mem, zero]
  · have none : ofKey key [x] = [] := by simp [ofKey, own]
    rwa [none, List.append_nil]

/-- A record is as well before as behind others of other keys. -/
theorem ofKey_front {queue : List Record} (clear : ∀ r ∈ queue, r.event.key ≠ x.event.key) (key : KeyPos) :
    ofKey key (x :: queue) = ofKey key (queue ++ [x]) := by
  rw [← List.singleton_append, ofKey_append, ofKey_append]
  by_cases own : x.event.key = key
  · rw [ofKey_eq_nil (l := queue) fun r mem => own ▸ clear r mem, List.append_nil, List.nil_append]
  · have none : ofKey key [x] = [] := by simp [ofKey, own]
    rw [none, List.append_nil, List.nil_append]

theorem TakesTurns.queue_congr {tappingKey : Record} {handed : List Handed} {queue rest : List Record}
    (h : TakesTurns tappingKey handed queue) (same : ∀ key, ofKey key rest = ofKey key queue) :
    TakesTurns tappingKey handed rest := by
  intro key ne
  have turns := h key ne
  have events := congrArg (List.map Record.event) (same key)
  rw [keyEvents_append] at turns ⊢
  convert turns using 2
  rw [keyEvents, keyEvents, List.filter_map, List.filter_map]
  exact events

/-- The record of an event that comes in is left over. -/
theorem left_tagged {event : KeyEvent} {y : Record} (call : processTapping env s event.record = (some y, t))
    (tapsFirst : TapsFirst env s event) (uncancelled : ¬ CancelsTap env s event.record) (kept : ¬ ClearsTap env s event.record)
    (tagged : Tagged s.tappingKey s.handed (s.waitingBuffer ++ [event.record]))
    (turns : TakesTurns s.tappingKey s.handed (s.waitingBuffer ++ [event.record])) :
    y.event = event ∧ t.waitingBuffer = s.waitingBuffer ∧ Tagged t.tappingKey t.handed (s.waitingBuffer ++ [y]) := by
  by_cases tap : MakesTap env s event.record
  · have clear := tapsFirst tap
    have front := ofKey_front (x := event.record) clear
    have left := firstTap_tagged tap uncancelled kept call
      (tagged.queue_congr fun key _ => front key) (turns.queue_congr front)
    obtain ⟨same, buffer, tagged'⟩ := left
    have behind : ∀ key, ofKey key (y :: s.waitingBuffer) = ofKey key (s.waitingBuffer ++ [y]) :=
      ofKey_front (same.symm ▸ clear)
    exact ⟨same, buffer, tagged'.queue_congr fun key _ => (behind key).symm⟩
  · have spec := processTapping_call env s event.record
    rw [call] at spec
    obtain ⟨rfl, buffer, tagged'⟩ := spec.left_tagged tap tagged turns
    exact ⟨rfl, buffer, tagged'⟩

/-- The first part of a step keeps the marks. -/
theorem processOrEnqueue_tagged {event : KeyEvent} (wf : event.WellFormed) (inTurn : InTurn env s event)
    (room : ¬ Overflows env s event.record) (tapsFirst : TapsFirst env s event) (uncancelled : ¬ CancelsTap env s event.record)
    (keeps : KeepsTap env s event.record) (first : ScansFirst env s event.record = true)
    (turns : ∀ key, key ≠ tickPos → Turns (s.flow key ++ keyEvents key [event]))
    (tagged : Tagged s.tappingKey s.handed s.waitingBuffer) :
    Tagged (processOrEnqueue env s event.record).tappingKey (processOrEnqueue env s event.record).handed
      (processOrEnqueue env s event.record).waitingBuffer := by
  have behind := tagged.push (x := event.record) rfl
  have turnsBehind : TakesTurns s.tappingKey s.handed (s.waitingBuffer ++ [event.record]) := by
    intro key ne
    have := turns key ne
    rw [Engine.flow_eq, List.append_assoc, ← keyEvents_append] at this
    rw [keyEvents_append, List.map_append]
    exact this
  have spec := processTapping_call env s event.record
  rw [Overflows] at room
  rw [processOrEnqueue]
  cases call : processTapping env s event.record with
  | mk o t =>
    rw [call] at room spec
    cases o with
    | none =>
      have clear : ∀ r ∈ s.waitingBuffer, r.event.key ≠ event.key := by
        rcases inTurn with clear | ⟨undecided, held⟩
        · exact clear
        · obtain ⟨released, untyped, unretained⟩ := spec.early_of_undecided undecided
          rcases held with pressed | typed | retained
          · exact absurd (pressed.symm.trans released) (by decide)
          · exact absurd (typed.symm.trans untyped) (by decide)
          · exact absurd (retained.symm.trans unretained) (by decide)
      have front := ofKey_front (x := event.record) clear
      obtain ⟨rest, buffer, tagged'⟩ := done_tagged [] (by simp) rfl call wf (fun _ => rfl) keeps.1 keeps.2.1 first
        (behind.queue_congr fun key _ => front key) (turnsBehind.queue_congr front)
      change Tagged t.tappingKey t.handed t.waitingBuffer
      rwa [buffer]
    | some y =>
      obtain ⟨same, buffer, tagged'⟩ := left_tagged call tapsFirst uncancelled keeps.2.2 behind turnsBehind
      simp only [Engine.waitingBufferEnq, same]
      by_cases tick : event.isNoEvent = true
      · rw [if_pos tick, Option.getD_some, buffer]
        apply tagged'.queue_congr
        intro key ne
        have isTick : event.key = tickPos := by
          rcases wf with h | h
          · exact h.1
          · rw [KeyEvent.isEvent, tick] at h
            cases h
        have none : ofKey key [y] = [] := by simp [ofKey, same, isTick, ne.symm]
        rw [ofKey_append, none, List.append_nil]
      · have isEvent : event.isEvent = true := by simpa [KeyEvent.isEvent] using tick
        have fits : ¬ t.waitingBuffer.length + 1 = waitingBufferSize := by
          rw [buffer]
          exact fun full => room ⟨by simp, isEvent, full⟩
        rw [if_neg tick, if_neg fits, Option.getD_some]
        change Tagged t.tappingKey t.handed (t.waitingBuffer ++ [y])
        rwa [buffer]

variable (env)

/-- The presses and releases of every key take turns. -/
def Physical (events : List KeyEvent) : Prop := ∀ key, key ≠ tickPos → Alternates (keyEvents key events)

/-- Only the keys of the events matter. -/
theorem physical_iff {events : List KeyEvent} :
    Physical events ↔ ∀ key ∈ events.map KeyEvent.key, key ≠ tickPos → Alternates (keyEvents key events) := by
  refine ⟨fun h key _ => h key, fun h key ne => ?_⟩
  by_cases mem : key ∈ events.map KeyEvent.key
  · exact h key mem ne
  · have none : keyEvents key events = [] := keyEvents_eq_nil.2 fun e he same => mem (same ▸ List.mem_map_of_mem he)
    rw [none]
    exact ⟨fun _ first => (nomatch first), List.isChain_nil⟩

instance (events : List KeyEvent) : Decidable (Physical events) := decidable_of_iff' _ physical_iff

/-- What was received of every key is handed out or waits, in its order and tagged. -/
structure InPairs (s : Engine σ) (events : List KeyEvent) : Prop where
  inOrder : InOrder s events
  tagged : Tagged s.tappingKey s.handed s.waitingBuffer

variable {env}

theorem Alternates.left {a b : List KeyEvent} (h : Alternates (a ++ b)) : Alternates a := by
  constructor
  · intro e first
    apply h.1
    rw [List.head?_append, Option.mem_def.1 first]
    rfl
  · exact (List.isChain_append.1 h.2).1

theorem Physical.left {past later : List KeyEvent} (h : Physical (past ++ later)) : Physical past := by
  intro key ne
  have alternates := h key ne
  rw [keyEvents_append] at alternates
  exact alternates.left

theorem InPairs.step {past : List KeyEvent} {event : KeyEvent} (h : InPairs s past) (wf : event.WellFormed)
    (physical : ∀ key, key ≠ tickPos → Turns (keyEvents key (past ++ [event]))) (room : ¬ Overflows env s event.record)
    (keeps : KeepsPairs env s event) : InPairs (step env s event) (past ++ [event]) := by
  obtain ⟨order, tapsFirst, calm⟩ := keeps
  have inOrder := h.inOrder.step env wf room order
  refine ⟨inOrder, ?_⟩
  obtain ⟨settled, flow⟩ := processOrEnqueue_flow h.inOrder.1 wf order.1 room (order.2 _ List.mem_cons_self)
  have turns : ∀ key, key ≠ tickPos → Turns (s.flow key ++ keyEvents key [event]) := by
    intro key ne
    rw [h.inOrder.2 key ne, ← keyEvents_append]
    exact physical key ne
  obtain ⟨taps, first⟩ := calm _ List.mem_cons_self
  have tagged := processOrEnqueue_tagged wf order.1 room tapsFirst (order.2 _ List.mem_cons_self) taps first turns h.tagged
  apply processWaitingBuffer_tagged _ settled _ tagged
  · exact fun c mem => order.2 c (List.mem_cons_of_mem _ mem)
  · exact fun c mem => calm c (List.mem_cons_of_mem _ mem)
  · intro key ne
    rw [flow key ne]
    exact turns key ne

variable (env) in
/-- The records of a key that are handed out take turns, and each release has the interpretation of the press before it. -/
theorem handed_in_pairs (keyboard : σ) (events : List KeyEvent) (wf : ∀ e ∈ events, e.WellFormed) (physical : Physical events)
    (room : Lib.Along (step env) (fun s e => ¬ Overflows env s e.record) (.start keyboard) events)
    (keeps : Lib.Along (step env) (KeepsPairs env) (.start keyboard) events) (key : KeyPos) (hk : key ≠ tickPos) :
    Alternates ((given key (run env (.start keyboard) events).handed).map Record.event) ∧
      (given key (run env (.start keyboard) events).handed).IsChain Closes := by
  have start : InOrder (Engine.start keyboard) [] := ⟨fun r hr => (nomatch hr), fun key _ => rfl⟩
  have none : ∀ key, KeyTagged (given key (Engine.start keyboard).handed) (Many (Engine.start keyboard).tappingKey key)
      (ofKey key (Engine.start keyboard).waitingBuffer) := by
    intro key
    exact ⟨List.isChain_nil, fun ⟨_, last, _⟩ => (nomatch last), fun _ first => (nomatch first), fun _ mem => (nomatch mem)⟩
  have begun : InPairs (Engine.start keyboard) [] :=
    ⟨start, fun _ mem => (nomatch mem), fun tapped => absurd tapped Record.empty_not_tapped, fun key _ => none key⟩
  have all : InPairs (run env (.start keyboard) events) ([] ++ events) :=
    (((Lib.Along.of_forall wf).and room).and keeps).run (fun s past => Physical past → InPairs s past)
      (fun _ _ _ h p physical => (h physical.left).step p.1.1 (fun key ne => (physical key ne).2) p.1.2 p.2) []
      (fun _ => begun) physical
  have alternates := physical key hk
  have flow := all.inOrder.2 key hk
  rw [List.nil_append, Engine.flow, keyEvents_append, ← map_given all.tagged.received] at flow
  rw [← flow] at alternates
  exact ⟨alternates.left, (all.tagged.keys key hk).closes⟩

theorem handed_in_pairs_tapWhileHeld :
    Alternates ((given shiftKey (run twoTerms (.start ()) tapWhileHeld).handed).map Record.event) ∧
      (given shiftKey (run twoTerms (.start ()) tapWhileHeld).handed).IsChain Closes := by
  exact handed_in_pairs twoTerms () tapWhileHeld (by decide) (by decide) (by decide) (by decide) shiftKey (by decide)

end Runs

/-! ## A key that is tapped twice -/

/-- A tap-hold key is tapped twice and held, and another one pressed. -/
def tapTwice : List KeyEvent :=
  [⟨shiftKey, true, 1⟩, ⟨shiftKey, false, 51⟩, ⟨shiftKey, true, 101⟩, ⟨ctrlKey, true, 151⟩, ⟨shiftKey, false, 201⟩,
    ⟨ctrlKey, false, 301⟩]

/-- The release is made up when the other key is pressed, and that of the key itself is handed out as that of a hold. -/
theorem second_release :
    (∀ e ∈ tapTwice, e.WellFormed) ∧ Physical tapTwice ∧
      Lib.Along (step twoTerms) (fun s e => ¬ Overflows twoTerms s e.record) (.start ()) tapTwice ∧
      (given shiftKey (run twoTerms (.start ()) tapTwice).handed).map (fun r => (r.event.pressed, r.tap.count)) =
        [(true, 1), (false, 1), (true, 2), (false, 2), (false, 0)] ∧
      ¬ Alternates ((given shiftKey (run twoTerms (.start ()) tapTwice).handed).map Record.event) := by
  refine ⟨by decide, by decide, by decide, by decide, by decide⟩

/-- The second press of the shift key ends a one-shot layer. -/
def endsOneshot : Env Unit := { twoTerms with releasesOneshot := fun _ record => record.event.time == 101 }

/-- The key is taken for released, and its release is handed out as that of a hold. -/
example : (given shiftKey (run endsOneshot (.start ()) (tapTwice.take 3 ++ [⟨shiftKey, false, 201⟩])).handed).map
    (fun r => (r.event.pressed, r.tap.count)) = [(true, 1), (false, 1), (true, 2), (false, 0)] := by decide

end QmkFirmware.Tapping
