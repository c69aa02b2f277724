import Mathlib

/-!
# Tries

A trie holds values under words. `search` follows a stream of letters to the first
value on the way; where no word is the beginning of another one, that is the value of
the only word that the stream begins with.
-/

namespace QmkFirmware.Lib

mutual

/-- The value of the word that ends here, and what follows -/
inductive Trie (α β : Type) where
  | node (value : Option β) (children : Forest α β)

inductive Forest (α β : Type) where
  | nil
  | cons (letter : α) (child : Trie α β) (rest : Forest α β)

end

variable {α β : Type}

namespace Forest

def letters : Forest α β → List α
  | nil => []
  | cons letter _ rest => letter :: rest.letters

section

variable [DecidableEq α]

/-- The child under a letter -/
def find (a : α) : Forest α β → Option (Trie α β)
  | nil => none
  | cons letter child rest => if a = letter then some child else rest.find a

/-- The child under a letter is replaced. -/
def set (a : α) (new : Trie α β) : Forest α β → Forest α β
  | nil => nil
  | cons letter child rest => if a = letter then cons letter new rest else cons letter child (rest.set a new)

end

/-- A child under a new letter comes before the first larger one. -/
def add [LT α] [DecidableLT α] (a : α) (new : Trie α β) : Forest α β → Forest α β
  | nil => cons a new nil
  | cons letter child rest => if a < letter then cons a new (cons letter child rest) else cons letter child (rest.add a new)

variable [DecidableEq α] {a b : α} {child new : Trie α β}

theorem find_set_self : ∀ {f : Forest α β}, f.find a = some child → (f.set a new).find a = some new
  | cons letter first rest, h => by
    unfold find at h
    unfold set
    split_ifs at h ⊢ with same
    · simp [find, same]
    · rw [find, if_neg same]
      exact find_set_self h

theorem find_set_of_ne (ne : b ≠ a) (new : Trie α β) : ∀ f : Forest α β, (f.set a new).find b = f.find b
  | nil => rfl
  | cons letter first rest => by
    unfold set
    split_ifs with same
    · simp only [find, if_neg (same ▸ ne)]
    · simp only [find, find_set_of_ne ne new rest]

variable [LT α] [DecidableLT α]

theorem find_add_self : ∀ {f : Forest α β}, f.find a = none → (f.add a new).find a = some new
  | nil, _ => by simp [add, find]
  | cons letter first rest, h => by
    unfold find at h
    split_ifs at h with same
    unfold add
    split_ifs
    · simp [find]
    · rw [find, if_neg same]
      exact find_add_self h

theorem find_add_of_ne (ne : b ≠ a) (new : Trie α β) : ∀ f : Forest α β, (f.add a new).find b = f.find b
  | nil => by simp [add, find, ne]
  | cons letter first rest => by
    unfold add
    split_ifs
    · rw [find, if_neg ne]
    · simp only [find, find_add_of_ne ne new rest]

end Forest

namespace Trie

def empty : Trie α β := node none .nil

section

variable [DecidableEq α]

/-- The value of a word -/
def get : Trie α β → List α → Option β
  | node value _, [] => value
  | node _ children, a :: word => (children.find a).bind fun child => child.get word

/-- The first value on the way of a stream -/
def search : Trie α β → List α → Option β
  | node (some value) _, _ => some value
  | node none _, [] => none
  | node none children, a :: stream => (children.find a).bind fun child => child.search stream

end

/-- A value is put under a word, with nodes made on the way. -/
def insert [DecidableEq α] [LT α] [DecidableLT α] (value : β) : List α → Trie α β → Trie α β
  | [], node _ children => node (some value) children
  | a :: word, node old children =>
    match children.find a with
    | some child => node old (children.set a (child.insert value word))
    | none => node old (children.add a (empty.insert value word))

/-! ## The words of a trie -/

/-- No word is the beginning of another one. -/
def Apart (word : β → List α) (values : List β) : Prop :=
  values.Pairwise fun v v' => ¬ word v <+: word v' ∧ ¬ word v' <+: word v

theorem Apart.distinct {word : β → List α} {values : List β} (apart : Apart word values) :
    values.Pairwise fun v v' => word v ≠ word v' :=
  apart.imp fun h same => h.1 (by rw [same])

theorem Apart.eq {word : β → List α} {values : List β} (apart : Apart word values) {v v' : β} (mem : v ∈ values)
    (mem' : v' ∈ values) (begins : word v <+: word v') : v = v' := by
  by_contra ne
  have : Std.Symm fun v v' => ¬ word v <+: word v' ∧ ¬ word v' <+: word v := ⟨fun _ _ h => h.symm⟩
  exact (List.Pairwise.forall apart mem mem' ne).1 begins

section

variable [DecidableEq α] {word other stream : List α} {v : β} {t : Trie α β}

theorem get_empty (word : List α) : (empty : Trie α β).get word = none := by
  cases word <;> rfl

theorem search_of_get (begins : word <+: stream) (got : t.get word = some v)
    (first : ∀ w, w <+: word → w ≠ word → t.get w = none) : t.search stream = some v := by
  induction word generalizing t stream with
  | nil =>
    obtain ⟨value, children⟩ := t
    cases got
    rw [search]
  | cons a word ih =>
    obtain ⟨value, children⟩ := t
    cases first [] (List.nil_prefix) (by simp)
    obtain ⟨behind, rfl⟩ := begins
    obtain ⟨child, found, got⟩ := Option.bind_eq_some_iff.1 got
    rw [List.cons_append, search, found, Option.bind_some]
    refine ih (List.prefix_append _ _) got fun w shorter ne => ?_
    have none := first (a :: w) (List.cons_prefix_cons.2 ⟨rfl, shorter⟩) (by simpa using ne)
    rwa [get, found, Option.bind_some] at none

theorem search_eq_none (h : ∀ word, word <+: stream → t.get word = none) : t.search stream = none := by
  induction stream generalizing t with
  | nil =>
    obtain ⟨value, children⟩ := t
    cases h [] List.nil_prefix
    rfl
  | cons a stream ih =>
    obtain ⟨value, children⟩ := t
    cases h [] List.nil_prefix
    rw [search]
    cases found : children.find a with
    | none => rfl
    | some child =>
      refine ih fun word begins => ?_
      have none := h (a :: word) (List.cons_prefix_cons.2 ⟨rfl, begins⟩)
      rwa [get, found, Option.bind_some] at none

variable [LT α] [DecidableLT α]

theorem get_insert_self (v : β) (word : List α) (t : Trie α β) : (t.insert v word).get word = some v := by
  induction word generalizing t with
  | nil => cases t; rfl
  | cons a word ih =>
    obtain ⟨value, children⟩ := t
    rw [insert]
    cases found : children.find a with
    | some child =>
      dsimp only
      rw [get, Forest.find_set_self found]
      exact ih child
    | none =>
      dsimp only
      rw [get, Forest.find_add_self found]
      exact ih empty

theorem get_insert_of_ne (ne : other ≠ word) (v : β) (t : Trie α β) : (t.insert v word).get other = t.get other := by
  induction word generalizing t other with
  | nil =>
    obtain ⟨value, children⟩ := t
    cases other with
    | nil => exact absurd rfl ne
    | cons b other => rfl
  | cons a word ih =>
    obtain ⟨value, children⟩ := t
    rw [insert]
    cases other with
    | nil => cases children.find a <;> rfl
    | cons b other =>
      by_cases same : b = a
      · subst same
        replace ne : other ≠ word := fun h => ne (h ▸ rfl)
        cases found : children.find b with
        | some child =>
          dsimp only
          rw [get, get, Forest.find_set_self found, found]
          exact ih ne child
        | none =>
          dsimp only
          rw [get, get, Forest.find_add_self found, found, Option.bind_some, ih ne, get_empty]
          rfl
      · cases found : children.find a with
        | some child =>
          dsimp only
          rw [get, get, Forest.find_set_of_ne same]
        | none =>
          dsimp only
          rw [get, get, Forest.find_add_of_ne same]

/-- Values, each under its word -/
def ofValues (word : β → List α) (values : List β) : Trie α β :=
  values.foldl (fun t value => t.insert value (word value)) empty

theorem get_ofValues {word : β → List α} {values : List β} (distinct : values.Pairwise fun v v' => word v ≠ word v')
    (w : List α) : (ofValues word values).get w = values.find? fun value => word value == w := by
  induction values using List.reverseRecOn with
  | nil => exact get_empty w
  | append_singleton values last ih =>
    obtain ⟨before, -, apart⟩ := List.pairwise_append.1 distinct
    unfold ofValues at ih ⊢
    rw [List.foldl_append, List.foldl_cons, List.foldl_nil, List.find?_append]
    by_cases same : w = word last
    · subst same
      have none : (values.find? fun value => word value == word last) = none := by
        rw [List.find?_eq_none]
        intro v mem
        simpa using apart v mem last (List.mem_singleton_self _)
      rw [get_insert_self, none]
      simp
    · rw [get_insert_of_ne same, ih before]
      simp [Ne.symm same]

section Search

variable {word : β → List α} {values : List β}

/-- The word that the stream begins with is found. -/
theorem search_of_mem (apart : Apart word values) {v : β} (mem : v ∈ values) (begins : word v <+: stream) :
    (ofValues word values).search stream = some v := by
  have found (w : List α) {u : β} (h : (ofValues word values).get w = some u) : u ∈ values ∧ word u = w := by
    rw [get_ofValues apart.distinct] at h
    exact ⟨List.mem_of_find?_eq_some h, by simpa using List.find?_some h⟩
  have got : (ofValues word values).get (word v) = some v := by
    cases got : (ofValues word values).get (word v) with
    | none =>
      rw [get_ofValues apart.distinct, List.find?_eq_none] at got
      exact absurd (beq_self_eq_true _) (got v mem)
    | some u =>
      obtain ⟨memU, same⟩ := found _ got
      rw [apart.eq memU mem (same ▸ List.prefix_refl _)]
  refine search_of_get begins got fun w shorter ne => ?_
  cases other : (ofValues word values).get w with
  | none => rfl
  | some u =>
    obtain ⟨memU, rfl⟩ := found _ other
    exact absurd (congrArg word (apart.eq memU mem shorter)) ne

/-- A stream that begins with no word is not found. -/
theorem search_of_not_mem (apart : Apart word values) (absent : ∀ v ∈ values, ¬ word v <+: stream) :
    (ofValues word values).search stream = none := by
  refine search_eq_none fun w begins => ?_
  rw [get_ofValues apart.distinct, List.find?_eq_none]
  intro v mem same
  exact absent v mem (by rwa [beq_iff_eq.1 same])

end Search

end

/-! ## No dead ends -/

mutual

/-- Every node has a value or a child. -/
def Live : Trie α β → Prop
  | node value children => (value.isSome ∨ children ≠ .nil) ∧ ForestLive children

def ForestLive : Forest α β → Prop
  | .nil => True
  | .cons _ child rest => Live child ∧ ForestLive rest

end

section

variable [DecidableEq α] {a : α} {child new : Trie α β} {f : Forest α β}

theorem ForestLive.find : ∀ {f : Forest α β}, ForestLive f → f.find a = some child → Live child
  | .cons letter first rest, h, found => by
    unfold Forest.find at found
    unfold ForestLive at h
    split_ifs at found with same
    · cases found
      exact h.1
    · exact ForestLive.find h.2 found

theorem ForestLive.set (live : Live new) : ∀ {f : Forest α β}, ForestLive f → ForestLive (f.set a new)
  | .nil, h => h
  | .cons letter first rest, h => by
    unfold ForestLive at h
    unfold Forest.set
    split_ifs <;> unfold ForestLive
    · exact ⟨live, h.2⟩
    · exact ⟨h.1, ForestLive.set live h.2⟩

omit [DecidableEq α] in
theorem ForestLive.add [LT α] [DecidableLT α] (live : Live new) : ∀ {f : Forest α β}, ForestLive f → ForestLive (f.add a new)
  | .nil, h => by
    unfold Forest.add ForestLive
    exact ⟨live, h⟩
  | .cons letter first rest, h => by
    unfold Forest.add
    split_ifs <;> unfold ForestLive
    · exact ⟨live, h⟩
    · unfold ForestLive at h
      exact ⟨h.1, ForestLive.add live h.2⟩

theorem set_ne_nil (found : f.find a = some child) (new : Trie α β) : f.set a new ≠ .nil := by
  cases f with
  | nil => cases found
  | cons letter first rest =>
    unfold Forest.set
    split_ifs <;> simp

omit [DecidableEq α] in
theorem add_ne_nil [LT α] [DecidableLT α] (a : α) (new : Trie α β) : f.add a new ≠ .nil := by
  cases f with
  | nil => simp [Forest.add]
  | cons letter first rest =>
    unfold Forest.add
    split_ifs <;> simp

variable [LT α] [DecidableLT α]

theorem live_insert {value : Option β} (h : ForestLive f) (v : β) (word : List α) :
    Live ((node value f).insert v word) := by
  induction word generalizing value f with
  | nil =>
    rw [insert, Live]
    exact ⟨Or.inl rfl, h⟩
  | cons a word ih =>
    rw [insert]
    cases found : f.find a with
    | some child =>
      have inside := h.find found
      obtain ⟨old, children⟩ := child
      rw [Live] at inside
      dsimp only
      rw [Live]
      exact ⟨Or.inr (set_ne_nil found _), h.set (ih inside.2)⟩
    | none =>
      dsimp only
      rw [Live]
      exact ⟨Or.inr (add_ne_nil a _), h.add (ih (by rw [ForestLive]; trivial))⟩

theorem live_ofValues {word : β → List α} {values : List β} (some : values ≠ []) : Live (ofValues word values) := by
  have live : ∀ (values : List β) (t : Trie α β), Live t → Live (values.foldl (fun t value => t.insert value (word value)) t) := by
    intro values
    induction values with
    | nil => exact fun t h => h
    | cons v values ih =>
      rintro ⟨old, children⟩ h
      rw [Live] at h
      exact ih _ (live_insert h.2 v (word v))
  cases values with
  | nil => exact absurd rfl some
  | cons v values => exact live values _ (live_insert (by rw [ForestLive]; trivial) v (word v))

end

end Trie

end QmkFirmware.Lib
