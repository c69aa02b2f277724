import Mathlib

/-!
# Slots and the entries that serve them

A program keeps slots and, apart from them, a table of entries, of which each one in use has a
token and names the slot it serves; a slot remembers the token of its entry. `Served` says what
the two mean to each other, `Handles` that the tokens lead from one to the other. The rules are
what may be done to both: taking a slot together with an entry, and giving both back.
-/

namespace QmkFirmware.Lib

variable {S E T : Type} [Zero T]

/-- A slot is taken exactly when an entry in use serves it, each entry in use serves a slot, and no two the same. -/
structure Served (taken : S → Prop) (token : E → T) (owner : E → Option S) : Prop where
  serves : ∀ slot, taken slot ↔ ∃ i, token i ≠ 0 ∧ owner i = some slot
  owned : ∀ i, token i ≠ 0 → ∃ slot, owner i = some slot ∧ taken slot
  single : ∀ i j, token i ≠ 0 → token j ≠ 0 → owner i = owner j → i = j

/-- Moreover the slot of an entry has its token, and no two entries in use have the same. -/
structure Handles (taken : S → Prop) (handle : S → T) (token : E → T) (owner : E → Option S) : Prop where
  served : Served taken token owner
  handle : ∀ i slot, token i ≠ 0 → owner i = some slot → handle slot = token i
  distinct : ∀ i j, token i ≠ 0 → token i = token j → i = j

namespace Handles

variable {taken : S → Prop} {handle : S → T} {token : E → T} {owner : E → Option S} {slot : S} {i : E} {t : T}

/-- A slot that is not taken may remember any token. -/
theorem forget [DecidableEq S] (h : Handles taken handle token owner) (free : ¬ taken slot) (t : T) :
    Handles taken (Function.update handle slot t) token owner := by
  refine ⟨h.served, fun i other on own => ?_, h.distinct⟩
  have ne : other ≠ slot := by
    rintro rfl
    exact free ((h.served.serves other).2 ⟨i, on, own⟩)
  rw [Function.update_of_ne ne]
  exact h.handle i other on own

/-- A free slot and a free entry are taken together, with a new token. -/
theorem take [DecidableEq S] [DecidableEq E] (h : Handles taken handle token owner) (free : ¬ taken slot) (unused : token i = 0) (ne : t ≠ 0)
    (fresh : ∀ j, token j ≠ t) :
    Handles (fun other => other = slot ∨ taken other) (Function.update handle slot t) (Function.update token i t)
      (Function.update owner i (some slot)) := by
  have elsewhere : ∀ {j}, token j ≠ 0 → j ≠ i := by
    rintro j on rfl
    exact on unused
  have other : ∀ {j}, token j ≠ 0 → owner j ≠ some slot := fun {j} on own => free ((h.served.serves slot).2 ⟨j, on, own⟩)
  have apart : ∀ {j}, Function.update token i t j ≠ 0 → j = i ∨ j ≠ i ∧ token j ≠ 0 := by
    intro j on
    by_cases here : j = i
    · exact Or.inl here
    · rw [Function.update_of_ne here] at on
      exact Or.inr ⟨here, on⟩
  refine ⟨⟨fun s => ⟨?_, ?_⟩, fun j on => ?_, fun j k on on' => ?_⟩, fun j s on => ?_, fun j k on => ?_⟩
  · rintro (rfl | before)
    · exact ⟨i, by rwa [Function.update_self], by rw [Function.update_self]⟩
    · obtain ⟨j, on, own⟩ := (h.served.serves s).1 before
      exact ⟨j, by rwa [Function.update_of_ne (elsewhere on)], by rwa [Function.update_of_ne (elsewhere on)]⟩
  · rintro ⟨j, on, own⟩
    rcases apart on with rfl | ⟨here, on⟩
    · rw [Function.update_self] at own
      exact Or.inl (Option.some.inj own).symm
    · rw [Function.update_of_ne here] at own
      exact Or.inr ((h.served.serves s).2 ⟨j, on, own⟩)
  · rcases apart on with rfl | ⟨here, on⟩
    · exact ⟨slot, by rw [Function.update_self], Or.inl rfl⟩
    · obtain ⟨s, own, before⟩ := h.served.owned j on
      exact ⟨s, by rwa [Function.update_of_ne here], Or.inr before⟩
  · rcases apart on with rfl | ⟨here, old⟩
    · rcases apart on' with rfl | ⟨there, old'⟩
      · exact fun _ => rfl
      · rw [Function.update_self, Function.update_of_ne there]
        exact fun same => absurd same.symm (other old')
    · rcases apart on' with rfl | ⟨there, old'⟩
      · rw [Function.update_self, Function.update_of_ne here]
        exact fun same => absurd same (other old)
      · rw [Function.update_of_ne here, Function.update_of_ne there]
        exact h.served.single j k old old'
  · rcases apart on with rfl | ⟨here, on⟩
    · rw [Function.update_self, Function.update_self]
      intro own
      rw [← Option.some.inj own, Function.update_self]
    · rw [Function.update_of_ne here, Function.update_of_ne here]
      intro own
      rw [Function.update_of_ne]
      · exact h.handle j s on own
      · rintro rfl
        exact other on own
  · rcases apart on with rfl | ⟨here, on⟩
    · rw [Function.update_self]
      intro same
      by_contra there
      rw [Function.update_of_ne (Ne.symm there)] at same
      exact fresh k same.symm
    · rw [Function.update_of_ne here]
      intro same
      by_cases there : k = i
      · rw [there, Function.update_self] at same
        exact absurd same (fresh j)
      · rw [Function.update_of_ne there] at same
        exact h.distinct j k on same

/-- A slot and its entry are given back together. -/
theorem giveBack [DecidableEq E] (h : Handles taken handle token owner) (on : token i ≠ 0) (own : owner i = some slot) (o : Option S) :
    Handles (fun other => other ≠ slot ∧ taken other) handle (Function.update token i 0) (Function.update owner i o) := by
  have apart : ∀ {j}, Function.update token i 0 j ≠ 0 → j ≠ i ∧ token j ≠ 0 := by
    intro j on'
    have here : j ≠ i := by
      rintro rfl
      rw [Function.update_self] at on'
      exact on' rfl
    rw [Function.update_of_ne here] at on'
    exact ⟨here, on'⟩
  have other : ∀ {j s}, j ≠ i → token j ≠ 0 → owner j = some s → s ≠ slot := by
    rintro j s here on' own' rfl
    exact here (h.served.single j i on' on (own'.trans own.symm))
  refine ⟨⟨fun s => ⟨?_, ?_⟩, fun j on' => ?_, fun j k on on' => ?_⟩, fun j s on' => ?_, fun j k on' => ?_⟩
  · rintro ⟨ne, before⟩
    obtain ⟨j, on', own'⟩ := (h.served.serves s).1 before
    have here : j ≠ i := by
      rintro rfl
      exact ne (Option.some.inj (own'.symm.trans own))
    exact ⟨j, by rwa [Function.update_of_ne here], by rwa [Function.update_of_ne here]⟩
  · rintro ⟨j, on', own'⟩
    obtain ⟨here, on'⟩ := apart on'
    rw [Function.update_of_ne here] at own'
    exact ⟨other here on' own', (h.served.serves s).2 ⟨j, on', own'⟩⟩
  · obtain ⟨here, on'⟩ := apart on'
    obtain ⟨s, own', before⟩ := h.served.owned j on'
    exact ⟨s, by rwa [Function.update_of_ne here], other here on' own', before⟩
  · obtain ⟨here, on⟩ := apart on
    obtain ⟨there, on'⟩ := apart on'
    rw [Function.update_of_ne here, Function.update_of_ne there]
    exact h.served.single j k on on'
  · obtain ⟨here, on'⟩ := apart on'
    rw [Function.update_of_ne here, Function.update_of_ne here]
    exact h.handle j s on'
  · obtain ⟨here, on'⟩ := apart on'
    rw [Function.update_of_ne here]
    intro same
    by_cases there : k = i
    · rw [there, Function.update_self] at same
      exact absurd same on'
    · rw [Function.update_of_ne there] at same
      exact h.distinct j k on' same

/-- An entry that is given back alone leaves its slot taken with nobody to serve it. -/
theorem leaked [DecidableEq E] (h : Handles taken handle token owner) (on : token i ≠ 0) (own : owner i = some slot) {taken' : S → Prop}
    {o : Option S} (still : taken' slot) : ¬ Served taken' (Function.update token i 0) (Function.update owner i o) := by
  intro served
  obtain ⟨j, on', own'⟩ := (served.serves slot).1 still
  have here : j ≠ i := by
    rintro rfl
    rw [Function.update_self] at on'
    exact on' rfl
  rw [Function.update_of_ne here] at on' own'
  exact here (h.served.single j i on' on (own'.trans own.symm))

end Handles

end QmkFirmware.Lib
