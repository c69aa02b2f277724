import QmkFirmware.Autocorrect.Generator

/-!
# The format of the autocorrection table

Where the nodes of a trie lie in the table: a leaf with its data, a node with one child
as a link of a chain, a node with more as the list of its branches. What `serialize_trie`
makes has this format.
-/

namespace QmkFirmware.Autocorrect
open Lib

theorem prefix_drop_append {α : Type} {l a b : List α} {o : Nat} (h : a ++ b <+: l.drop o) :
    a <+: l.drop o ∧ b <+: l.drop (o + a.length) := by
  obtain ⟨behind, eq⟩ := h
  refine ⟨⟨b ++ behind, by rw [← eq, List.append_assoc]⟩, behind, ?_⟩
  rw [← List.drop_drop, ← eq, List.append_assoc, List.drop_left]

theorem prefix_drop_cons {α : Type} {l b : List α} {x : α} {o : Nat} (h : x :: b <+: l.drop o) :
    l[o]? = some x ∧ b <+: l.drop (o + 1) := by
  obtain ⟨first, later⟩ := prefix_drop_append (a := [x]) h
  refine ⟨?_, later⟩
  obtain ⟨behind, eq⟩ := first
  rw [← List.head?_drop, ← eq]
  rfl

mutual

/-- The node of a trie lies at an offset of the table. -/
inductive Laid (data : List UInt8) : Trie Letter Entry → Nat → Prop where
  | leaf {e : Entry} {children : Forest Letter Entry} {o : Nat} (asserted : e.asserted) (bytes : e.data <+: data.drop o) :
      Laid data (.node (some e) children) o
  | last {c : Letter} {child : Trie Letter Entry} {o : Nat} (bytes : [typoChars c, 0] <+: data.drop o)
      (next : Laid data child (o + 2)) : Laid data (.node none (.cons c child .nil)) o
  | link {c : Letter} {child : Trie Letter Entry} {b : UInt8} {o : Nat} (more : b ≠ 0)
      (bytes : [typoChars c, b] <+: data.drop o) (next : Laid data child (o + 1)) :
      Laid data (.node none (.cons c child .nil)) o
  | branch {c c' : Letter} {child child' : Trie Letter Entry} {children : Forest Letter Entry} {o : Nat}
      (branches : LaidChildren data 64 (.cons c child (.cons c' child' children)) o) :
      Laid data (.node none (.cons c child (.cons c' child' children))) o

/-- The branches lie from an offset on; `flag` is 64 for the first one. -/
inductive LaidChildren (data : List UInt8) : UInt8 → Forest Letter Entry → Nat → Prop where
  | nil {flag : UInt8} {o : Nat} (bytes : [0] <+: data.drop o) : LaidChildren data flag .nil o
  | cons {flag : UInt8} {c : Letter} {child : Trie Letter Entry} {children : Forest Letter Entry} {o link : Nat}
      (bytes : (typoChars c ||| flag) :: encodeLink link <+: data.drop o) (next : Laid data child link)
      (more : LaidChildren data 0 children (o + 3)) : LaidChildren data flag (.cons c child children) o

end

/-! ## Codes -/

theorem typoChars_toNat (c : Letter) : (typoChars c).toNat =
    if c.1.toNat = 39 then 0x34 else if c.1.toNat = 58 then 0x2C else c.1.toNat - 93 := by
  obtain ⟨c, valid⟩ := c
  unfold typoChars
  unfold IsTypoChar at valid
  dsimp only
  split_ifs with quote colon
  · rfl
  · rfl
  · rw [UInt8.toNat_add, UInt8.toNat_ofNat']
    simp only [kcA, UInt8.reduceToNat]
    omega

theorem typoChars_range (c : Letter) : 4 ≤ (typoChars c).toNat ∧ (typoChars c).toNat < 64 := by
  have valid := c.2
  unfold IsTypoChar at valid
  rw [typoChars_toNat]
  split_ifs <;> omega

theorem typoChars_ne_zero (c : Letter) : typoChars c ≠ 0 := by
  intro zero
  have range := typoChars_range c
  rw [zero] at range
  exact absurd range.1 (by decide)

theorem typoChars_inj {c c' : Letter} (h : typoChars c = typoChars c') : c = c' := by
  have same := congrArg UInt8.toNat h
  rw [typoChars_toNat, typoChars_toNat] at same
  have valid := c.2
  have valid' := c'.2
  unfold IsTypoChar at valid valid'
  have toNat : c.1.toNat = c'.1.toNat := by
    split_ifs at same <;> omega
  exact Subtype.ext (Char.toNat_inj.1 toNat)

/-! ## What is serialised -/

section Serialised

variable {offset : Nat → Nat} {table : List TableEntry}

theorem length_serializeBranches (offset offset' : Nat → Nat) (flag : UInt8) (chars : List Letter) (links : List Nat) :
    (serializeBranches offset flag chars links).length = (serializeBranches offset' flag chars links).length := by
  induction chars generalizing flag links with
  | nil => rfl
  | cons c chars ih =>
    cases links with
    | nil => rfl
    | cons link links => simp [serializeBranches, encodeLink, ih 0 links]

theorem length_serialize (offset : Nat → Nat) (e : TableEntry) : (serialize offset e).length = e.size := by
  unfold TableEntry.size serialize
  split
  · rfl
  · rfl
  · rw [List.length_append, List.length_append, length_serializeBranches]

theorem byteOffset_succ {i : Nat} {e : TableEntry} (h : table[i]? = some e) :
    byteOffset table (i + 1) = byteOffset table i + e.size := by
  unfold byteOffset
  rw [List.take_add_one, h]
  simp

/-- The bytes of an entry are at its offset. -/
theorem serialize_placed (offset : Nat → Nat) {i : Nat} {e : TableEntry} (h : table[i]? = some e) :
    serialize offset e <+: (table.flatMap (serialize offset)).drop (byteOffset table i) := by
  induction table generalizing i with
  | nil => cases h
  | cons first table ih =>
    cases i with
    | zero =>
      cases h
      exact List.prefix_append _ _
    | succ i =>
      have split : byteOffset (first :: table) (i + 1) = (serialize offset first).length + byteOffset table i := by
        rw [length_serialize]
        simp [byteOffset]
      rw [split, List.flatMap_cons, ← List.drop_drop, List.drop_left]
      exact ih h

end Serialised

/-! ## What `traverse` lays out -/

/-- The chain that leads to a trie -/
def chainTo (t : Trie Letter Entry) (chars : List Letter) : Trie Letter Entry :=
  chars.foldr (fun c child => .node none (.cons c child .nil)) t

theorem chainTo_snoc (t : Trie Letter Entry) (chars : List Letter) (c : Letter) :
    chainTo t (chars ++ [c]) = chainTo (.node none (.cons c t .nil)) chars := by
  simp [chainTo]

section Chain

variable {data : List UInt8}

/-- A chain, by the letters before its end -/
theorem laid_chain {t : Trie Letter Entry} {chars : List Letter} {o : Nat} (some : chars ≠ [])
    (bytes : chars.map typoChars ++ [0] <+: data.drop o) (next : Laid data t (o + chars.length + 1)) :
    Laid data (chainTo t chars) o := by
  induction chars generalizing o with
  | nil => exact absurd rfl some
  | cons c chars ih =>
    obtain ⟨first, later⟩ := prefix_drop_cons bytes
    cases chars with
    | nil =>
      refine .last ?_ next
      simpa using bytes
    | cons c' chars =>
      refine .link (typoChars_ne_zero c') ?_ (ih (by simp) later ?_)
      · exact (prefix_drop_append (a := [typoChars c, typoChars c']) bytes).1
      · rw [List.length_cons] at next
        convert next using 2
        omega

end Chain

section Traverse

variable {table : List TableEntry}

/-- The entry of the chain so far, before what it leads to -/
theorem laid_chainEntry {t : Trie Letter Entry} {chars : List Letter} {start : Nat} {behind : List TableEntry}
    (placed : chainEntry chars start ++ behind <+: table.drop start)
    (next : behind <+: table.drop (start + (chainEntry chars start).length) →
      Laid (table.flatMap (serialize (byteOffset table))) t (byteOffset table (start + (chainEntry chars start).length))) :
    Laid (table.flatMap (serialize (byteOffset table))) (chainTo t chars) (byteOffset table start) := by
  obtain ⟨own, later⟩ := prefix_drop_append placed
  replace next := next later
  unfold chainEntry at own next
  split_ifs at own next with none
  · subst none
    exact next
  · obtain ⟨here, -⟩ := prefix_drop_cons own
    refine laid_chain none (serialize_placed (byteOffset table) here) ?_
    rw [List.length_singleton, byteOffset_succ here] at next
    convert next using 1
    simp [TableEntry.size, serialize]
    omega

mutual

theorem laid_traverse (asserted : table.all TableEntry.asserted) : ∀ (t : Trie Letter Entry) (chars : List Letter) (start : Nat), Trie.Live t →
    traverse chars t start <+: table.drop start →
    Laid (table.flatMap (serialize (byteOffset table))) (chainTo t chars) (byteOffset table start)
  | .node (some e) children, chars, start, _, placed => by
    rw [traverse] at placed
    refine laid_chainEntry placed fun later => ?_
    have here := (prefix_drop_cons later).1
    refine .leaf ?_ (serialize_placed (byteOffset table) here)
    exact List.all_eq_true.1 asserted _ (List.mem_of_getElem? here)
  | .node none .nil, _, _, live, _ => by
    rw [Trie.Live] at live
    simp at live
  | .node none (.cons c child .nil), chars, start, live, placed => by
    rw [traverse] at placed
    rw [Trie.Live, Trie.ForestLive] at live
    rw [← chainTo_snoc]
    exact laid_traverse asserted child (chars ++ [c]) start live.2.1 placed
  | .node none (.cons c child (.cons c' child' children)), chars, start, live, placed => by
    rw [Trie.Live] at live
    rw [traverse] at placed
    · refine laid_chainEntry placed fun later => .branch ?_
      obtain ⟨here, below⟩ := prefix_drop_cons later
      refine laid_children asserted _ _ live.2 below 64 _ ?_
      have bytes := serialize_placed (byteOffset table) here
      simpa [serialize, traverseChildren] using bytes
    · simp

theorem laid_children (asserted : table.all TableEntry.asserted) : ∀ (children : Forest Letter Entry) (start : Nat), Trie.ForestLive children →
    (traverseChildren children start).2 <+: table.drop start → ∀ (flag : UInt8) (o : Nat),
    serializeBranches (byteOffset table) flag children.letters (traverseChildren children start).1 ++ [0] <+:
      (table.flatMap (serialize (byteOffset table))).drop o →
    LaidChildren (table.flatMap (serialize (byteOffset table))) flag children o
  | .nil, _, _, _, _, _, bytes => .nil bytes
  | .cons c child children, start, live, placed, flag, o, bytes => by
    rw [Trie.ForestLive] at live
    rw [traverseChildren] at placed bytes
    obtain ⟨first, others⟩ := prefix_drop_append placed
    rw [Forest.letters, serializeBranches, List.append_assoc] at bytes
    obtain ⟨branch, later⟩ := prefix_drop_append bytes
    exact .cons branch (laid_traverse asserted child [] start live.1 first)
      (laid_children asserted children _ live.2 others 0 (o + 3) later)

end

end Traverse

/-- **What is serialised has the format.** -/
theorem laid_serializeTrie {t : Trie Letter Entry} {data : List UInt8} (live : Trie.Live t)
    (serialized : serializeTrie t = some data) : Laid data t 0 ∧ data.length ≤ 0xFFFF := by
  unfold serializeTrie at serialized
  dsimp only at serialized
  split_ifs at serialized with fits
  cases serialized
  refine ⟨laid_traverse fits.1 t [] 0 live (List.prefix_refl _), ?_⟩
  have length : ((traverse [] t 0).flatMap (serialize (byteOffset (traverse [] t 0)))).length =
      byteOffset (traverse [] t 0) (traverse [] t 0).length := by
    rw [List.length_flatMap, byteOffset, List.take_length]
    simp only [length_serialize]
  rw [length]
  exact fits.2

end QmkFirmware.Autocorrect
