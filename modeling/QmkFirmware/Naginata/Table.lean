import Mathlib

/-!
# The tables of the input method

The keys of `naginata.h` and the two tables of `keymap.c` that map sets of keys to
what is typed for them.
-/

namespace QmkFirmware.Naginata

/-- `NGKEYS`, without the prefix; the digits are `n0` to `n9`. -/
inductive NgKey where
  | q | w | e | r | t | y | u | i | o | p | a | s | d | f | g | h | j | k | l | scln | z | x | c | v
  | b | n | m | comm | dot | slsh | n1 | n2 | n3 | n4 | n5 | n6 | n7 | n8 | n9 | n0 | mins | x1
  | shft | hat | yen | lb | rb | colo | bslsh | lsft
  deriving DecidableEq, Repr

/-- `ng_key`: each key has its own bit, in the order of the keycodes. -/
def ngKey (key : NgKey) : BitVec 64 := BitVec.twoPow 64 key.ctorIdx

/-- A set of keys -/
def keys (list : List NgKey) : BitVec 64 := list.foldr (fun key set => ngKey key ||| set) 0

/-- Whether a key is in a set. -/
def holds (set : BitVec 64) (key : NgKey) : Bool := set.getLsbD key.ctorIdx

theorem ctorIdx_lt (key : NgKey) : key.ctorIdx < 64 := by
  cases key <;> decide

theorem ctorIdx_inj {key other : NgKey} (h : key.ctorIdx = other.ctorIdx) : key = other := by
  revert h
  cases key <;> cases other <;> first | exact fun _ => rfl | exact fun h => absurd h (by decide)

theorem holds_ngKey (key other : NgKey) : holds (ngKey key) other = decide (other = key) := by
  rw [holds, ngKey, BitVec.getLsbD_twoPow, Bool.eq_iff_iff]
  simp only [ctorIdx_lt, decide_true, Bool.true_and, decide_eq_true_eq]
  exact ⟨fun h => (ctorIdx_inj h).symm, fun h => h ▸ rfl⟩

theorem holds_or (set more : BitVec 64) (key : NgKey) :
    holds (set ||| more) key = (holds set key || holds more key) := by
  unfold holds
  rw [BitVec.getLsbD_or]

/-- A key is taken out of a set. -/
theorem holds_remove (set : BitVec 64) (key other : NgKey) :
    holds (set &&& ~~~(ngKey key)) other = (holds set other && decide (other ≠ key)) := by
  have keep := holds_ngKey key other
  unfold holds at keep ⊢
  rw [BitVec.getLsbD_and, BitVec.getLsbD_not, keep]
  simp [ctorIdx_lt]

/-- `naginata_keymap`. In `kana` an arrow is `SS_TAP(X_LEFT)` or `SS_TAP(X_RIGHT)`, `⏎` is
`SS_TAP(X_ENTER)` and `⌫` is `SS_TAP(X_BSPC)`. -/
structure Entry where
  key : BitVec 64
  kana : String
  deriving DecidableEq, Repr

/-- `ngmap` -/
def ngmap : List Entry :=
  [⟨keys [.n1], "nu"⟩, ⟨keys [.n2], "fu"⟩, ⟨keys [.n3], "a"⟩, ⟨keys [.n4], "ma"⟩, ⟨keys [.n5], "e"⟩,
   ⟨keys [.n6], "o"⟩, ⟨keys [.n7], "ya"⟩, ⟨keys [.n8], "yu"⟩, ⟨keys [.n9], "yo"⟩, ⟨keys [.n0], "wa"⟩,
   ⟨keys [.mins], "ho"⟩, ⟨keys [.hat], "he"⟩, ⟨keys [.yen], "wo"⟩, ⟨keys [.shft], " "⟩, ⟨keys [.q], "ta"⟩,
   ⟨keys [.w], "te"⟩, ⟨keys [.e], "i"⟩, ⟨keys [.r], "su"⟩, ⟨keys [.t], "ka"⟩, ⟨keys [.y], "nn"⟩,
   ⟨keys [.u], "na"⟩, ⟨keys [.i], "ni"⟩, ⟨keys [.o], "ra"⟩, ⟨keys [.p], "se"⟩, ⟨keys [.x1], "tu"⟩,
   ⟨keys [.lb], "-"⟩, ⟨keys [.a], "ti"⟩, ⟨keys [.s], "to"⟩, ⟨keys [.d], "si"⟩, ⟨keys [.f], "ha"⟩,
   ⟨keys [.g], "xtu"⟩, ⟨keys [.h], "ku"⟩, ⟨keys [.j], "u"⟩, ⟨keys [.k], "no"⟩, ⟨keys [.l], "ri"⟩,
   ⟨keys [.scln], "re"⟩, ⟨keys [.colo], "ke"⟩, ⟨keys [.rb], "mu"⟩, ⟨keys [.z], "ki"⟩, ⟨keys [.x], "sa"⟩,
   ⟨keys [.c], "so"⟩, ⟨keys [.v], "hi"⟩, ⟨keys [.b], "ko"⟩, ⟨keys [.n], "mi"⟩, ⟨keys [.m], "mo"⟩,
   ⟨keys [.comm], "ne"⟩, ⟨keys [.dot], "ru"⟩, ⟨keys [.slsh], "me"⟩, ⟨keys [.bslsh], "ro"⟩,
   ⟨keys [.lsft, .n1], "!"⟩, ⟨keys [.lsft, .n3], "xa"⟩, ⟨keys [.lsft, .n5], "xe"⟩, ⟨keys [.lsft, .n6], "xo"⟩,
   ⟨keys [.lsft, .n7], "xya"⟩, ⟨keys [.lsft, .n8], "xyu"⟩, ⟨keys [.lsft, .n9], "xyo"⟩,
   ⟨keys [.lsft, .n0], "wo"⟩, ⟨keys [.lsft, .mins], "-"⟩, ⟨keys [.lsft, .hat], "~"⟩,
   ⟨keys [.lsft, .e], "xi"⟩, ⟨keys [.lsft, .j], "xu"⟩, ⟨keys [.lsft, .lb], "("⟩, ⟨keys [.lsft, .rb], ")"⟩,
   ⟨keys [.lsft, .scln], "+"⟩, ⟨keys [.lsft, .colo], "*"⟩, ⟨keys [.lsft, .comm], ","⟩,
   ⟨keys [.lsft, .dot], "."⟩, ⟨keys [.lsft, .slsh], "?"⟩, ⟨keys [.lsft, .bslsh], "_"⟩, ⟨keys [.k, .n1], "!"⟩,
   ⟨keys [.k, .n2], "bu"⟩, ⟨keys [.k, .n3], "xa"⟩, ⟨keys [.k, .n5], "xe"⟩, ⟨keys [.k, .n6], "xo"⟩,
   ⟨keys [.d, .n7], "xya"⟩, ⟨keys [.d, .n8], "xyu"⟩, ⟨keys [.d, .n9], "xyo"⟩, ⟨keys [.d, .n0], "wo"⟩,
   ⟨keys [.d, .mins], "bo"⟩, ⟨keys [.d, .hat], "be"⟩, ⟨keys [.k, .q], "da"⟩, ⟨keys [.k, .w], "de"⟩,
   ⟨keys [.k, .e], "xi"⟩, ⟨keys [.k, .r], "zu"⟩, ⟨keys [.k, .t], "ga"⟩, ⟨keys [.d, .y], "sye"⟩,
   ⟨keys [.d, .u], "sya"⟩, ⟨keys [.d, .i], "syu"⟩, ⟨keys [.d, .o], "syo"⟩, ⟨keys [.d, .p], "ze"⟩,
   ⟨keys [.d, .x1], "du"⟩, ⟨keys [.d, .lb], "["⟩, ⟨keys [.k, .a], "di"⟩, ⟨keys [.k, .s], "do"⟩,
   ⟨keys [.k, .d], "ji"⟩, ⟨keys [.k, .f], "ba"⟩, ⟨keys [.d, .h], "gu"⟩, ⟨keys [.d, .j], "vu"⟩,
   ⟨keys [.d, .k], "ji"⟩, ⟨keys [.d, .scln], "mu"⟩, ⟨keys [.d, .colo], "ge"⟩, ⟨keys [.d, .rb], "]"⟩,
   ⟨keys [.k, .z], "gi"⟩, ⟨keys [.k, .x], "za"⟩, ⟨keys [.k, .c], "zo"⟩, ⟨keys [.k, .v], "bi"⟩,
   ⟨keys [.k, .b], "go"⟩, ⟨keys [.d, .comm], ","⟩, ⟨keys [.d, .dot], "."⟩, ⟨keys [.d, .slsh], "ro"⟩,
   ⟨keys [.l, .n1], "?"⟩, ⟨keys [.l, .n2], "pu"⟩, ⟨keys [.s, .n0], "wa"⟩, ⟨keys [.s, .mins], "po"⟩,
   ⟨keys [.s, .hat], "pe"⟩, ⟨keys [.s, .y], "gye"⟩, ⟨keys [.s, .u], "gya"⟩, ⟨keys [.s, .i], "gyu"⟩,
   ⟨keys [.s, .o], "gyo"⟩, ⟨keys [.l, .f], "pa"⟩, ⟨keys [.s, .scln], "+"⟩, ⟨keys [.s, .colo], "*"⟩,
   ⟨keys [.s, .lb], "("⟩, ⟨keys [.s, .rb], ")"⟩, ⟨keys [.l, .v], "pi"⟩, ⟨keys [.s, .comm], "<"⟩,
   ⟨keys [.s, .dot], ">"⟩, ⟨keys [.s, .slsh], "/"⟩, ⟨keys [.u, .n1], "1"⟩, ⟨keys [.u, .n2], "2"⟩,
   ⟨keys [.u, .n3], "3"⟩, ⟨keys [.u, .n4], "4"⟩, ⟨keys [.u, .n5], "5"⟩, ⟨keys [.u, .n6], "6"⟩,
   ⟨keys [.u, .n7], "7"⟩, ⟨keys [.u, .n8], "8"⟩, ⟨keys [.u, .n9], "9"⟩, ⟨keys [.u, .n0], "0"⟩,
   ⟨keys [.u, .mins], "-"⟩, ⟨keys [.u, .hat], "^"⟩, ⟨keys [.u, .yen], "¥"⟩, ⟨keys [.r, .n1], "1"⟩,
   ⟨keys [.r, .n2], "2"⟩, ⟨keys [.r, .n3], "3"⟩, ⟨keys [.r, .n4], "4"⟩, ⟨keys [.r, .n5], "5"⟩,
   ⟨keys [.r, .n6], "6"⟩, ⟨keys [.r, .n7], "7"⟩, ⟨keys [.r, .n8], "8"⟩, ⟨keys [.r, .n9], "9"⟩,
   ⟨keys [.r, .n0], "0"⟩, ⟨keys [.r, .mins], "-"⟩, ⟨keys [.r, .hat], "^"⟩, ⟨keys [.r, .yen], "\\"⟩,
   ⟨keys [.w, .n1], "!"⟩, ⟨keys [.w, .n2], "\""⟩, ⟨keys [.w, .n3], "#"⟩, ⟨keys [.w, .n4], "$"⟩,
   ⟨keys [.w, .n5], "%"⟩, ⟨keys [.w, .n6], "&"⟩, ⟨keys [.w, .n7], "'"⟩, ⟨keys [.w, .n8], "("⟩,
   ⟨keys [.w, .n9], ")"⟩, ⟨keys [.w, .mins], "="⟩, ⟨keys [.w, .hat], "~"⟩, ⟨keys [.w, .yen], "|"⟩,
   ⟨keys [.o, .n1], "!"⟩, ⟨keys [.o, .n2], "\""⟩, ⟨keys [.o, .n3], "#"⟩, ⟨keys [.o, .n4], "$"⟩,
   ⟨keys [.o, .n5], "%"⟩, ⟨keys [.o, .n6], "&"⟩, ⟨keys [.o, .n7], "'"⟩, ⟨keys [.o, .n8], "("⟩,
   ⟨keys [.o, .n9], ")"⟩, ⟨keys [.o, .mins], "="⟩, ⟨keys [.o, .hat], "~"⟩, ⟨keys [.o, .yen], "|"⟩,
   ⟨keys [.a, .y], "che"⟩, ⟨keys [.a, .u], "cha"⟩, ⟨keys [.a, .i], "chu"⟩, ⟨keys [.a, .o], "cho"⟩,
   ⟨keys [.f, .y], "hye"⟩, ⟨keys [.f, .u], "hya"⟩, ⟨keys [.f, .i], "hyu"⟩, ⟨keys [.f, .o], "hyo"⟩,
   ⟨keys [.g, .y], "kye"⟩, ⟨keys [.g, .u], "kya"⟩, ⟨keys [.g, .i], "kyu"⟩, ⟨keys [.g, .o], "kyo"⟩,
   ⟨keys [.z, .y], "kye"⟩, ⟨keys [.z, .u], "kya"⟩, ⟨keys [.z, .i], "kyu"⟩, ⟨keys [.z, .o], "kyo"⟩,
   ⟨keys [.x, .y], "pye"⟩, ⟨keys [.x, .u], "pya"⟩, ⟨keys [.x, .i], "pyu"⟩, ⟨keys [.x, .o], "pyo"⟩,
   ⟨keys [.v, .y], "bye"⟩, ⟨keys [.v, .u], "bya"⟩, ⟨keys [.v, .i], "byu"⟩, ⟨keys [.v, .o], "byo"⟩,
   ⟨keys [.c, .y], "je"⟩, ⟨keys [.c, .u], "ja"⟩, ⟨keys [.c, .i], "ju"⟩, ⟨keys [.c, .o], "jo"⟩,
   ⟨keys [.i, .w], "nya"⟩, ⟨keys [.i, .e], "nyu"⟩, ⟨keys [.i, .r], "nyo"⟩, ⟨keys [.i, .t], "nye"⟩,
   ⟨keys [.l, .w], "rya"⟩, ⟨keys [.l, .e], "ryu"⟩, ⟨keys [.l, .r], "ryo"⟩, ⟨keys [.l, .t], "rye"⟩,
   ⟨keys [.n, .w], "mya"⟩, ⟨keys [.n, .e], "myu"⟩, ⟨keys [.n, .r], "myo"⟩, ⟨keys [.n, .t], "mye"⟩,
   ⟨keys [.n2, .n5], "fe"⟩, ⟨keys [.w, .n5], "texe"⟩, ⟨keys [.q, .n5], "dexe"⟩, ⟨keys [.w, .e], "texi"⟩,
   ⟨keys [.q, .e], "dexi"⟩, ⟨keys [.w, .j], "texyu"⟩, ⟨keys [.q, .j], "dexyu"⟩, ⟨keys [.n2, .n3], "fa"⟩,
   ⟨keys [.n2, .e], "fi"⟩, ⟨keys [.n2, .n6], "fo"⟩, ⟨keys [.n2, .j], "fuxyu"⟩, ⟨keys [.j, .e], "uxi"⟩,
   ⟨keys [.j, .n6], "uxo"⟩, ⟨keys [.j, .n5], "uxe"⟩, ⟨keys [.r, .f], "/"⟩, ⟨keys [.r, .g], "/"⟩,
   ⟨keys [.f, .g], "()←"⟩, ⟨keys [.f, .v], "!"⟩, ⟨keys [.f, .b], "!"⟩, ⟨keys [.n, .j], "?"⟩,
   ⟨keys [.h, .j], "[]←"⟩, ⟨keys [.h, .u], "/"⟩]

/-- `ngmap2` -/
def ngmap2 : List Entry :=
  [⟨keys [.n1], "1"⟩, ⟨keys [.n2], "2"⟩, ⟨keys [.n3], "3"⟩, ⟨keys [.n4], "4"⟩, ⟨keys [.n5], "5"⟩,
   ⟨keys [.n6], "6"⟩, ⟨keys [.n7], "7"⟩, ⟨keys [.n8], "8"⟩, ⟨keys [.n9], "9"⟩, ⟨keys [.n0], "0"⟩,
   ⟨keys [.mins], "-"⟩, ⟨keys [.q], "vu"⟩, ⟨keys [.j], "a"⟩, ⟨keys [.k], "i"⟩, ⟨keys [.l], "u"⟩,
   ⟨keys [.shft, .o], "e"⟩, ⟨keys [.shft, .n], "o"⟩, ⟨keys [.f], "ka"⟩, ⟨keys [.w], "ki"⟩, ⟨keys [.h], "ku"⟩,
   ⟨keys [.s], "ke"⟩, ⟨keys [.v], "ko"⟩, ⟨keys [.shft, .u], "sa"⟩, ⟨keys [.r], "si"⟩, ⟨keys [.o], "su"⟩,
   ⟨keys [.shft, .a], "se"⟩, ⟨keys [.b], "so"⟩, ⟨keys [.n], "ta"⟩, ⟨keys [.shft, .g], "ti"⟩,
   ⟨keys [.shft, .scln], "fu"⟩, ⟨keys [.e], "te"⟩, ⟨keys [.d], "to"⟩, ⟨keys [.m], "na"⟩,
   ⟨keys [.shft, .d], "ni"⟩, ⟨keys [.shft, .r], "ne"⟩, ⟨keys [.shft, .comm], "mu"⟩, ⟨keys [.shft, .j], "no"⟩,
   ⟨keys [.c], "ha"⟩, ⟨keys [.x], "hi"⟩, ⟨keys [.shft, .x], "hi"⟩, ⟨keys [.shft, .dot], "wa"⟩,
   ⟨keys [.p], "he"⟩, ⟨keys [.z], "ho"⟩, ⟨keys [.shft, .z], "ho"⟩, ⟨keys [.shft, .f], "ma"⟩,
   ⟨keys [.shft, .b], "mi"⟩, ⟨keys [.shft, .w], "nu"⟩, ⟨keys [.shft, .s], "me"⟩, ⟨keys [.shft, .k], "mo"⟩,
   ⟨keys [.shft, .h], "ya"⟩, ⟨keys [.shft, .p], "yu"⟩, ⟨keys [.shft, .i], "yo"⟩, ⟨keys [.dot], "ra"⟩,
   ⟨keys [.shft, .e], "ri"⟩, ⟨keys [.i], "ru"⟩, ⟨keys [.slsh], "re"⟩, ⟨keys [.shft, .slsh], "re"⟩,
   ⟨keys [.a], "ro"⟩, ⟨keys [.shft, .l], "tsu"⟩, ⟨keys [.shft, .c], "wo"⟩, ⟨keys [.comm], "nn"⟩,
   ⟨keys [.scln], "-"⟩, ⟨keys [.j, .f], "ga"⟩, ⟨keys [.j, .w], "gi"⟩, ⟨keys [.f, .h], "gu"⟩,
   ⟨keys [.j, .s], "ge"⟩, ⟨keys [.j, .v], "go"⟩, ⟨keys [.f, .u], "za"⟩, ⟨keys [.j, .r], "zi"⟩,
   ⟨keys [.f, .o], "zu"⟩, ⟨keys [.j, .a], "ze"⟩, ⟨keys [.j, .b], "zo"⟩, ⟨keys [.f, .n], "da"⟩,
   ⟨keys [.j, .g], "di"⟩, ⟨keys [.f, .scln], "bu"⟩, ⟨keys [.j, .e], "de"⟩, ⟨keys [.j, .d], "do"⟩,
   ⟨keys [.j, .c], "ba"⟩, ⟨keys [.j, .x], "bi"⟩, ⟨keys [.f, .p], "be"⟩, ⟨keys [.j, .z], "bo"⟩,
   ⟨keys [.f, .l], "du"⟩, ⟨keys [.m, .c], "pa"⟩, ⟨keys [.m, .x], "pi"⟩, ⟨keys [.v, .scln], "pu"⟩,
   ⟨keys [.v, .p], "pe"⟩, ⟨keys [.m, .z], "po"⟩, ⟨keys [.q, .h], "xya"⟩, ⟨keys [.q, .p], "xyu"⟩,
   ⟨keys [.q, .i], "xyo"⟩, ⟨keys [.q, .j], "xa"⟩, ⟨keys [.q, .k], "xi"⟩, ⟨keys [.q, .l], "xu"⟩,
   ⟨keys [.q, .o], "xe"⟩, ⟨keys [.q, .n], "xo"⟩, ⟨keys [.q, .shft, .l], "xwa"⟩, ⟨keys [.g], "xtu"⟩,
   ⟨keys [.r, .h], "sya"⟩, ⟨keys [.r, .p], "syu"⟩, ⟨keys [.r, .i], "syo"⟩, ⟨keys [.j, .r, .h], "zya"⟩,
   ⟨keys [.j, .r, .p], "zyu"⟩, ⟨keys [.j, .r, .i], "zyo"⟩, ⟨keys [.w, .h], "kya"⟩, ⟨keys [.w, .p], "kyu"⟩,
   ⟨keys [.w, .i], "kyo"⟩, ⟨keys [.j, .w, .h], "gya"⟩, ⟨keys [.j, .w, .p], "gyu"⟩,
   ⟨keys [.j, .w, .i], "gyo"⟩, ⟨keys [.g, .h], "tya"⟩, ⟨keys [.g, .p], "tyu"⟩, ⟨keys [.g, .i], "tyo"⟩,
   ⟨keys [.j, .g, .h], "dya"⟩, ⟨keys [.j, .g, .p], "dyu"⟩, ⟨keys [.j, .g, .i], "dyo"⟩,
   ⟨keys [.d, .h], "nya"⟩, ⟨keys [.d, .p], "nyu"⟩, ⟨keys [.d, .i], "nyo"⟩, ⟨keys [.x, .h], "hya"⟩,
   ⟨keys [.x, .p], "hyu"⟩, ⟨keys [.x, .i], "hyo"⟩, ⟨keys [.j, .x, .h], "bya"⟩, ⟨keys [.j, .x, .p], "byu"⟩,
   ⟨keys [.j, .x, .i], "byo"⟩, ⟨keys [.m, .x, .h], "pya"⟩, ⟨keys [.m, .x, .p], "pyu"⟩,
   ⟨keys [.m, .x, .i], "pyo"⟩, ⟨keys [.b, .h], "mya"⟩, ⟨keys [.b, .p], "myu"⟩, ⟨keys [.b, .i], "myo"⟩,
   ⟨keys [.e, .h], "rya"⟩, ⟨keys [.e, .p], "ryu"⟩, ⟨keys [.e, .i], "ryo"⟩, ⟨keys [.m, .e, .k], "thi"⟩,
   ⟨keys [.m, .e, .p], "thu"⟩, ⟨keys [.j, .e, .k], "dhi"⟩, ⟨keys [.j, .e, .p], "dhu"⟩,
   ⟨keys [.m, .d, .l], "toxu"⟩, ⟨keys [.j, .d, .l], "doxu"⟩, ⟨keys [.m, .r, .o], "sye"⟩,
   ⟨keys [.m, .g, .o], "tye"⟩, ⟨keys [.j, .r, .o], "zye"⟩, ⟨keys [.j, .g, .o], "dye"⟩,
   ⟨keys [.v, .scln, .j], "fa"⟩, ⟨keys [.v, .scln, .k], "fi"⟩, ⟨keys [.v, .scln, .o], "fe"⟩,
   ⟨keys [.v, .scln, .n], "fo"⟩, ⟨keys [.v, .scln, .p], "fyu"⟩, ⟨keys [.v, .k, .o], "ixe"⟩,
   ⟨keys [.v, .l, .k], "wi"⟩, ⟨keys [.v, .l, .o], "we"⟩, ⟨keys [.v, .l, .n], "uxo"⟩,
   ⟨keys [.v, .h, .j], "kuxa"⟩, ⟨keys [.v, .h, .k], "kuxi"⟩, ⟨keys [.v, .h, .o], "kuxe"⟩,
   ⟨keys [.v, .h, .n], "kuxo"⟩, ⟨keys [.v, .h, .l], "kuxwa"⟩, ⟨keys [.f, .h, .j], "guxa"⟩,
   ⟨keys [.f, .h, .k], "guxi"⟩, ⟨keys [.f, .h, .o], "guxe"⟩, ⟨keys [.f, .h, .n], "guxo"⟩,
   ⟨keys [.f, .h, .l], "guxwa"⟩, ⟨keys [.v, .l, .j], "tsa"⟩, ⟨keys [.v, .l, .k], "tsi"⟩,
   ⟨keys [.v, .l, .o], "tse"⟩, ⟨keys [.v, .l, .n], "tso"⟩, ⟨keys [.shft], " "⟩, ⟨keys [.q], ""⟩,
   ⟨keys [.v, .shft], ","⟩, ⟨keys [.m, .shft], ".⏎"⟩, ⟨keys [.u], "⌫"⟩, ⟨keys [.v, .m], "⏎"⟩,
   ⟨keys [.shft, .v, .m], "⏎"⟩, ⟨keys [.t], "←"⟩, ⟨keys [.y], "→"⟩, ⟨keys [.j, .k, .t], "/"⟩,
   ⟨keys [.j, .k, .f], "[]"⟩, ⟨keys [.j, .k, .d], "?"⟩, ⟨keys [.j, .k, .c], "!"⟩, ⟨keys [.j, .k, .s], "()"⟩,
   ⟨keys [.j, .k, .x], "\x7b\x7d"⟩, ⟨keys [.j, .k, .a], "///"⟩, ⟨keys [.v, .dot, .comm], "fe"⟩,
   ⟨keys [.x, .c, .m], "pyu"⟩]

end QmkFirmware.Naginata
