/-
**Bitmaps over machine words.**

Bit `i` of a bitmap is bit `i % w` of word `i / w`.
-/

import Mathlib.Tactic

namespace LaylaOS.Lib

variable {w : Nat}

/-- The words of a bitmap. -/
abbrev Bitmap (w : Nat) : Type := Nat → BitVec w

namespace Bitmap

def set (bits : Bitmap w) (i : Nat) : Bitmap w :=
  Function.update bits (i / w) (bits (i / w) ||| (1#w <<< (i % w)))

def clear (bits : Bitmap w) (i : Nat) : Bitmap w :=
  Function.update bits (i / w) (bits (i / w) &&& ~~~(1#w <<< (i % w)))

def test (bits : Bitmap w) (i : Nat) : Bool :=
  (bits (i / w) &&& (1#w <<< (i % w))) != 0#w

theorem and_mask_ne_zero (word : BitVec w) {b : Nat} (inside : b < w) :
    ((word &&& (1#w <<< b)) != 0#w) = word.getLsbD b := by
  rw [Bool.eq_iff_iff, bne_iff_ne, Ne, ← not_iff_not, not_not, Bool.not_eq_true]
  constructor
  · intro zero
    have bit := congrArg (BitVec.getLsbD · b) zero
    simpa [inside] using bit
  · intro unset
    refine BitVec.eq_of_getLsbD_eq fun j _ => ?_
    by_cases same : j = b
    · simp [same, unset]
    · simp
      omega

theorem getLsbD_mask (i b : Nat) (inside : b < w) : (1#w <<< (i % w)).getLsbD b = decide (b = i % w) := by
  rw [Bool.eq_iff_iff]
  simp [inside]
  omega

/-- The clear bits among the first `n`. -/
def clearBelow (bits : Bitmap w) (n : Nat) : Finset Nat :=
  (Finset.range n).filter fun i => bits.test i = false

theorem mem_clearBelow {bits : Bitmap w} {n i : Nat} : i ∈ bits.clearBelow n ↔ i < n ∧ bits.test i = false := by
  rw [clearBelow, Finset.mem_filter, Finset.mem_range]

/-! ### One bit is written -/

variable [NeZero w]

theorem test_eq (bits : Bitmap w) (i : Nat) : bits.test i = (bits (i / w)).getLsbD (i % w) :=
  and_mask_ne_zero _ (Nat.mod_lt i (Nat.pos_of_neZero w))

theorem test_update (bits : Bitmap w) {i : Nat} {word : BitVec w} {value : Bool}
    (wrote : ∀ b < w, word.getLsbD b = if b = i % w then value else (bits (i / w)).getLsbD b)
    (j : Nat) : test (Function.update bits (i / w) word) j = if j = i then value else bits.test j := by
  have low := Nat.mod_lt j (Nat.pos_of_neZero w)
  rw [test_eq, test_eq]
  by_cases word_eq : j / w = i / w
  · rw [word_eq, Function.update_self, wrote _ low]
    refine if_congr ⟨fun bit_eq => ?_, fun same => by rw [same]⟩ rfl rfl
    rw [← Nat.div_add_mod j w, ← Nat.div_add_mod i w, word_eq, bit_eq]
  · rw [Function.update_of_ne word_eq, if_neg fun same => word_eq (by rw [same])]

@[simp] theorem test_set (bits : Bitmap w) (i j : Nat) :
    (bits.set i).test j = if j = i then true else bits.test j := by
  refine test_update bits (fun b inside => ?_) j
  rw [BitVec.getLsbD_or, getLsbD_mask i b inside]
  by_cases bit_eq : b = i % w
  · simp [bit_eq]
  · simp [bit_eq]

@[simp] theorem test_clear (bits : Bitmap w) (i j : Nat) :
    (bits.clear i).test j = if j = i then false else bits.test j := by
  refine test_update bits (fun b inside => ?_) j
  rw [BitVec.getLsbD_and, BitVec.getLsbD_not, getLsbD_mask i b inside]
  by_cases bit_eq : b = i % w
  · simp [bit_eq]
  · simp [bit_eq, inside]

theorem clearBelow_set (bits : Bitmap w) (n i : Nat) :
    (bits.set i).clearBelow n = (bits.clearBelow n).erase i := by
  ext j
  rw [Finset.mem_erase, mem_clearBelow, mem_clearBelow, test_set]
  by_cases same : j = i
  · simp [same]
  · simp [same]

theorem clearBelow_clear (bits : Bitmap w) {n i : Nat} (inside : i < n) :
    (bits.clear i).clearBelow n = insert i (bits.clearBelow n) := by
  ext j
  rw [Finset.mem_insert, mem_clearBelow, mem_clearBelow, test_clear]
  by_cases same : j = i
  · simp [same, inside]
  · simp [same]

end Bitmap

/-! ### Searching row by row -/

theorem findSome?_congr {α β : Type*} {f g : α → Option β} {items : List α}
    (same : ∀ x ∈ items, f x = g x) : items.findSome? f = items.findSome? g := by
  rw [← List.head?_filterMap, List.filterMap_congr same, List.head?_filterMap]

theorem findSome?_range_mul {α : Type*} (f : Nat → Option α) (rows columns : Nat) :
    ((List.range rows).findSome? fun s => (List.range columns).findSome? fun i =>
      f (s * columns + i)) = (List.range (rows * columns)).findSome? f := by
  induction rows with
  | zero => simp
  | succ rows ih =>
    rw [List.range_succ, List.findSome?_append, ih, Nat.succ_mul, List.range_add,
      List.findSome?_append, List.findSome?_map]
    simp [Function.comp_def]

end LaylaOS.Lib
