/-
**One's complement sums.**

Numbers up to `m`, added with the carry going around the end: `0` and `m` both stand for zero, and only
the empty sum, or a sum of zeros, is `0`.
-/

import Mathlib.Tactic

namespace LaylaOS.Lib

variable {m : Nat}

/-- Addition with end-around carry. -/
def onesAdd (m x y : Nat) : Nat := if x + y ≤ m then x + y else x + y - m

/-- The number between 1 and `m` in the class of `n`, or 0 for 0. -/
def residue (m n : Nat) : Nat := if n = 0 then 0 else (n - 1) % m + 1

@[simp] theorem residue_zero (m : Nat) : residue m 0 = 0 := rfl

theorem residue_of_pos {n : Nat} (positive : 0 < n) : residue m n = (n - 1) % m + 1 := if_neg positive.ne'

theorem residue_of_le {n : Nat} (le : n ≤ m) : residue m n = n := by
  rcases Nat.eq_zero_or_pos n with rfl | positive
  · rfl
  · rw [residue_of_pos positive, Nat.mod_eq_of_lt (by omega)]
    omega

theorem residue_le (positive : 0 < m) (n : Nat) : residue m n ≤ m := by
  unfold residue
  split
  · exact Nat.zero_le _
  · exact Nat.mod_lt _ positive

theorem residue_modEq (n : Nat) : residue m n ≡ n [MOD m] := by
  rcases Nat.eq_zero_or_pos n with rfl | positive
  · rfl
  · rw [residue_of_pos positive]
    have shifted := (Nat.mod_modEq (n - 1) m).add_right 1
    rwa [Nat.sub_add_cancel positive] at shifted

theorem residue_eq_zero_iff {n : Nat} : residue m n = 0 ↔ n = 0 := by
  unfold residue
  split
  · next zero => exact iff_of_true rfl zero
  · next other => exact iff_of_false (Nat.succ_ne_zero _) other

theorem residue_congr {a b : Nat} (same : a ≡ b [MOD m]) (zero : a = 0 ↔ b = 0) :
    residue m a = residue m b := by
  rcases Nat.eq_zero_or_pos a with rfl | positive
  · rw [zero.mp rfl]
  · have positive' : 0 < b := Nat.pos_of_ne_zero (mt zero.mpr positive.ne')
    rw [residue_of_pos positive, residue_of_pos positive']
    refine congrArg (· + 1) (Nat.ModEq.add_right_cancel' 1 ?_)
    rwa [Nat.sub_add_cancel positive, Nat.sub_add_cancel positive']

theorem onesAdd_residue {word : Nat} (small : word ≤ m) (sum : Nat) :
    onesAdd m (residue m sum) word = residue m (sum + word) := by
  rcases Nat.eq_zero_or_pos m with rfl | modulus
  · obtain rfl := Nat.le_zero.mp small
    unfold onesAdd
    split
    · next le =>
        have none := residue_eq_zero_iff.mp (Nat.le_zero.mp le)
        rw [none]
        rfl
    · rfl
  have bound := residue_le modulus sum
  have class' : residue m sum + word ≡ sum + word [MOD m] := (residue_modEq sum).add_right word
  have zero : residue m sum + word = 0 ↔ sum + word = 0 := by
    rw [Nat.add_eq_zero_iff, Nat.add_eq_zero_iff, residue_eq_zero_iff]
  rw [← residue_congr class' zero]
  unfold onesAdd
  split
  · next le => exact (residue_of_le le).symm
  · next beyond =>
      have once : (residue m sum + word - 1) % m = residue m sum + word - 1 - m := by
        rw [Nat.mod_eq_sub_mod (by omega), Nat.mod_eq_of_lt (by omega)]
      rw [residue_of_pos (show 0 < residue m sum + word by omega), once]
      omega

theorem foldl_onesAdd {words : List Nat} (small : ∀ word ∈ words, word ≤ m) (sum : Nat) :
    words.foldl (onesAdd m) (residue m sum) = residue m (sum + words.sum) := by
  induction words generalizing sum with
  | nil => rfl
  | cons word rest ih =>
    obtain ⟨here, later⟩ := List.forall_mem_cons.mp small
    rw [List.foldl_cons, onesAdd_residue here, ih later, List.sum_cons, Nat.add_assoc]

end LaylaOS.Lib
