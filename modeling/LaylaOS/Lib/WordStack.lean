/-
**Stacks that grow downwards.**

A stack of words in a memory with `w`-bit addresses, one word every `stride` bytes. `Spelled` says which
words stand from an address on; a push puts one more in front of them, a pop gives the first one back.
-/

import Mathlib.Tactic

namespace LaylaOS.Lib

variable {w : Nat} {α : Type}

/-- The words stand in memory from the address on. -/
def Spelled (stride : Nat) (memory : BitVec w → α) : BitVec w → List α → Prop
  | _, [] => True
  | address, word :: words =>
    memory address = word ∧ Spelled stride memory (address + BitVec.ofNat w stride) words

/-- The address of the `k`th word. -/
def wordAddress (stride : Nat) (address : BitVec w) (k : Nat) : BitVec w :=
  address + BitVec.ofNat w (k * stride)

namespace Spelled

variable {stride : Nat} {memory memory' : BitVec w → α} {address : BitVec w} {word : α}
  {words rest : List α}

theorem wordAddress_zero (stride : Nat) (address : BitVec w) : wordAddress stride address 0 = address := by
  simp [wordAddress]

theorem wordAddress_succ (stride : Nat) (address : BitVec w) (k : Nat) :
    wordAddress stride (address + BitVec.ofNat w stride) k = wordAddress stride address (k + 1) := by
  unfold wordAddress
  rw [Nat.succ_mul, Nat.add_comm (k * stride), BitVec.ofNat_add, BitVec.add_assoc]

theorem iff_getElem? : Spelled stride memory address words ↔
    ∀ k word, words[k]? = some word → memory (wordAddress stride address k) = word := by
  induction words generalizing address with
  | nil => simp [Spelled]
  | cons first words ih =>
    rw [Spelled, ih]
    constructor
    · rintro ⟨here, behind⟩ k word entry
      cases k with
      | zero =>
        rw [wordAddress_zero, here]
        exact Option.some.inj entry
      | succ k =>
        rw [← wordAddress_succ]
        exact behind k word entry
    · intro all
      refine ⟨?_, fun k word entry => ?_⟩
      · have here := all 0 first rfl
        rwa [wordAddress_zero] at here
      · rw [wordAddress_succ]
        exact all (k + 1) word entry

theorem congr (spelled : Spelled stride memory address words)
    (same : ∀ k < words.length, memory' (wordAddress stride address k) =
      memory (wordAddress stride address k)) : Spelled stride memory' address words := by
  rw [iff_getElem?] at spelled ⊢
  intro k word entry
  rw [same k (List.getElem?_eq_some_iff.mp entry).1]
  exact spelled k word entry

theorem replace (spelled : Spelled stride memory address words) {index : Nat}
    (same : ∀ k < words.length, k ≠ index → memory' (wordAddress stride address k) =
      memory (wordAddress stride address k)) :
    Spelled stride memory' address (words.set index (memory' (wordAddress stride address index))) := by
  rw [iff_getElem?] at spelled ⊢
  intro k word entry
  rw [List.getElem?_set] at entry
  by_cases here : index = k
  · subst here
    rw [if_pos rfl] at entry
    split at entry
    · exact Option.some.inj entry
    · cases entry
  · rw [if_neg here] at entry
    rw [same k (List.getElem?_eq_some_iff.mp entry).1 (Ne.symm here)]
    exact spelled k word entry

theorem below_ne {k : Nat} (positive : 0 < stride) (fits : (k + 1) * stride < 2 ^ w) :
    wordAddress stride address k ≠ address - BitVec.ofNat w stride := by
  intro same
  have sum : BitVec.ofNat w ((k + 1) * stride) = 0 := by
    have moved : address + (BitVec.ofNat w (k * stride) + BitVec.ofNat w stride) = address := by
      rw [← BitVec.add_assoc]
      change wordAddress stride address k + _ = address
      rw [same, BitVec.sub_add_cancel]
    rw [Nat.succ_mul, BitVec.ofNat_add]
    exact BitVec.add_right_eq_self.mp moved
  have value := congrArg BitVec.toNat sum
  rw [BitVec.toNat_ofNat, Nat.mod_eq_of_lt fits] at value
  have : 0 < (k + 1) * stride := Nat.mul_pos (Nat.succ_pos k) positive
  simp at value
  omega

theorem push (spelled : Spelled stride memory address words) (positive : 0 < stride)
    (fits : words.length * stride < 2 ^ w) (word : α) :
    Spelled stride (Function.update memory (address - BitVec.ofNat w stride) word)
      (address - BitVec.ofNat w stride) (word :: words) := by
  refine ⟨Function.update_self .., ?_⟩
  rw [BitVec.sub_add_cancel]
  refine spelled.congr fun k inside => Function.update_of_ne (below_ne positive ?_) ..
  exact (Nat.mul_le_mul_right stride (Nat.succ_le_of_lt inside)).trans_lt fits

end Spelled

/-- `*(--top) = word` for each of the words: the memory, and the pointer to the last one. -/
def pushAll (stride : Nat) (memory : BitVec w → α) (top : BitVec w) :
    List α → (BitVec w → α) × BitVec w
  | [] => (memory, top)
  | word :: words => pushAll stride
      (Function.update memory (top - BitVec.ofNat w stride) word) (top - BitVec.ofNat w stride) words

theorem Spelled.pushAll {stride : Nat} {memory : BitVec w → α} {top : BitVec w} {words : List α}
    (spelled : Spelled stride memory top words) (positive : 0 < stride) (pushed : List α)
    (fits : (pushed.length + words.length) * stride < 2 ^ w) :
    Spelled stride (Lib.pushAll stride memory top pushed).1 (Lib.pushAll stride memory top pushed).2
      (pushed.reverse ++ words) := by
  induction pushed generalizing memory top words with
  | nil => exact spelled
  | cons word pushed ih =>
    have few : words.length * stride < 2 ^ w := by
      refine lt_of_le_of_lt (Nat.mul_le_mul_right stride ?_) fits
      exact Nat.le_add_left _ _
    rw [List.reverse_cons, List.append_assoc]
    refine ih (spelled.push positive few word) ?_
    rw [List.length_cons, Nat.add_right_comm] at fits
    rwa [List.singleton_append, List.length_cons, ← Nat.add_assoc]

end LaylaOS.Lib
