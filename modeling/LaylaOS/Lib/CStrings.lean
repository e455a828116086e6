/-
**Strings with a terminator, in a memory of 32-bit addresses.**

`Cstr memory a text`: from the address `a` on the memory holds the text and then a zero byte, and the
text has no zero byte itself. Addresses go round at the end of the memory.
-/

import LaylaOS.Lib.Assembly

namespace LaylaOS.Lib.Assembly

/-! ### Bytes and addresses -/

@[simp] theorem low_withLow (value : UInt32) (byte : UInt8) : low (withLow value byte) = byte := by
  have bound := value.toNat_lt
  have small := byte.toNat_lt
  rw [low, withLow, UInt32.toNat_ofNat', ← UInt8.toNat_inj, UInt8.toNat_ofNat']
  omega

@[simp] theorem low_toUInt32 (byte : UInt8) : low byte.toUInt32 = byte := by
  rw [low, UInt8.toNat_toUInt32, UInt8.ofNat_toNat]

theorem ofNat_add_one (k : Nat) : UInt32.ofNat k + 1 = UInt32.ofNat (k + 1) := (UInt32.ofNat_add k 1).symm

theorem add_one_add_ofNat (a : UInt32) (k : Nat) : a + 1 + UInt32.ofNat k = a + UInt32.ofNat (k + 1) := by
  rw [← ofNat_add_one, UInt32.add_assoc, UInt32.add_comm 1]

theorem add_ofNat_add_one (a : UInt32) (k : Nat) : a + UInt32.ofNat k + 1 = a + UInt32.ofNat (k + 1) := by
  rw [UInt32.add_assoc, ofNat_add_one]

theorem ofNat_succ_sub_one (k : Nat) : UInt32.ofNat (k + 1) - 1 = UInt32.ofNat k := by
  rw [← ofNat_add_one, UInt32.add_sub_cancel]

theorem add_ofNat_succ_sub_one (a : UInt32) (k : Nat) : a + UInt32.ofNat (k + 1) - 1 = a + UInt32.ofNat k := by
  rw [← add_ofNat_add_one, UInt32.add_sub_cancel]

theorem toNat_add_ofNat_le (a : UInt32) (k : Nat) : (a + UInt32.ofNat k).toNat ≤ a.toNat + k := by
  rw [UInt32.toNat_add, UInt32.toNat_ofNat']
  exact le_trans (Nat.mod_le _ _) (Nat.add_le_add_left (Nat.mod_le _ _) _)

theorem ofNat_inj {j k : Nat} (first : j < 2 ^ 32) (second : k < 2 ^ 32) :
    UInt32.ofNat j = UInt32.ofNat k ↔ j = k := by
  rw [← UInt32.toNat_inj, UInt32.toNat_ofNat_of_lt' first, UInt32.toNat_ofNat_of_lt' second]

theorem ofNat_lt_iff {j k : Nat} (first : j < 2 ^ 32) (second : k < 2 ^ 32) :
    UInt32.ofNat j < UInt32.ofNat k ↔ j < k := by
  rw [UInt32.lt_iff_toNat_lt, UInt32.toNat_ofNat_of_lt' first, UInt32.toNat_ofNat_of_lt' second]

/-! ### Texts -/

/-- The memory holds the text and a zero byte from the address on. -/
def Cstr (memory : Memory) : UInt32 → List UInt8 → Prop
  | a, [] => memory a = 0
  | a, c :: text => memory a = c ∧ c ≠ 0 ∧ Cstr memory (a + 1) text

instance Cstr.decidable (memory : Memory) :
    (a : UInt32) → (text : List UInt8) → Decidable (Cstr memory a text)
  | a, [] => inferInstanceAs (Decidable (memory a = 0))
  | a, c :: text =>
    have := decidable memory (a + 1) text
    inferInstanceAs (Decidable (memory a = c ∧ c ≠ 0 ∧ Cstr memory (a + 1) text))

namespace Cstr

variable {memory : Memory} {a : UInt32} {text : List UInt8}

theorem ends (there : Cstr memory a text) : memory (a + UInt32.ofNat text.length) = 0 := by
  induction text generalizing a with
  | nil => simpa [Cstr] using there
  | cons c text ih =>
    rw [List.length_cons, ← add_one_add_ofNat]
    exact ih there.2.2

theorem behind {before : List UInt8} (there : Cstr memory a (before ++ text)) :
    Cstr memory (a + UInt32.ofNat before.length) text := by
  induction before generalizing a with
  | nil => simpa using there
  | cons c before ih =>
    rw [List.length_cons, ← add_one_add_ofNat]
    exact ih there.2.2

theorem ne_zero (there : Cstr memory a text) {k : Nat} (inside : k < text.length) :
    memory (a + UInt32.ofNat k) ≠ 0 := by
  induction text generalizing a k with
  | nil => cases inside
  | cons c text ih =>
    obtain ⟨here, some, behind⟩ := there
    cases k with
    | zero => simpa [here] using some
    | succ k =>
      rw [← add_one_add_ofNat]
      exact ih behind (Nat.lt_of_succ_lt_succ inside)

/-- **A text is shorter than the memory**: its end would come round as one of its bytes. -/
theorem length_lt (there : Cstr memory a text) : text.length < 2 ^ 32 := by
  by_contra long
  obtain ⟨k, length⟩ := Nat.exists_eq_add_of_le (Nat.le_of_not_lt long)
  have round : UInt32.ofNat text.length = UInt32.ofNat k := by
    rw [← UInt32.toNat_inj, UInt32.toNat_ofNat', UInt32.toNat_ofNat', length, Nat.add_mod_left]
  have ends := there.ends
  rw [round] at ends
  exact there.ne_zero (by omega) ends

end Cstr

/-- The text at an address, of fewer than `n` bytes. -/
def readText (memory : Memory) : Nat → UInt32 → List UInt8
  | 0, _ => []
  | n + 1, a => if memory a = 0 then [] else memory a :: readText memory n (a + 1)

theorem readText_of_cstr {memory : Memory} {a : UInt32} {text : List UInt8} {n : Nat}
    (there : Cstr memory a text) (short : text.length < n) : readText memory n a = text := by
  induction n generalizing a text with
  | zero => cases short
  | succ n ih =>
    cases text with
    | nil => exact if_pos there
    | cons c text =>
      obtain ⟨rfl, some, behind⟩ := there
      rw [readText, if_neg some, ih behind (Nat.lt_of_succ_lt_succ short)]

end LaylaOS.Lib.Assembly
