/-
**The Internet checksum verifies itself** (`InternetChecksum`).

The 32-bit accumulator holds the sum of the 16-bit words of a packet, and folding the carry leaves its
residue modulo `2 ^ 16 - 1`, with zero for the empty sum only.
-/

import LaylaOS.Net.Wire

namespace LaylaOS.Net

open LaylaOS.Lib

/-- The sum of the 16-bit words of a packet, an odd last byte being the low byte of a word. -/
def wordSum (packet : Storage) : Nat → Nat → Nat
  | offset, length + 2 => readLE packet offset 2 + wordSum packet (offset + 2) length
  | offset, 1 => (packet offset).toNat
  | _, 0 => 0

theorem sumWords_eq (packet : Storage) (offset length : Nat) {sum : Nat} (small : sum < 2 ^ 32) :
    sumWords packet offset length sum = (sum + wordSum packet offset length) % 2 ^ 32 := by
  fun_induction sumWords packet offset length sum with
  | case1 offset length sum ih =>
    rw [ih (Nat.mod_lt _ (by decide)), wordSum, Nat.mod_add_mod, Nat.add_assoc]
  | case2 => rfl
  | case3 offset sum => exact (Nat.mod_eq_of_lt small).symm

theorem wordSum_congr {packet packet' : Storage} {offset length : Nat}
    (same : ∀ place, offset ≤ place → place < offset + length → packet place = packet' place) :
    wordSum packet offset length = wordSum packet' offset length := by
  fun_induction wordSum packet offset length with
  | case1 offset length ih =>
    rw [wordSum, ih fun place low high => same place (by omega) (by omega),
      readLE_congr fun place low high => same place low (by omega)]
  | case2 offset => rw [wordSum, same offset le_rfl (by omega)]
  | case3 => rfl

theorem internetChecksum_congr {packet packet' : Storage} {length : Nat}
    (same : ∀ place < length, packet place = packet' place) :
    internetChecksum packet length = internetChecksum packet' length := by
  have sums : wordSum packet 0 length = wordSum packet' 0 length :=
    wordSum_congr fun place _ high => same place (by omega)
  unfold internetChecksum
  rw [sumWords_eq _ _ _ (by decide), sumWords_eq _ _ _ (by decide), sums]

theorem wordSum_le (packet : Storage) (offset length : Nat) :
    wordSum packet offset length ≤ 65535 * ((length + 1) / 2) := by
  fun_induction wordSum packet offset length with
  | case1 offset length ih =>
    have word := readLE_lt packet offset 2
    omega
  | case2 offset =>
    have byte := (packet offset).toNat_lt
    omega
  | case3 => exact Nat.zero_le _

theorem wordSum_writeLE (packet : Storage) (value : Nat) (word : value < 2 ^ 16) (k : Nat)
    {offset length : Nat} (inside : 2 * k + 2 ≤ length)
    (blank : readLE packet (offset + 2 * k) 2 = 0) :
    wordSum (writeLE packet (offset + 2 * k) value 2) offset length = wordSum packet offset length + value := by
  induction k generalizing offset length with
  | zero =>
    obtain ⟨length, rfl⟩ := Nat.exists_eq_add_of_le' inside
    have rest : wordSum (writeLE packet offset value 2) (offset + 2) length =
        wordSum packet (offset + 2) length :=
      wordSum_congr fun place low _ => writeLE_outside (.inr low)
    have stored : readLE (writeLE packet offset value 2) offset 2 = value :=
      (readLE_writeLE packet offset value 2).trans (Nat.mod_eq_of_lt word)
    rw [Nat.mul_zero, Nat.add_zero] at blank ⊢
    rw [wordSum, wordSum, rest, stored, blank]
    omega
  | succ k ih =>
    obtain ⟨length, rfl⟩ := Nat.exists_eq_add_of_le' (show 2 ≤ length by omega)
    have place : offset + 2 * (k + 1) = offset + 2 + 2 * k := by ring
    rw [place] at blank ⊢
    rw [wordSum, wordSum, ih (by omega) blank, readLE_writeLE_apart (.inl (by omega)), Nat.add_assoc]

theorem foldCarry_eq {sum : Nat} (small : sum < 2 ^ 32) :
    foldCarry 3 sum = if sum = 0 then 0 else (sum - 1) % 65535 + 1 := by
  simp only [foldCarry]
  split_ifs <;> omega

theorem internetChecksum_store (packet : Storage) (k : Nat) {length : Nat}
    (inside : 2 * k + 2 ≤ length) (short : length < 2 ^ 16) (blank : readLE packet (2 * k) 2 = 0) :
    internetChecksum (writeLE packet (2 * k) (internetChecksum packet length) 2) length = 0 := by
  have bound := wordSum_le packet 0 length
  have small : wordSum packet 0 length < 2 ^ 31 := by omega
  have total := wordSum_writeLE packet (internetChecksum packet length)
    (by unfold internetChecksum; omega) k inside (by rwa [Nat.zero_add])
  rw [Nat.zero_add] at total
  have first : internetChecksum packet length = 65535 - foldCarry 3 (wordSum packet 0 length) := by
    unfold internetChecksum
    rw [sumWords_eq _ _ _ (by decide), Nat.zero_add, Nat.mod_eq_of_lt (by omega)]
    rfl
  rw [foldCarry_eq (by omega)] at first
  generalize internetChecksum packet length = checksum at first total ⊢
  unfold internetChecksum
  -- the sum with its complement is a positive multiple of `2 ^ 16 - 1`, also where the sum is zero
  have large : wordSum packet 0 length + checksum < 2 ^ 32 := by
    split_ifs at first <;> omega
  rw [sumWords_eq _ _ _ (by decide), Nat.zero_add, total, Nat.mod_eq_of_lt large, foldCarry_eq large]
  split_ifs at first ⊢ <;> omega

end LaylaOS.Net
