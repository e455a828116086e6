/-
**The Internet checksum in network order** (`InternetChecksum`).

The code adds the words of a packet as the processor loads them, low byte first. The standard adds them
high byte first, with the carry going around the end. A word and the same word with its bytes swapped
differ by the factor 256 modulo `2 ^ 16 - 1`, so the two sums are one another's byte swap, and the bytes
the code stores are the bytes of the standard's checksum.

* `checksum_stored` — what storing it does to a packet.
-/

import LaylaOS.Lib.OnesComplement
import LaylaOS.Net.Checksum

namespace LaylaOS.Net

open LaylaOS.Lib

/-- The 16-bit words of a packet in network order, an odd last byte padded with a zero byte. -/
def beWords (packet : Storage) : Nat → Nat → List Nat
  | offset, length + 2 => be16 packet offset :: beWords packet (offset + 2) length
  | offset, 1 => [256 * (packet offset).toNat]
  | _, 0 => []

/-- The complement of the one's complement sum of the words of a packet. -/
def rfc1071 (packet : Storage) (length : Nat) : Nat :=
  65535 - (beWords packet 0 length).foldl (onesAdd 65535) 0

theorem beWords_le (packet : Storage) (offset length : Nat) :
    ∀ word ∈ beWords packet offset length, word ≤ 65535 := by
  fun_induction beWords packet offset length with
  | case1 offset length ih =>
    exact List.forall_mem_cons.mpr ⟨Nat.le_of_lt_succ (be16_lt packet offset), ih⟩
  | case2 offset =>
    have byte := (packet offset).toNat_lt
    exact List.forall_mem_singleton.mpr (by omega)
  | case3 => exact List.forall_mem_nil _

/-! ### Swapping the bytes of a word -/

theorem htons_modEq {word : Nat} (small : word < 2 ^ 16) : htons word ≡ 256 * word [MOD 65535] := by
  apply (Nat.modEq_iff_dvd' (by unfold htons; omega)).mpr
  exact ⟨word / 256, by unfold htons; omega⟩

theorem htons_eq_zero_iff {word : Nat} (small : word < 2 ^ 16) : htons word = 0 ↔ word = 0 := by
  unfold htons
  omega

theorem htons_complement {word : Nat} (small : word < 2 ^ 16) : htons (65535 - word) = 65535 - htons word := by
  unfold htons
  omega

theorem htons_lt (word : Nat) : htons word < 2 ^ 16 := by
  unfold htons
  omega

theorem be16_writeLE (packet : Storage) (offset : Nat) {value : Nat} (word : value < 2 ^ 16) :
    be16 (writeLE packet offset value 2) offset = htons value := by
  have loaded : readLE (writeLE packet offset value 2) offset 2 = value :=
    (readLE_writeLE packet offset value 2).trans (Nat.mod_eq_of_lt word)
  rw [← ntohs_readLE, loaded]
  rfl

/-! ### The two sums -/

theorem sum_beWords (packet : Storage) (offset length : Nat) :
    (beWords packet offset length).sum ≡ 256 * wordSum packet offset length [MOD 65535] := by
  fun_induction wordSum packet offset length with
  | case1 offset length ih =>
    rw [beWords, List.sum_cons, Nat.mul_add, ← ntohs_readLE]
    exact (htons_modEq (readLE_lt packet offset 2)).add ih
  | case2 offset =>
    rw [beWords, List.sum_singleton]
  | case3 => rfl

theorem sum_beWords_eq_zero_iff (packet : Storage) (offset length : Nat) :
    (beWords packet offset length).sum = 0 ↔ 256 * wordSum packet offset length = 0 := by
  fun_induction wordSum packet offset length with
  | case1 offset length ih =>
    have word : be16 packet offset = 0 ↔ readLE packet offset 2 = 0 := by
      rw [← ntohs_readLE]
      exact htons_eq_zero_iff (readLE_lt packet offset 2)
    rw [beWords, List.sum_cons]
    omega
  | case2 offset =>
    rw [beWords, List.sum_singleton]
  | case3 => exact Iff.rfl

theorem foldl_beWords {packet : Storage} {length : Nat} (small : wordSum packet 0 length < 2 ^ 32) :
    (beWords packet 0 length).foldl (onesAdd 65535) 0 = htons (foldCarry 3 (wordSum packet 0 length)) := by
  have folded : foldCarry 3 (wordSum packet 0 length) = residue 65535 (wordSum packet 0 length) :=
    foldCarry_eq small
  have word : residue 65535 (wordSum packet 0 length) < 2 ^ 16 := Nat.lt_succ_of_le (residue_le (by decide) _)
  have summed := foldl_onesAdd (beWords_le packet 0 length) 0
  rw [residue_zero, Nat.zero_add] at summed
  rw [summed, folded, ← residue_of_le (Nat.le_of_lt_succ (htons_lt _))]
  apply residue_congr
  · calc (beWords packet 0 length).sum
        ≡ 256 * wordSum packet 0 length [MOD 65535] := sum_beWords packet 0 length
      _ ≡ 256 * residue 65535 (wordSum packet 0 length) [MOD 65535] :=
          ((residue_modEq _).mul_left 256).symm
      _ ≡ htons (residue 65535 (wordSum packet 0 length)) [MOD 65535] := (htons_modEq word).symm
  · rw [htons_eq_zero_iff word, residue_eq_zero_iff, sum_beWords_eq_zero_iff]
    omega

theorem wordSum_lt (packet : Storage) (offset : Nat) {length : Nat} (short : length ≤ 65535) :
    wordSum packet offset length < 2 ^ 32 := by
  have bound := wordSum_le packet offset length
  omega

theorem sumWords_of_short (packet : Storage) (offset : Nat) {length : Nat} (short : length ≤ 65535) :
    sumWords packet offset length 0 = wordSum packet offset length := by
  rw [sumWords_eq packet offset length (by decide), Nat.zero_add,
    Nat.mod_eq_of_lt (wordSum_lt packet offset short)]

theorem internetChecksum_lt (packet : Storage) (length : Nat) : internetChecksum packet length < 2 ^ 16 := by
  unfold internetChecksum
  omega

/-- **The code's checksum is the standard's with its bytes swapped.** -/
theorem htons_internetChecksum (packet : Storage) {length : Nat} (short : length ≤ 65535) :
    htons (internetChecksum packet length) = rfc1071 packet length := by
  have small := wordSum_lt packet 0 short
  unfold internetChecksum rfc1071
  rw [sumWords_of_short packet 0 short, foldl_beWords small]
  exact htons_complement (foldCarry_lt small)

/-- **Storing the checksum.** A packet whose checksum field is zero, with the checksum stored there as
the processor stores a word, has the checksum zero; the two bytes are the standard's checksum in network
order; and after any number of bytes of either packet the accumulator is the sum of the words, which 32
bits hold. -/
theorem checksum_stored (packet : Storage) (k length : Nat) (even : k % 2 = 0)
    (inside : k + 2 ≤ length) (short : length ≤ 65535) (first : packet k = 0)
    (second : packet (k + 1) = 0) :
    internetChecksum (writeLE packet k (internetChecksum packet length) 2) length = 0 ∧
      be16 (writeLE packet k (internetChecksum packet length) 2) k = rfc1071 packet length ∧
      ∀ content ∈ [packet, writeLE packet k (internetChecksum packet length) 2], ∀ count ≤ length,
        sumWords content 0 count 0 = wordSum content 0 count ∧ wordSum content 0 count < 2 ^ 32 := by
  obtain ⟨half, rfl⟩ := Nat.dvd_of_mod_eq_zero even
  have blank : readLE packet (2 * half) 2 = 0 := by
    simp only [readLE, first, second]
    rfl
  refine ⟨internetChecksum_store packet half inside (Nat.lt_succ_of_le short) blank, ?_, ?_⟩
  · rw [be16_writeLE packet _ (internetChecksum_lt packet length), htons_internetChecksum packet short]
  · intro content _ count within
    exact ⟨sumWords_of_short content 0 (within.trans short), wordSum_lt content 0 (within.trans short)⟩

/-- A packet of five bytes with its checksum field in the middle. -/
theorem checksum_stored_five : internetChecksum (writeLE (fun place => [1, 2, 0, 0, 5].getD place 0) 2
        (internetChecksum (fun place => [1, 2, 0, 0, 5].getD place 0) 5) 2) 5 = 0 ∧
      be16 (writeLE (fun place => [1, 2, 0, 0, 5].getD place 0) 2
        (internetChecksum (fun place => [1, 2, 0, 0, 5].getD place 0) 5) 2) 2 =
        rfc1071 (fun place => [1, 2, 0, 0, 5].getD place 0) 5 ∧
      rfc1071 (fun place => [1, 2, 0, 0, 5].getD place 0) 5 = 65535 - (258 + 1280) := by
  obtain ⟨zero, bytes, _⟩ := checksum_stored (fun place => [1, 2, 0, 0, 5].getD place 0) 2 5
    rfl (by decide) (by decide) rfl rfl
  exact ⟨zero, bytes, by decide⟩

end LaylaOS.Net
