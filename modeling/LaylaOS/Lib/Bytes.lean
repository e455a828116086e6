/-
**Little-endian words in byte-addressed storage.**

Storage is a function from addresses to bytes. `readLE storage address width` is the number the
`width` bytes at `address` spell, least significant byte first; `writeLE` stores one.
-/

import Mathlib.Tactic

namespace LaylaOS.Lib

/-- Storage, byte by byte. -/
abbrev Storage := Nat → UInt8

/-- The number in the `width` bytes at `address`, least significant byte first. -/
def readLE (storage : Storage) (address : Nat) : Nat → Nat
  | 0 => 0
  | width + 1 => (storage address).toNat + 256 * readLE storage (address + 1) width

/-- Store the low `width` bytes of `value` at `address`, least significant byte first. -/
def writeLE (storage : Storage) (address value width : Nat) : Storage := fun place =>
  if address ≤ place ∧ place < address + width then UInt8.ofNat (value / 256 ^ (place - address))
  else storage place

theorem readLE_congr {storage storage' : Storage} {address width : Nat}
    (same : ∀ place, address ≤ place → place < address + width → storage place = storage' place) :
    readLE storage address width = readLE storage' address width := by
  induction width generalizing address with
  | zero => rfl
  | succ width ih =>
    rw [readLE, readLE, same address le_rfl (by omega),
      ih fun place low high => same place (by omega) (by omega)]

theorem readLE_lt (storage : Storage) (address width : Nat) : readLE storage address width < 256 ^ width := by
  induction width generalizing address with
  | zero => simp [readLE]
  | succ width ih =>
    rw [readLE, pow_succ]
    have byte := (storage address).toNat_lt
    have rest := ih (address + 1)
    omega

theorem writeLE_outside {storage : Storage} {address value width place : Nat}
    (outside : place < address ∨ address + width ≤ place) :
    writeLE storage address value width place = storage place := by
  unfold writeLE
  rw [if_neg (by omega)]

theorem readLE_writeLE_apart {storage : Storage} {address value width other count : Nat}
    (apart : other + count ≤ address ∨ address + width ≤ other) :
    readLE (writeLE storage address value width) other count = readLE storage other count :=
  readLE_congr fun _ _ _ => writeLE_outside (by omega)

theorem readLE_digits {storage : Storage} {address width value : Nat}
    (digits : ∀ k < width, storage (address + k) = UInt8.ofNat (value / 256 ^ k)) :
    readLE storage address width = value % 256 ^ width := by
  induction width generalizing address value with
  | zero => simp [readLE, Nat.mod_one]
  | succ width ih =>
    have rest : readLE storage (address + 1) width = value / 256 % 256 ^ width := by
      refine ih fun k bound => ?_
      rw [show address + 1 + k = address + (k + 1) by ring, digits (k + 1) (by omega),
        Nat.div_div_eq_div_mul, pow_succ']
    have first := digits 0 (by omega)
    rw [Nat.add_zero, pow_zero, Nat.div_one] at first
    have low : (UInt8.ofNat value).toNat = value % 256 := UInt8.toNat_ofNat'
    rw [readLE, rest, first, low, show (256 : Nat) ^ (width + 1) = 256 * 256 ^ width from pow_succ' ..,
      Nat.mod_mul]

theorem readLE_writeLE (storage : Storage) (address value width : Nat) :
    readLE (writeLE storage address value width) address width = value % 256 ^ width := by
  refine readLE_digits fun k bound => ?_
  unfold writeLE
  rw [if_pos (by omega), Nat.add_sub_cancel_left]

end LaylaOS.Lib
