/-
**Runs of bytes in byte-addressed storage.**

`slice storage index count` are the `count` bytes from `index` on, `blit storage index bytes` is the
storage after the bytes have been stored one by one from `index` on.
-/

import Mathlib.Data.List.GetD
import LaylaOS.Lib.Bytes

namespace LaylaOS.Lib

/-- The `count` bytes from `index` on. -/
def slice (storage : Storage) (index count : Nat) : List UInt8 :=
  (List.range count).map fun k => storage (index + k)

/-- The storage after a run of bytes was stored from `index` on. -/
def blit (storage : Storage) (index : Nat) (bytes : List UInt8) : Storage := fun place =>
  if index ≤ place then bytes.getD (place - index) (storage place) else storage place

variable {storage storage' : Storage} {index count : Nat}

@[simp] theorem slice_length (storage : Storage) (index count : Nat) :
    (slice storage index count).length = count := by
  simp [slice]

theorem slice_congr (same : ∀ k < count, storage (index + k) = storage' (index + k)) :
    slice storage index count = slice storage' index count :=
  List.map_congr_left fun k mem => same k (List.mem_range.mp mem)

theorem slice_add (storage : Storage) (index m n : Nat) :
    slice storage index (m + n) = slice storage index m ++ slice storage (index + m) n := by
  simp [slice, List.range_add, Nat.add_assoc]

theorem take_drop_slice (storage : Storage) (index : Nat) {m n : Nat} (inside : m + n ≤ count) :
    ((slice storage index count).drop m).take n = slice storage (index + m) n := by
  obtain ⟨rest, rfl⟩ := Nat.exists_eq_add_of_le inside
  rw [Nat.add_assoc, slice_add, slice_add, List.drop_left' (slice_length ..), List.take_left' (slice_length ..)]

theorem slice_getD (storage : Storage) (index : Nat) {count k : Nat} (bound : k < count) :
    (slice storage index count).getD k 0 = storage (index + k) := by
  simp [slice, bound]

theorem blit_outside {bytes : List UInt8} {place : Nat}
    (outside : place < index ∨ index + bytes.length ≤ place) :
    blit storage index bytes place = storage place := by
  unfold blit
  split_ifs with low
  · exact List.getD_eq_default _ _ (by omega)
  · rfl

theorem blit_inside {bytes : List UInt8} {k : Nat} (bound : k < bytes.length) :
    blit storage index bytes (index + k) = bytes.getD k 0 := by
  unfold blit
  rw [if_pos (Nat.le_add_right ..), Nat.add_sub_cancel_left, List.getD_eq_getElem _ _ bound,
    List.getD_eq_getElem _ _ bound]

theorem slice_blit (storage : Storage) (index : Nat) (bytes : List UInt8) :
    slice (blit storage index bytes) index bytes.length = bytes := by
  refine List.ext_getElem (slice_length ..) fun k _ bound => ?_
  rw [← List.getD_eq_getElem _ 0, slice_getD _ _ bound, blit_inside bound, List.getD_eq_getElem _ _ bound]

theorem blit_append (storage : Storage) (index : Nat) (first second : List UInt8) :
    blit (blit storage index first) (index + first.length) second = blit storage index (first ++ second) := by
  funext place
  by_cases low : place < index + first.length
  · rw [blit_outside (.inl low)]
    unfold blit
    split_ifs with reached
    · rw [List.getD_append _ _ _ _ (by omega)]
    · rfl
  · have reached : index ≤ place := by omega
    have after : blit storage index first place = storage place := blit_outside (by omega)
    show (if _ then second.getD _ (blit storage index first place) else _) = if _ then _ else _
    rw [after, if_pos (by omega), if_pos reached, List.getD_append_right _ _ _ _ (by omega), Nat.sub_add_eq]

theorem blit_start {bytes : List UInt8} {place : Nat} (bound : place < bytes.length) :
    blit storage 0 bytes place = bytes.getD place 0 := by
  have inside : blit storage 0 bytes (0 + place) = bytes.getD place 0 := blit_inside bound
  rwa [Nat.zero_add] at inside

theorem blit_next {first second : List UInt8} (here : index = first.length) :
    blit (blit storage 0 first) index second = blit storage 0 (first ++ second) := by
  rw [here, ← blit_append, Nat.zero_add]

theorem blit_replace (storage : Storage) (index : Nat) (before : List UInt8) {old new : List UInt8}
    (after : List UInt8) (same : new.length = old.length) :
    blit (blit storage index (before ++ old ++ after)) (index + before.length) new =
      blit storage index (before ++ new ++ after) := by
  funext place
  by_cases inside : index + before.length ≤ place ∧ place < index + before.length + new.length
  · obtain ⟨k, rfl⟩ := Nat.exists_eq_add_of_le inside.1
    rw [blit_inside (by omega), Nat.add_assoc, blit_inside (by simp; omega),
      List.append_assoc, List.getD_append_right _ _ _ _ (by omega), Nat.add_sub_cancel_left,
      List.getD_append _ _ _ _ (by omega)]
  · rw [blit_outside (by omega)]
    unfold blit
    split_ifs with reached
    · by_cases low : place - index < before.length
      · rw [List.append_assoc, List.append_assoc, List.getD_append _ _ _ _ low, List.getD_append _ _ _ _ low]
      · have past : (before ++ new).length ≤ place - index := by
          rw [List.length_append]
          omega
        have past' : (before ++ old).length ≤ place - index := by
          rw [List.length_append]
          omega
        rw [List.getD_append_right _ _ _ _ past, List.getD_append_right _ _ _ _ past',
          List.length_append, List.length_append, same]
    · rfl

/-- Storage from an offset on. -/
def shift (storage : Storage) (offset : Nat) : Storage := fun k => storage (offset + k)

theorem slice_shift (storage : Storage) (offset index count : Nat) :
    slice (shift storage offset) index count = slice storage (offset + index) count := by
  simp [slice, shift, Nat.add_assoc]

/-- The storage starts with the bytes. -/
def Spells (storage : Storage) (bytes : List UInt8) : Prop :=
  ∀ k < bytes.length, storage k = bytes.getD k 0

theorem blit_spells (storage : Storage) (bytes : List UInt8) : Spells (blit storage 0 bytes) bytes :=
  fun _ bound => blit_start bound

section Spells

variable {bytes first second : List UInt8}

theorem Spells.slice (spells : Spells storage bytes) : slice storage 0 bytes.length = bytes := by
  refine Eq.trans (slice_congr fun k bound => ?_) (slice_blit storage 0 bytes)
  rw [Nat.zero_add, spells k bound, blit_start bound]

theorem Spells.of_slice (same : Lib.slice storage' 0 count = Lib.slice storage 0 count)
    (inside : bytes.length ≤ count) (spells : Spells storage bytes) : Spells storage' bytes := by
  intro k bound
  have byte := congrArg (fun received => received.getD k 0) same
  simp only [slice_getD _ _ (Nat.lt_of_lt_of_le bound inside), Nat.zero_add] at byte
  rw [byte, spells k bound]

theorem Spells.append (spells : Spells storage (first ++ second)) :
    Spells storage first ∧ Spells (shift storage first.length) second := by
  refine ⟨fun k bound => ?_, fun k bound => ?_⟩
  · rw [spells k (by rw [List.length_append]; omega), List.getD_append _ _ _ _ bound]
  · rw [shift, spells _ (by rw [List.length_append]; omega),
      List.getD_append_right _ _ _ _ (Nat.le_add_right ..), Nat.add_sub_cancel_left]

theorem Spells.ofFn {n : Nat} {f : Fin n → UInt8} (spells : Spells storage (List.ofFn f)) :
    (fun index : Fin n => storage index) = f := by
  funext index
  rw [spells index (by simp)]
  simp

end Spells

end LaylaOS.Lib
