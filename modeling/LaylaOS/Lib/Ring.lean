/-
**Ring buffers.**

`size` slots and two indices into them. The entries stand from `head` up to `tail`, going round at the
end; one slot stays free, so that equal indices mean an empty buffer. The indices carry their bound.
-/

import Mathlib.Tactic

namespace LaylaOS.Lib

/-- A buffer of `size` slots, used in a circle. -/
structure Ring (α : Type) (size : Nat) where
  slots : Nat → α
  head : Nat
  tail : Nat
  head_lt : head < size
  tail_lt : tail < size

namespace Ring

variable {α : Type} {size : Nat}

/-- The entry is stored at `tail`, unless `tail` would then meet `head`. -/
def enqueue (r : Ring α size) (entry : α) : Ring α size :=
  let next := (r.tail + 1) % size
  if next = r.head then r
  else
    { r with
      slots := Function.update r.slots r.tail entry
      tail := next
      tail_lt := Nat.mod_lt _ (Nat.zero_lt_of_lt r.head_lt) }

/-- The entry at `head`, and the buffer without it. -/
def dequeue (r : Ring α size) : Option (α × Ring α size) :=
  if r.head = r.tail then none
  else
    some (r.slots r.head,
      { r with
        head := (r.head + 1) % size
        head_lt := Nat.mod_lt _ (Nat.zero_lt_of_lt r.head_lt) })

def isEmpty (r : Ring α size) : Bool := r.head == r.tail

/-- The number of slots from `first` up to `last`, going round. -/
def span (size first last : Nat) : Nat := if first ≤ last then last - first else last + size - first

/-- The number of entries. -/
def length (r : Ring α size) : Nat := span size r.head r.tail

/-- The entries, the oldest first. -/
def toList (r : Ring α size) : List α :=
  (List.range r.length).map fun k => r.slots ((r.head + k) % size)

variable (r : Ring α size)

/-! ### Indices that go round once -/

theorem wrap {index : Nat} (bound : index < 2 * size) :
    index % size = if index < size then index else index - size := by
  split_ifs with low
  · exact Nat.mod_eq_of_lt low
  · rw [Nat.mod_eq_sub_mod (Nat.le_of_not_lt low)]
    exact Nat.mod_eq_of_lt (by omega)

variable {first last : Nat}

theorem span_lt (below : first < size) (above : last < size) : span size first last < size := by
  unfold span
  split_ifs <;> omega

theorem span_eq_zero_iff (below : first < size) : span size first last = 0 ↔ first = last := by
  unfold span
  split_ifs <;> omega

theorem span_succ_right (below : first < size) (above : last < size) (room : (last + 1) % size ≠ first) :
    span size first ((last + 1) % size) = span size first last + 1 := by
  rw [wrap (by omega)] at room ⊢
  unfold span
  split_ifs at room ⊢ <;> omega

theorem span_succ_left (below : first < size) (above : last < size) (some : first ≠ last) :
    span size ((first + 1) % size) last + 1 = span size first last := by
  rw [wrap (by omega)]
  unfold span
  split_ifs <;> omega

theorem length_lt : r.length < size := span_lt r.head_lt r.tail_lt

@[simp] theorem toList_length : r.toList.length = r.length := by simp [toList]

theorem index_length : (r.head + r.length) % size = r.tail := by
  have head := r.head_lt
  have tail := r.tail_lt
  have count := r.length_lt
  rw [wrap (by omega)]
  unfold length span at count ⊢
  split_ifs <;> omega

theorem index_ne_tail {k : Nat} (bound : k < r.length) : (r.head + k) % size ≠ r.tail := by
  have head := r.head_lt
  have tail := r.tail_lt
  have count := r.length_lt
  rw [wrap (by omega)]
  unfold length span at bound
  split_ifs at bound ⊢ <;> omega

theorem full_iff : (r.tail + 1) % size = r.head ↔ r.length + 1 = size := by
  have head := r.head_lt
  have tail := r.tail_lt
  rw [wrap (by omega)]
  unfold length span
  split_ifs <;> omega

/-! ### The entries -/

theorem isEmpty_iff : r.isEmpty = true ↔ r.toList = [] := by
  rw [isEmpty, beq_iff_eq, ← List.length_eq_zero_iff, toList_length, length, span_eq_zero_iff r.head_lt]

/-- **Enqueue** appends the entry if a slot besides the free one is left. -/
theorem toList_enqueue (entry : α) :
    (r.enqueue entry).toList = if r.length + 1 < size then r.toList ++ [entry] else r.toList := by
  unfold enqueue
  by_cases full : (r.tail + 1) % size = r.head
  · rw [if_pos full, if_neg (Nat.not_lt_of_le (r.full_iff.mp full).ge)]
  · have room : r.length + 1 < size := Nat.lt_of_le_of_ne r.length_lt (full ∘ r.full_iff.mpr)
    rw [if_neg full, if_pos room]
    -- one entry more: the old ones are where they were, the new one is at `tail`
    show (List.range (span size r.head ((r.tail + 1) % size))).map _ = _
    rw [span_succ_right r.head_lt r.tail_lt full, List.range_succ, List.map_append, List.map_singleton]
    congr 1
    · refine List.map_congr_left fun k old => ?_
      exact Function.update_of_ne (r.index_ne_tail (List.mem_range.mp old)) _ _
    · show [Function.update r.slots r.tail entry ((r.head + r.length) % size)] = [entry]
      rw [r.index_length, Function.update_self]

theorem dequeue_eq_none_iff : r.dequeue = none ↔ r.toList = [] := by
  rw [← isEmpty_iff, isEmpty, beq_iff_eq, dequeue]
  split_ifs with empty
  · exact iff_of_true rfl empty
  · exact iff_of_false nofun empty

theorem toList_dequeue {entry : α} {rest : Ring α size} (taken : r.dequeue = some (entry, rest)) :
    r.toList = entry :: rest.toList := by
  unfold dequeue at taken
  split_ifs at taken with empty
  obtain ⟨rfl, rfl⟩ := Prod.mk.inj (Option.some.inj taken)
  rw [toList, length, ← span_succ_left r.head_lt r.tail_lt empty, List.range_succ_eq_map,
    List.map_cons, List.map_map, Nat.add_zero, Nat.mod_eq_of_lt r.head_lt]
  refine congrArg _ (List.map_congr_left fun k _ => ?_)
  show r.slots ((r.head + (k + 1)) % size) = r.slots (((r.head + 1) % size + k) % size)
  rw [Nat.mod_add_mod, Nat.add_right_comm, Nat.add_assoc]

theorem toList_enqueueAll {entries : List α} (fits : r.length + entries.length < size) :
    (entries.foldl enqueue r).toList = r.toList ++ entries := by
  induction entries generalizing r with
  | nil => exact (List.append_nil _).symm
  | cons entry entries ih =>
    rw [List.length_cons] at fits
    have appended := r.toList_enqueue entry
    rw [if_pos (by omega)] at appended
    have count : (r.enqueue entry).length = r.length + 1 := by
      rw [← toList_length, appended, List.length_append, toList_length, List.length_singleton]
    rw [List.foldl_cons, ih _ (by omega), appended, List.append_assoc, List.singleton_append]

end Ring

end LaylaOS.Lib
