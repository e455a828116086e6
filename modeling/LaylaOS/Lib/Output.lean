/-
**Output through a small buffer.**

Items are put into a buffer of `capacity` places, which is handed on as one chunk when it is full and
once more at the end. The places that are written are recorded.
-/

import Mathlib.Tactic

namespace LaylaOS.Lib

/-- The buffer, the number of places in use, the chunks handed on, and the places written so far. -/
structure Output (α : Type*) where
  buffer : Nat → α
  position : Nat
  chunks : List (List α)
  places : List Nat

namespace Output

variable {α : Type*} {capacity : Nat} {o o' o'' : Output α}

/-- What is in use of the buffer. -/
def pending (o : Output α) : List α := (List.range o.position).map o.buffer

/-- Everything put out so far. -/
def text (o : Output α) : List α := o.chunks.flatten ++ o.pending

/-- The buffer is handed on, unless it is empty. -/
def flush (o : Output α) : Output α :=
  if o.position = 0 then o else { o with chunks := o.chunks ++ [o.pending], position := 0 }

/-- One item, behind a flush of a full buffer. -/
def push (capacity : Nat) (o : Output α) (item : α) : Output α :=
  let o := if capacity ≤ o.position then o.flush else o
  { o with
    buffer := Function.update o.buffer o.position item
    position := o.position + 1
    places := o.places ++ [o.position] }

/-- Nothing has been written outside the buffer. -/
structure Within (capacity : Nat) (o : Output α) : Prop where
  position : o.position ≤ capacity
  places : ∀ place ∈ o.places, place < capacity

/-- A text is added to what has been put out, and the buffer is not left. -/
structure Emits (capacity : Nat) (o o' : Output α) (text : List α) : Prop where
  text : o'.text = o.text ++ text
  within : o.Within capacity → o'.Within capacity

theorem Emits.refl (o : Output α) : Emits capacity o o [] := ⟨(List.append_nil _).symm, id⟩

theorem Emits.trans {first second : List α} (one : Emits capacity o o' first)
    (two : Emits capacity o' o'' second) : Emits capacity o o'' (first ++ second) :=
  ⟨by rw [two.text, one.text, List.append_assoc], two.within ∘ one.within⟩

theorem pending_of_zero (empty : o.position = 0) : o.pending = [] := by
  rw [pending, empty]
  rfl

theorem flush_position (o : Output α) : o.flush.position = 0 := by
  unfold flush
  split
  · next empty => exact empty
  · rfl

theorem text_flush (o : Output α) : o.flush.text = o.text := by
  unfold flush
  split
  · rfl
  · show (o.chunks ++ [o.pending]).flatten ++ [] = o.chunks.flatten ++ o.pending
    rw [List.append_nil, List.flatten_append, List.flatten_singleton]

theorem flush_chunks (o : Output α) : o.flush.chunks.flatten = o.text := by
  rw [← text_flush, text, pending_of_zero o.flush_position, List.append_nil]

theorem emits_flush (o : Output α) : Emits capacity o o.flush [] := by
  refine ⟨by rw [text_flush, List.append_nil], fun within => ⟨?_, ?_⟩⟩
  · rw [flush_position]
    exact Nat.zero_le _
  · unfold flush
    split <;> exact within.places

theorem pending_update (o : Output α) (item : α) :
    (List.range (o.position + 1)).map (Function.update o.buffer o.position item) = o.pending ++ [item] := by
  rw [List.range_succ, List.map_append, List.map_singleton, Function.update_self, pending]
  congr 1
  apply List.map_congr_left
  intro place member
  exact Function.update_of_ne (List.mem_range.mp member).ne _ _

theorem emits_push (positive : 0 < capacity) (o : Output α) (item : α) :
    Emits capacity o (o.push capacity item) [item] := by
  -- behind the flush, if there is one, a place is left
  obtain ⟨o', ready, free, pushed⟩ : ∃ o', Emits capacity o o' [] ∧
      (o.Within capacity → o'.position < capacity) ∧ o.push capacity item = { o' with
          buffer := Function.update o'.buffer o'.position item
          position := o'.position + 1
          places := o'.places ++ [o'.position] } := by
    unfold push
    split
    · exact ⟨o.flush, emits_flush o, fun _ => by rwa [flush_position], rfl⟩
    · next room => exact ⟨o, .refl o, fun _ => Nat.not_le.mp room, rfl⟩
  rw [pushed]
  refine ⟨?_, fun within => ⟨free within, fun place member => ?_⟩⟩
  · have before := ready.text
    rw [List.append_nil] at before
    rw [← before, text, text, List.append_assoc, ← pending_update]
    rfl
  · rcases List.mem_append.mp member with earlier | last
    · exact (ready.within within).places place earlier
    · rw [List.mem_singleton.mp last]
      exact free within

theorem emits_foldl (positive : 0 < capacity) (items : List α) (o : Output α) :
    Emits capacity o (items.foldl (push capacity) o) items := by
  induction items generalizing o with
  | nil => exact .refl o
  | cons item items ih => exact (emits_push positive o item).trans (ih (o.push capacity item))

end Output

end LaylaOS.Lib
