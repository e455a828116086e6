/-
**Tables of bounded size, last writer wins.**

A table holds a value for each of its keys. A key that is there gets the new value, a new key is put to
the end, and once the table is full new keys are turned away.
-/

import Mathlib.Tactic

namespace LaylaOS.Lib

variable {κ ω : Type} [DecidableEq κ]

/-- The keys of a table. -/
abbrev keysOf (table : List (κ × ω)) : List κ := table.map Prod.fst

/-- One entry arrives. -/
def register (capacity : Nat) (table : List (κ × ω)) (entry : κ × ω) : List (κ × ω) :=
  if entry.1 ∈ keysOf table then table.map fun old => if old.1 = entry.1 then entry else old
  else if table.length < capacity then table ++ [entry]
  else table

def registerAll (capacity : Nat) (entries : List (κ × ω)) : List (κ × ω) :=
  entries.foldl (register capacity) []

variable {capacity : Nat} {table entries : List (κ × ω)} {entry : κ × ω}

theorem registerAll_concat :
    registerAll capacity (entries ++ [entry]) = register capacity (registerAll capacity entries) entry :=
  List.foldl_concat ..

/-! ### The keys -/

theorem keysOf_replace :
    keysOf (table.map fun old => if old.1 = entry.1 then entry else old) = keysOf table := by
  rw [keysOf, List.map_map]
  refine List.map_congr_left fun old _ => ?_
  rw [Function.comp_apply]
  split
  · next same => exact same.symm
  · rfl

theorem keysOf_register : keysOf (register capacity table entry) =
    if entry.1 ∈ keysOf table ∨ capacity ≤ table.length then keysOf table
    else keysOf table ++ [entry.1] := by
  unfold register
  by_cases known : entry.1 ∈ keysOf table
  · rw [if_pos known, if_pos (.inl known), keysOf_replace]
  · rw [if_neg known]
    by_cases room : table.length < capacity
    · rw [if_pos room, if_neg (not_or.mpr ⟨known, not_le.mpr room⟩), keysOf, List.map_append]
      rfl
    · rw [if_neg room, if_pos (.inr (not_lt.mp room))]

theorem nodup_keysOf_registerAll (entries : List (κ × ω)) : (keysOf (registerAll capacity entries)).Nodup := by
  induction entries using List.reverseRecOn with
  | nil => exact List.nodup_nil
  | append_singleton entries entry ih =>
    rw [registerAll_concat, keysOf_register]
    split
    · exact ih
    · next new => exact List.nodup_append_comm.mp (ih.cons (not_or.mp new).1)

theorem eraseDups_concat (keys : List κ) (key : κ) :
    (keys ++ [key]).eraseDups = if key ∈ keys then keys.eraseDups else keys.eraseDups ++ [key] := by
  rw [List.eraseDups_append]
  split
  · next known => simp [List.removeAll, known]
  · next new => simp [List.removeAll, new, List.eraseDups_cons]

theorem keys_registerAll (entries : List (κ × ω)) :
    keysOf (registerAll capacity entries) = (keysOf entries).eraseDups.take capacity := by
  induction entries using List.reverseRecOn with
  | nil => exact List.take_nil.symm
  | append_singleton entries entry ih =>
    have length : (registerAll capacity entries).length = min capacity (keysOf entries).eraseDups.length := by
      rw [← List.length_take, ← ih, keysOf, List.length_map]
    have appended : keysOf (entries ++ [entry]) = keysOf entries ++ [entry.1] := List.map_append
    rw [registerAll_concat, keysOf_register, ih, length, appended, eraseDups_concat]
    by_cases full : capacity ≤ (keysOf entries).eraseDups.length
    · -- a full table does not change, and neither do the first `capacity` keys
      rw [if_pos (.inr (le_min le_rfl full))]
      split
      · rfl
      · exact (List.take_append_of_le_length full).symm
    · have short := not_le.mp full
      have all : (keysOf entries).eraseDups.take capacity = (keysOf entries).eraseDups :=
        List.take_of_length_le short.le
      have room : ¬ capacity ≤ min capacity (keysOf entries).eraseDups.length :=
        fun le => full (le.trans (min_le_right _ _))
      rw [all]
      by_cases known : entry.1 ∈ keysOf entries
      · rw [if_pos (.inl (List.mem_eraseDups.mpr known)), if_pos known, all]
      · rw [if_neg (not_or.mpr ⟨mt List.mem_eraseDups.mp known, room⟩), if_neg known]
        refine (List.take_of_length_le ?_).symm
        rw [List.length_append]
        exact short

/-! ### The values -/

theorem lookup_cons_self (key : κ) (value : ω) (rest : List (κ × ω)) :
    ((key, value) :: rest).lookup key = some value := by
  rw [List.lookup_cons, beq_self_eq_true]

theorem lookup_cons_of_ne {key other : κ} (different : key ≠ other) (value : ω)
    (rest : List (κ × ω)) : ((other, value) :: rest).lookup key = rest.lookup key := by
  rw [List.lookup_cons, beq_eq_false_iff_ne.mpr different]

theorem lookup_eq_none_iff {key : κ} : table.lookup key = none ↔ key ∉ keysOf table := by
  rw [List.lookup_eq_none_iff, List.mem_map, not_exists]
  refine forall_congr' fun entry => ?_
  rw [bne_iff_ne, not_and']
  exact ⟨fun different same member => different member same.symm,
    fun different member same => different same.symm member⟩

theorem lookup_of_mem (nodup : (keysOf table).Nodup) (member : entry ∈ table) :
    table.lookup entry.1 = some entry.2 := by
  induction table with
  | nil => exact absurd member List.not_mem_nil
  | cons first rest ih =>
    obtain ⟨fresh, nodup⟩ := List.nodup_cons.mp nodup
    rcases List.mem_cons.mp member with rfl | later
    · exact lookup_cons_self ..
    · have different : entry.1 ≠ first.1 := fun same =>
        fresh (same ▸ List.mem_map_of_mem later)
      rw [lookup_cons_of_ne different]
      exact ih nodup later

theorem lookup_replace_self (known : entry.1 ∈ keysOf table) :
    (table.map fun old => if old.1 = entry.1 then entry else old).lookup entry.1 = some entry.2 := by
  induction table with
  | nil => exact absurd known List.not_mem_nil
  | cons first rest ih =>
    rw [List.map_cons]
    split
    · exact lookup_cons_self ..
    · next other =>
        rw [lookup_cons_of_ne (Ne.symm other)]
        exact ih ((List.mem_cons.mp known).resolve_left (Ne.symm other))

theorem lookup_replace_of_ne {key : κ} (different : key ≠ entry.1) :
    (table.map fun old => if old.1 = entry.1 then entry else old).lookup key = table.lookup key := by
  induction table with
  | nil => rfl
  | cons first rest ih =>
    rw [List.map_cons]
    split
    · next same =>
        rw [lookup_cons_of_ne different, ih, lookup_cons_of_ne (same ▸ different)]
    · rw [List.lookup_cons, List.lookup_cons, ih]

theorem lookup_concat_self (new : entry.1 ∉ keysOf table) :
    (table ++ [entry]).lookup entry.1 = some entry.2 := by
  rw [List.lookup_append, lookup_eq_none_iff.mpr new, Option.none_or]
  exact lookup_cons_self ..

theorem lookup_concat_of_ne {key : κ} (different : key ≠ entry.1) :
    (table ++ [entry]).lookup key = table.lookup key := by
  rw [List.lookup_append, lookup_cons_of_ne different]
  exact Option.or_none

theorem lookup_register_of_ne {key : κ} (different : key ≠ entry.1) :
    (register capacity table entry).lookup key = table.lookup key := by
  unfold register
  split
  · exact lookup_replace_of_ne different
  · split
    · exact lookup_concat_of_ne different
    · rfl

theorem lookup_registerAll_of_mem {key : κ} (member : key ∈ keysOf (registerAll capacity entries)) :
    (registerAll capacity entries).lookup key = entries.reverse.lookup key := by
  induction entries using List.reverseRecOn with
  | nil => exact absurd member List.not_mem_nil
  | append_singleton entries entry ih =>
    rw [registerAll_concat] at member ⊢
    rw [List.reverse_concat]
    by_cases same : key = entry.1
    · subst same
      rw [lookup_cons_self]
      unfold register at member ⊢
      split
      · next known => exact lookup_replace_self known
      · next new =>
          rw [if_neg new] at member
          split
          · exact lookup_concat_self new
          · next full =>
              rw [if_neg full] at member
              exact absurd member new
    · rw [lookup_cons_of_ne same, lookup_register_of_ne same]
      refine ih ?_
      rw [keysOf_register] at member
      split at member
      · exact member
      · exact (List.mem_append.mp member).resolve_right fun last => same (List.mem_singleton.mp last)

theorem lookup_registerAll (entries : List (κ × ω)) (key : κ) : (registerAll capacity entries).lookup key =
      if key ∈ (keysOf entries).eraseDups.take capacity then entries.reverse.lookup key else none := by
  rw [← keys_registerAll]
  split
  · next member => exact lookup_registerAll_of_mem member
  · next absent => exact lookup_eq_none_iff.mpr absent

end LaylaOS.Lib
