/-
**Loops that scan a terminated text.**

A loop is given by what one round of it does: go on with another state, or end with a result. It scans
a text if every round looks at the element at the index of its state, and goes on by one element at
most, and never from the terminator.
-/

import Mathlib.Tactic

namespace LaylaOS.Lib

variable {σ ρ α : Type}

/-- What one round of a loop does. -/
inductive Progress (σ ρ : Type)
  | more (s : σ)
  | ends (result : ρ)

/-- The rounds of the loop lead from one state to another. -/
def Reaches (step : σ → Progress σ ρ) : σ → σ → Prop :=
  Relation.ReflTransGen fun s t => step s = .more t

/-- The loop ends with the result. -/
def Ends (step : σ → Progress σ ρ) (s : σ) (result : ρ) : Prop :=
  ∃ t, Reaches step s t ∧ step t = .ends result

variable {step : σ → Progress σ ρ} {s t : σ} {result : ρ}

/-! ### The terminator -/

variable [OfNat α (nat_lit 0)] {text : Nat → α} {index : σ → Nat}

/-- Every round looks at one element of the text, and moves on by one at most. -/
def Scans (step : σ → Progress σ ρ) (index : σ → Nat) (text : Nat → α) : Prop :=
  ∀ s t, step s = .more t → index t = index s ∨ (text (index s) ≠ 0 ∧ index t = index s + 1)

theorem Scans.index_le (scans : Scans step index text) {stop : Nat} (terminated : text stop = 0)
    (reaches : Reaches step s t) (start : index s ≤ stop) : index t ≤ stop := by
  induction reaches with
  | refl => exact start
  | tail _ one ih =>
    rcases scans _ _ one with same | ⟨other, moves⟩
    · rw [same]
      exact ih
    · rw [moves]
      exact lt_of_le_of_ne ih fun there => other (there ▸ terminated)

/-! ### How far a scan goes -/

variable {step' : σ → Progress σ ρ} {u : σ} {limit : Nat}

theorem Scans.index_mono (scans : Scans step index text) (reaches : Reaches step s t) : index s ≤ index t := by
  induction reaches with
  | refl => exact le_rfl
  | tail _ one ih => have := scans _ _ one; omega

theorem Scans.before_end (scans : Scans step index text) (ends : Reaches step s u)
    (last : step u = .ends result) (reaches : Reaches step s t) : index t ≤ index u := by
  have unique : Relator.RightUnique fun s t => step s = .more t := fun _ _ _ one other =>
    Progress.more.inj (one.symm.trans other)
  rcases Relation.ReflTransGen.total_of_right_unique unique reaches ends with onward | back
  · exact scans.index_mono onward
  · cases back.cases_head with
    | inl same => rw [same]
    | inr more =>
      obtain ⟨_, one, -⟩ := more
      rw [last] at one
      cases one

theorem Scans.comes_by (scans : Scans step index text) (reaches : Reaches step s t)
    (start : index s ≤ limit) (far : limit ≤ index t) : ∃ u, Reaches step s u ∧ index u = limit := by
  induction reaches with
  | refl => exact ⟨s, .refl, start.antisymm far⟩
  | @tail b c front one ih =>
    by_cases before : limit ≤ index b
    · exact ih before
    · refine ⟨c, front.tail one, ?_⟩
      have := scans _ _ one
      omega

theorem Reaches.congr (same : ∀ t, index t < limit → step t = step' t) (reaches : Reaches step s t)
    (far : limit ≤ index t) : ∃ u, Reaches step' s u ∧ limit ≤ index u := by
  induction reaches using Relation.ReflTransGen.head_induction_on with
  | refl => exact ⟨t, .refl, far⟩
  | @head a b one _ ih =>
    by_cases there : limit ≤ index a
    · exact ⟨a, .refl, there⟩
    · obtain ⟨u, reaches, far⟩ := ih
      rw [same a (Nat.lt_of_not_le there)] at one
      exact ⟨u, .head one reaches, far⟩

/-- The scan ends with the result, and `short` of the terminator or at it. -/
def EndsAt (step : σ → Progress σ ρ) (index : σ → Nat) (text : Nat → α) (s : σ) (result : ρ)
    (short : Prop) : Prop :=
  ∃ t, Reaches step s t ∧ step t = .ends result ∧ (text (index t) = 0 ↔ ¬ short)

namespace EndsAt

variable {short : Prop}

theorem after (reaches : Reaches step s t) (ends : EndsAt step index text t result short) :
    EndsAt step index text s result short :=
  let ⟨u, onward, last⟩ := ends
  ⟨u, reaches.trans onward, last⟩

theorem next (one : step s = .more t) (ends : EndsAt step index text t result short) :
    EndsAt step index text s result short :=
  ends.after (.single one)

theorem here (last : step s = .ends result) (yes : short) (other : text (index s) ≠ 0) :
    EndsAt step index text s result short :=
  ⟨s, .refl, last, iff_of_false other (not_not.mpr yes)⟩

theorem passes (last : step s = .ends result) (no : ¬ short) (zero : text (index s) = 0) :
    EndsAt step index text s result short :=
  ⟨s, .refl, last, iff_of_true zero no⟩

theorem ends (ends : EndsAt step index text s result short) : Ends step s result :=
  let ⟨t, reaches, last, _⟩ := ends
  ⟨t, reaches, last⟩

/-- **Where a scan stays**, told on a text that is the same up to an index and has terminators from there. -/
theorem stays_iff {text' : Nat → α} (ends : EndsAt step' index text' s result short)
    (scans : Scans step' index text') (zeros : ∀ k, text' k = 0 ↔ limit ≤ k)
    (same : ∀ t, index t < limit → step t = step' t) :
    (∀ t, Reaches step s t → index t < limit) ↔ short := by
  obtain ⟨u, reaches, last, stop⟩ := ends
  rw [zeros] at stop
  constructor
  · intro stays
    by_contra no
    obtain ⟨t, reaches, far⟩ := reaches.congr (fun t low => (same t low).symm) (stop.mpr no)
    exact absurd (stays t reaches) (Nat.not_lt_of_le far)
  · intro yes t early
    by_contra far
    obtain ⟨t, reaches', far⟩ := Reaches.congr same early (Nat.le_of_not_lt far)
    exact stop.mp (far.trans (scans.before_end reaches last reaches')) yes

end EndsAt

/-! ### Reading a list -/

/-- From the index on, the text has the elements of the list and then a terminator. -/
def Reads (text : Nat → α) : Nat → List α → Prop
  | i, [] => text i = 0
  | i, a :: rest => text i = a ∧ Reads text (i + 1) rest

theorem Reads.drop {i : Nat} {rest : List α} (reads : Reads text i rest) {n : Nat}
    (inside : n ≤ rest.length) : Reads text (i + n) (rest.drop n) := by
  induction n generalizing i rest with
  | zero => exact reads
  | succ n ih =>
    cases rest with
    | nil => exact absurd inside (by simp)
    | cons a rest =>
      rw [List.drop_succ_cons, ← Nat.add_assoc, Nat.add_right_comm]
      exact ih reads.2 (Nat.le_of_succ_le_succ inside)

theorem Reads.head {i : Nat} {rest : List α} (reads : Reads text i rest) : text i = rest.headD 0 := by
  cases rest with
  | nil => exact reads
  | cons a rest => exact reads.1

theorem Reads.eq_zero_iff {i : Nat} {rest : List α} (reads : Reads text i rest) (proper : 0 ∉ rest) :
    text i = 0 ↔ rest = [] := by
  cases rest with
  | nil => exact iff_of_true reads rfl
  | cons a rest =>
    refine iff_of_false (fun zero => proper ?_) (List.cons_ne_nil a rest)
    rw [← zero, reads.1]
    exact List.mem_cons_self

theorem reads_getD (front rest : List α) : Reads (fun k => (front ++ rest).getD k 0) front.length rest := by
  induction rest generalizing front with
  | nil => simp [Reads]
  | cons a rest ih =>
    refine ⟨by simp, ?_⟩
    have later := ih (front ++ [a])
    rwa [List.length_append, List.length_singleton, List.append_assoc] at later

theorem reaches_takeWhile (state : Nat → List α → σ) (keeps : α → Bool) (limit : Nat)
    (copies : ∀ i out, text i ≠ 0 → keeps (text i) = true → out.length < limit →
      step (state i out) = .more (state (i + 1) (out ++ [text i])))
    {i : Nat} {rest : List α} (out : List α) (reads : Reads text i rest) (proper : 0 ∉ rest) :
    let taken := (rest.takeWhile keeps).take (limit - out.length)
    Reaches step (state i out) (state (i + taken.length) (out ++ taken)) := by
  induction rest generalizing i out with
  | nil =>
    simp only [List.takeWhile_nil, List.take_nil, List.length_nil, Nat.add_zero, List.append_nil]
    exact .refl
  | cons a rest ih =>
    obtain ⟨here, later⟩ := reads
    by_cases goes : keeps a = true ∧ out.length < limit
    · obtain ⟨more, rfl⟩ : ∃ more, limit = out.length + 1 + more := Nat.exists_eq_add_of_le goes.2
      have one := copies i out (fun zero => proper (by rw [← zero, here]; exact List.mem_cons_self))
        (by rw [here]; exact goes.1) goes.2
      have onward := ih (out ++ [a]) later fun zero => proper (List.mem_cons_of_mem a zero)
      rw [here] at one
      refine Relation.ReflTransGen.head one ?_
      have left : out.length + 1 + more - out.length = more + 1 := by omega
      rw [List.length_append, List.length_singleton, Nat.add_sub_cancel_left] at onward
      rw [List.takeWhile_cons_of_pos goes.1, left, List.take_succ_cons, List.length_cons,
        ← Nat.add_assoc, Nat.add_right_comm, List.append_cons out a (List.take _ _)]
      exact onward
    · have none : ((a :: rest).takeWhile keeps).take (limit - out.length) = [] := by
        by_cases kept : keeps a = true
        · rw [show limit - out.length = 0 by have := not_and.mp goes kept; omega, List.take_zero]
        · rw [List.takeWhile_cons_of_neg kept, List.take_nil]
      rw [none]
      simp only [List.length_nil, Nat.add_zero, List.append_nil]
      exact .refl

theorem reaches_dropWhile (state : Nat → σ) (passes : α → Bool)
    (moves : ∀ i, passes (text i) = true → step (state i) = .more (state (i + 1)))
    {i : Nat} {rest : List α} (reads : Reads text i rest) :
    ∃ j, Reaches step (state i) (state j) ∧ Reads text j (rest.dropWhile passes) := by
  induction rest generalizing i with
  | nil => exact ⟨i, .refl, reads⟩
  | cons a rest ih =>
    by_cases passed : passes a = true
    · obtain ⟨j, reaches, left⟩ := ih reads.2
      rw [List.dropWhile_cons_of_pos passed]
      exact ⟨j, .head (moves i (by rw [reads.1]; exact passed)) reaches, left⟩
    · rw [List.dropWhile_cons_of_neg passed]
      exact ⟨i, .refl, reads⟩

end LaylaOS.Lib
