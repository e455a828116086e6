/-
**Fields of a fixed width, padded with a blank.**

* `rightpad_filter_iff` — exactly such a field is what its other elements are padded to.
-/

import Mathlib.Tactic

namespace LaylaOS.Lib

variable {α : Type*} {blank : α}

theorem prefix_eq_of_rightpad {n : Nat} {items more : List α} (ends : (items ++ more).getLast? ≠ some blank)
    (fits : (items ++ more).length ≤ n) (same : items.rightpad n blank = (items ++ more).rightpad n blank) :
    more = [] := by
  by_contra some
  have split : n - items.length = more.length + (n - (items ++ more).length) := by
    rw [List.length_append] at fits ⊢
    omega
  unfold List.rightpad at same
  rw [List.append_assoc, List.append_cancel_left_eq, split, List.replicate_add] at same
  have blanks := (List.append_inj same (List.length_replicate)).1
  apply ends
  rw [List.getLast?_append_of_ne_nil _ some, ← blanks, List.getLast?_replicate,
    if_neg (mt List.length_eq_zero_iff.mp some)]

theorem rightpad_inj {n : Nat} {items items' : List α} (fits : items.length ≤ n)
    (fits' : items'.length ≤ n) (ends : items.getLast? ≠ some blank)
    (ends' : items'.getLast? ≠ some blank)
    (same : items.rightpad n blank = items'.rightpad n blank) : items = items' := by
  have front : items <+: items'.rightpad n blank := same ▸ List.prefix_append ..
  have front' : items' <+: items'.rightpad n blank := List.prefix_append ..
  rcases Nat.le_total items.length items'.length with le | le
  · obtain ⟨more, rfl⟩ := List.prefix_of_prefix_length_le front front' le
    rw [prefix_eq_of_rightpad ends' fits' same, List.append_nil]
  · obtain ⟨more, rfl⟩ := List.prefix_of_prefix_length_le front' front le
    rw [prefix_eq_of_rightpad ends fits same.symm, List.append_nil]

/-- Nothing but blanks follows a blank. -/
def Padded (blank : α) (field : List α) : Prop := field.Pairwise fun x y => x = blank → y = blank

instance [DecidableEq α] (field : List α) : Decidable (Padded blank field) :=
  inferInstanceAs (Decidable (field.Pairwise fun x y => x = blank → y = blank))

theorem Padded.of_blanks {field : List α} (blanks : ∀ x ∈ field, x = blank) : Padded blank field :=
  List.Pairwise.imp_of_mem (fun _ later _ _ => blanks _ later) (List.pairwise_of_forall fun _ _ => trivial)

theorem cons_rightpad (x : α) (items : List α) (n : Nat) :
    (x :: items).rightpad (n + 1) blank = x :: items.rightpad n blank := by
  unfold List.rightpad
  rw [List.length_cons, Nat.add_sub_add_right, List.cons_append]

theorem nil_rightpad (n : Nat) : ([] : List α).rightpad n blank = List.replicate n blank := rfl

variable [DecidableEq α]

theorem filter_ne_eq_nil_iff {field : List α} : field.filter (· ≠ blank) = [] ↔ ∀ x ∈ field, x = blank := by
  simp only [List.filter_eq_nil_iff, decide_eq_true_eq, not_not]

theorem rightpad_filter_iff {field : List α} :
    (field.filter (· ≠ blank)).rightpad field.length blank = field ↔ Padded blank field := by
  induction field with
  | nil => exact iff_of_true rfl .nil
  | cons x field ih =>
    by_cases here : x = blank
    · rw [List.filter_cons_of_neg (by simpa using here)]
      -- behind a blank the first element that is none would come to the front
      cases rest : field.filter (· ≠ blank) with
      | nil =>
        have blanks : ∀ y ∈ x :: field, y = blank :=
          List.forall_mem_cons.mpr ⟨here, filter_ne_eq_nil_iff.mp rest⟩
        refine iff_of_true ?_ (.of_blanks blanks)
        exact (List.eq_replicate_iff.mpr ⟨rfl, blanks⟩).symm
      | cons y others =>
        have member : y ∈ field.filter (· ≠ blank) := rest ▸ List.mem_cons_self
        have other : y ≠ blank := by simpa using List.of_mem_filter member
        refine iff_of_false (fun same => ?_) fun padded => ?_
        · rw [List.length_cons, cons_rightpad] at same
          exact other ((List.cons.inj same).1.trans here)
        · exact other (List.rel_of_pairwise_cons padded (List.mem_of_mem_filter member) here)
    · rw [List.filter_cons_of_pos (by simpa using here), List.length_cons, cons_rightpad,
        List.cons.injEq, Padded, List.pairwise_cons]
      constructor
      · rintro ⟨-, same⟩
        exact ⟨fun _ _ equal => absurd equal here, ih.mp same⟩
      · rintro ⟨-, padded⟩
        exact ⟨rfl, ih.mpr padded⟩

end LaylaOS.Lib
