/-
**Chains threaded through a successor function.**

`Walk next inside start places` says that following `next` from `start` visits exactly `places`
and then leaves `inside`. A walk is determined by its start, visits no place twice, and depends on
the successors of its own places only.
-/

import Mathlib.Tactic

namespace LaylaOS.Lib

variable {α : Type*} {next next' : α → α} {inside inside' : α → Prop}

/-- Following `next` from `start` visits exactly `places`, all `inside`, and then leaves it. -/
def Walk (next : α → α) (inside : α → Prop) : α → List α → Prop
  | start, [] => ¬ inside start
  | start, place :: rest => place = start ∧ inside start ∧ Walk next inside (next start) rest

namespace Walk

theorem unique {start : α} {first second : List α} (one : Walk next inside start first)
    (two : Walk next inside start second) : first = second := by
  induction first generalizing start second with
  | nil =>
    cases second with
    | nil => rfl
    | cons place rest => exact absurd two.2.1 one
  | cons place rest ih =>
    cases second with
    | nil => exact absurd one.2.1 two
    | cons place' rest' => rw [one.1, two.1, ih one.2.2 two.2.2]

theorem mem_inside {start place : α} {places : List α} (walk : Walk next inside start places)
    (member : place ∈ places) : inside place := by
  induction places generalizing start with
  | nil => exact absurd member List.not_mem_nil
  | cons first rest ih =>
    obtain ⟨same, entered, later⟩ := walk
    rcases List.mem_cons.mp member with here | there
    · rw [here, same]
      exact entered
    · exact ih later there

theorem nil_iff {start : α} {places : List α} (walk : Walk next inside start places) :
    places = [] ↔ ¬ inside start := by
  cases places with
  | nil => exact ⟨fun _ => walk, fun _ => rfl⟩
  | cons place rest => simp [walk.2.1]

theorem start_mem {start : α} {places : List α} (walk : Walk next inside start places)
    (entered : inside start) : start ∈ places := by
  cases places with
  | nil => exact absurd entered walk
  | cons place rest => rw [walk.1]; exact List.mem_cons_self

/-- **The frame rule.** -/
theorem congr {start : α} {places : List α} (walk : Walk next inside start places)
    (same : ∀ place ∈ places, next' place = next place) : Walk next' inside start places := by
  induction places generalizing start with
  | nil => exact walk
  | cons first rest ih =>
    obtain ⟨here, entered, later⟩ := walk
    refine ⟨here, entered, ?_⟩
    rw [← here, same first List.mem_cons_self, here]
    exact ih later fun place member => same place (List.mem_cons_of_mem _ member)

theorem tail {start place : α} {before after : List α}
    (walk : Walk next inside start (before ++ place :: after)) :
    Walk next inside place (place :: after) := by
  induction before generalizing start with
  | nil =>
    rw [walk.1]
    exact ⟨rfl, walk.2⟩
  | cons first rest ih => exact ih walk.2.2

theorem nodup {start : α} {places : List α} (walk : Walk next inside start places) : places.Nodup := by
  induction places generalizing start with
  | nil => exact List.nodup_nil
  | cons first rest ih =>
    refine List.nodup_cons.mpr ⟨fun again => ?_, ih walk.2.2⟩
    -- a second visit would start the same walk, one place shorter
    obtain ⟨before, after, split⟩ := List.append_of_mem again
    have later : Walk next inside first (first :: after) := by
      have whole := walk
      rw [split, ← List.cons_append] at whole
      exact whole.tail
    have lengths := congrArg List.length (unique (by rw [walk.1] at later; exact later) walk)
    rw [split] at lengths
    simp only [List.length_cons, List.length_append] at lengths
    omega

theorem splice {start last : α} {before places : List α} (walk : Walk next inside start (before ++ [last]))
    (same : ∀ place ∈ before, next' place = next place)
    (onward : Walk next' inside (next' last) places) :
    Walk next' inside start (before ++ last :: places) := by
  induction before generalizing start with
  | nil => exact ⟨walk.1, walk.2.1, by rw [← walk.1]; exact onward⟩
  | cons first rest ih =>
    obtain ⟨here, entered, later⟩ := walk
    refine ⟨here, entered, ?_⟩
    rw [← here, same first List.mem_cons_self, here]
    exact ih later fun place member => same place (List.mem_cons_of_mem _ member)

theorem length_le {next : Nat → Nat} {inside : Nat → Prop} {start bound : Nat} {places : List Nat}
    (walk : Walk next inside start places) (below : ∀ place, inside place → place < bound) :
    places.length ≤ bound := by
  have few := walk.nodup.length_le_of_subset fun place member =>
    List.mem_range.mpr (below place (walk.mem_inside member))
  rwa [List.length_range] at few

/-- **The loop rule.** `T fuel` holds of the places from which a loop that follows `next` is through
within `fuel` rounds: those from which a walk of fewer places leaves. -/
theorem loop_iff {T : Nat → α → Prop} (zero : ∀ place, ¬ T 0 place)
    (leaves : ∀ fuel place, ¬ inside place → T (fuel + 1) place)
    (stays : ∀ fuel place, inside place → (T (fuel + 1) place ↔ T fuel (next place)))
    (fuel : Nat) (start : α) :
    T fuel start ↔ ∃ places, Walk next inside start places ∧ places.length < fuel := by
  induction fuel generalizing start with
  | zero => exact iff_of_false (zero start) fun ⟨_, _, short⟩ => Nat.not_lt_zero _ short
  | succ fuel ih =>
    by_cases entered : inside start
    · rw [stays fuel start entered, ih]
      constructor
      · rintro ⟨places, walk, short⟩
        exact ⟨start :: places, ⟨rfl, entered, walk⟩, Nat.succ_lt_succ short⟩
      · rintro ⟨_ | ⟨place, rest⟩, walk, short⟩
        · exact absurd entered walk
        · exact ⟨rest, walk.2.2, Nat.lt_of_succ_lt_succ short⟩
    · exact iff_of_true (leaves fuel start entered) ⟨[], entered, Nat.succ_pos _⟩

end Walk

/-! ### Changed successors -/

/-- Following `next` as long as `inside` comes to a place. -/
def Comes (next : α → α) (inside : α → Prop) : α → α → Prop :=
  Relation.ReflTransGen fun a b => inside a ∧ b = next a

/-- **The rule for a changed successor function**: a walk that goes on at fewer places, and there in the
same way except in `T`, comes to no others outside `T`. -/
theorem Comes.reroute {start place : α} {T : α → Prop}
    (same : ∀ a, Comes next inside start a → inside' a → T a ∨ (inside a ∧ next' a = next a))
    (stays : ∀ a, T a → inside' a → T (next' a)) (comes : Comes next' inside' start place) :
    Comes next inside start place ∨ T place := by
  induction comes with
  | refl => exact .inl .refl
  | tail _ one ih =>
    obtain ⟨on', rfl⟩ := one
    rcases ih with comes | inT
    · rcases same _ comes on' with inT | ⟨on, agree⟩
      · exact .inr (stays _ inT on')
      · exact .inl (comes.tail ⟨on, agree⟩)
    · exact .inr (stays _ inT on')

theorem Walk.reroute {start : α} {places : List α} {T : α → Prop}
    (same : ∀ a, Comes next' inside' start a → inside' a → T a ∨ (inside a ∧ next' a = next a))
    (ends : ∀ a, T a → ∃ places, Walk next' inside' a places) (walk : Walk next inside start places) :
    ∃ places', Walk next' inside' start places' := by
  induction places generalizing start with
  | nil =>
    by_cases on' : inside' start
    · exact ends start ((same start .refl on').resolve_right fun on => walk on.1)
    · exact ⟨[], on'⟩
  | cons place rest ih =>
    obtain ⟨rfl, -, later⟩ := walk
    by_cases on' : inside' place
    · rcases same place .refl on' with inT | ⟨-, agree⟩
      · exact ends place inT
      · rw [← agree] at later
        obtain ⟨places', onward⟩ := ih (fun a comes => same a (.head ⟨on', rfl⟩ comes)) later
        exact ⟨place :: places', rfl, on', onward⟩
    · exact ⟨[], on'⟩
section Follow

variable [DecidablePred inside]

instance Walk.decidable [DecidableEq α] (next : α → α) (inside : α → Prop)
    [DecidablePred inside] : (start : α) → (places : List α) →
    Decidable (Walk next inside start places)
  | start, [] => inferInstanceAs (Decidable (¬ inside start))
  | start, place :: rest =>
    have := Walk.decidable next inside (next start) rest
    inferInstanceAs (Decidable (place = start ∧ inside start ∧
      Walk next inside (next start) rest))

/-- The places visited from `start` on, at most `fuel` of them. -/
def follow (next : α → α) (inside : α → Prop) [DecidablePred inside] : Nat → α → List α
  | 0, _ => []
  | fuel + 1, start => if inside start then start :: follow next inside fuel (next start) else []

theorem follow_eq {start : α} {places : List α} {fuel : Nat}
    (walk : Walk next inside start places) (enough : places.length ≤ fuel) :
    follow next inside fuel start = places := by
  induction fuel generalizing start places with
  | zero =>
    have empty : places = [] := List.eq_nil_of_length_eq_zero (by omega)
    rw [empty, follow]
  | succ fuel ih =>
    cases places with
    | nil => rw [follow, if_neg walk]
    | cons first rest =>
      rw [List.length_cons] at enough
      rw [follow, if_pos walk.2.1, ih walk.2.2 (by omega), walk.1]

end Follow

/-! ### Walks that come back -/

section Tour

variable [DecidableEq α] [DecidablePred inside]

/-- The places from `start` on, up to the first that is not `inside` or has been `seen` before; at most
`fuel` of them. -/
def tour (next : α → α) (inside : α → Prop) [DecidablePred inside] : Nat → List α → α → List α
  | 0, _, _ => []
  | fuel + 1, seen, start =>
    if inside start ∧ start ∉ seen then
      start :: tour next inside fuel (start :: seen) (next start)
    else []

theorem mem_tour_inside {fuel : Nat} {seen : List α} {start place : α}
    (member : place ∈ tour next inside fuel seen start) : inside place := by
  induction fuel generalizing seen start with
  | zero => exact absurd member List.not_mem_nil
  | succ fuel ih =>
    rw [tour] at member
    split_ifs at member with goes
    · rcases List.mem_cons.mp member with rfl | later
      · exact goes.1
      · exact ih later
    · exact absurd member List.not_mem_nil

variable (next inside) in
/-- **The rule for a tour of finitely many places**: it ends outside, or at a place seen before. -/
theorem tour_rule {P : Nat → List α → α → List α → Prop} (all : Finset α)
    (inAll : ∀ place, inside place → place ∈ all)
    (leaves : ∀ fuel seen start, ¬ inside start → P (fuel + 1) seen start [])
    (meets : ∀ fuel seen start, inside start → start ∈ seen → P (fuel + 1) seen start [])
    (goes : ∀ fuel seen start places, inside start → start ∉ seen →
      P fuel (start :: seen) (next start) places → P (fuel + 1) seen start (start :: places))
    (fuel : Nat) (seen : List α) (enough : (all.filter (· ∉ seen)).card < fuel) (start : α) :
    P fuel seen start (tour next inside fuel seen start) := by
  induction fuel generalizing seen start with
  | zero => exact absurd enough (Nat.not_lt_zero _)
  | succ fuel ih =>
    rw [tour]
    by_cases entered : inside start
    · by_cases again : start ∈ seen
      · rw [if_neg fun fresh => fresh.2 again]
        exact meets fuel seen start entered again
      · rw [if_pos ⟨entered, again⟩]
        refine goes fuel seen start _ entered again (ih (start :: seen) ?_ (next start))
        -- the place just visited is no longer unseen
        refine lt_of_lt_of_le (Finset.card_lt_card ?_) (Nat.le_of_lt_succ enough)
        rw [Finset.ssubset_iff_of_subset]
        · refine ⟨start, Finset.mem_filter.mpr ⟨inAll start entered, again⟩, fun still => ?_⟩
          exact (Finset.mem_filter.mp still).2 List.mem_cons_self
        · intro place unseen
          obtain ⟨present, new⟩ := Finset.mem_filter.mp unseen
          exact Finset.mem_filter.mpr ⟨present, fun old => new (List.mem_cons_of_mem _ old)⟩
    · rw [if_neg fun fresh => entered fresh.1]
      exact leaves fuel seen start entered

theorem next_mem_tour (all : Finset α) (inAll : ∀ place, inside place → place ∈ all) {fuel : Nat}
    (enough : all.card < fuel) {start place : α} (member : place ∈ tour next inside fuel [] start)
    (onward : inside (next place)) : next place ∈ tour next inside fuel [] start := by
  have closed := tour_rule next inside
    (P := fun _ seen start places => (inside start → start ∈ places ∨ start ∈ seen) ∧
      ∀ place ∈ places, inside (next place) → next place ∈ places ∨ next place ∈ seen)
    all inAll ?_ ?_ ?_ fuel [] ((Finset.card_filter_le _ _).trans_lt enough) start
  · exact (closed.2 place member onward).resolve_right List.not_mem_nil
  · exact fun _ _ _ outside => ⟨fun entered => absurd entered outside, List.forall_mem_nil _⟩
  · exact fun _ _ _ _ again => ⟨fun _ => .inr again, List.forall_mem_nil _⟩
  · rintro fuel seen start places - - ⟨first, later⟩
    have shift : ∀ {x}, x ∈ places ∨ x ∈ start :: seen → x ∈ start :: places ∨ x ∈ seen := by
      rintro x (ahead | behind)
      · exact .inl (List.mem_cons_of_mem _ ahead)
      · rcases List.mem_cons.mp behind with rfl | before
        · exact .inl List.mem_cons_self
        · exact .inr before
    refine ⟨fun _ => .inl List.mem_cons_self, ?_⟩
    rw [List.forall_mem_cons]
    exact ⟨fun onward => shift (first onward), fun x ahead onward => shift (later x ahead onward)⟩

end Tour

end LaylaOS.Lib
