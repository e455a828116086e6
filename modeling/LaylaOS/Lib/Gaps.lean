/-
**Free bytes of a region of blocks.**

The bytes that no block in use takes, headers included, fall into longest intervals. Where no two
neighbours are free these are the free blocks.
-/

import Mathlib.Order.Interval.Set.Basic
import LaylaOS.Lib.Blocks

namespace LaylaOS.Lib

/-- The addresses from `first` up to `last` belong to the set, and no larger interval does. -/
structure MaximalRun (places : Set Nat) (first last : Nat) : Prop where
  nonempty : first < last
  inside : Set.Ico first last ⊆ places
  maximal : ∀ low high, low ≤ first → last ≤ high → Set.Ico low high ⊆ places → low = first ∧ high = last

/-- The bytes of a block, with its header. -/
def extent (h : Nat) (entry : Nat × Block) : Set Nat := Set.Ico entry.1 (entry.1 + h + entry.2.size)

/-- The bytes of the free blocks. -/
def gaps (h addr : Nat) (blocks : List Block) : Set Nat :=
  {place | ∃ entry ∈ areas h addr blocks, entry.2.used = false ∧ place ∈ extent h entry}

variable {h addr : Nat} {blocks : List Block} {entry other : Nat × Block}

theorem areas_cover {place : Nat} (low : addr ≤ place) (high : place < addr + span h blocks) :
    ∃ entry ∈ areas h addr blocks, place ∈ extent h entry := by
  induction blocks generalizing addr with
  | nil => exact absurd high (Nat.not_lt.mpr low)
  | cons b rest ih =>
    rw [span_cons] at high
    by_cases here : place < addr + h + b.size
    · exact ⟨(addr, b), List.mem_cons_self, low, here⟩
    · obtain ⟨entry, member, inside⟩ := ih (Nat.not_lt.mp here) (by omega)
      exact ⟨entry, List.mem_cons_of_mem _ member, inside⟩

theorem extent_unique {place : Nat} (member : entry ∈ areas h addr blocks)
    (member' : other ∈ areas h addr blocks) (inside : place ∈ extent h entry)
    (inside' : place ∈ extent h other) : entry = other := by
  rcases areas_apart member member' with same | front | behind
  · exact same
  · exact absurd (inside.2.trans_le (front.trans inside'.1)) (Nat.lt_irrefl _)
  · exact absurd (inside'.2.trans_le (behind.trans inside.1)) (Nat.lt_irrefl _)

/-- **Free bytes** are those of the region that no block in use takes. -/
theorem mem_gaps_iff {place : Nat} : place ∈ gaps h addr blocks ↔ place ∈ Set.Ico addr (addr + span h blocks) ∧
      ∀ entry ∈ areas h addr blocks, entry.2.used = true → place ∉ extent h entry := by
  constructor
  · rintro ⟨entry, member, unused, inside⟩
    have bounds := areas_bounds member
    refine ⟨⟨bounds.1.trans inside.1, inside.2.trans_le bounds.2⟩, fun other member' used inside' => ?_⟩
    rw [← extent_unique member member' inside inside', unused] at used
    cases used
  · rintro ⟨⟨low, high⟩, outside⟩
    obtain ⟨entry, member, inside⟩ := areas_cover low high
    refine ⟨entry, member, ?_, inside⟩
    by_contra used
    exact outside entry member (Bool.not_eq_false _ ▸ used) inside

theorem Coalesced.touching (positive : 0 < h) (coalesced : Coalesced blocks)
    (member : entry ∈ areas h addr blocks) (member' : other ∈ areas h addr blocks)
    (touch : other.1 = entry.1 + h + entry.2.size) : entry.2.used = true ∨ other.2.used = true := by
  obtain ⟨before, after, shape, place⟩ := areas_split member
  subst shape
  cases after with
  | nil =>
    have bounds := (areas_bounds member').2
    rw [span_append, span_cons, span_nil] at bounds
    omega
  | cons next after =>
    have there := areas_mid (h := h) addr (before ++ [entry.2]) after next
    rw [List.append_assoc, List.singleton_append, span_append, span_cons, span_nil] at there
    have same : other = (_, next) := areas_unique positive member' there (by dsimp only; omega)
    rw [same]
    exact (List.isChain_cons_cons.mp (List.isChain_append.mp coalesced).2.1).1

section Runs

variable (positive : 0 < h) (coalesced : Coalesced blocks) (member : entry ∈ areas h addr blocks)
  (unused : entry.2.used = false)
include positive coalesced member unused

theorem Coalesced.behind_notMem : entry.1 + h + entry.2.size ∉ gaps h addr blocks := by
  rintro ⟨other, member', unused', low, high⟩
  have touch : other.1 = entry.1 + h + entry.2.size := by
    rcases areas_apart member member' with same | front | behind
    · rw [← same] at high
      exact absurd high (Nat.lt_irrefl _)
    · exact le_antisymm low front
    · omega
  rcases coalesced.touching positive member member' touch with used | used
  · rw [unused] at used
    cases used
  · rw [unused'] at used
    cases used

theorem Coalesced.before_notMem {place : Nat} (before : place + 1 = entry.1) : place ∉ gaps h addr blocks := by
  rintro ⟨other, member', unused', low, high⟩
  have touch : entry.1 = other.1 + h + other.2.size := by
    rcases areas_apart member member' with same | front | behind
    · rw [← same] at low
      omega
    · omega
    · omega
  rcases coalesced.touching positive member' member touch with used | used
  · rw [unused'] at used
    cases used
  · rw [unused] at used
    cases used

theorem Coalesced.maximalRun : MaximalRun (gaps h addr blocks) entry.1 (entry.1 + h + entry.2.size) := by
  refine ⟨by omega, fun place inside => ⟨entry, member, unused, inside⟩, fun low high first last inside => ?_⟩
  constructor
  · by_contra less
    have before : entry.1 - 1 + 1 = entry.1 := by omega
    refine coalesced.before_notMem positive member unused before (inside ⟨?_, ?_⟩)
    · omega
    · omega
  · by_contra more
    refine coalesced.behind_notMem positive member unused (inside ⟨?_, ?_⟩)
    · omega
    · omega

end Runs

/-- **The longest intervals of free bytes** are the free blocks. -/
theorem maximalRun_gaps_iff (positive : 0 < h) (coalesced : Coalesced blocks) {first last : Nat} :
    MaximalRun (gaps h addr blocks) first last ↔ ∃ entry ∈ areas h addr blocks,
      entry.2.used = false ∧ first = entry.1 ∧ last = entry.1 + h + entry.2.size := by
  constructor
  · intro run
    obtain ⟨entry, member, unused, low, high⟩ := run.inside ⟨le_rfl, run.nonempty⟩
    have short : last ≤ entry.1 + h + entry.2.size := by
      by_contra longer
      exact coalesced.behind_notMem positive member unused (run.inside ⟨high.le, Nat.not_le.mp longer⟩)
    obtain ⟨same, same'⟩ := run.maximal _ _ low short fun place inside => ⟨entry, member, unused, inside⟩
    exact ⟨entry, member, unused, same.symm, same'.symm⟩
  · rintro ⟨entry, member, unused, rfl, rfl⟩
    exact coalesced.maximalRun positive member unused

end LaylaOS.Lib
