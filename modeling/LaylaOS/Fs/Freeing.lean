/-
**Freeing a chain on a damaged FAT.**

`DeleteFile` and `WriteFile` follow a chain and clear the links they have followed. Nothing is asked of
the chain: it may run into another chain or back into itself. Only the copies of the FAT must not share
sectors, and the entries on the way must name clusters of the table or end the chain.

* `freeChainLoop_frees` — it ends, and what it leaves behind.
-/

import LaylaOS.Fs.Deletion
import LaylaOS.Fs.Termination

namespace LaylaOS.Fs

open LaylaOS.Lib

namespace Volume

/-- The FAT of a volume: one copy or two, and no sector of the drive stands for two of its sectors. -/
structure FatCopies (v : Volume) : Prop where
  count : v.bpb.fatCount = 1 ∨ v.bpb.fatCount = 2
  apart : Set.InjOn v.place (Set.Iio (v.bpb.fatCount * v.bpb.fatSize32))

/-- The clusters on the way from `c`, up to the end of the chain or its first repetition. There are
fewer than `endOfChain` of them. -/
def tour (v : Volume) (d : Disk) (c : Nat) : List Nat :=
  Lib.tour (v.nextCluster d) InTable endOfChain [] c

/-- The byte `k` of a sector belongs to the entry of `c` in a copy of the FAT. -/
def InEntry (v : Volume) (c sector k : Nat) : Prop :=
  (∃ copy < v.bpb.fatCount, sector = v.place (copy * v.bpb.fatSize32 + c / 128)) ∧
    c % 128 * 4 ≤ k ∧ k < c % 128 * 4 + 4

instance (v : Volume) (c sector k : Nat) : Decidable (v.InEntry c sector k) :=
  inferInstanceAs (Decidable (_ ∧ _))

/-- The disk with the entries of some clusters cleared, in each copy of the FAT. -/
def erase (v : Volume) (d : Disk) (clusters : List Nat) : Disk := fun sector k =>
  if ∃ c ∈ clusters, v.InEntry c sector k then 0 else d sector k

variable {v : Volume} {d : Disk}

/-! ### Erasing entries -/

theorem erase_nil : v.erase d [] = d := by
  funext sector k
  exact if_neg fun ⟨_, member, _⟩ => absurd member List.not_mem_nil

theorem erase_congr {clusters others : List Nat} (same : ∀ c, c ∈ clusters ↔ c ∈ others) :
    v.erase d clusters = v.erase d others := by
  funext sector k
  simp only [erase, same]

theorem clearAt_apply (k c sector j : Nat) : v.clearAt d k c sector j =
    if sector = v.place k ∧ c % 128 * 4 ≤ j ∧ j < c % 128 * 4 + 4 then 0 else d sector j := by
  unfold clearAt
  by_cases here : sector = v.place k
  · rw [if_pos here, here, writeLE, Nat.zero_div]
    simp only [true_and]
    rfl
  · rw [if_neg here, if_neg fun both => here both.1]

namespace FatCopies

variable (fats : v.FatCopies)
include fats

theorem pos : 0 < v.bpb.fatCount := by
  rcases fats.count with one | two <;> omega

theorem fits : v.bpb.fatSize32 ≤ 2 ^ 28 ∧ (v.bpb.fatCount = 2 → v.bpb.fatSize32 ≤ 2 ^ 27) := by
  have all : v.bpb.fatCount * v.bpb.fatSize32 ≤ 2 ^ 28 := by
    by_contra more
    have wrapped : v.place 0 = v.place (2 ^ 28) := by simp [place]
    have same := fats.apart (Set.mem_Iio.mpr (by omega)) (Set.mem_Iio.mpr (by omega)) wrapped
    omega
  rcases fats.count with one | two
  · rw [one] at all ⊢
    omega
  · rw [two] at all
    omega

theorem inEntry_iff {c sector k : Nat} : v.InEntry c sector k ↔ (sector = v.place (c / 128) ∨
      v.bpb.fatCount > 1 ∧ sector = v.place (v.bpb.fatSize32 + c / 128)) ∧
    c % 128 * 4 ≤ k ∧ k < c % 128 * 4 + 4 := by
  refine and_congr_left fun _ => ?_
  constructor
  · rintro ⟨copy, inCopies, here⟩
    rcases copy_cases inCopies fats.count with rfl | ⟨rfl, two⟩
    · exact .inl (by rwa [Nat.zero_mul, Nat.zero_add] at here)
    · exact .inr ⟨by omega, by rwa [Nat.one_mul] at here⟩
  · rintro (first | ⟨two, second⟩)
    · exact ⟨0, fats.pos, by rwa [Nat.zero_mul, Nat.zero_add]⟩
    · exact ⟨1, two, by rwa [Nat.one_mul]⟩

theorem setFATEntry_erase {c : Nat} (small : c < endOfChain) (clusters : List Nat) :
    v.setFATEntry (v.erase d clusters) c 0 = v.erase d (c :: clusters) := by
  funext sector k
  have cleared : v.erase d (c :: clusters) sector k =
      if v.InEntry c sector k then 0 else v.erase d clusters sector k := by
    simp only [erase, List.mem_cons, exists_eq_or_imp, ite_or]
  rw [setFATEntry_zero small, cleared]
  simp only [fats.inEntry_iff]
  by_cases two : v.bpb.fatCount > 1
  · rw [if_pos two, clearAt_apply, clearAt_apply, ← ite_or]
    simp only [two, true_and, or_and_right, or_comm]
  · rw [if_neg two, clearAt_apply]
    simp only [two, false_and, or_false]

end FatCopies

/-! ### Entries after an erasure -/

theorem fatEntry_erase_self {copy n : Nat} {clusters : List Nat} (inCopies : copy < v.bpb.fatCount)
    (member : n ∈ clusters) : v.fatEntry (v.erase d clusters) copy n = 0 := by
  have zeros : readLE (v.erase d clusters (v.place (copy * v.bpb.fatSize32 + n / 128)))
      (n % 128 * 4) 4 = readLE (fun _ => 0) (n % 128 * 4) 4 := by
    apply readLE_congr
    intro k low high
    exact if_pos ⟨n, member, ⟨copy, inCopies, rfl⟩, low, high⟩
  rw [fatEntry, readSector_place, zeros]
  rfl

theorem fatEntry_erase_apart {copy n : Nat} {clusters : List Nat}
    (apart : ∀ x ∈ clusters, ∀ copy' < v.bpb.fatCount,
      v.place (copy * v.bpb.fatSize32 + n / 128) = v.place (copy' * v.bpb.fatSize32 + x / 128) →
        x % 128 ≠ n % 128) :
    v.fatEntry (v.erase d clusters) copy n = v.fatEntry d copy n := by
  unfold fatEntry
  rw [readSector_place, readSector_place]
  apply readLE_congr
  intro k low high
  apply if_neg
  rintro ⟨x, member, ⟨copy', inCopies, same⟩, low', high'⟩
  have column := apart x member copy' inCopies same
  omega

theorem nextCluster_fatEntry {c : Nat} (small : c < endOfChain) :
    v.nextCluster d c = v.fatEntry d 0 c % 2 ^ 28 := by
  rw [nextCluster_eq d (small.trans (by decide)), fatEntry, readSector_place, Nat.zero_mul, Nat.zero_add]

namespace FatCopies

variable (fats : v.FatCopies)
include fats

/-- Two clusters with an entry in common are the same, unless one lies beyond the table: its entry in
the first copy is an entry of the second. -/
theorem same_entry {copy copy' n x : Nat} (inCopies : copy < v.bpb.fatCount)
    (inCopies' : copy' < v.bpb.fatCount) (inTable : n < 128 * v.bpb.fatSize32)
    (small : x < endOfChain)
    (same : v.place (copy * v.bpb.fatSize32 + n / 128) = v.place (copy' * v.bpb.fatSize32 + x / 128))
    (column : x % 128 = n % 128) : x = n ∨ x = copy * (128 * v.bpb.fatSize32) + n := by
  have small : x < 0x0FFFFFF8 := small
  have fits := fats.fits
  rcases copy_cases inCopies fats.count with rfl | ⟨rfl, two⟩
  all_goals rcases copy_cases inCopies' fats.count with rfl | ⟨rfl, two'⟩
  all_goals rw [place_inj] at same <;> omega

theorem fatEntry_erase_other {copy n : Nat} {clusters : List Nat} (inCopies : copy < v.bpb.fatCount)
    (inTable : n < 128 * v.bpb.fatSize32) (small : ∀ x ∈ clusters, x < endOfChain)
    (other : n ∉ clusters) (beyond : copy * (128 * v.bpb.fatSize32) + n ∉ clusters) :
    v.fatEntry (v.erase d clusters) copy n = v.fatEntry d copy n := by
  apply fatEntry_erase_apart
  intro x member copy' inCopies' same column
  rcases fats.same_entry inCopies inCopies' inTable (small x member) same column with rfl | rfl
  · exact other member
  · exact beyond member

theorem nextCluster_erase_self {c : Nat} {clusters : List Nat} (small : c < endOfChain)
    (member : c ∈ clusters) : v.nextCluster (v.erase d clusters) c = 0 := by
  rw [nextCluster_fatEntry small, fatEntry_erase_self fats.pos member, Nat.zero_mod]

theorem nextCluster_erase_other {c : Nat} {clusters : List Nat} (small : c < endOfChain)
    (inTable : c < 128 * v.bpb.fatSize32) (others : ∀ x ∈ clusters, x < endOfChain)
    (other : c ∉ clusters) : v.nextCluster (v.erase d clusters) c = v.nextCluster d c := by
  rw [nextCluster_fatEntry small, nextCluster_fatEntry small,
    fats.fatEntry_erase_other fats.pos inTable others other]
  rwa [Nat.zero_mul, Nat.zero_add]

end FatCopies

/-! ### The loop -/

/-- The loop at `start`, when the entries of `seen` are gone already: it clears the entries of `places`
as well, and no others. -/
structure Clears (v : Volume) (d : Disk) (rounds : Nat) (seen : List Nat) (start : Nat)
    (places : List Nat) : Prop where
  result : (Run.freeChainLoop v rounds (v.erase d seen) start).result =
    some (v.erase d (places ++ seen))
  visits : ∀ x ∈ places,
    .setFATEntry x .disk ∈ (Run.freeChainLoop v rounds (v.erase d seen) start).trace
  only : ∀ x, .setFATEntry x .disk ∈ (Run.freeChainLoop v rounds (v.erase d seen) start).trace →
    x ∈ places ++ seen

theorem freeChainLoop_round {rounds c : Nat} (inside : InTable c) : Run.freeChainLoop v (rounds + 1) d c =
      ⟨.setFATEntry c .disk :: (Run.freeChainLoop v rounds (v.setFATEntry d c 0) (v.nextCluster d c)).trace,
        (Run.freeChainLoop v rounds (v.setFATEntry d c 0) (v.nextCluster d c)).result⟩ := by
  rw [Run.freeChainLoop]
  exact if_pos inside

namespace Clears

variable {rounds start : Nat} {seen places : List Nat}

theorem leaves (outside : ¬ InTable start) : v.Clears d (rounds + 1) seen start [] := by
  have stops : Run.freeChainLoop v (rounds + 1) (v.erase d seen) start = pure (v.erase d seen) := by
    rw [Run.freeChainLoop]
    exact if_neg outside
  constructor
  · rw [stops, Traced.result_pure, List.nil_append]
  · exact List.forall_mem_nil _
  · intro x member
    rw [stops, Traced.trace_pure] at member
    exact absurd member List.not_mem_nil

theorem round (fats : v.FatCopies) (inside : InTable start)
    (later : v.Clears d rounds (start :: seen) (v.nextCluster (v.erase d seen) start) places) :
    v.Clears d (rounds + 1) seen start (start :: places) := by
  have moved : ∀ x, x ∈ places ++ start :: seen ↔ x ∈ start :: places ++ seen := by
    intro x
    exact List.perm_middle.mem_iff
  obtain ⟨result, visits, only⟩ := later
  rw [← fats.setFATEntry_erase inside.2] at result visits only
  constructor
  · rw [freeChainLoop_round inside, result, erase_congr moved]
  · rw [freeChainLoop_round inside, List.forall_mem_cons]
    exact ⟨List.mem_cons_self, fun x member => List.mem_cons_of_mem _ (visits x member)⟩
  · intro x member
    rw [freeChainLoop_round inside] at member
    rcases List.mem_cons.mp member with here | ahead
    · cases here
      exact List.mem_cons_self
    · exact (moved x).mp (only x ahead)

theorem meets (fats : v.FatCopies) (inside : InTable start) (again : start ∈ seen) :
    v.Clears d (rounds + 2) seen start [] := by
  have last : v.Clears d (rounds + 1) (start :: seen) (v.nextCluster (v.erase d seen) start) [] := by
    rw [fats.nextCluster_erase_self inside.2 again]
    exact leaves (by decide)
  have known : ∀ x, x ∈ [start] ++ seen ↔ x ∈ [] ++ seen := by
    intro x
    rw [List.singleton_append, List.nil_append, List.mem_cons, or_iff_right_of_imp]
    rintro rfl
    exact again
  obtain ⟨result, -, only⟩ := last.round fats inside
  constructor
  · rw [result, erase_congr known]
  · exact List.forall_mem_nil _
  · exact fun x member => (known x).mp (only x member)

end Clears

theorem inTable_card_lt : (Finset.Ico 2 endOfChain).card < endOfChain := by
  rw [Nat.card_Ico]
  decide

/-- **The loop clears what is on its way**, and nothing else. -/
theorem freeChainLoop_erase (fats : v.FatCopies) {c rounds : Nat} (enough : endOfChain < rounds)
    (bounded : ∀ x ∈ v.tour d c, v.nextCluster d x < 128 * v.bpb.fatSize32 ∨ endOfChain ≤ v.nextCluster d x) :
    v.Clears d rounds [] c (v.tour d c) := by
  have rule := Lib.tour_rule (v.nextCluster d) InTable
    (P := fun fuel seen start places => ∀ rounds, fuel < rounds → (∀ x ∈ seen, x < endOfChain) →
      (seen = [] ∨ start < 128 * v.bpb.fatSize32 ∨ endOfChain ≤ start) →
      (∀ x ∈ places, v.nextCluster d x < 128 * v.bpb.fatSize32 ∨ endOfChain ≤ v.nextCluster d x) →
      v.Clears d rounds seen start places)
    (Finset.Ico 2 endOfChain) (fun x inside => Finset.mem_Ico.mpr inside) ?_ ?_ ?_
    endOfChain [] ?_ c
  · exact rule rounds enough (List.forall_mem_nil _) (.inl rfl) bounded
  · intro fuel seen start outside rounds more _ _ _
    obtain ⟨rounds, rfl⟩ := Nat.exists_eq_add_of_lt (Nat.zero_lt_of_lt more)
    rw [Nat.zero_add]
    exact .leaves outside
  · intro fuel seen start inside again rounds more _ _ _
    obtain ⟨rounds, rfl⟩ := Nat.exists_eq_add_of_le' (show 2 ≤ rounds by omega)
    exact .meets fats inside again
  · intro fuel seen start places inside fresh ih rounds more small known bounded
    obtain ⟨first, rest⟩ := List.forall_mem_cons.mp bounded
    obtain ⟨rounds, rfl⟩ := Nat.exists_eq_add_of_lt (Nat.zero_lt_of_lt more)
    -- only the first cluster may lie beyond the table, and then no entry has been cleared yet
    have link : v.nextCluster (v.erase d seen) start = v.nextCluster d start := by
      rcases known with rfl | inTable | ended
      · rw [erase_nil]
      · exact fats.nextCluster_erase_other inside.2 inTable small fresh
      · exact absurd inside.2 (Nat.not_lt.mpr ended)
    rw [Nat.zero_add] at more ⊢
    refine Clears.round fats inside ?_
    rw [link]
    exact ih rounds (Nat.lt_of_succ_lt_succ more) (List.forall_mem_cons.mpr ⟨inside.2, small⟩) (.inr first) rest
  · exact (Finset.card_filter_le _ _).trans_lt inTable_card_lt

/-- What is left behind when the chain from `c` has been freed. The last condition of `kept` is about
a start cluster beyond the table: its entry in the first copy is an entry of the second. -/
structure Freed (v : Volume) (d : Disk) (c : Nat) (d' : Disk) : Prop where
  visited : ∀ x, .setFATEntry x .disk ∈ (Run.freeChainLoop v loopFuel d c).trace ↔ x ∈ v.tour d c
  whole : ∀ x ∈ v.tour d c, InTable x ∧
    (InTable (v.nextCluster d x) → v.nextCluster d x ∈ v.tour d c)
  cleared : ∀ copy < v.bpb.fatCount, ∀ n ∈ v.tour d c, v.fatEntry d' copy n = 0
  kept : ∀ copy < v.bpb.fatCount, ∀ n < 128 * v.bpb.fatSize32, n ∉ v.tour d c →
    copy * (128 * v.bpb.fatSize32) + n ∉ v.tour d c → v.fatEntry d' copy n = v.fatEntry d copy n
  rest : ∀ sector k, (∀ x ∈ v.tour d c, ¬ v.InEntry x sector k) → d' sector k = d sector k

/-- **Freeing a chain ends and frees exactly the chain**, also where the chain leads back to itself or
into another. -/
theorem freeChainLoop_frees (v : Volume) (d : Disk) (c : Nat) (fats : v.FatCopies) (bounded : ∀ x ∈ v.tour d c,
      v.nextCluster d x < 128 * v.bpb.fatSize32 ∨ endOfChain ≤ v.nextCluster d x) :
    ∃ d', v.freeChainLoop loopFuel d c = some d' ∧ v.Freed d c d' := by
  have inside : ∀ x ∈ v.tour d c, InTable x := fun x member => Lib.mem_tour_inside member
  obtain ⟨result, visits, only⟩ := freeChainLoop_erase fats (by decide : endOfChain < loopFuel) bounded
  rw [erase_nil] at result visits only
  rw [List.append_nil] at result only
  refine ⟨v.erase d (v.tour d c), ?_, ?_, ?_, ?_, ?_, ?_⟩
  · rw [← Run.freeChainLoop_result, result]
  · exact fun x => ⟨only x, visits x⟩
  · refine fun x member => ⟨inside x member, fun onward => ?_⟩
    exact Lib.next_mem_tour (Finset.Ico 2 endOfChain) (fun x inside => Finset.mem_Ico.mpr inside)
      inTable_card_lt member onward
  · exact fun copy inCopies n member => fatEntry_erase_self inCopies member
  · intro copy inCopies n inTable other beyond
    exact fats.fatEntry_erase_other inCopies inTable (fun x member => (inside x member).2) other beyond
  · intro sector k outside
    exact if_neg fun ⟨x, member, here⟩ => outside x member here

/-- The sample volume with a second copy of the FAT. -/
def mirrored : Volume :=
  { sample with bpb := { sample.bpb with fatCount := 2, totalSectors16 := 9 } }

/-- The chain from cluster 3 runs into a cycle: 3, 4, 5, and 4 again. -/
def looped : Disk :=
  mirrored.setFATEntry (mirrored.setFATEntry (mirrored.setFATEntry blank 3 4) 4 5) 5 4

theorem mirrored_fatCopies : mirrored.FatCopies := by
  refine ⟨.inr rfl, fun j first k second => (place_inj ?_ ?_).mp⟩
  · exact (show j < 2 from first).trans (by decide)
  · exact (show k < 2 from second).trans (by decide)

theorem freeChainLoop_frees_cycle : mirrored.tour looped 3 = [3, 4, 5] ∧
    ∃ d', mirrored.freeChainLoop loopFuel looped 3 = some d' ∧ mirrored.Freed looped 3 d' :=
  ⟨by decide +kernel, freeChainLoop_frees mirrored looped 3 mirrored_fatCopies (by decide +kernel)⟩

end Volume

end LaylaOS.Fs
